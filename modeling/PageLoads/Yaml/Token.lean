import PageLoads.Yaml.Scalar

/-!
# YAML tokens

The tokens of a source. Blocks get tokens where they begin and end, by the columns of what stands in
them. A key without a question mark shows only at its colon, so that its token, and that of the mapping
that it begins, are put in front of it afterwards; up to there the place is remembered at which a key
may have begun. Keys stand on one line with their colons and are of limited length. Anchors, tags, block
scalars and directives are refused.
-/

namespace PageLoads.Yaml

inductive Token where
  | documentStart
  | documentEnd
  | sequenceStart
  | mappingStart
  /-- The end of a sequence or mapping without brackets. -/
  | blockEnd
  | item
  | key
  | value
  | openBracket
  | closeBracket
  | openBrace
  | closeBrace
  | comma
  /-- A scalar: whether it is plain, and its text. -/
  | scalar (plain : Bool) (text : String)
  deriving DecidableEq, Repr

/-- A place at which a key may have begun: its character, the number of tokens before it, and whether
nothing but a key may begin there. -/
structure OpenKey where
  spot : Spot
  index : Nat
  required : Bool

/-- The most bytes from the beginning of a key to its colon. -/
def OpenKey.limit : Nat :=
  1024

/-- Whether the colon of a key may no longer stand at a place. -/
def OpenKey.isOver (key : OpenKey) (spot : Spot) : Bool :=
  key.spot.line < spot.line || key.spot.offset + OpenKey.limit < spot.offset

/-- What was read, as far as it decides about what follows. -/
structure Layout where
  tokens : Array Token := #[]
  /-- The columns of the blocks that have not ended, the innermost first. -/
  columns : List Nat := []
  /-- The open key in the innermost brackets, or outside brackets. -/
  openKey : Option OpenKey := none
  /-- The open keys about the brackets that have not ended, the innermost first. -/
  outerKeys : List (Option OpenKey) := []
  keyAllowed : Bool := true

namespace Layout

def inBrackets (layout : Layout) : Bool :=
  !layout.outerKeys.isEmpty

/-- The first column for further lines of a plain scalar. -/
def margin (layout : Layout) : Nat :=
  match layout.columns with
  | [] => 0
  | column :: _ => column + 1

/-- Whether a block that begins in a column lies within those that have not ended. -/
def isDeeper (layout : Layout) (column : Nat) : Bool :=
  layout.columns.head?.all fun innermost => innermost < column

/-- Adds a token; `keyAllowed` says whether a key may begin behind it. -/
def add (layout : Layout) (keyAllowed : Bool) (token : Token) : Layout :=
  { layout with tokens := layout.tokens.push token, keyAllowed }

/-- Gives up the open key, unless it is required. -/
def dropKey? (layout : Layout) : Option Layout :=
  if layout.openKey.any OpenKey.required then none else some { layout with openKey := none }

/-- Remembers that a key may begin at a place. It must be one outside brackets in the column of the
innermost block. -/
def saveKey? (layout : Layout) (spot : Spot) : Option Layout :=
  if layout.keyAllowed then
    layout.dropKey?.map fun layout =>
      let required := !layout.inBrackets && layout.columns.head? = some spot.column
      { layout with openKey := some ⟨spot, layout.tokens.size, required⟩ }
  else some layout

/-- Gives up the open keys of which the colon may no longer stand at a place. -/
def expireKeys? (layout : Layout) (spot : Spot) : Option Layout :=
  let isOver (key? : Option OpenKey) : Bool := key?.any fun key => key.isOver spot
  let expire (key? : Option OpenKey) : Option OpenKey := if isOver key? then none else key?
  if (layout.openKey :: layout.outerKeys).any fun key? => isOver key? && key?.any OpenKey.required then none
  else some { layout with openKey := expire layout.openKey, outerKeys := layout.outerKeys.map expire }

def endBlocks (layout : Layout) (ends : Nat → Bool) : Layout :=
  if layout.inBrackets then layout
  else
    let ended := (layout.columns.takeWhile ends).length
    { layout with
      tokens := layout.tokens ++ Array.replicate ended Token.blockEnd
      columns := layout.columns.drop ended }

/-- Begins a block at a place, unless it goes on there. Within brackets there are no blocks, and outside
a block can begin only where a key can. -/
def beginBlock? (layout : Layout) (spot : Spot) (start : Token) : Option Layout :=
  if layout.inBrackets then some layout
  else if !layout.keyAllowed then none
  else if layout.isDeeper spot.column then
    some { layout with tokens := layout.tokens.push start, columns := spot.column :: layout.columns }
  else some layout

def mark? (layout : Layout) (token : Token) : Option Layout :=
  (layout.endBlocks fun _ => true).dropKey?.map fun layout => layout.add false token

def open? (layout : Layout) (spot : Spot) (token : Token) : Option Layout :=
  (layout.saveKey? spot).map fun layout =>
    { layout with openKey := none, outerKeys := layout.openKey :: layout.outerKeys }.add true token

def close? (layout : Layout) (token : Token) : Option Layout :=
  layout.dropKey?.map fun layout =>
    match layout.outerKeys with
    | [] => layout.add false token
    | openKey :: outerKeys => { layout with openKey, outerKeys }.add false token

def comma? (layout : Layout) : Option Layout :=
  layout.dropKey?.map fun layout => layout.add true .comma

def item? (layout : Layout) (spot : Spot) : Option Layout := do
  let layout ← layout.beginBlock? spot .sequenceStart
  return (← layout.dropKey?).add true .item

def key? (layout : Layout) (spot : Spot) : Option Layout := do
  let layout ← layout.beginBlock? spot .mappingStart
  return (← layout.dropKey?).add (!layout.inBrackets) .key

/-- Puts the token of a key, and that of the mapping that it begins, in front of the tokens behind its
place. -/
def insertKey (layout : Layout) (key : OpenKey) : Layout :=
  let begins := !layout.inBrackets && layout.isDeeper key.spot.column
  let behind := layout.tokens.extract key.index
  { layout with
    tokens := layout.tokens.shrink key.index ++ (if begins then #[.mappingStart, .key] else #[.key]) ++ behind
    columns := if begins then key.spot.column :: layout.columns else layout.columns
    openKey := none }

/-- Adds a colon, which ends the open key if there is one. -/
def value? (layout : Layout) (spot : Spot) : Option Layout :=
  match layout.openKey with
  | some key => some ((layout.insertKey key).add false .value)
  | none => (layout.beginBlock? spot .mappingStart).map fun layout => layout.add (!layout.inBrackets) .value

def scalar? (layout : Layout) (spot : Spot) (rest : Source) : Option (Layout × Source) := do
  let layout ← layout.saveKey? spot
  match spot.char with
  | '\'' =>
    let (text, rest) ← singleQuoted? false .empty rest
    return (layout.add false (.scalar false (String.ofList text)), rest)
  | '"' =>
    let (text, rest) ← doubleQuoted? 0 .empty rest
    return (layout.add false (.scalar false (String.ofList text)), rest)
  | _ =>
    if startsPlain layout.inBrackets (spot :: rest) then
      let scalar ← plainScalar? layout.inBrackets layout.margin .empty (spot :: rest)
      return (layout.add scalar.lineEnded (.scalar true (String.ofList scalar.text)), scalar.rest)
    else none

def token? (layout : Layout) (spot : Spot) (rest : Source) : Option (Layout × Source) :=
  let source := spot :: rest
  let indicates := layout.inBrackets || atGap rest
  if startsMarkerOf '-' source then (layout.mark? .documentStart).map (·, rest.drop 2)
  else if startsMarkerOf '.' source then (layout.mark? .documentEnd).map (·, rest.drop 2)
  else
    match spot.char with
    | '[' => (layout.open? spot .openBracket).map (·, rest)
    | ']' => (layout.close? .closeBracket).map (·, rest)
    | '\x7b' => (layout.open? spot .openBrace).map (·, rest)
    | '\x7d' => (layout.close? .closeBrace).map (·, rest)
    | ',' => layout.comma?.map (·, rest)
    | '-' => if atGap rest then (layout.item? spot).map (·, rest) else layout.scalar? spot rest
    | '?' => if indicates then (layout.key? spot).map (·, rest) else layout.scalar? spot rest
    | ':' => if indicates then (layout.value? spot).map (·, rest) else layout.scalar? spot rest
    | _ => layout.scalar? spot rest

/-- The tokens behind those read; `fuel` bounds their number. -/
def tokens? (fuel : Nat) (layout : Layout) (source : Source) : Option (List Token) :=
  match fuel with
  | 0 => none
  | fuel + 1 =>
    match skipGap layout.inBrackets false layout.keyAllowed source with
    | (_, []) => (layout.endBlocks fun _ => true).dropKey?.map fun layout => layout.tokens.toList
    | (keyAllowed, spot :: rest) => do
      let layout ← { layout with keyAllowed }.expireKeys? spot
      let (layout, rest) ← (layout.endBlocks fun column => spot.column < column).token? spot rest
      tokens? fuel layout rest

end Layout

def tokens? (source : Source) : Option (List Token) :=
  Layout.tokens? (source.length + 1) {} source

end PageLoads.Yaml
