import PageLoads.Yaml.Node
import PageLoads.Yaml.Token

/-!
# YAML documents

The node that tokens spell, and the one document of a text. Values that are left out are blank.
-/

namespace PageLoads.Yaml

inductive Position where
  | inBrackets
  /-- Behind a hyphen, or alone in a document. -/
  | asItem
  /-- As a key or value of a mapping without brackets, whose items may stand in the same column. -/
  | inMapping
  deriving DecidableEq, Repr

/-- Whether the next token is one of those before which a node may be left out. -/
def leavesOut (tokens : List Token) (before : List Token) : Bool :=
  tokens.head?.any before.contains

mutual

/-- The node at the front of tokens, and the tokens behind it. -/
def node? (fuel : Nat) (position : Position) (tokens : List Token) : Option (YamlNode × List Token) :=
  match fuel with
  | 0 => none
  | fuel + 1 =>
    match tokens with
    | .scalar plain text :: rest => some (.scalar plain text, rest)
    | .openBracket :: rest => bracketItems? fuel [] rest
    | .openBrace :: rest => braceEntries? fuel [] rest
    | .item :: _ => if position = .inMapping then looseItems? fuel [] tokens else none
    | .sequenceStart :: rest => if position = .inBrackets then none else items? fuel [] rest
    | .mappingStart :: rest => if position = .inBrackets then none else entries? fuel [] rest
    | _ => none

/-- The node at the front of tokens, or a blank one if the next token says that it is left out. -/
def nodeOrBlank? (fuel : Nat) (position : Position) (before : List Token) (tokens : List Token) :
    Option (YamlNode × List Token) :=
  match fuel with
  | 0 => none
  | fuel + 1 =>
    if leavesOut tokens before then some (YamlNode.blank, tokens) else node? fuel position tokens

/-- The value at the front of tokens, which is blank if there is no colon. -/
def value? (fuel : Nat) (position : Position) (before : List Token) (tokens : List Token) :
    Option (YamlNode × List Token) :=
  match fuel with
  | 0 => none
  | fuel + 1 =>
    match tokens with
    | .value :: rest => nodeOrBlank? fuel position before rest
    | _ => some (YamlNode.blank, tokens)

/-- The items of a sequence, behind those already read, up to its end. -/
def items? (fuel : Nat) (done : List YamlNode) (tokens : List Token) : Option (YamlNode × List Token) :=
  match fuel with
  | 0 => none
  | fuel + 1 =>
    match tokens with
    | .item :: rest =>
      match nodeOrBlank? fuel .asItem [.item, .blockEnd] rest with
      | some (item, rest) => items? fuel (item :: done) rest
      | none => none
    | .blockEnd :: rest => some (.sequence done.reverse, rest)
    | _ => none

/-- The items of a sequence in the column of its mapping, behind those already read. -/
def looseItems? (fuel : Nat) (done : List YamlNode) (tokens : List Token) :
    Option (YamlNode × List Token) :=
  match fuel with
  | 0 => none
  | fuel + 1 =>
    match tokens with
    | .item :: rest =>
      match nodeOrBlank? fuel .asItem [.item, .key, .value, .blockEnd] rest with
      | some (item, rest) => looseItems? fuel (item :: done) rest
      | none => none
    | _ => some (.sequence done.reverse, tokens)

/-- The entries of a mapping, behind those already read, up to its end. -/
def entries? (fuel : Nat) (done : List (YamlNode × YamlNode)) (tokens : List Token) :
    Option (YamlNode × List Token) :=
  match fuel with
  | 0 => none
  | fuel + 1 =>
    match tokens with
    | .key :: rest =>
      match nodeOrBlank? fuel .inMapping [.key, .value, .blockEnd] rest with
      | some (key, rest) =>
        match value? fuel .inMapping [.key, .value, .blockEnd] rest with
        | some (value, rest) => entries? fuel ((key, value) :: done) rest
        | none => none
      | none => none
    | .blockEnd :: rest => some (.mapping done.reverse, rest)
    | _ => none

/-- An item within brackets: a node, or a key and its value as a mapping of their own. A key that is
left out takes the place of the token that stands there. -/
def bracketItem? (fuel : Nat) (tokens : List Token) : Option (YamlNode × List Token) :=
  match fuel with
  | 0 => none
  | fuel + 1 =>
    match tokens with
    | .key :: rest =>
      let key := if leavesOut rest [.value, .comma, .closeBracket] then some (YamlNode.blank, rest.tail)
        else node? fuel .inBrackets rest
      match key with
      | some (key, rest) =>
        (value? fuel .inBrackets [.comma, .closeBracket] rest).map fun (value, rest) =>
          (.mapping [(key, value)], rest)
      | none => none
    | _ => node? fuel .inBrackets tokens

/-- The items of a sequence in brackets, behind those already read, up to the end of the brackets. -/
def bracketItems? (fuel : Nat) (done : List YamlNode) (tokens : List Token) :
    Option (YamlNode × List Token) :=
  match fuel with
  | 0 => none
  | fuel + 1 =>
    match tokens with
    | .closeBracket :: rest => some (.sequence done.reverse, rest)
    | _ =>
      match bracketItem? fuel tokens with
      | some (item, .comma :: rest) => bracketItems? fuel (item :: done) rest
      | some (item, .closeBracket :: rest) => some (.sequence (item :: done).reverse, rest)
      | _ => none

/-- An entry within braces: a key and its value, or a node, which is a key without a value. -/
def braceEntry? (fuel : Nat) (tokens : List Token) : Option ((YamlNode × YamlNode) × List Token) :=
  match fuel with
  | 0 => none
  | fuel + 1 =>
    match tokens with
    | .key :: rest =>
      match nodeOrBlank? fuel .inBrackets [.value, .comma, .closeBrace] rest with
      | some (key, rest) =>
        (value? fuel .inBrackets [.comma, .closeBrace] rest).map fun (value, rest) => ((key, value), rest)
      | none => none
    | _ => (node? fuel .inBrackets tokens).map fun (key, rest) => ((key, YamlNode.blank), rest)

/-- The entries of a mapping in braces, behind those already read, up to the end of the braces. -/
def braceEntries? (fuel : Nat) (done : List (YamlNode × YamlNode)) (tokens : List Token) :
    Option (YamlNode × List Token) :=
  match fuel with
  | 0 => none
  | fuel + 1 =>
    match tokens with
    | .closeBrace :: rest => some (.mapping done.reverse, rest)
    | _ =>
      match braceEntry? fuel tokens with
      | some (entry, .comma :: rest) => braceEntries? fuel (entry :: done) rest
      | some (entry, .closeBrace :: rest) => some (.mapping (entry :: done).reverse, rest)
      | _ => none

end

/-- The node at the front of the tokens of a document, and the tokens behind it. Only behind a mark may
it be left out; a text without tokens is a blank document. -/
def content? (tokens : List Token) : Option (YamlNode × List Token) :=
  match tokens with
  | [] | [.documentStart] => some (YamlNode.blank, [])
  | .documentStart :: rest => nodeOrBlank? (4 * rest.length + 4) .asItem [.documentStart, .documentEnd] rest
  | _ => node? (4 * tokens.length + 4) .asItem tokens

/-- The document that a text holds. Nothing but marks of its end may follow it. -/
def parse? (text : String) : Option YamlNode :=
  match ((source? text).bind tokens?).bind content? with
  | some (node, rest) => if rest.all (· = .documentEnd) then some node else none
  | none => none

end PageLoads.Yaml
