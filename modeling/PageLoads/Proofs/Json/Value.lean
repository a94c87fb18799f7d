import PageLoads.Proofs.Json.Hundredths
import PageLoads.Proofs.KeyedList

namespace PageLoads.Json

variable {depth : Nat} {value : Json} {items : List Json} {entries : List (String × Json)}
  {property property' : Binary64 → Prop}

/-- One step down from an array or an object. -/
inductive Step where
  | item (index : Nat)
  | entry (key : String)
  deriving DecidableEq, Repr

def child? : Json → Step → Option Json
  | .array items, .item index => items[index]?
  | .object entries, .entry key => entries.lookup key
  | _, _ => none

/-- What stands at a position; at the end of no steps the value itself. -/
def at? (value : Json) : List Step → Option Json
  | [] => some value
  | step :: position => (value.child? step).bind fun part => part.at? position

/-- Every double in a value, at any depth, has a property. -/
def EachDouble (property : Binary64 → Prop) (value : Json) : Prop :=
  ∀ position x, value.at? position = some (.double x) → property x

/-- No number in a value, at any depth, is a double. -/
def DoubleFree (value : Json) : Prop :=
  value.EachDouble fun _ => False

namespace EachDouble

theorem imp (h : value.EachDouble property) (himp : ∀ x, property x → property' x) :
    value.EachDouble property' :=
  fun position x hat => himp x (h position x hat)

theorem double {x : Binary64} (h : (Json.double x).EachDouble property) : property x :=
  h [] x rfl

theorem item (h : (Json.array items).EachDouble property) : ∀ item ∈ items, item.EachDouble property := by
  intro item hitem position x hat
  obtain ⟨index, hindex⟩ := List.mem_iff_getElem?.mp hitem
  refine h (.item index :: position) x ?_
  rw [at?, child?, hindex]
  exact hat

theorem entry (hasc : KeyedList.Ascending entries) (h : (Json.object entries).EachDouble property) :
    ∀ entry ∈ entries, entry.2.EachDouble property := by
  intro (key, value) hentry position x hat
  refine h (.entry key :: position) x ?_
  rw [at?, child?, (KeyedList.lookup_eq_some_iff hasc).mpr hentry]
  exact hat

theorem object (hasc : KeyedList.Ascending entries) (h : ∀ entry ∈ entries, entry.2.EachDouble property) :
    (Json.object entries).EachDouble property := by
  intro position x hat
  match position with
  | [] => cases hat
  | .item _ :: _ => cases hat
  | .entry key :: position =>
    obtain ⟨value, hlookup, hat⟩ := Option.bind_eq_some_iff.mp hat
    exact h (key, value) ((KeyedList.lookup_eq_some_iff hasc).mp hlookup) position x hat

theorem of_leaf (hleaf : ∀ step, value.child? step = none) (h : ∀ x, value = .double x → property x) :
    value.EachDouble property := by
  intro position x hat
  match position with
  | [] => exact h x (Option.some.inj hat)
  | step :: position =>
    rw [at?, hleaf] at hat
    cases hat

end EachDouble

@[simp] theorem doubleFree_null : DoubleFree .null := .of_leaf (fun _ => rfl) nofun

@[simp] theorem doubleFree_integer (n : Int) : (integer n).DoubleFree := .of_leaf (fun _ => rfl) nofun

@[simp] theorem doubleFree_text (s : String) : (text s).DoubleFree := .of_leaf (fun _ => rfl) nofun

/-- A value as programs build and read it, in which arrays and objects are nested to at most `depth`
levels. -/
inductive WellFormed : Nat → Json → Prop where
  | null {depth : Nat} : WellFormed depth .null
  | bool {depth : Nat} (b : Bool) : WellFormed depth (.bool b)
  | integer {depth : Nat} {n : Int} (hleast : -(UInt64.size / 2 : Nat) ≤ n) (hgreatest : n < UInt64.size) :
    WellFormed depth (.integer n)
  | double {depth : Nat} (x : Binary64) : WellFormed depth (.double x)
  | text {depth : Nat} (s : String) : WellFormed depth (.text s)
  | array {depth : Nat} {items : List Json} (hitems : ∀ item ∈ items, WellFormed depth item) :
    WellFormed (depth + 1) (.array items)
  | object {depth : Nat} {entries : List (String × Json)} (hasc : KeyedList.Ascending entries)
    (hentries : ∀ entry ∈ entries, WellFormed depth entry.2) : WellFormed (depth + 1) (.object entries)

theorem WellFormed.of_object (h : WellFormed depth (.object entries)) :
    KeyedList.Ascending entries ∧ ∀ entry ∈ entries, WellFormed (depth - 1) entry.2 := by
  cases h with
  | object hasc hentries => exact ⟨hasc, hentries⟩

theorem roundedItems_eq_map (items : List Json) : roundedItems items = items.map rounded := by
  induction items with
  | nil => rfl
  | cons item items ih => rw [roundedItems, ih, List.map_cons]

theorem roundedEntries_eq_map (entries : List (String × Json)) :
    roundedEntries entries = entries.map fun entry => (entry.1, entry.2.rounded) := by
  induction entries with
  | nil => rfl
  | cons entry entries ih => rw [roundedEntries, ih, List.map_cons]

theorem lookup_roundedEntries (key : String) (entries : List (String × Json)) :
    (roundedEntries entries).lookup key = (entries.lookup key).map rounded := by
  induction entries with
  | nil => rfl
  | cons entry entries ih =>
    obtain ⟨k, value⟩ := entry
    rw [roundedEntries, KeyedList.lookup_cons_eq, KeyedList.lookup_cons_eq, ih]
    split <;> rfl

theorem child?_rounded (value : Json) (step : Step) :
    value.rounded.child? step = (value.child? step).map rounded := by
  cases value with
  | array items =>
    cases step with
    | item index => simp [rounded, child?, roundedItems_eq_map]
    | entry key => rfl
  | object entries =>
    cases step with
    | item index => rfl
    | entry key => simp [rounded, child?, lookup_roundedEntries]
  | _ => rfl

/-- At each position stands the rounded value of what stood there. -/
theorem at?_rounded (value : Json) (position : List Step) :
    value.rounded.at? position = (value.at? position).map rounded := by
  induction position generalizing value with
  | nil => rfl
  | cons step position ih =>
    rw [at?, at?, child?_rounded]
    cases value.child? step with
    | none => rfl
    | some part => exact ih part

/-- What a value is, apart from what the values in it are. -/
inductive Node where
  | null
  | bool (value : Bool)
  | integer (value : Int)
  | double (value : Binary64)
  | text (value : String)
  | array (length : Nat)
  | object (keys : List String)
  deriving DecidableEq, Repr

def node : Json → Node
  | .null => .null
  | .bool b => .bool b
  | .integer n => .integer n
  | .double x => .double x
  | .text s => .text s
  | .array items => .array items.length
  | .object entries => .object (entries.map Prod.fst)

/-- A double is rounded to two decimals, and anything else stays as it is. -/
inductive Node.RoundsTo : Node → Node → Prop where
  | double {x y : Binary64} (h : IsHundredths x y) : RoundsTo (.double x) (.double y)
  | same {node : Node} (h : ∀ x, node ≠ .double x) : RoundsTo node node

/-- At each position there is the same in both values, but for the doubles, which are rounded in the one. -/
def RoundedFrom (value original : Json) : Prop :=
  ∀ position, Option.Rel Node.RoundsTo ((original.at? position).map node) ((value.at? position).map node)

theorem roundsTo_rounded (value : Json) : value.node.RoundsTo value.rounded.node := by
  cases value with
  | double x => exact .double (isHundredths_hundredths x)
  | array items =>
    have hsame : (Json.array items).rounded.node = (Json.array items).node := by
      simp [rounded, node, roundedItems_eq_map]
    exact hsame ▸ .same nofun
  | object entries =>
    have hsame : (Json.object entries).rounded.node = (Json.object entries).node := by
      simp [rounded, node, roundedEntries_eq_map]
    exact hsame ▸ .same nofun
  | _ => exact .same nofun

theorem roundedFrom_rounded (value : Json) : RoundedFrom value.rounded value := by
  intro position
  rw [at?_rounded]
  cases value.at? position with
  | none => exact .none
  | some part => exact .some (roundsTo_rounded part)

theorem RoundedFrom.exists_node {value original part : Json} (h : value.RoundedFrom original)
    {position : List Step} (hat : original.at? position = some part) :
    ∃ node, (value.at? position).map Json.node = some node ∧ part.node.RoundsTo node := by
  have hrel := h position
  rw [hat, Option.map_some] at hrel
  generalize (value.at? position).map Json.node = found at hrel
  cases hrel with
  | some hrounds => exact ⟨_, rfl, hrounds⟩

theorem WellFormed.rounded_eq_self (h : WellFormed depth value) (hfree : value.DoubleFree) :
    value.rounded = value := by
  induction h with
  | null | bool | integer | text => rfl
  | double x => exact absurd hfree.double id
  | array _ ih =>
    have hsame := List.map_congr_left fun item hitem => ih item hitem (hfree.item item hitem)
    rw [rounded, roundedItems_eq_map, hsame, List.map_id']
  | object hasc _ ih =>
    have hsame := List.map_congr_left fun entry hentry =>
      congrArg (Prod.mk entry.1) (ih entry hentry (hfree.entry hasc entry hentry))
    rw [rounded, roundedEntries_eq_map, hsame, List.map_id']

theorem ascending_roundedEntries (h : KeyedList.Ascending entries) :
    KeyedList.Ascending (roundedEntries entries) := by
  rw [roundedEntries_eq_map, KeyedList.Ascending, List.pairwise_map]
  exact h

theorem WellFormed.rounded (h : WellFormed depth value) : WellFormed depth value.rounded := by
  induction h with
  | null => exact .null
  | bool b => exact .bool b
  | integer hleast hgreatest => exact .integer hleast hgreatest
  | double x => exact .double _
  | text s => exact .text s
  | array _ ih =>
    rw [Json.rounded, roundedItems_eq_map]
    refine .array fun item hitem => ?_
    obtain ⟨original, horiginal, rfl⟩ := List.mem_map.mp hitem
    exact ih original horiginal
  | object hasc _ ih =>
    refine .object (ascending_roundedEntries hasc) fun entry hentry => ?_
    rw [roundedEntries_eq_map] at hentry
    obtain ⟨original, horiginal, rfl⟩ := List.mem_map.mp hentry
    exact ih original horiginal

end PageLoads.Json
