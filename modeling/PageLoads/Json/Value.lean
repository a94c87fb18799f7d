import PageLoads.KeyedList
import PageLoads.Number.Printed

namespace PageLoads

inductive Json where
  | null
  | bool (value : Bool)
  | integer (value : Int)
  | double (value : Binary64)
  | text (value : String)
  | array (items : List Json)
  | object (entries : List (String × Json))
  deriving Inhabited

namespace Json

def ofWord (n : UInt64) : Json :=
  .integer n.toNat

def ofDouble? : Option Binary64 → Json
  | some x => .double x
  | none => .null

/-- An object of entries in any order, the last of each key counting. -/
def ofEntries (entries : List (String × Json)) : Json :=
  .object (KeyedList.ofList entries)

/-- The nearest multiple of a hundredth, the one farther from zero of two equally near; a number whose
hundredfold passes the range of doubles stays as it is. -/
def hundredths (x : Binary64) : Binary64 :=
  let rounded := (x * Binary64.ofNat 100).round / Binary64.ofNat 100
  if rounded.isFinite then rounded else x

mutual

def rounded : Json → Json
  | .double x => .double (hundredths x)
  | .array items => .array (roundedItems items)
  | .object entries => .object (roundedEntries entries)
  | value => value

def roundedItems : List Json → List Json
  | [] => []
  | item :: items => rounded item :: roundedItems items

def roundedEntries : List (String × Json) → List (String × Json)
  | [] => []
  | (key, value) :: entries => (key, rounded value) :: roundedEntries entries

end

end Json

end PageLoads
