import PageLoads.Text.Lossy
import PageLoads.Text.Split

namespace PageLoads

structure Name where
  bytes : Bytes
  deriving DecidableEq, Repr

namespace Name

def ofText (text : String) : Name :=
  ⟨Text.encode text⟩

instance : Coe String Name :=
  ⟨ofText⟩

def shown (name : Name) : String :=
  Text.lossy name.bytes

def staysHere (name : Name) : Bool :=
  name = "" || name = "."

def dot : UInt8 :=
  0x2E

/-- What follows the last dot of a name, unless this dot begins the name. -/
def extension? (name : Name) : Option Bytes :=
  match (Text.splitAt dot name.bytes).reverse with
  | [] | [_] => none
  | [_, []] => none
  | last :: _ => some last

end Name

end PageLoads
