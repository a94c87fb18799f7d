import PageLoads.Store.Name

/-!
# Paths

Texts that name files: names with slashes between them. Paths are read relative to the root of a
store, but for absolute ones, which begin with a slash. Where directories are listed, paths go on with the
names that were found, and these need be no texts.
-/

namespace PageLoads

namespace Path

open PageLoads.Text

def isAbsolute (path : String) : Bool :=
  path.toList.head? = some '/'

/-- The path that leads from a base along another path. An absolute path starts afresh, and a base
that is empty or ends with a slash needs none in between. -/
def join (base path : String) : String :=
  if isAbsolute path || base = "" then path
  else if base.toList.getLast? = some '/' then base ++ path
  else base ++ "/" ++ path

/-- The names in a path, including the empty ones about double and final slashes. -/
def names (path : String) : List Name :=
  (splitAt '/' path.toList).map fun name => Name.ofText (String.ofList name)

def lengthLimit : Nat :=
  4095

def nameLimit : Nat :=
  255

def namesDirectory (path : String) : Bool :=
  path.toList.getLast? = some '/'

/-- The path of the directory in which the last name of a path stands. -/
def directory (path : String) : String :=
  let above := (path.toList.reverse.dropWhile (· = '/')).dropWhile (· ≠ '/')
  String.ofList (above.reverse ++ ['.'])

def compressedExtension : String :=
  "zst"

end Path

/-- A path that leads along a text and on by names that were found in directories. -/
structure Trail where
  text : String
  found : List Name
  deriving DecidableEq, Repr

namespace Trail

instance : Coe String Trail :=
  ⟨fun text => ⟨text, []⟩⟩

def child (path : Trail) (name : Name) : Trail :=
  { path with found := path.found ++ [name] }

def names (path : Trail) : List Name :=
  Path.names path.text ++ path.found

def slash : UInt8 :=
  0x2F

/-- Puts a name behind the bytes of a path, and a slash in between unless none is needed. -/
def joinBytes (path : Bytes) (name : Name) : Bytes :=
  if path = [] || path.getLast? = some slash then path ++ name.bytes else path ++ slash :: name.bytes

def bytes (path : Trail) : Bytes :=
  path.found.foldl joinBytes (Text.encode path.text)

def shown (path : Trail) : String :=
  Text.lossy path.bytes

def fileName? (path : Trail) : Option Name :=
  (path.names.filter fun name => !name.staysHere).getLast?.filter (· ≠ "..")

def extension? (path : Trail) : Option Bytes :=
  path.fileName?.bind Name.extension?

end Trail

def Path.namesCompressed (path : Trail) : Bool :=
  path.extension? = some (Text.encode Path.compressedExtension)

end PageLoads
