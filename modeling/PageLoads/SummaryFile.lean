import PageLoads.Json.Printer
import PageLoads.Json.Reader
import PageLoads.Store.Basic

/-!
# Summary files

A summary file holds one JSON object, the summary document, to which analyses add entries one after
another. Adding entries keeps those of other keys and writes the whole document anew, its doubles
rounded. A file that holds no object counts as an empty document.
-/

namespace PageLoads

/-- The entries of a summary document, in ascending order of their keys. -/
abbrev SummaryDocument := List (String × Json)

namespace SummaryDocument

def ofText (text : String) : SummaryDocument :=
  match Json.parse? text with
  | some (.object entries) => entries
  | _ => []

/-- Adds entries one after another; an entry takes the place of one of the same key. -/
def merge (document : SummaryDocument) (entries : List (String × Json)) : SummaryDocument :=
  KeyedList.insertAll document entries

def text (document : SummaryDocument) : String :=
  String.ofList (Json.pretty 0 (Json.object document).rounded ++ ['\n'])

end SummaryDocument

namespace SummaryFile

def textOf (content : Content) : Except IoFault String := do
  match Text.decode? (← content.all) with
  | some text => return text
  | none => throw .notText

/-- Reads the document at a path; if nothing is there, it is empty. -/
def read (store : Store) (path : String) : Except Failure SummaryDocument :=
  match (store.openPlain path).bind textOf with
  | .ok text => .ok (SummaryDocument.ofText text)
  | .error .notFound => .ok []
  | .error fault => .error ((Failure.ofFault (.io fault)).during (.readingSummary path))

def write (store : Store) (path : String) (document : SummaryDocument) : Except Failure Store :=
  (store.write path (File.plain (Text.encode document.text))).mapError fun fault =>
    (Failure.ofFault (.io fault)).during (.writingSummary path)

def merge (store : Store) (path : String) (entries : List (String × Json)) : Except Failure Store := do
  write store path ((← read store path).merge entries)

end SummaryFile

end PageLoads
