import PageLoads.Store.Basic

/-!
# Opening logs

A log may lie in its directory as it is or compressed, under the same name with the extension of
compressed files. The first of its paths that exists is opened; a path that cannot be opened for
another reason than that nothing is there stops the search.
-/

namespace PageLoads.Log

def candidates (directory stem : String) : List String :=
  [Path.join directory stem, Path.join directory s!"{stem}.{Path.compressedExtension}"]

def openFirstOf (store : Store) (tried : List String) : List String → Except Fault (String × Content)
  | [] => .error (.missingLog tried)
  | path :: rest =>
    match store.openByName path with
    | .ok content => .ok (path, content)
    | .error .notFound => openFirstOf store tried rest
    | .error fault => .error (.io fault)

/-- Opens the first of some paths that exists; if none does, the refusal names them all. -/
def openFirst (store : Store) (paths : List String) : Except Fault (String × Content) :=
  openFirstOf store paths paths

end PageLoads.Log
