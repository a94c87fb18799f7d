import PageLoads.CommandLine.Program
import PageLoads.Frame.Written

/-!
# The executable

The program, run on the files below the current directory: they are read into a store, and those that
a run changes are written back. Compressed files are written as frames. Links to directories are not
followed.
-/

namespace PageLoads.Disk

def fileOfDisk (bytes : ByteArray) : File :=
  File.plain bytes.toList

def diskOfFile (file : File) : ByteArray :=
  ⟨(if file.compressed then Frame.encode file.bytes else file.bytes).toArray⟩

/-- The store with what stands in a directory, which stands at `place`. -/
partial def readTree (items : Array IO.FS.DirEntry) (place : Place) (store : Store) : IO Store := do
  let mut store := store
  for item in items do
    let here := place ++ [Name.ofText item.fileName]
    match (← item.path.symlinkMetadata).type with
    | .dir => store ← readTree (← item.path.readDir) here (store.set here .directory)
    | .file => store := store.set here (.file (fileOfDisk (← IO.FS.readBinFile item.path)))
    | .symlink =>
      if !(← item.path.pathExists) then store := store.set here .dangling
      else if !(← item.path.isDir) then
        store := store.set here (.file (fileOfDisk (← IO.FS.readBinFile item.path)))
    | .other => pure ()
  return store

/-- Writes the files in which a store differs from an earlier one. -/
def writeChanges (earlier store : Store) : IO Unit := do
  for (place, entry) in store.entries do
    if let .file file := entry then
      if earlier.get? place ≠ some entry then
        IO.FS.writeBinFile ("/".intercalate (place.map Name.shown)) (diskOfFile file)

end PageLoads.Disk

def main (arguments : List String) : IO UInt32 := do
  let earlier ← match PageLoads.CommandLine.read arguments with
    | .error _ => pure PageLoads.Store.empty
    | .ok _ => PageLoads.Disk.readTree (← (← IO.currentDir).readDir) [] PageLoads.Store.empty
  let (store, ending) := PageLoads.CommandLine.run arguments earlier
  PageLoads.Disk.writeChanges earlier store
  IO.print ending.output
  unless ending.complaint = "" do
    IO.eprintln ending.complaint
  return ending.exitCode.toUInt32
