import PageLoads.Store.Content

/-!
# Files

A file holds bytes and may hold them compressed. Compression is a mark on the file. The compressed form
that the mark stands for is not spelled out; bytes without the mark may spell one out themselves, as
frames, and are refused where they do not.
-/

namespace PageLoads

structure File where
  bytes : Bytes
  compressed : Bool
  deriving DecidableEq, Repr

namespace File

def plain (bytes : Bytes) : File :=
  ⟨bytes, false⟩

def compress (bytes : Bytes) : File :=
  ⟨bytes, true⟩

/-- The bytes as they stand. The compressed form is not spelled out beyond its beginning, which is no
UTF-8, so that no reader of text accepts it. -/
def stored (file : File) : Bytes :=
  if file.compressed then Frame.magic ++ file.bytes else file.bytes

def expanded (file : File) : Content :=
  if file.compressed then .plain file.bytes else .ofFrames file.bytes

@[simp] theorem stored_plain (bytes : Bytes) : (plain bytes).stored = bytes := rfl

@[simp] theorem expanded_compress (bytes : Bytes) : (compress bytes).expanded = .plain bytes := rfl

end File

end PageLoads
