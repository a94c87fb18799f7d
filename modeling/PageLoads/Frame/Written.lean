import PageLoads.Frame.Expansion

namespace PageLoads.Frame

/-- The head of a frame with a window as large as a block. -/
def plainHead : Bytes :=
  magic ++ [0x00, 0x38]

def storedBlock (last : Bool) (bytes : Bytes) : Bytes :=
  LittleEndian.bytes 3 (bytes.length * 8 + last.toNat) ++ bytes

def storedBlocks (bytes : Bytes) : Bytes :=
  if bytes.length ≤ Head.blockLimit then storedBlock true bytes
  else storedBlock false (bytes.take Head.blockLimit) ++ storedBlocks (bytes.drop Head.blockLimit)
termination_by bytes.length
decreasing_by
  simp only [Head.blockLimit] at *
  simp only [List.length_drop]
  omega

def encode (bytes : Bytes) : Bytes :=
  plainHead ++ storedBlocks bytes

end PageLoads.Frame
