import PageLoads.Frame.Bits

/-!
# Checksums

The checksum of the content of a frame: the lower half of a hash of 64 bits. Content is hashed in
stripes of four words, each word on a lane of its own; what is left behind the stripes is mixed in word
by word, and in the end byte by byte.
-/

namespace PageLoads.Frame.Checksum

open LittleEndian (number)

def prime₁ : UInt64 := 11400714785074694791

def prime₂ : UInt64 := 14029467366897019727

def prime₃ : UInt64 := 1609587929392839161

def prime₄ : UInt64 := 9650029242287828579

def prime₅ : UInt64 := 2870177450012600261

def rotate (x : UInt64) (count : UInt64) : UInt64 :=
  (x <<< count) ||| (x >>> (64 - count))

/-- The number in `width` bytes from the one at `place` on. -/
def wordAt (content : Array UInt8) (place width : Nat) : UInt64 :=
  (number ((content.extract place (place + width)).toList)).toUInt64

def round (lane word : UInt64) : UInt64 :=
  rotate (lane + word * prime₂) 31 * prime₁

structure Lanes where
  a : UInt64
  b : UInt64
  c : UInt64
  d : UInt64

def Lanes.initial : Lanes :=
  ⟨prime₁ + prime₂, prime₂, 0, 0 - prime₁⟩

def Lanes.stripe (content : Array UInt8) (lanes : Lanes) (i : Nat) : Lanes :=
  ⟨round lanes.a (wordAt content (32 * i) 8), round lanes.b (wordAt content (32 * i + 8) 8),
    round lanes.c (wordAt content (32 * i + 16) 8), round lanes.d (wordAt content (32 * i + 24) 8)⟩

def Lanes.join (lanes : Lanes) : UInt64 :=
  let hash := rotate lanes.a 1 + rotate lanes.b 7 + rotate lanes.c 12 + rotate lanes.d 18
  [lanes.a, lanes.b, lanes.c, lanes.d].foldl (fun hash lane => (hash ^^^ round 0 lane) * prime₁ + prime₄) hash

def spread (hash : UInt64) : UInt64 :=
  let hash := (hash ^^^ (hash >>> 33)) * prime₂
  let hash := (hash ^^^ (hash >>> 29)) * prime₃
  hash ^^^ (hash >>> 32)

def hash (content : Array UInt8) : UInt64 :=
  let size := content.size
  let stripes := size / 32
  let hash := if stripes = 0 then prime₅ else ((List.range stripes).foldl (Lanes.stripe content) .initial).join
  let hash := hash + size.toUInt64
  let hash := (List.range (size % 32 / 8)).foldl (fun hash i =>
    rotate (hash ^^^ round 0 (wordAt content (32 * stripes + 8 * i) 8)) 27 * prime₁ + prime₄) hash
  let hash := if size % 8 < 4 then hash
    else rotate (hash ^^^ wordAt content (size / 8 * 8) 4 * prime₁) 23 * prime₂ + prime₃
  let hash := (List.range (size % 4)).foldl (fun hash i =>
    rotate (hash ^^^ wordAt content (size / 4 * 4 + i) 1 * prime₅) 11 * prime₁) hash
  spread hash

end Checksum

def checksum (content : Array UInt8) : Nat :=
  (Checksum.hash content).toNat % 4294967296

end PageLoads.Frame
