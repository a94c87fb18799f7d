import PageLoads.Frame.PrefixCode

/-!
# Quarters

Many literals are coded in four streams, each of the first three a quarter of them, which can be read
side by side. The lengths of these three stand in front. If there is enough in every stream, the streams
are first read in rounds, and nobody looks whether they use up their bits: a stream that is read beyond
its beginning goes on in what stands before it. That it has come too far by then is a fault.
-/

namespace PageLoads.Frame

open LittleEndian (number)

/-- One of four streams: where it begins, where the word at hand does, and how far it was read. -/
structure Quarter where
  start : Nat
  word : Int
  lane : Lane

namespace Quarter

def wordLength : Nat :=
  8

/-- The stream between two places. If its last byte is zero, it has no mark. -/
def ofBytes (source : Array UInt8) (start stop target : Nat) : Quarter where
  start
  word := stop - wordLength
  lane :=
    let last := (source.getD (stop - 1) 0).toNat
    let left := if last = 0 then 8 * stop else 8 * (stop - 1) + last.log2
    { bits := ⟨source, left⟩, done := #[], target }

def round (code : PrefixCode) (quarter : Quarter) : Quarter :=
  let lane := (List.range 5).foldl (fun lane _ => lane.step code) quarter.lane
  { quarter with lane, word := (lane.bits.left + 7) / 8 - wordLength }

def missing (quarter : Quarter) : Nat :=
  quarter.lane.target - quarter.lane.done.size

/-- Whether a round takes no more than there is: of the bytes that the first stream can go back, and of
those that are missing. -/
def goesOn (code : PrefixCode) (quarters : List Quarter) : Bool :=
  (quarters.head?.any fun quarter => 7 ≤ quarter.word) &&
    (if code.inPairs then quarters.all fun quarter => 10 ≤ quarter.missing
    else quarters.getLast?.any fun quarter => 5 ≤ quarter.missing)

def rounds (code : PrefixCode) (quarters : List Quarter) : (limit : Nat) → List Quarter
  | 0 => quarters
  | limit + 1 => if goesOn code quarters then rounds code (quarters.map (round code)) limit else quarters

/-- The bytes of all streams, read in rounds and then one by one. -/
def decode? (code : PrefixCode) (count : Nat) (quarters : List Quarter) : Option (Array UInt8) :=
  let quarters := rounds code quarters count
  if quarters.any fun quarter => quarter.word + wordLength < quarter.start then none
  else some ((quarters.map fun quarter => (quarter.lane.fill code quarter.lane.target).done).foldl (· ++ ·) #[])

end Quarter

def PrefixCode.decodeFour? (code : PrefixCode) (count : Nat) (streams : Bytes) : Option (Array UInt8) :=
  let quarter := (count + 3) / 4
  let l₁ := number (streams.take 2)
  let l₂ := number ((streams.drop 2).take 2)
  let l₃ := number ((streams.drop 4).take 2)
  let first := streams.drop 6
  let second := first.drop l₁
  let third := second.drop l₂
  let fourth := third.drop l₃
  let last := count - 3 * quarter
  if first.length < 4 ∨ first.length < l₁ + l₂ + l₃ ∨ count < 3 * quarter then none
  else if code.depth ≤ usualWindow ∧ 8 ≤ min (min l₁ l₂) (min l₃ fourth.length) ∧ 0 < last then
    let source := streams.toArray
    Quarter.decode? code count
      [.ofBytes source 6 (6 + l₁) quarter, .ofBytes source (6 + l₁) (6 + l₁ + l₂) quarter,
        .ofBytes source (6 + l₁ + l₂) (6 + l₁ + l₂ + l₃) quarter,
        .ofBytes source (6 + l₁ + l₂ + l₃) source.size last]
  else do
    let first ← code.decode? quarter (first.take l₁)
    let second ← code.decode? quarter (second.take l₂)
    let third ← code.decode? quarter (third.take l₃)
    let fourth ← code.decode? last fourth
    return first ++ second ++ third ++ fourth

/-- What reading costs: for the code itself, and for every 256 bytes. -/
structure Cost where
  code : Nat
  bytes : Nat

/-- The costs of taking bytes one by one and of taking them in pairs, by how many sixteenths of their
number the coded bytes are. -/
def costs : List (Cost × Cost) :=
  [(⟨0, 0⟩, ⟨1, 1⟩), (⟨0, 0⟩, ⟨1, 1⟩), (⟨150, 216⟩, ⟨381, 119⟩), (⟨170, 205⟩, ⟨514, 112⟩),
    (⟨177, 199⟩, ⟨539, 110⟩), (⟨197, 194⟩, ⟨644, 107⟩), (⟨221, 192⟩, ⟨735, 107⟩),
    (⟨256, 189⟩, ⟨881, 106⟩), (⟨359, 188⟩, ⟨1167, 109⟩), (⟨582, 187⟩, ⟨1570, 114⟩),
    (⟨688, 187⟩, ⟨1712, 122⟩), (⟨825, 186⟩, ⟨1965, 136⟩), (⟨976, 185⟩, ⟨2131, 150⟩),
    (⟨1180, 186⟩, ⟨2070, 175⟩), (⟨1377, 185⟩, ⟨1731, 202⟩), (⟨1412, 185⟩, ⟨1695, 202⟩)]

/-- Whether `count` bytes in four streams of some length are taken in pairs: if that costs less, with a
small charge for the larger table. -/
def pairsPay (count length : Nat) : Bool :=
  let (single, pairs) := costs.getD (if count ≤ length then 15 else length * 16 / count) (⟨0, 0⟩, ⟨1, 1⟩)
  let cost (c : Cost) : Nat := c.code + c.bytes * (count / 256)
  cost pairs + cost pairs / 32 < cost single

end PageLoads.Frame
