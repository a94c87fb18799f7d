/-!
# Room

How many bytes a reader asks for at a time. One that reads lines or copies asks for as many each time;
one that reads everything asks for what its buffer has room for, and the buffer grows as it fills.
-/

namespace PageLoads

inductive Room where
  | steady (size : Nat)
  /-- Beside `length` bytes in a buffer of some capacity, but no more than `limit` at a time. -/
  | growing (length capacity limit : Nat)
  deriving DecidableEq, Repr

namespace Room

def ofLines : Room :=
  steady 65536

def ofCopy : Room :=
  steady 8192

/-- The least bytes by which a full buffer grows. -/
def probe : Nat :=
  32

/-- The room of a reader of everything, who begins without a buffer. -/
def ofAll : Room :=
  growing 0 probe 8192

/-- How many bytes are asked for: at least one. -/
def size : Room → Nat
  | steady size => max 1 size
  | growing length capacity limit => max 1 (min (capacity - length) limit)

/-- The room after some bytes were read. The first ones are put into a buffer of their own, which has
no room for more than them. -/
def after (room : Room) (count : Nat) : Room :=
  match room with
  | steady size => steady size
  | growing length capacity limit =>
    let held := length + count
    let capacity := if length = 0 then max 8 held else capacity
    let grown := if held = capacity then max (2 * capacity) (held + probe) else capacity
    growing held grown (if 0 < length ∧ limit ≤ room.size ∧ count = room.size then 2 * limit else limit)

theorem size_pos (room : Room) : 0 < room.size := by
  cases room <;> simp only [size] <;> omega

end Room

end PageLoads
