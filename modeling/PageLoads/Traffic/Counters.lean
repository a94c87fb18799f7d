import PageLoads.Number.Binary64

/-!
# Traffic counters

The seven byte and cell counts that a proxy logs, with comparison, subtraction and addition counter by
counter. Subtraction fails where a counter would fall below zero, addition where one would pass the
range of a word; the three agree with each other in the way the lemmas at the end say for one counter.
-/

namespace PageLoads

structure Counters where
  receivedBytes : UInt64
  receivedUsefulBytes : UInt64
  receivedDummyCells : UInt64
  sentBytes : UInt64
  sentUsefulBytes : UInt64
  sentDummyCells : UInt64
  avoidedDummyCells : UInt64
  deriving DecidableEq, Repr, Inhabited

namespace Counters

def zero : Counters :=
  ⟨0, 0, 0, 0, 0, 0, 0⟩

/-- The counters in the order in which proxies log them. -/
def toList (c : Counters) : List UInt64 :=
  [c.receivedBytes, c.receivedUsefulBytes, c.receivedDummyCells, c.sentBytes, c.sentUsefulBytes,
    c.sentDummyCells, c.avoidedDummyCells]

/-- The names under which the counters are logged and reported. -/
def names : List String :=
  ["recv_all_bytes", "recv_useful_bytes", "recv_dummy_cells", "send_all_bytes", "send_useful_bytes",
    "send_dummy_cells", "avoided_send_dummy_cells"]

def named (c : Counters) : List (String × UInt64) :=
  names.zip c.toList

def combine? (op : UInt64 → UInt64 → Option UInt64) (a b : Counters) : Option Counters := do
  return {
    receivedBytes := ← op a.receivedBytes b.receivedBytes
    receivedUsefulBytes := ← op a.receivedUsefulBytes b.receivedUsefulBytes
    receivedDummyCells := ← op a.receivedDummyCells b.receivedDummyCells
    sentBytes := ← op a.sentBytes b.sentBytes
    sentUsefulBytes := ← op a.sentUsefulBytes b.sentUsefulBytes
    sentDummyCells := ← op a.sentDummyCells b.sentDummyCells
    avoidedDummyCells := ← op a.avoidedDummyCells b.avoidedDummyCells }

def wordSub? (a b : UInt64) : Option UInt64 :=
  if b ≤ a then some (a - b) else none

def wordAdd? (a b : UInt64) : Option UInt64 :=
  if a.toNat + b.toNat < UInt64.size then some (a + b) else none

def dominates (a b : Counters) : Bool :=
  (a.toList.zip b.toList).all fun (now, before) => before ≤ now

/-- The growth from `b` to `a`, if no counter went backwards. -/
def sub? (a b : Counters) : Option Counters :=
  combine? wordSub? a b

def add? (a b : Counters) : Option Counters :=
  combine? wordAdd? a b

theorem wordSub?_eq_some_iff {a b d : UInt64} : wordSub? a b = some d ↔ b.toNat + d.toNat = a.toNat := by
  have ha := a.toNat_lt
  have hd := d.toNat_lt
  unfold wordSub?
  constructor
  · intro h
    split at h
    · rename_i hle
      cases h
      rw [UInt64.toNat_sub_of_le _ _ hle]
      have := UInt64.le_iff_toNat_le.mp hle
      omega
    · cases h
  · intro h
    have hle : b ≤ a := UInt64.le_iff_toNat_le.mpr (by omega)
    rw [if_pos hle]
    congr 1
    apply UInt64.toNat_inj.mp
    rw [UInt64.toNat_sub_of_le _ _ hle]
    omega

theorem wordAdd?_eq_some_iff {a b s : UInt64} : wordAdd? a b = some s ↔ a.toNat + b.toNat = s.toNat := by
  have hs := s.toNat_lt
  unfold wordAdd?
  constructor
  · intro h
    split at h
    · rename_i hlt
      cases h
      rw [UInt64.toNat_add, Nat.mod_eq_of_lt hlt]
    · cases h
  · intro h
    rw [if_pos (h ▸ s.toNat_lt_size)]
    congr 1
    apply UInt64.toNat_inj.mp
    rw [UInt64.toNat_add, Nat.mod_eq_of_lt (by omega), h]

end Counters

/-- Counters as they stood, or as they came to an end, at a time in seconds. -/
structure Report where
  time : Binary64
  counters : Counters
  deriving DecidableEq, Repr, Inhabited

end PageLoads
