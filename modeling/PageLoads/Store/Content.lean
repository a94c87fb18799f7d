import PageLoads.Frame.Expansion
import PageLoads.Store.Room

/-!
# Content

What can be read of an opened file, reading by reading. Where a file is no frame, it is its bytes. Of
frames a reading gets what it has room for, and how far one gets before a fault depends on the room. The
laws about `plain` say that it reads as its bytes, whatever the room.
-/

namespace PageLoads

inductive Source where
  | ended
  | refused (fault : IoFault)
  | frames (expansion : Frame.Expansion)

structure Content where
  ready : Bytes
  source : Source

namespace Source

def extent : Source → Nat
  | ended | refused _ => 0
  | frames expansion => expansion.extent + 1

end Source

namespace Content

def plain (bytes : Bytes) : Content :=
  ⟨bytes, .ended⟩

/-- The content of which the first reading fails. -/
def refused (fault : IoFault) : Content :=
  ⟨[], .refused fault⟩

def ofFrames (bytes : Bytes) : Content :=
  ⟨[], .frames (.ofBytes bytes)⟩

/-- Reads at most `room` bytes: these, and the content behind them. At the end there are none. -/
def read (room : Nat) (content : Content) : Except IoFault (Bytes × Content) :=
  if content.ready ≠ [] then .ok (content.ready.take room, ⟨content.ready.drop room, content.source⟩)
  else
    match content.source with
    | .ended => .ok ([], plain [])
    | .refused fault => .error fault
    | .frames expansion =>
      match expansion.pull room with
      | .error fault => .error fault
      | .ok (bytes, none) => .ok (bytes.take room, plain (bytes.drop room))
      | .ok (bytes, some after) => .ok (bytes.take room, ⟨bytes.drop room, .frames after⟩)

/-- A reading that gets bytes leaves less. -/
theorem extent_of_read {room : Nat} {content after : Content} {bytes : Bytes}
    (h : content.read room = .ok (bytes, after)) (hne : bytes ≠ []) :
    after.source.extent < content.source.extent ∨
      after.source.extent = content.source.extent ∧ after.ready.length < content.ready.length := by
  unfold read at h
  split at h
  · cases h
    refine Or.inr ⟨rfl, ?_⟩
    have hpos : 0 < (content.ready.take room).length := List.length_pos_iff.mpr hne
    rw [List.length_take] at hpos
    simp only [List.length_drop]
    omega
  · split at h
    · cases h
      exact absurd rfl hne
    · cases h
    · rename_i expansion hsource
      split at h
      · cases h
      · cases h
        refine Or.inl ?_
        simp [hsource, plain, Source.extent]
      · rename_i after' hpull
        cases h
        refine Or.inl ?_
        have := (Frame.Expansion.extent_of_pull hpull).2
        simp only [hsource, Source.extent]
        omega

@[simp] theorem read_plain (room : Nat) (bytes : Bytes) :
    (plain bytes).read room = .ok (bytes.take room, plain (bytes.drop room)) := by
  cases bytes <;> simp [read, plain]

/-- Reads exactly `count` bytes: these, and the content behind them, if it does not end before. -/
def take (count : Nat) (content : Content) : Except IoFault (Option (Bytes × Content)) :=
  if _hcount : count = 0 then .ok (some ([], content))
  else
    match content.read count with
    | .error fault => .error fault
    | .ok ([], _) => .ok none
    | .ok (b :: bytes, after) =>
      (take (count - (b :: bytes).length) after).map fun found =>
        found.map fun (more, after) => (b :: bytes ++ more, after)
termination_by count
decreasing_by
  simp only [List.length_cons]
  omega

/-- Reads to the end, as much at a time as there is room: what was read, and the fault that stopped the
reading, if one did. -/
def drain (room : Room) (content : Content) : Bytes × Option IoFault :=
  match _hread : content.read room.size with
  | .error fault => ([], some fault)
  | .ok ([], _) => ([], none)
  | .ok (b :: bytes, after) =>
    let (more, fault) := drain (room.after (b :: bytes).length) after
    (b :: bytes ++ more, fault)
termination_by (content.source.extent, content.ready.length)
decreasing_by
  rcases extent_of_read _hread (by simp) with h | ⟨h, h'⟩
  · exact Prod.Lex.left _ _ h
  · rw [h]
    exact Prod.Lex.right _ h'

def all (content : Content) : Except IoFault Bytes :=
  match content.drain .ofAll with
  | (bytes, none) => .ok bytes
  | (_, some fault) => .error fault

/-- Of plain content one reading gets all that is asked for, or all there is. -/
theorem take_plain (count : Nat) (bytes : Bytes) :
    (plain bytes).take count =
      .ok (if bytes.length < count then none else some (bytes.take count, plain (bytes.drop count))) := by
  induction count using Nat.strongRecOn generalizing bytes with
  | _ count ih =>
    rw [take]
    cases count with
    | zero => simp
    | succ count =>
      cases bytes with
      | nil => simp
      | cons b rest =>
        have hlt : count + 1 - (b :: rest.take count).length < count + 1 := by
          simp only [List.length_cons]
          omega
        rw [dif_neg (Nat.succ_ne_zero count), read_plain]
        simp only [List.take_succ_cons, List.drop_succ_cons]
        rw [ih _ hlt]
        by_cases hshort : rest.length < count
        · have hmore : (rest.drop count).length < count + 1 - (b :: rest.take count).length := by
            simp only [List.length_drop, List.length_cons, List.length_take]
            omega
          have hless : (b :: rest).length < count + 1 := Nat.succ_lt_succ hshort
          rw [if_pos hmore, if_pos hless]
          rfl
        · have henough : count + 1 - (b :: rest.take count).length = 0 := by
            simp only [List.length_cons, List.length_take]
            omega
          have hmany : ¬ (b :: rest).length < count + 1 := fun h => hshort (Nat.lt_of_succ_lt_succ h)
          rw [henough, if_neg (Nat.not_lt_zero _), if_neg hmany]
          simp [Except.map]

/-- Plain content is read to the end, whatever the room. -/
theorem drain_plain (room : Room) (bytes : Bytes) : (plain bytes).drain room = (bytes, none) := by
  induction hlength : bytes.length using Nat.strongRecOn generalizing room bytes with
  | _ length ih =>
    obtain ⟨size, hsize⟩ := Nat.exists_eq_succ_of_ne_zero (Nat.ne_of_gt room.size_pos)
    rw [drain]
    split
    · rename_i hread
      rw [read_plain] at hread
      cases hread
    · rename_i hread
      rw [read_plain, hsize] at hread
      cases bytes with
      | nil => rfl
      | cons b rest => simp at hread
    · rename_i b taken after hread
      rw [read_plain, hsize] at hread
      cases bytes with
      | nil => simp at hread
      | cons b' rest =>
        simp only [List.take_succ_cons, List.drop_succ_cons, Except.ok.injEq, Prod.mk.injEq,
          List.cons.injEq] at hread
        obtain ⟨⟨rfl, rfl⟩, rfl⟩ := hread
        rw [ih (rest.drop size).length (by simp only [List.length_drop, ← hlength, List.length_cons]; omega)
          _ _ rfl]
        simp

@[simp] theorem all_plain (bytes : Bytes) : (plain bytes).all = .ok bytes := by
  simp [all, drain_plain]

end Content

end PageLoads
