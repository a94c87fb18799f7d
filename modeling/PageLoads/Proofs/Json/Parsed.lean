import PageLoads.Proofs.Json.RoundTrip

namespace PageLoads.Json

variable {fuel depth : Nat} {cs rest : List Char} {value : Json} {items : List Json}
  {entries : List (String × Json)}

/-- What the reader gives within some fuel: well-formed values, arrays of them and entries with them. -/
structure ReadsWellFormed (fuel : Nat) : Prop where
  value {depth : Nat} {cs rest : List Char} {value : Json} (h : value? fuel depth cs = some (value, rest)) :
    WellFormed depth value
  items {depth : Nat} {cs rest : List Char} {items : List Json} (h : items? fuel depth cs = some (items, rest)) :
    ∀ item ∈ items, WellFormed depth item
  entries {depth : Nat} {cs rest : List Char} {entries : List (String × Json)}
    (h : entries? fuel depth cs = some (entries, rest)) : ∀ entry ∈ entries, WellFormed depth entry.2

theorem wellFormed_of_number? (h : number? cs = some (value, rest)) : WellFormed depth value := by
  rcases number?_cases h with ⟨n, rfl, hleast, hgreatest⟩ | ⟨x, rfl⟩
  · exact .integer hleast hgreatest
  · exact .double x

theorem wellFormed_ofEntries (h : ∀ entry ∈ entries, WellFormed depth entry.2) :
    WellFormed (depth + 1) (ofEntries entries) :=
  .object (KeyedList.ascending_ofList entries) fun entry hentry => h entry (KeyedList.mem_ofList hentry)

theorem ReadsWellFormed.value_succ (hreads : ReadsWellFormed fuel)
    (h : value? (fuel + 1) depth cs = some (value, rest)) : WellFormed depth value := by
  unfold value? at h
  dsimp only at h
  split at h
  case h_1 =>
    cases h
    exact .null
  case h_2 | h_3 =>
    cases h
    exact .bool _
  case h_4 =>
    obtain ⟨_, _, hvalue⟩ := Option.map_eq_some_iff.mp h
    cases hvalue
    exact .text _
  case h_5 =>
    split at h
    case isTrue => cases h
    case isFalse hdepth =>
      obtain ⟨depth, rfl⟩ := Nat.exists_eq_succ_of_ne_zero hdepth
      split at h
      case h_1 =>
        cases h
        exact .array (List.forall_mem_nil _)
      case h_2 =>
        obtain ⟨_, hitems, hvalue⟩ := Option.map_eq_some_iff.mp h
        cases hvalue
        exact .array (hreads.items hitems)
  case h_6 =>
    split at h
    case isTrue => cases h
    case isFalse hdepth =>
      obtain ⟨depth, rfl⟩ := Nat.exists_eq_succ_of_ne_zero hdepth
      split at h
      case h_1 =>
        cases h
        exact .object KeyedList.ascending_nil (List.forall_mem_nil _)
      case h_2 =>
        obtain ⟨_, hentries, hvalue⟩ := Option.map_eq_some_iff.mp h
        cases hvalue
        exact wellFormed_ofEntries (hreads.entries hentries)
  case h_7 => exact wellFormed_of_number? h

theorem ReadsWellFormed.items_succ (hreads : ReadsWellFormed fuel)
    (h : items? (fuel + 1) depth cs = some (items, rest)) : ∀ item ∈ items, WellFormed depth item := by
  unfold items? at h
  dsimp only at h
  split at h
  case h_1 => cases h
  case h_2 item _ hvalue =>
    have hitem := hreads.value hvalue
    split at h
    case h_1 =>
      cases h
      exact List.forall_mem_singleton.mpr hitem
    case h_2 =>
      obtain ⟨_, hitems, hall⟩ := Option.map_eq_some_iff.mp h
      cases hall
      exact List.forall_mem_cons.mpr ⟨hitem, hreads.items hitems⟩
    case h_3 => cases h

theorem ReadsWellFormed.entries_succ (hreads : ReadsWellFormed fuel)
    (h : entries? (fuel + 1) depth cs = some (entries, rest)) :
    ∀ entry ∈ entries, WellFormed depth entry.2 := by
  unfold entries? at h
  dsimp only at h
  split at h
  case h_1 => cases h
  case h_2 =>
    split at h
    case h_1 => cases h
    case h_2 hvalue =>
      have hentry := hreads.value hvalue
      split at h
      case h_1 =>
        cases h
        exact List.forall_mem_singleton.mpr hentry
      case h_2 =>
        obtain ⟨_, hentries, hall⟩ := Option.map_eq_some_iff.mp h
        cases hall
        exact List.forall_mem_cons.mpr ⟨hentry, hreads.entries hentries⟩
      case h_3 => cases h

theorem readsWellFormed (fuel : Nat) : ReadsWellFormed fuel := by
  induction fuel with
  | zero => exact ⟨nofun, nofun, nofun⟩
  | succ fuel ih => exact ⟨ih.value_succ, ih.items_succ, ih.entries_succ⟩

theorem wellFormed_of_parse? {text : String} (h : parse? text = some value) : WellFormed depthLimit value := by
  unfold parse? at h
  dsimp only at h
  split at h
  case h_1 hread =>
    split at h
    case isTrue =>
      cases h
      exact (readsWellFormed _).value hread
    case isFalse => cases h
  case h_2 => cases h

end PageLoads.Json
