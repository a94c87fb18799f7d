import PageLoads.Proofs.Json.Number
import PageLoads.Proofs.Json.Text
import PageLoads.Proofs.Json.Value

/-!
# Reading printed values back

A well-formed value is read back from the lines it is printed on, if each double in it is read back from its
digits. Each kind of value is read back where its parts are, on whatever line it begins and whatever follows
it, so the whole goes by induction on the value.
-/

namespace PageLoads.Json

open PageLoads.Text

variable {depth : Nat} {value : Json} {items : List Json} {entries : List (String × Json)}

/-- A double that is read back from the digits that are printed for it. -/
def Legible (x : Binary64) : Prop :=
  ∀ rest, EndsNumber rest → number? (x.json.toList ++ rest) = some (.double x, rest)

/-- A value is read back from its lines, whatever follows them, by a reader that may read twice as often as
there are characters. -/
def ReadsBack (depth : Nat) (value : Json) : Prop :=
  ∀ fuel level rest, 2 * (pretty level value).length < fuel → EndsNumber rest →
    value? fuel depth (pretty level value ++ rest) = some (value, rest)

theorem readsBack_of_succ (h : ∀ fuel level rest, 2 * (pretty level value).length ≤ fuel → EndsNumber rest →
    value? (fuel + 1) depth (pretty level value ++ rest) = some (value, rest)) : ReadsBack depth value := by
  intro fuel level rest hfuel hrest
  obtain ⟨fuel, rfl⟩ : ∃ fuel', fuel = fuel' + 1 := ⟨fuel - 1, by omega⟩
  exact h fuel level rest (by omega) hrest

theorem skipSpace_cons {c : Char} (h : isSpace c = false) (cs : List Char) : skipSpace (c :: cs) = c :: cs := by
  simp [skipSpace, h]

theorem skipSpace_newLine (level : Nat) (cs : List Char) : skipSpace (newLine level ++ cs) = skipSpace cs := by
  have hblank : ∀ c ∈ newLine level, isSpace c := by
    intro c hc
    rcases List.mem_cons.mp hc with rfl | hc
    · rfl
    · rw [List.eq_of_mem_replicate hc]
      rfl
  exact List.dropWhile_append_of_pos hblank

theorem length_newLine (level : Nat) : (newLine level).length = 2 * level + 1 := by
  simp [newLine]

theorem endsNumber_newLine (level : Nat) (cs : List Char) : EndsNumber (newLine level ++ cs) :=
  endsNumber_cons (by decide) _

variable {fuel : Nat} {cs rest rest' : List Char} {found : Json × List Char}

/-- A number is read as one, as none of the other kinds begins like it. -/
theorem value?_of_number? (h : number? cs = some found) : value? (fuel + 1) depth cs = some found := by
  have hother {c : Char} {rest : List Char} (hcs : cs = c :: rest) (hc : isAsciiDigit c = false ∧ c ≠ '-') :
      False := by
    rw [hcs, number?_eq_none (by simpa using hc)] at h
    cases h
  unfold value?
  dsimp only
  split
  case h_7 => exact h
  all_goals exact (hother rfl (by decide)).elim

theorem value?_eq_none {c : Char} (h : isAsciiDigit c = false ∧ c ∉ ['-', 'n', 't', 'f', '"', '[', '\x7b'])
    (cs : List Char) : value? fuel depth (c :: cs) = none := by
  obtain ⟨hdigit, hkinds⟩ := h
  simp only [List.mem_cons, not_or] at hkinds
  cases fuel with
  | zero => rfl
  | succ fuel =>
    unfold value?
    dsimp only
    split
    case h_7 => exact number?_eq_none (by simp [hdigit, hkinds])
    all_goals
      rename_i heq
      cases heq
      simp at hkinds

theorem skipSpace_of_value? (h : value? fuel depth cs = some found) : skipSpace cs = cs := by
  cases cs with
  | nil => rfl
  | cons c cs =>
    cases hspace : isSpace c with
    | false => exact skipSpace_cons hspace cs
    | true =>
      have hkind : isAsciiDigit c = false ∧ c ∉ ['-', 'n', 't', 'f', '"', '[', '\x7b'] := by
        simp only [isSpace, Bool.or_eq_true, decide_eq_true_eq] at hspace
        rcases hspace with ((rfl | rfl) | rfl) | rfl <;> decide
      rw [value?_eq_none hkind] at h
      cases h

variable {item : Json} {last : List Char}

theorem items?_last (hitem : value? fuel depth cs = some (item, rest)) (hend : skipSpace rest = ']' :: last) :
    items? (fuel + 1) depth cs = some ([item], last) := by
  simp only [items?, hitem, hend]

theorem items?_more (hitem : value? fuel depth cs = some (item, rest)) (hcomma : skipSpace rest = ',' :: rest')
    (hitems : items? fuel depth (skipSpace rest') = some (items, last)) :
    items? (fuel + 1) depth cs = some (item :: items, last) := by
  simp only [items?, hitem, hcomma, hitems, Option.map_some]

theorem items?_bracket (cs : List Char) : items? fuel depth (']' :: cs) = none := by
  cases fuel with
  | zero => rfl
  | succ fuel => rw [items?, value?_eq_none (by decide)]

theorem prettyItems_cons_cons (level : Nat) (item next : Json) (items : List Json) :
    prettyItems level (item :: next :: items) =
      newLine level ++ pretty level item ++ ',' :: prettyItems level (next :: items) := by
  rw [prettyItems]
  nofun

/-- Items are read back from their lines, the bracket on a line of its own behind them. -/
theorem items?_prettyItems (fuel level lower : Nat) (rest : List Char)
    (hitems : ∀ part ∈ item :: items, ReadsBack depth part)
    (hfuel : 2 * (prettyItems level (item :: items)).length ≤ fuel) :
    items? fuel depth (skipSpace (prettyItems level (item :: items) ++ (newLine lower ++ ']' :: rest))) =
      some (item :: items, rest) := by
  have hbracket : skipSpace (newLine lower ++ ']' :: rest) = ']' :: rest := by
    rw [skipSpace_newLine, skipSpace_cons (by decide)]
  induction items generalizing item fuel with
  | nil =>
    have hlength : (prettyItems level [item]).length = 2 * level + 1 + (pretty level item).length := by
      simp [prettyItems, length_newLine]
    obtain ⟨fuel, rfl⟩ : ∃ fuel', fuel = fuel' + 1 := ⟨fuel - 1, by omega⟩
    have hitem := hitems item List.mem_cons_self fuel level _ (by omega)
      (endsNumber_newLine lower (']' :: rest))
    rw [prettyItems, List.append_assoc, skipSpace_newLine, skipSpace_of_value? hitem]
    exact items?_last hitem hbracket
  | cons next items ih =>
    have hlength : (prettyItems level (item :: next :: items)).length =
        2 * level + 1 + (pretty level item).length + 1 + (prettyItems level (next :: items)).length := by
      simp [prettyItems, length_newLine]
      omega
    obtain ⟨fuel, rfl⟩ : ∃ fuel', fuel = fuel' + 1 := ⟨fuel - 1, by omega⟩
    have hitem := hitems item List.mem_cons_self fuel level _ (by omega)
      (endsNumber_cons (c := ',') (by decide)
        (prettyItems level (next :: items) ++ (newLine lower ++ ']' :: rest)))
    have hrest := ih fuel (fun part hpart => hitems part (List.mem_cons_of_mem _ hpart)) (by omega)
    rw [prettyItems_cons_cons, List.append_assoc, List.append_assoc, skipSpace_newLine, List.cons_append,
      skipSpace_of_value? hitem]
    exact items?_more hitem (skipSpace_cons (by decide) _) hrest

theorem readsBack_array (hitems : ∀ item ∈ items, ReadsBack depth item) :
    ReadsBack (depth + 1) (.array items) := by
  refine readsBack_of_succ fun fuel level rest hfuel _ => ?_
  cases items with
  | nil => rfl
  | cons item items =>
    have hlength : (prettyItems (level + 1) (item :: items)).length + 2 ≤
        (pretty level (.array (item :: items))).length := by
      simp [pretty]
    have htext : pretty level (.array (item :: items)) ++ rest =
        '[' :: (prettyItems (level + 1) (item :: items) ++ (newLine level ++ ']' :: rest)) := by
      simp [pretty]
    have hread := items?_prettyItems fuel (level + 1) level rest hitems (by omega)
    rw [htext, value?]
    dsimp only
    rw [if_neg (Nat.succ_ne_zero depth)]
    split
    case h_1 heq =>
      rw [heq, items?_bracket] at hread
      cases hread
    case h_2 => rw [Nat.add_sub_cancel, hread, Option.map_some]

variable {key : String}

theorem entries?_last {behind : List Char} (hkey : key? cs = some (key, behind))
    (hvalue : value? fuel depth behind = some (value, rest)) (hend : skipSpace rest = '\x7d' :: last) :
    entries? (fuel + 1) depth cs = some ([(key, value)], last) := by
  simp only [entries?, hkey, hvalue, hend]

theorem entries?_more {behind : List Char} (hkey : key? cs = some (key, behind))
    (hvalue : value? fuel depth behind = some (value, rest)) (hcomma : skipSpace rest = ',' :: rest')
    (hentries : entries? fuel depth (skipSpace rest') = some (entries, last)) :
    entries? (fuel + 1) depth cs = some ((key, value) :: entries, last) := by
  simp only [entries?, hkey, hvalue, hcomma, hentries, Option.map_some]

theorem entries?_brace (cs : List Char) : entries? fuel depth ('\x7d' :: cs) = none := by
  cases fuel with
  | zero => rfl
  | succ fuel => simp [entries?, key?]

theorem prettyEntries_cons_cons (level : Nat) (key : String) (value : Json) (next : String × Json)
    (entries : List (String × Json)) :
    prettyEntries level ((key, value) :: next :: entries) =
      newLine level ++ quoted key ++ ':' :: ' ' :: pretty level value ++
        ',' :: prettyEntries level (next :: entries) := by
  rw [prettyEntries]
  nofun

/-- The key of an entry is read from the entry's line, up to a value that is read in its turn. -/
theorem key?_line (level : Nat) (key : String) (hvalue : value? fuel depth cs = some found) :
    key? (skipSpace (newLine level ++ (quoted key ++ ':' :: ' ' :: cs))) = some (key, cs) := by
  have hquote : skipSpace (quoted key ++ ':' :: ' ' :: cs) = quoted key ++ ':' :: ' ' :: cs :=
    skipSpace_cons (by decide) _
  rw [skipSpace_newLine, hquote, key?_quoted, skipSpace_of_value? hvalue]

/-- Entries are read back from their lines, the brace on a line of its own behind them. -/
theorem entries?_prettyEntries {entry : String × Json} (fuel level lower : Nat) (rest : List Char)
    (hentries : ∀ part ∈ entry :: entries, ReadsBack depth part.2)
    (hfuel : 2 * (prettyEntries level (entry :: entries)).length ≤ fuel) :
    entries? fuel depth
        (skipSpace (prettyEntries level (entry :: entries) ++ (newLine lower ++ '\x7d' :: rest))) =
      some (entry :: entries, rest) := by
  have hbrace : skipSpace (newLine lower ++ '\x7d' :: rest) = '\x7d' :: rest := by
    rw [skipSpace_newLine, skipSpace_cons (by decide)]
  induction entries generalizing entry fuel with
  | nil =>
    obtain ⟨key, value⟩ := entry
    have htext : prettyEntries level [(key, value)] ++ (newLine lower ++ '\x7d' :: rest) =
        newLine level ++ (quoted key ++ ':' :: ' ' ::
          (pretty level value ++ (newLine lower ++ '\x7d' :: rest))) := by
      simp [prettyEntries]
    have hlength : 2 * level + 1 + (pretty level value).length ≤
        (prettyEntries level [(key, value)]).length := by
      simp [prettyEntries, length_newLine]
      omega
    obtain ⟨fuel, rfl⟩ : ∃ fuel', fuel = fuel' + 1 := ⟨fuel - 1, by omega⟩
    have hreads : ReadsBack depth value := hentries (key, value) List.mem_cons_self
    have hvalue := hreads fuel level _ (by omega) (endsNumber_newLine lower ('\x7d' :: rest))
    rw [htext]
    exact entries?_last (key?_line level key hvalue) hvalue hbrace
  | cons next entries ih =>
    obtain ⟨key, value⟩ := entry
    have htext : prettyEntries level ((key, value) :: next :: entries) ++ (newLine lower ++ '\x7d' :: rest) =
        newLine level ++ (quoted key ++ ':' :: ' ' :: (pretty level value ++
          ',' :: (prettyEntries level (next :: entries) ++ (newLine lower ++ '\x7d' :: rest)))) := by
      simp [prettyEntries_cons_cons]
    have hlength : 2 * level + 2 + (pretty level value).length +
        (prettyEntries level (next :: entries)).length ≤
          (prettyEntries level ((key, value) :: next :: entries)).length := by
      simp [prettyEntries_cons_cons, length_newLine]
      omega
    obtain ⟨fuel, rfl⟩ : ∃ fuel', fuel = fuel' + 1 := ⟨fuel - 1, by omega⟩
    have hreads : ReadsBack depth value := hentries (key, value) List.mem_cons_self
    have hvalue := hreads fuel level _ (by omega) (endsNumber_cons (c := ',') (by decide)
      (prettyEntries level (next :: entries) ++ (newLine lower ++ '\x7d' :: rest)))
    have hrest := ih fuel (fun part hpart => hentries part (List.mem_cons_of_mem _ hpart)) (by omega)
    rw [htext]
    exact entries?_more (key?_line level key hvalue) hvalue (skipSpace_cons (by decide) _) hrest

theorem readsBack_object (hasc : KeyedList.Ascending entries)
    (hentries : ∀ entry ∈ entries, ReadsBack depth entry.2) : ReadsBack (depth + 1) (.object entries) := by
  refine readsBack_of_succ fun fuel level rest hfuel _ => ?_
  cases entries with
  | nil => rfl
  | cons entry entries =>
    have hlength : (prettyEntries (level + 1) (entry :: entries)).length + 2 ≤
        (pretty level (.object (entry :: entries))).length := by
      simp [pretty]
    have htext : pretty level (.object (entry :: entries)) ++ rest =
        '\x7b' :: (prettyEntries (level + 1) (entry :: entries) ++ (newLine level ++ '\x7d' :: rest)) := by
      simp [pretty]
    have hread := entries?_prettyEntries fuel (level + 1) level rest hentries (by omega)
    rw [htext, value?]
    dsimp only
    rw [if_neg (Nat.succ_ne_zero depth)]
    split
    case h_1 heq =>
      rw [heq, entries?_brace] at hread
      cases hread
    case h_2 => rw [Nat.add_sub_cancel, hread, Option.map_some, ofEntries, KeyedList.ofList_eq_self hasc]

theorem readsBack_of_number? (h : ∀ level rest, EndsNumber rest →
    number? (pretty level value ++ rest) = some (value, rest)) : ReadsBack depth value :=
  readsBack_of_succ fun _ level rest _ hrest => value?_of_number? (h level rest hrest)

theorem readsBack_text (s : String) : ReadsBack depth (.text s) := by
  refine readsBack_of_succ fun fuel level rest _ _ => ?_
  have htext : pretty level (.text s) ++ rest = '"' :: (s.toList.flatMap escaped ++ '"' :: rest) := by
    simp [pretty, scalar, quoted]
  rw [htext, value?]
  dsimp only
  rw [textBody?_printed, Option.map_some, String.ofList_toList]

theorem readsBack_null : ReadsBack depth .null :=
  readsBack_of_succ fun _ _ _ _ _ => rfl

theorem readsBack_bool (b : Bool) : ReadsBack depth (.bool b) :=
  readsBack_of_succ fun _ _ _ _ _ => by cases b <;> rfl

theorem WellFormed.readsBack (h : WellFormed depth value) (hlegible : value.EachDouble Legible) :
    ReadsBack depth value := by
  induction h with
  | null => exact readsBack_null
  | bool b => exact readsBack_bool b
  | integer hleast hgreatest =>
    exact readsBack_of_number? fun _ _ hrest => number?_integer hleast hgreatest hrest
  | double x => exact readsBack_of_number? fun _ rest hrest => hlegible.double rest hrest
  | text s => exact readsBack_text s
  | array _ ih => exact readsBack_array fun item hitem => ih item hitem (hlegible.item item hitem)
  | object hasc _ ih =>
    exact readsBack_object hasc fun entry hentry => ih entry hentry (hlegible.entry hasc entry hentry)

theorem WellFormed.parse?_pretty (h : WellFormed depthLimit value) (hlegible : value.EachDouble Legible) :
    parse? (String.ofList (pretty 0 value ++ ['\n'])) = some value := by
  have hfuel : 2 * (pretty 0 value).length < 2 * (pretty 0 value ++ ['\n']).length + 1 := by
    rw [List.length_append]
    omega
  have hread := h.readsBack hlegible _ 0 ['\n'] hfuel (endsNumber_cons (by decide) [])
  have hblank : skipSpace ['\n'] = [] := rfl
  rw [parse?, String.toList_ofList, skipSpace_of_value? hread, hread]
  exact if_pos hblank

end PageLoads.Json
