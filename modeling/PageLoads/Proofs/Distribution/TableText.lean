import PageLoads.Distribution
import PageLoads.Proofs.Number.Fixed
import PageLoads.Text.Split

namespace PageLoads

open PageLoads.Text

namespace Text

variable {separator : Char}

theorem splitAt_append (front back : List Char) :
    splitAt separator (front ++ separator :: back) = splitAt separator front ++ splitAt separator back := by
  induction front with
  | nil => simp [splitAt]
  | cons c front ih =>
    by_cases hc : c = separator
    · simp [splitAt, hc, ih]
    · obtain ⟨part, parts, hparts⟩ := List.exists_cons_of_ne_nil (splitAt_ne_nil separator front)
      simp [splitAt, hc, ih, hparts]

/-- What stands before the first separator belongs to the first part. -/
theorem splitAt_append_of_not_mem {front : List Char} (h : separator ∉ front) {back part : List Char}
    {parts : List (List Char)} (hback : splitAt separator back = part :: parts) :
    splitAt separator (front ++ back) = (front ++ part) :: parts := by
  induction front with
  | nil => exact hback
  | cons c front ih =>
    obtain ⟨hc, hfront⟩ := not_or.mp (List.mem_cons.not.mp h)
    simp [splitAt, Ne.symm hc, ih hfront]

end Text

namespace Distribution

/-- The lines of a text, each of which a line feed ends. -/
def linesOf (text : String) : List (List Char) :=
  (splitAt '\n' text.toList).dropLast

def isComment (line : List Char) : Bool :=
  "# ".toList.isPrefixOf line

def rowOf (point : Point) : List Char :=
  (point.1.fixed 6 ++ "    " ++ point.2.fixed 6).toList

def printed (point : Point) : Point :=
  (point.1.toPlaces 6, point.2.toPlaces 6)

/-- Two numbers with blanks between them. -/
def point? (line : List Char) : Option Point :=
  match (splitAt ' ' line).filter (· ≠ []) with
  | [value, fraction] => do return (← Decimal.binary64? value, ← Decimal.binary64? fraction)
  | _ => none

/-- What is read of a text when the lines that begin as comments are dropped: the points of all other lines, if each
holds one. -/
def read? (text : String) : Option (List Point) :=
  ((linesOf text).filter fun line => !isComment line).mapM point?

/-- No line of a comment behind its first can be taken for a point. -/
def KeepsOff (comment : String) : Prop :=
  ∀ line ∈ (splitAt '\n' comment.toList).tail, isComment line = true

def commentLinesOf (comment : String) : List (List Char) :=
  splitAt '\n' ("# ".toList ++ comment.toList)

variable {comments : List String} {points : List Point}

theorem not_mem_fixed {c : Char} (h : Binary64.isPrinted c = false) (places : Nat) (x : Binary64) :
    c ∉ (x.fixed places).toList := by
  intro hmem
  rw [Binary64.isPrinted_of_mem_fixed hmem] at h
  cases h

theorem toList_rowOf (point : Point) :
    rowOf point = (point.1.fixed 6).toList ++ ("    ".toList ++ (point.2.fixed 6).toList) := by
  simp only [rowOf, String.toList_append, List.append_assoc]

theorem lineFeed_not_mem_rowOf (point : Point) : '\n' ∉ rowOf point := by
  rw [toList_rowOf]
  simp only [List.mem_append, not_or]
  exact ⟨not_mem_fixed (by decide) _ _, by decide, not_mem_fixed (by decide) _ _⟩

theorem fixed_ne_nil (places : Nat) (hplaces : 0 < places) (x : Binary64) : (x.fixed places).toList ≠ [] := by
  intro hnil
  have hread := Binary64.binary64?_fixed hplaces x
  rw [hnil] at hread
  cases hread

theorem isComment_rowOf (point : Point) : isComment (rowOf point) = false := by
  obtain ⟨c, rest, hfixed⟩ := List.exists_cons_of_ne_nil (fixed_ne_nil 6 (by decide) point.1)
  have hc : c ≠ '#' := by
    rintro rfl
    exact not_mem_fixed (by decide) 6 point.1 (hfixed ▸ List.mem_cons_self)
  rw [toList_rowOf, hfixed]
  simp [isComment, List.isPrefixOf, Ne.symm hc]

theorem point?_rowOf (point : Point) : point? (rowOf point) = some (printed point) := by
  have hvalue := not_mem_fixed (c := ' ') (by decide) 6 point.1
  have hfraction := not_mem_fixed (c := ' ') (by decide) 6 point.2
  have hcolumns : (splitAt ' ' (rowOf point)).filter (· ≠ []) =
      [(point.1.fixed 6).toList, (point.2.fixed 6).toList] := by
    have hblanks : rowOf point = (point.1.fixed 6).toList ++ ' ' ::
        ([] ++ ' ' :: ([] ++ ' ' :: ([] ++ ' ' :: (point.2.fixed 6).toList))) := toList_rowOf point
    have hne := fixed_ne_nil 6 (by decide)
    rw [hblanks, splitAt_append_cons hvalue, splitAt_append_cons List.not_mem_nil,
      splitAt_append_cons List.not_mem_nil, splitAt_append_cons List.not_mem_nil, splitAt_of_not_mem hfraction]
    simp [hne]
  rw [point?, hcolumns]
  simp only [Binary64.binary64?_fixed (by decide : 0 < 6), printed]
  rfl

theorem splitAt_flatMap_lines (lines : List (List Char)) :
    splitAt '\n' (lines.flatMap (· ++ ['\n'])) = lines.flatMap (splitAt '\n') ++ [[]] := by
  induction lines with
  | nil => rfl
  | cons line rest ih =>
    rw [List.flatMap_cons, List.append_assoc, List.singleton_append, splitAt_append, ih, List.flatMap_cons,
      List.append_assoc]

theorem text_comment_cons (comment : String) (comments : List String) (points : List Point) :
    text (comment :: comments) points = s!"# {comment}\n" ++ text comments points := by
  simp only [text, List.map_cons, String.join_cons, String.append_assoc]

theorem text_point_cons (point : Point) (points : List Point) :
    text [] (point :: points) = point.1.fixed 6 ++ "    " ++ point.2.fixed 6 ++ "\n" ++ text [] points := by
  simp only [text, List.map_nil, String.join_nil, String.empty_append, List.map_cons, String.join_cons]

theorem toList_text (comments : List String) (points : List Point) :
    (text comments points).toList =
      (comments.map (fun comment => "# ".toList ++ comment.toList) ++ points.map rowOf).flatMap (· ++ ['\n']) := by
  induction comments with
  | nil =>
    induction points with
    | nil => rfl
    | cons point rest ih =>
      simp only [text_point_cons, String.toList_append, ih, rowOf, List.map_nil, List.nil_append, List.map_cons,
        List.flatMap_cons]
      rfl
  | cons comment rest ih =>
    simp only [text_comment_cons, String.toList_append, ih, List.map_cons, List.cons_append, List.flatMap_cons]
    rfl

theorem linesOf_text (comments : List String) (points : List Point) :
    linesOf (text comments points) = comments.flatMap commentLinesOf ++ points.map rowOf := by
  have hrows : (points.map rowOf).flatMap (splitAt '\n') = points.map rowOf := by
    induction points with
    | nil => rfl
    | cons point rest ih =>
      rw [List.map_cons, List.flatMap_cons, splitAt_of_not_mem (lineFeed_not_mem_rowOf point), ih]
      rfl
  rw [linesOf, toList_text, splitAt_flatMap_lines, List.dropLast_concat, List.flatMap_append, hrows,
    List.flatMap_map]
  rfl

theorem exists_commentLinesOf_eq (comment : String) : ∃ first, isComment first = true ∧
    commentLinesOf comment = first :: (splitAt '\n' comment.toList).tail := by
  obtain ⟨first, rest, hsplit⟩ := List.exists_cons_of_ne_nil (splitAt_ne_nil '\n' comment.toList)
  refine ⟨"# ".toList ++ first, ?_, ?_⟩
  · rw [isComment, List.isPrefixOf_iff_prefix]
    exact List.prefix_append _ _
  · rw [commentLinesOf, splitAt_append_of_not_mem (by decide) hsplit, hsplit, List.tail_cons]

theorem commentLinesOf_of_not_mem {comment : String} (h : '\n' ∉ comment.toList) :
    commentLinesOf comment = ["# ".toList ++ comment.toList] := by
  refine splitAt_of_not_mem ?_
  simp only [List.mem_append, not_or]
  exact ⟨by decide, h⟩

theorem flatMap_commentLinesOf (h : ∀ comment ∈ comments, '\n' ∉ comment.toList) :
    comments.flatMap commentLinesOf = comments.map fun comment => "# ".toList ++ comment.toList := by
  induction comments with
  | nil => rfl
  | cons comment rest ih =>
    obtain ⟨hcomment, hrest⟩ := List.forall_mem_cons.mp h
    rw [List.flatMap_cons, commentLinesOf_of_not_mem hcomment, ih hrest]
    rfl

theorem keepsOff_of_not_mem {comment : String} (h : '\n' ∉ comment.toList) : KeepsOff comment := by
  intro line hline
  rw [splitAt_of_not_mem h] at hline
  cases hline

/-- The lines of comments that are left when those that begin as comments are dropped. -/
theorem filter_commentLines_eq_nil_iff :
    ((comments.flatMap commentLinesOf).filter fun line => !isComment line) = [] ↔
      ∀ comment ∈ comments, KeepsOff comment := by
  rw [List.filter_eq_nil_iff]
  simp only [List.mem_flatMap, forall_exists_index, and_imp, Bool.not_eq_true', Bool.not_eq_false]
  constructor
  · intro h comment hcomment line hline
    obtain ⟨first, _, hlines⟩ := exists_commentLinesOf_eq comment
    exact h line comment hcomment (hlines ▸ List.mem_cons_of_mem _ hline)
  · intro h line comment hcomment hline
    obtain ⟨first, hfirst, hlines⟩ := exists_commentLinesOf_eq comment
    rw [hlines] at hline
    rcases List.mem_cons.mp hline with rfl | hlater
    · exact hfirst
    · exact h comment hcomment line hlater

theorem mapM_rows (points : List Point) : (points.map rowOf).mapM point? = some (points.map printed) := by
  induction points with
  | nil => rfl
  | cons point rest ih => simp [List.mapM_cons, point?_rowOf, ih]

private theorem length_of_mapM {α β : Type} {f : α → Option β} {items : List α} {results : List β}
    (h : items.mapM f = some results) : results.length = items.length := by
  induction items generalizing results with
  | nil =>
    cases h
    rfl
  | cons item rest ih =>
    rw [List.mapM_cons] at h
    obtain ⟨first, _, h⟩ := Option.bind_eq_some_iff.mp h
    obtain ⟨others, hothers, h⟩ := Option.bind_eq_some_iff.mp h
    cases h
    rw [List.length_cons, List.length_cons, ih hothers]

/-- What is read of a table file is its points to six places, exactly if its comments keep off the rows. -/
theorem read?_text_iff (comments : List String) (points : List Point) :
    read? (text comments points) = some (points.map printed) ↔ ∀ comment ∈ comments, KeepsOff comment := by
  have hrows : ((points.map rowOf).filter fun line => !isComment line) = points.map rowOf := by
    refine List.filter_eq_self.mpr fun line hline => ?_
    obtain ⟨point, _, rfl⟩ := List.mem_map.mp hline
    rw [isComment_rowOf, Bool.not_false]
  rw [read?, linesOf_text, List.filter_append, hrows, ← filter_commentLines_eq_nil_iff]
  constructor
  · intro h
    -- Every line that is left is a point, so one line more would be one point more.
    have hlength := length_of_mapM h
    rw [List.length_append, List.length_map, List.length_map] at hlength
    exact List.length_eq_zero_iff.mp (by omega)
  · intro hnone
    rw [hnone, List.nil_append, mapM_rows]

end Distribution

end PageLoads
