import PageLoads.Proofs.Line.Forms

namespace PageLoads

open PageLoads.Text
open PageLoads.Pattern

theorem Duration.failsExactly_parse (time : List Char) :
    FailsExactly (Duration.parse (String.ofList time)) (Line.TimeRefused time) := by
  refine ⟨Iff.rfl, fun line pattern field h => ?_⟩
  unfold Duration.parse at h
  split at h
  · simp only [Except.bind_eq_error_iff, wholeField, secondsField] at h
    rcases h with h | ⟨_, _, h | ⟨_, _, h | ⟨_, _, h⟩⟩⟩ <;> split at h <;> cases h
  · cases h

namespace Line

variable {time message : List Char} {fields : Fields}

def greatestWord32 : Nat :=
  UInt32.size - 1

def greatestWord64 : Nat :=
  UInt64.size - 1

namespace DriverLine

/-- The numbers of a reported result, under the names of their fields. -/
def numbers : DriverLine → List (String × Nat)
  | .start .. => []
  | .domEvent .. => []
  | .result line =>
    [("loadnum", line.number.toNat), ("startsec", line.startSecond.toNat), ("plt", line.loadMilliseconds.toNat),
      ("ttfb", line.firstByteMilliseconds.toNat), ("numreqs", line.requests.toNat),
      ("numsuccess", line.succeededRequests.toNat), ("numfailed", line.failedRequests.toNat),
      ("numafterdomload", line.requestsAfterDom.toNat), ("numforced", line.forcedRequests.toNat)]

def startForm : Form DriverLine where
  pattern := startLoading
  converted := []
  read := ofStart
  numbers := numbers

def domEventForm : Form DriverLine where
  pattern := domLoadEvent
  converted := []
  read time _ := ofDomEvent time
  numbers := numbers

def resultForm : Form DriverLine where
  pattern := loadResult
  converted := [("loadnum", greatestWord32), ("startsec", greatestWord64), ("plt", greatestWord64),
    ("ttfb", greatestWord64), ("numreqs", greatestWord32), ("numsuccess", greatestWord32),
    ("numfailed", greatestWord32), ("numafterdomload", greatestWord32), ("numforced", greatestWord32)]
  read := ofResult
  numbers := numbers

def forms : List (Form DriverLine) :=
  [startForm, domEventForm, resultForm]

theorem ofMessage_eq_classify (time message : List Char) : ofMessage time message = classify time message forms := by
  unfold ofMessage
  cases hstart : startLoading.fields? message with
  | some fields => simp [classify, forms, startForm, hstart]
  | none =>
    cases hevent : domLoadEvent.fields? message with
    | some fields => simp [classify, forms, startForm, domEventForm, hstart, hevent]
    | none =>
      cases hresult : loadResult.fields? message <;>
        simp [classify, forms, startForm, domEventForm, resultForm, hstart, hevent, hresult]

theorem exact_startForm : startForm.Exact where
  failsExactly h time := by
    refine .congr (.bind (Duration.failsExactly_parse time) fun _ => .bind_ok (exists_text h rfl) fun _ => .ok _) ?_
    simp [Form.NumberRefused, startForm]
  numbers_eq _ hread := by
    obtain ⟨_, _, hread⟩ := Except.bind_eq_ok_iff.mp hread
    obtain ⟨_, _, hread⟩ := Except.bind_eq_ok_iff.mp hread
    cases hread
    exact .nil

theorem exact_domEventForm : domEventForm.Exact where
  failsExactly _ time := by
    refine .congr (.bind (Duration.failsExactly_parse time) fun _ => .ok _) ?_
    simp [Form.NumberRefused, domEventForm]
  numbers_eq _ hread := by
    obtain ⟨_, _, hread⟩ := Except.bind_eq_ok_iff.mp hread
    cases hread
    exact .nil

theorem failsExactly_ofResult (h : loadResult.fields? message = some fields) (time : List Char) :
    FailsExactly (ofResult time fields) (TimeRefused time ∨ resultForm.NumberRefused fields) := by
  unfold ofResult
  refine .congr (.bind (Duration.failsExactly_parse time) fun _ =>
    .bind (failsExactly_word32 h rfl) fun _ =>
    .bind_ok (exists_text h rfl) fun _ => .bind_ok (exists_text h rfl) fun _ => .bind_ok (exists_text h rfl) fun _ =>
    .bind (failsExactly_word64 h rfl) fun _ => .bind (failsExactly_word64 h rfl) fun _ =>
    .bind_ok (exists_text h rfl) fun _ => .bind (failsExactly_word64 h rfl) fun _ =>
    .bind (failsExactly_word32 h rfl) fun _ => .bind (failsExactly_word32 h rfl) fun _ =>
    .bind (failsExactly_word32 h rfl) fun _ => .bind (failsExactly_word32 h rfl) fun _ =>
    .bind (failsExactly_word32 h rfl) fun _ => .ok _) ?_
  simp [Form.NumberRefused, resultForm, greatestWord32, greatestWord64]

theorem exact_resultForm : resultForm.Exact where
  failsExactly h time := failsExactly_ofResult h time
  numbers_eq h hread := by
    replace hread : ofResult _ _ = .ok _ := hread
    simp only [ofResult, Except.bind_eq_ok_iff] at hread
    obtain ⟨_, _, _, hnumber, _, _, _, _, _, _, _, hstart, _, hload, _, _, _, hfirst, hread⟩ := hread
    obtain ⟨_, hrequests, _, hsucceeded, _, hfailed, _, hafter, _, hforced, hread⟩ := hread
    cases hread
    refine .cons ⟨rfl, hasValue_of_word32 h rfl hnumber⟩ <| .cons ⟨rfl, hasValue_of_word64 h rfl hstart⟩ <|
      .cons ⟨rfl, hasValue_of_word64 h rfl hload⟩ <| .cons ⟨rfl, hasValue_of_word64 h rfl hfirst⟩ <| ?_
    exact .cons ⟨rfl, hasValue_of_word32 h rfl hrequests⟩ <| .cons ⟨rfl, hasValue_of_word32 h rfl hsucceeded⟩ <|
      .cons ⟨rfl, hasValue_of_word32 h rfl hfailed⟩ <| .cons ⟨rfl, hasValue_of_word32 h rfl hafter⟩ <|
      .cons ⟨rfl, hasValue_of_word32 h rfl hforced⟩ .nil

end DriverLine

namespace ProxyLine

/-- The counters of a report, under the names of their fields. -/
def numbers : ProxyLine → List (String × Nat)
  | .running report | .handler report => report.counters.named.map fun (name, counter) => (name, counter.toNat)

def formOf (pattern : Pattern) (line : Report → ProxyLine) : Form ProxyLine where
  pattern := pattern
  converted := Counters.names.map fun name => (name, greatestWord64)
  read time fields := line <$> report time fields
  numbers := numbers

def forms : List (Form ProxyLine) :=
  [formOf periodicStats .running, formOf handlerStats .handler]

theorem ofMessage_eq_classify (time message : List Char) : ofMessage time message = classify time message forms := by
  unfold ofMessage
  cases hrunning : periodicStats.fields? message with
  | some fields => cases hreport : report time fields <;> simp [classify, forms, formOf, hrunning, hreport]
  | none =>
    cases hhandler : handlerStats.fields? message with
    | some fields => cases hreport : report time fields <;> simp [classify, forms, formOf, hrunning, hhandler, hreport]
    | none => simp [classify, forms, formOf, hrunning, hhandler]

def hasCounters (pattern : Pattern) : Bool :=
  Counters.names.all pattern.hasNumber

theorem failsExactly_counters {pattern : Pattern} (hcounters : hasCounters pattern = true)
    (h : pattern.fields? message = some fields) :
    FailsExactly (counters fields) (∃ name ∈ Counters.names, fields.Exceeds name greatestWord64) := by
  have hnumber (name : String) (hname : name ∈ Counters.names) :
      FailsExactly (fields.word64 name) (fields.Exceeds name (UInt64.size - 1)) :=
    failsExactly_word64 h (List.all_eq_true.mp hcounters name hname)
  unfold counters
  refine .congr (.bind (hnumber _ (by decide)) fun _ => .bind (hnumber _ (by decide)) fun _ =>
    .bind (hnumber _ (by decide)) fun _ => .bind (hnumber _ (by decide)) fun _ =>
    .bind (hnumber _ (by decide)) fun _ => .bind (hnumber _ (by decide)) fun _ =>
    .bind (hnumber _ (by decide)) fun _ => .ok _) ?_
  simp [Counters.names, greatestWord64]

theorem hasValue_of_counters {pattern : Pattern} (hcounters : hasCounters pattern = true)
    (h : pattern.fields? message = some fields) {found : Counters} (hread : counters fields = .ok found) :
    List.Forall₂ (fun name number => fields.HasValue name number.toNat) Counters.names found.toList := by
  have hvalue {name : String} {n : UInt64} (hname : name ∈ Counters.names) (hn : fields.word64 name = .ok n) :
      fields.HasValue name n.toNat :=
    hasValue_of_word64 h (List.all_eq_true.mp hcounters name hname) hn
  simp only [counters, Except.bind_eq_ok_iff] at hread
  obtain ⟨_, h₁, _, h₂, _, h₃, _, h₄, _, h₅, _, h₆, _, h₇, hread⟩ := hread
  cases hread
  exact .cons (hvalue (by decide) h₁) <| .cons (hvalue (by decide) h₂) <| .cons (hvalue (by decide) h₃) <|
    .cons (hvalue (by decide) h₄) <| .cons (hvalue (by decide) h₅) <| .cons (hvalue (by decide) h₆) <|
    .cons (hvalue (by decide) h₇) .nil

private theorem forall₂_zip {α β : Type} {R : α → β → Prop} {items : List α} {others : List β}
    (h : List.Forall₂ R items others) :
    List.Forall₂ (fun item entry => entry.1 = item ∧ R item entry.2) items (items.zip others) := by
  induction h with
  | nil => exact .nil
  | cons hfirst _ ih => exact .cons ⟨rfl, hfirst⟩ ih

theorem exact_formOf {pattern : Pattern} {line : Report → ProxyLine} (hcounters : hasCounters pattern = true)
    (hline : ∀ report, numbers (line report) = report.counters.named.map fun (name, counter) => (name, counter.toNat)) :
    (formOf pattern line).Exact where
  failsExactly h time := by
    refine .congr (.map _ (.bind (Duration.failsExactly_parse time) fun _ =>
      .bind (failsExactly_counters hcounters h) fun _ => .ok _)) ?_
    simp [Form.NumberRefused, formOf]
  numbers_eq h hread := by
    obtain ⟨report, hreport, rfl⟩ := Except.map_eq_ok_iff.mp hread
    obtain ⟨_, _, hreport⟩ := Except.bind_eq_ok_iff.mp hreport
    obtain ⟨found, hfound, hreport⟩ := Except.bind_eq_ok_iff.mp hreport
    cases hreport
    simp only [formOf, hline, Counters.named, List.forall₂_map_left_iff, List.forall₂_map_right_iff]
    exact forall₂_zip (hasValue_of_counters hcounters h hfound)

end ProxyLine

section number

variable {digits other rest : List Char}

theorem DriverLine.ofStart_cons {pattern : String} {captures : Captures} :
    ofStart time ⟨pattern, ("driver", digits) :: captures⟩ = ofStart time ⟨pattern, captures⟩ := by
  simp only [ofStart, Fields.text, Fields.piece_cons (by decide : "url" ≠ "driver")]

theorem ProxyLine.report_cons {pattern name : String} {captures : Captures} (h : name ∉ Counters.names) :
    report time ⟨pattern, (name, digits) :: captures⟩ = report time ⟨pattern, captures⟩ := by
  have hpiece (field : String) (hfield : field ∈ Counters.names) :
      Fields.piece ⟨pattern, (name, digits) :: captures⟩ field = Fields.piece ⟨pattern, captures⟩ field :=
    Fields.piece_cons (ne_of_mem_of_not_mem hfield h)
  simp only [report, counters, Fields.word64, Fields.unsigned, Fields.numberBy]
  rw [hpiece _ (by decide), hpiece _ (by decide), hpiece _ (by decide), hpiece _ (by decide),
    hpiece _ (by decide), hpiece _ (by decide), hpiece _ (by decide)]

/-- The number of a driver may be any: a message is read in the same way with another one. -/
theorem DriverLine.ofMessage_driver (hdigits : IsNumeral digits) (hother : IsNumeral other)
    (hrest : ∀ c ∈ rest.head?, isAsciiDigit c = false) (time : List Char) :
    ofMessage time ("driver= ".toList ++ (digits ++ rest)) =
      ofMessage time ("driver= ".toList ++ (other ++ rest)) := by
  unfold ofMessage
  rw [fields?_number startLoading rfl rfl hdigits hrest,
    fields?_number startLoading rfl rfl hother hrest,
    fields?_number domLoadEvent rfl rfl hdigits hrest,
    fields?_number domLoadEvent rfl rfl hother hrest,
    fields?_eq_none_of_lead loadResult rfl (by decide),
    fields?_eq_none_of_lead loadResult rfl (by decide)]
  generalize preferred? (.literal ": start loading page [" :: _) rest = start
  generalize preferred? _ rest = domEvent
  cases start with
  | some pieces => simp only [Option.map_some, ofStart_cons]
  | none => cases domEvent <;> rfl

theorem ProxyLine.ofMessage_connection (hdigits : IsNumeral digits) (hother : IsNumeral other)
    (hrest : ∀ c ∈ rest.head?, isAsciiDigit c = false) (time : List Char) :
    ofMessage time ("cstp= ".toList ++ (digits ++ rest)) = ofMessage time ("cstp= ".toList ++ (other ++ rest)) ∧
    ofMessage time ("csphandler= ".toList ++ (digits ++ rest)) =
      ofMessage time ("csphandler= ".toList ++ (other ++ rest)) := by
  constructor
  · unfold ofMessage
    rw [fields?_number periodicStats rfl rfl hdigits hrest,
      fields?_number periodicStats rfl rfl hother hrest,
      fields?_eq_none_of_lead handlerStats rfl (by decide),
      fields?_eq_none_of_lead handlerStats rfl (by decide)]
    generalize preferred? _ rest = found
    cases found with
    | some pieces => simp only [Option.map_some, report_cons (by decide : "cstp" ∉ Counters.names)]
    | none => rfl
  · unfold ofMessage
    rw [fields?_eq_none_of_lead periodicStats rfl (by decide),
      fields?_eq_none_of_lead periodicStats rfl (by decide),
      fields?_number handlerStats rfl rfl hdigits hrest,
      fields?_number handlerStats rfl rfl hother hrest]
    generalize preferred? _ rest = found
    cases found with
    | some pieces => simp only [Option.map_some, report_cons (by decide : "csphandler" ∉ Counters.names)]
    | none => rfl

end number

theorem DriverLine.ofLine_eq_classifyLine (line : List Char) : ofLine line = classifyLine forms line := by
  unfold ofLine classifyLine
  cases split? line with
  | none => rfl
  | some parts => exact ofMessage_eq_classify parts.1 parts.2

theorem ProxyLine.ofLine_eq_classifyLine (line : List Char) : ofLine line = classifyLine forms line := by
  unfold ofLine classifyLine
  cases split? line with
  | none => rfl
  | some parts => exact ofMessage_eq_classify parts.1 parts.2

theorem DriverLine.isReaderOf_ofLine : IsReaderOf forms ofLine := by
  rw [funext ofLine_eq_classifyLine]
  refine isReaderOf_classifyLine ?_ ?_
  · have hapart : forms.Pairwise fun form other => apart form.pattern other.pattern = true := by decide
    exact hapart.imp fields?_eq_none_or_of_apart
  · simp only [forms, List.forall_mem_cons]
    exact ⟨exact_startForm, exact_domEventForm, exact_resultForm, by simp⟩

theorem ProxyLine.isReaderOf_ofLine : IsReaderOf forms ofLine := by
  rw [funext ofLine_eq_classifyLine]
  refine isReaderOf_classifyLine ?_ ?_
  · have hapart : forms.Pairwise fun form other => apart form.pattern other.pattern = true := by decide
    exact hapart.imp fields?_eq_none_or_of_apart
  · simp only [forms, List.forall_mem_cons]
    exact ⟨exact_formOf (by decide) fun _ => rfl, exact_formOf (by decide) fun _ => rfl, by simp⟩

def patterns : List Pattern :=
  [startLoading, domLoadEvent, loadResult, periodicStats, handlerStats]

/-- No message is matched by two of the five patterns, so driver lines and proxy lines are read alike in whatever
order the patterns are tried, and are refused exactly because of their times and the numbers that are converted.
The numbers that are not converted may have any number of digits. -/
theorem patterns_exclude_and_readers_exact :
    (patterns.Pairwise fun pattern other => ∀ message,
      pattern.fields? message = none ∨ other.fields? message = none) ∧
    IsReaderOf DriverLine.forms DriverLine.ofLine ∧ IsReaderOf ProxyLine.forms ProxyLine.ofLine ∧
    ∀ time digits other rest : List Char, IsNumeral digits → IsNumeral other →
      (∀ c ∈ rest.head?, isAsciiDigit c = false) →
        DriverLine.ofMessage time ("driver= ".toList ++ (digits ++ rest)) =
          DriverLine.ofMessage time ("driver= ".toList ++ (other ++ rest)) ∧
        ProxyLine.ofMessage time ("cstp= ".toList ++ (digits ++ rest)) =
          ProxyLine.ofMessage time ("cstp= ".toList ++ (other ++ rest)) ∧
        ProxyLine.ofMessage time ("csphandler= ".toList ++ (digits ++ rest)) =
          ProxyLine.ofMessage time ("csphandler= ".toList ++ (other ++ rest)) := by
  refine ⟨?_, DriverLine.isReaderOf_ofLine, ProxyLine.isReaderOf_ofLine, ?_⟩
  · have hapart : patterns.Pairwise fun pattern other => apart pattern other = true := by decide
    exact hapart.imp fields?_eq_none_or_of_apart
  · intro time digits other rest hdigits hother hrest
    exact ⟨DriverLine.ofMessage_driver hdigits hother hrest time,
      ProxyLine.ofMessage_connection hdigits hother hrest time⟩

end Line

end PageLoads
