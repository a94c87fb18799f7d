import PageLoads.Line.DriverLine
import PageLoads.Proofs.Except
import PageLoads.Proofs.Line.PlainStamp

namespace PageLoads.Line

open PageLoads.Text
open PageLoads.Pattern
open Fields (word32_of_get? word64_of_get? text_of_get?)

def startMessage (driver url : List Char) : List Char :=
  "driver= ".toList ++ (driver ++ (": start loading page [".toList ++ (url ++ "]".toList)))

/-- The text can stand before a separator: it is not empty, has no line feed and does not hold the separator. -/
structure StandsBefore (separator text : String) : Prop where
  ne_nil : text.toList ≠ []
  lineFeed_not_mem : '\n' ∉ text.toList
  not_infix : ¬ separator.toList <:+: text.toList

instance (separator text : String) : Decidable (StandsBefore separator text) :=
  decidable_of_iff (text.toList ≠ [] ∧ '\n' ∉ text.toList ∧ ¬ separator.toList <:+: text.toList)
    ⟨fun ⟨hne, hfeed, hinfix⟩ => ⟨hne, hfeed, hinfix⟩, fun ⟨hne, hfeed, hinfix⟩ => ⟨hne, hfeed, hinfix⟩⟩

theorem StandsBefore.preferred?_text_literal {separator text field : String} {tokens : List Token}
    {rest : List Char} {pieces : List (List Char)} (h : StandsBefore separator text)
    (hseparator : beginsOnce separator = true) (hrest : preferred? tokens rest = some pieces) :
    preferred? (.text field :: .literal separator :: tokens) (text.toList ++ (separator.toList ++ rest)) =
      some (text.toList :: separator.toList :: pieces) :=
  Pattern.preferred?_text_literal h.ne_nil h.not_infix hseparator hrest

namespace ResultLine

variable {result : ResultLine} {trailing : List Char}

def message (result : ResultLine) (trailing : List Char) : List Char :=
  "loadnum= ".toList ++ (Nat.toDigits 10 result.number.toNat ++
    (", webmode= ".toList ++ (result.webMode.toList ++
    (", proxyMode= ".toList ++ (result.proxyMode.toList ++
    (": loadResult= ".toList ++ (result.outcome.toList ++
    (": startSec= ".toList ++ (Nat.toDigits 10 result.startSecond.toNat ++
    (" plt= ".toList ++ (Nat.toDigits 10 result.loadMilliseconds.toNat ++
    (" page= [".toList ++ (result.url.toList ++
    ("] ttfb= ".toList ++ (Nat.toDigits 10 result.firstByteMilliseconds.toNat ++
    (" numReqs= ".toList ++ (Nat.toDigits 10 result.requests.toNat ++
    (" numSuccess= ".toList ++ (Nat.toDigits 10 result.succeededRequests.toNat ++
    (" numFailed= ".toList ++ (Nat.toDigits 10 result.failedRequests.toNat ++
    (" numAfterDOMLoadEvent= ".toList ++ (Nat.toDigits 10 result.requestsAfterDom.toNat ++
    (" numForced= ".toList ++ (Nat.toDigits 10 result.forcedRequests.toNat ++
    trailing)))))))))))))))))))))))))

/-- Each free text can stand before the separator that follows it in a message. -/
structure Writable (result : ResultLine) : Prop where
  webMode : StandsBefore ", proxyMode= " result.webMode
  proxyMode : StandsBefore ": loadResult= " result.proxyMode
  outcome : StandsBefore ": startSec= " result.outcome
  url : StandsBefore "] ttfb= " result.url

instance (result : ResultLine) : Decidable result.Writable :=
  decidable_of_iff
    (StandsBefore ", proxyMode= " result.webMode ∧ StandsBefore ": loadResult= " result.proxyMode ∧
      StandsBefore ": startSec= " result.outcome ∧ StandsBefore "] ttfb= " result.url)
    ⟨fun ⟨hweb, hproxy, houtcome, hurl⟩ => ⟨hweb, hproxy, houtcome, hurl⟩,
      fun ⟨hweb, hproxy, houtcome, hurl⟩ => ⟨hweb, hproxy, houtcome, hurl⟩⟩

def captures (result : ResultLine) : Captures :=
  [("loadnum", Nat.toDigits 10 result.number.toNat),
    ("webmode", result.webMode.toList),
    ("proxymode", result.proxyMode.toList),
    ("loadresult", result.outcome.toList),
    ("startsec", Nat.toDigits 10 result.startSecond.toNat),
    ("plt", Nat.toDigits 10 result.loadMilliseconds.toNat),
    ("url", result.url.toList),
    ("ttfb", Nat.toDigits 10 result.firstByteMilliseconds.toNat),
    ("numreqs", Nat.toDigits 10 result.requests.toNat),
    ("numsuccess", Nat.toDigits 10 result.succeededRequests.toNat),
    ("numfailed", Nat.toDigits 10 result.failedRequests.toNat),
    ("numafterdomload", Nat.toDigits 10 result.requestsAfterDom.toNat),
    ("numforced", Nat.toDigits 10 result.forcedRequests.toNat)]

theorem preferred?_message (h : result.Writable) (htrailing : ∀ c ∈ trailing.head?, isAsciiDigit c = false) :
    ∃ pieces, preferred? loadResult.tokens (result.message trailing) = some pieces ∧
      fieldsOf loadResult.tokens pieces = result.captures := by
  exact ⟨_, preferred?_literal _ <| preferred?_decimal_literal _ rfl <|
    h.webMode.preferred?_text_literal rfl <| h.proxyMode.preferred?_text_literal rfl <|
    h.outcome.preferred?_text_literal rfl <| preferred?_decimal_literal _ rfl <|
    preferred?_decimal_literal _ rfl <| h.url.preferred?_text_literal rfl <|
    preferred?_decimal_literal _ rfl <| preferred?_decimal_literal _ rfl <|
    preferred?_decimal_literal _ rfl <| preferred?_decimal_literal _ rfl <|
    preferred?_decimal_literal _ rfl <| preferred?_decimal _ htrailing <| preferred?_skip trailing, rfl⟩

theorem fields?_message (h : result.Writable) (htrailing : ∀ c ∈ trailing.head?, isAsciiDigit c = false) :
    loadResult.fields? (result.message trailing) = some ⟨loadResult.name, result.captures⟩ := by
  obtain ⟨pieces, hpieces, hcaptures⟩ := preferred?_message h htrailing
  rw [fields?_eq_some_of_preferred? hpieces, hcaptures]

theorem ofResult_captures {time : List Char} (htime : Duration.parse (String.ofList time) = .ok result.time) :
    DriverLine.ofResult time ⟨loadResult.name, result.captures⟩ = .ok (.result result) := by
  simp only [DriverLine.ofResult, Except.bind_eq_ok_iff]
  refine ⟨_, htime, _, word32_of_get? rfl, ?_⟩
  refine ⟨_, text_of_get? rfl, _, text_of_get? rfl, _, text_of_get? rfl, ?_⟩
  refine ⟨_, word64_of_get? rfl, _, word64_of_get? rfl, _, text_of_get? rfl, _, word64_of_get? rfl, ?_⟩
  refine ⟨_, word32_of_get? rfl, _, word32_of_get? rfl, _, word32_of_get? rfl, ?_⟩
  refine ⟨_, word32_of_get? rfl, _, word32_of_get? rfl, ?_⟩
  simp [pure, Except.pure]

theorem ofMessage_message (h : result.Writable) (htrailing : ∀ c ∈ trailing.head?, isAsciiDigit c = false)
    {time : List Char} (htime : Duration.parse (String.ofList time) = .ok result.time) :
    DriverLine.ofMessage time (result.message trailing) = .ok (some (.result result)) := by
  have hdriver : after? "driver= ".toList (result.message trailing) = none := rfl
  have hstart : startLoading.fields? (result.message trailing) = none :=
    fields?_eq_none_of_preferred? (preferred?_literal_eq_none hdriver)
  have hdom : domLoadEvent.fields? (result.message trailing) = none :=
    fields?_eq_none_of_preferred? (preferred?_literal_eq_none hdriver)
  rw [DriverLine.ofMessage, hstart, hdom, fields?_message h htrailing]
  simp only [ofResult_captures htime]
  rfl

theorem lineFeed_not_mem_message (h : result.Writable) (htrailing : '\n' ∉ trailing) :
    '\n' ∉ result.message trailing := by
  have hdigits := Decimal.lineFeed_not_mem_toDigits
  unfold message
  simp only [List.mem_append, not_or]
  refine ⟨by decide, hdigits _, by decide, h.webMode.lineFeed_not_mem, by decide,
    h.proxyMode.lineFeed_not_mem, by decide, h.outcome.lineFeed_not_mem, ?_⟩
  refine ⟨by decide, hdigits _, by decide, hdigits _, by decide, h.url.lineFeed_not_mem, ?_⟩
  refine ⟨by decide, hdigits _, by decide, hdigits _, by decide, hdigits _, ?_⟩
  exact ⟨by decide, hdigits _, by decide, hdigits _, by decide, hdigits _, htrailing⟩

end ResultLine

namespace DriverLine

theorem ofMessage_startMessage {time driver url : List Char} {t : Binary64}
    (htime : Duration.parse (String.ofList time) = .ok t) (hdriver : driver ≠ [])
    (hdigits : ∀ c ∈ driver, isAsciiDigit c) (hurl : url ≠ []) :
    ofMessage time (startMessage driver url) = .ok (some (.start t (String.ofList url))) := by
  have hpieces : preferred? startLoading.tokens (startMessage driver url) =
      some ["driver= ".toList, driver, ": start loading page [".toList, url, "]".toList] :=
    preferred?_literal _ (preferred?_number_literal hdriver hdigits rfl (preferred?_text_literal_nil hurl))
  have hfields : startLoading.fields? (startMessage driver url) =
      some ⟨startLoading.name, [("driver", driver), ("url", url)]⟩ :=
    fields?_eq_some_of_preferred? hpieces
  have hstart : ofStart time ⟨startLoading.name, [("driver", driver), ("url", url)]⟩ =
      .ok (.start t (String.ofList url)) :=
    Except.bind_eq_ok_iff.mpr ⟨t, htime, Except.bind_eq_ok_iff.mpr ⟨_, Fields.text_of_get? rfl, rfl⟩⟩
  rw [ofMessage, hfields]
  simp only [hstart]
  rfl

/-- A start and a result are read back from the lines that report them, behind any plain stamp. The page of a
start may hold the bracket that closes it. -/
theorem ofLine_startMessage_and_message {stamp : Stamp} {t : Binary64} (h : stamp.WellFormed)
    (hplain : stamp.Plain) (htime : Duration.parse (String.ofList stamp.time) = .ok t) :
    (∀ driver url : List Char, driver ≠ [] → (∀ c ∈ driver, isAsciiDigit c) → url ≠ [] → '\n' ∉ url →
      ofLine (stamp.text ++ startMessage driver url) = .ok (some (.start t (String.ofList url)))) ∧
    (∀ (result : ResultLine) (trailing : List Char), result.time = t → result.Writable →
      '\n' ∉ trailing → (∀ c ∈ trailing.head?, isAsciiDigit c = false) →
      ofLine (stamp.text ++ result.message trailing) = .ok (some (.result result))) := by
  constructor
  · intro driver url hdriver hdigits hurl hfeed
    have hmessage : '\n' ∉ startMessage driver url := by
      have hnumber : '\n' ∉ driver := fun hmem => absurd (hdigits _ hmem) (by decide)
      unfold startMessage
      simp only [List.mem_append, not_or]
      exact ⟨by decide, hnumber, by decide, hfeed, by decide⟩
    have hhead : (startMessage driver url).head? = some 'd' := rfl
    rw [ofLine, h.split?_eq hplain hmessage (by rw [hhead]; decide)]
    exact ofMessage_startMessage htime hdriver hdigits hurl
  · rintro result trailing rfl hresult hfeed htrailing
    have hmessage := ResultLine.lineFeed_not_mem_message hresult hfeed
    have hhead : (result.message trailing).head? = some 'l' := rfl
    rw [ofLine, h.split?_eq hplain hmessage (by rw [hhead]; decide)]
    exact ResultLine.ofMessage_message hresult htrailing htime

def stampOfMain : Stamp where
  time := "00:00:02".toList
  level := "INFO".toList
  gap := 2
  location := "main.cpp".toList
  number := "398".toList
  function := "run".toList
  blanks := 3

def resultOfMain : ResultLine where
  time := Binary64.ofNat 2
  number := 3
  webMode := "vanilla"
  proxyMode := "tor"
  outcome := "OK"
  startSecond := 1281
  loadMilliseconds := 2833
  url := "a]"
  firstByteMilliseconds := 824
  requests := 7
  succeededRequests := 7
  failedRequests := 0
  requestsAfterDom := 2
  forcedRequests := 2

theorem ofLine_startMessage_and_message_ofMain :
    ofLine (stampOfMain.text ++ startMessage "1".toList "a]".toList) =
      .ok (some (.start (Binary64.ofNat 2) (String.ofList "a]".toList))) ∧
    ofLine (stampOfMain.text ++ resultOfMain.message ", 1 left".toList) = .ok (some (.result resultOfMain)) := by
  have hstamp : stampOfMain.WellFormed := by decide +kernel
  have hplain : stampOfMain.Plain := by decide +kernel
  have htime : Duration.parse (String.ofList stampOfMain.time) = .ok (Binary64.ofNat 2) := by decide +kernel
  have hresult : resultOfMain.Writable := by decide +kernel
  have htrailing : ∀ c ∈ ", 1 left".toList.head?, isAsciiDigit c = false := by
    have hhead : ", 1 left".toList.head? = some ',' := rfl
    rw [hhead]
    rintro c ⟨⟩
    decide
  obtain ⟨hstart, hwritten⟩ := ofLine_startMessage_and_message hstamp hplain htime
  exact ⟨hstart _ _ (by decide) (List.all_eq_true.mp (by decide +kernel)) (by decide) (by decide),
    hwritten _ _ rfl hresult (by decide) htrailing⟩

end DriverLine

end PageLoads.Line
