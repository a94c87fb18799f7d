import PageLoads.Line.ProxyLine
import PageLoads.Proofs.Except
import PageLoads.Proofs.Line.PlainStamp

namespace PageLoads.Line

open PageLoads.Text
open PageLoads.Pattern
open Fields (word64_of_get?)

/-- The labels by which the lists of counters of the two kinds of lines differ. -/
structure Labels where
  received : String
  sent : String
  avoided : String

namespace Labels

def ofRunning : Labels :=
  ⟨": recv_so_far: all_bytes= ", " ; send_so_far: all_bytes= ", " dummy_cells_avoided_so_far= "⟩

def ofHandler : Labels :=
  ⟨" recv: all_bytes= ", " ; send: all_bytes= ", " dummy_cells_avoided= "⟩

def readings (labels : Labels) (counters : Counters) (trailing : List Char) : List Char :=
  labels.received.toList ++ (Nat.toDigits 10 counters.receivedBytes.toNat ++
    (" useful_bytes= ".toList ++ (Nat.toDigits 10 counters.receivedUsefulBytes.toNat ++
    (" dummy_cells= ".toList ++ (Nat.toDigits 10 counters.receivedDummyCells.toNat ++
    (labels.sent.toList ++ (Nat.toDigits 10 counters.sentBytes.toNat ++
    (" useful_bytes= ".toList ++ (Nat.toDigits 10 counters.sentUsefulBytes.toNat ++
    (" dummy_cells= ".toList ++ (Nat.toDigits 10 counters.sentDummyCells.toNat ++
    (labels.avoided.toList ++ (Nat.toDigits 10 counters.avoidedDummyCells.toNat ++ trailing)))))))))))))

def tokens (labels : Labels) : List Token :=
  [.literal labels.received, .number "recv_all_bytes",
    .literal " useful_bytes= ", .number "recv_useful_bytes",
    .literal " dummy_cells= ", .number "recv_dummy_cells",
    .literal labels.sent, .number "send_all_bytes",
    .literal " useful_bytes= ", .number "send_useful_bytes",
    .literal " dummy_cells= ", .number "send_dummy_cells",
    .literal labels.avoided, .number "avoided_send_dummy_cells", .skip]

/-- The label of the sent bytes and that of the avoided cells begin with no digit. -/
def endNumbers (labels : Labels) : Bool :=
  labels.sent.toList.head?.any (fun c => !isAsciiDigit c) &&
    labels.avoided.toList.head?.any (fun c => !isAsciiDigit c)

end Labels

def capturesOf (counters : Counters) : Captures :=
  [("recv_all_bytes", Nat.toDigits 10 counters.receivedBytes.toNat),
    ("recv_useful_bytes", Nat.toDigits 10 counters.receivedUsefulBytes.toNat),
    ("recv_dummy_cells", Nat.toDigits 10 counters.receivedDummyCells.toNat),
    ("send_all_bytes", Nat.toDigits 10 counters.sentBytes.toNat),
    ("send_useful_bytes", Nat.toDigits 10 counters.sentUsefulBytes.toNat),
    ("send_dummy_cells", Nat.toDigits 10 counters.sentDummyCells.toNat),
    ("avoided_send_dummy_cells", Nat.toDigits 10 counters.avoidedDummyCells.toNat)]

variable {counters : Counters} {connection peer trailing : List Char}

theorem Labels.preferred?_readings (labels : Labels) (counters : Counters) (hlabels : labels.endNumbers)
    (htrailing : ∀ c ∈ trailing.head?, isAsciiDigit c = false) :
    ∃ pieces, preferred? labels.tokens (labels.readings counters trailing) = some pieces ∧
      fieldsOf labels.tokens pieces = capturesOf counters := by
  obtain ⟨hsent, havoided⟩ := Bool.and_eq_true_iff.mp hlabels
  exact ⟨_, preferred?_literal _ <| preferred?_decimal_literal _ rfl <| preferred?_decimal_literal _ rfl <|
    preferred?_decimal_literal _ hsent <| preferred?_decimal_literal _ rfl <|
    preferred?_decimal_literal _ rfl <| preferred?_decimal_literal _ havoided <|
    preferred?_decimal _ htrailing <| preferred?_skip trailing, rfl⟩

theorem Labels.lineFeed_not_mem_readings {labels : Labels} (hreceived : '\n' ∉ labels.received.toList)
    (hsent : '\n' ∉ labels.sent.toList) (havoided : '\n' ∉ labels.avoided.toList) (htrailing : '\n' ∉ trailing) :
    '\n' ∉ labels.readings counters trailing := by
  have hdigits := Decimal.lineFeed_not_mem_toDigits
  unfold readings
  simp only [List.mem_append, not_or]
  refine ⟨hreceived, hdigits _, by decide, hdigits _, by decide, hdigits _, hsent, hdigits _, ?_⟩
  exact ⟨by decide, hdigits _, by decide, hdigits _, havoided, hdigits _, htrailing⟩

def runningMessage (connection : List Char) (counters : Counters) (trailing : List Char) : List Char :=
  "cstp= ".toList ++ (connection ++ Labels.ofRunning.readings counters trailing)

/-- The message of the totals of a destroyed handler and the peer that it served. -/
def handlerMessage (connection peer : List Char) (counters : Counters) (trailing : List Char) : List Char :=
  "csphandler= ".toList ++ (connection ++
    (": with peer ".toList ++ (peer ++ Labels.ofHandler.readings counters trailing)))

theorem fields?_runningMessage (hne : connection ≠ []) (hdigits : ∀ c ∈ connection, isAsciiDigit c)
    (htrailing : ∀ c ∈ trailing.head?, isAsciiDigit c = false) :
    periodicStats.fields? (runningMessage connection counters trailing) =
      some ⟨periodicStats.name, ("cstp", connection) :: capturesOf counters⟩ := by
  obtain ⟨pieces, hpieces, hcaptures⟩ :=
    Labels.ofRunning.preferred?_readings counters (by decide) htrailing
  have hend : ∀ c ∈ (Labels.ofRunning.readings counters trailing).head?, isAsciiDigit c = false := by
    rintro c ⟨⟩
    decide
  have hmessage : preferred? periodicStats.tokens (runningMessage connection counters trailing) =
      some ("cstp= ".toList :: connection :: pieces) :=
    preferred?_literal _ (preferred?_number hne hdigits hend hpieces)
  rw [fields?_eq_some_of_preferred? hmessage, ← hcaptures]
  rfl

/-- The label behind a peer overlaps itself in one blank. If it begins within a peer that does not hold it, it ends
with the first blank of the label behind the peer, and no number follows it. -/
theorem preferred?_tokens_drop_eq_none (hpeer : ¬ Labels.ofHandler.received.toList <:+: peer) {length : Nat}
    (hlength : length < peer.length) :
    preferred? Labels.ofHandler.tokens ((peer ++ Labels.ofHandler.readings counters trailing).drop length) =
      none := by
  cases hafter : after? Labels.ofHandler.received.toList
      ((peer ++ Labels.ofHandler.readings counters trailing).drop length) with
  | none => exact preferred?_literal_eq_none hafter
  | some behind =>
    obtain ⟨front, back, hfront, hback, hlabel, hreadings⟩ := exists_overlap hpeer hlength hafter
    have hblank : back = [' '] := by
      have hagrees : agrees back Labels.ofHandler.received.toList = true := agrees_of_append_eq hreadings.symm
      have hborder : ∀ back ∈ Labels.ofHandler.received.toList.tail.tails,
          back ≠ [] → agrees back Labels.ofHandler.received.toList = true → back = [' '] := by
        decide
      have hmem : back ∈ Labels.ofHandler.received.toList.tail.tails := by
        obtain ⟨c, front, rfl⟩ := List.exists_cons_of_ne_nil hfront
        exact (List.mem_tails _ _).mpr ⟨front, by rw [hlabel]; rfl⟩
      exact hborder back hmem hback hagrees
    have hbehind : Labels.ofHandler.readings counters trailing = ' ' :: behind := by
      rw [hreadings, hblank, List.singleton_append]
    have hhead : behind.head? = some 'r' := congrArg (fun text => text.tail.head?) hbehind.symm
    have hnumber : ∀ c ∈ behind.head?, isAsciiDigit c = false := by
      rw [hhead]
      rintro c ⟨⟩
      decide
    rw [after?_eq_some_iff.mp hafter]
    exact preferred?_literal_append_eq_none _ (preferred?_number_eq_none hnumber)

theorem fields?_handlerMessage (hne : connection ≠ []) (hdigits : ∀ c ∈ connection, isAsciiDigit c)
    (hpeer : ¬ Labels.ofHandler.received.toList <:+: peer)
    (htrailing : ∀ c ∈ trailing.head?, isAsciiDigit c = false) :
    handlerStats.fields? (handlerMessage connection peer counters trailing) =
      some ⟨handlerStats.name, ("csphandler", connection) :: capturesOf counters⟩ := by
  obtain ⟨pieces, hpieces, hcaptures⟩ :=
    Labels.ofHandler.preferred?_readings counters (by decide) htrailing
  have hmessage : preferred? handlerStats.tokens (handlerMessage connection peer counters trailing) =
      some ("csphandler= ".toList :: connection :: ": with peer ".toList :: peer :: pieces) :=
    preferred?_literal _ <| preferred?_number_literal hne hdigits rfl <|
      preferred?_skip_append (fun _ => preferred?_tokens_drop_eq_none hpeer) hpieces
  rw [fields?_eq_some_of_preferred? hmessage, ← hcaptures]
  rfl

namespace ProxyLine

theorem counters_capturesOf {pattern field : String} (hfield : field ∉ Counters.names) :
    ProxyLine.counters ⟨pattern, (field, connection) :: capturesOf counters⟩ = .ok counters := by
  have hget (name : String) (hname : name ∈ Counters.names) :
      Fields.get? ⟨pattern, (field, connection) :: capturesOf counters⟩ name = (capturesOf counters).lookup name := by
    have hne : (name == field) = false := by
      rw [beq_eq_false_iff_ne]
      rintro rfl
      exact hfield hname
    rw [Fields.get?, List.lookup_cons, hne]
  simp only [ProxyLine.counters, Except.bind_eq_ok_iff]
  refine ⟨_, word64_of_get? (hget _ (by decide)), ?_⟩
  refine ⟨_, word64_of_get? (hget _ (by decide)), _, word64_of_get? (hget _ (by decide)), ?_⟩
  refine ⟨_, word64_of_get? (hget _ (by decide)), _, word64_of_get? (hget _ (by decide)), ?_⟩
  refine ⟨_, word64_of_get? (hget _ (by decide)), _, word64_of_get? (hget _ (by decide)), rfl⟩

theorem report_capturesOf {time : List Char} {t : Binary64} {pattern field : String}
    (htime : Duration.parse (String.ofList time) = .ok t) (hfield : field ∉ Counters.names) :
    report time ⟨pattern, (field, connection) :: capturesOf counters⟩ = .ok ⟨t, counters⟩ := by
  simp only [report, Except.bind_eq_ok_iff]
  exact ⟨t, htime, counters, counters_capturesOf hfield, rfl⟩

theorem ofMessage_runningMessage {time : List Char} {t : Binary64}
    (htime : Duration.parse (String.ofList time) = .ok t) (hne : connection ≠ [])
    (hdigits : ∀ c ∈ connection, isAsciiDigit c) (htrailing : ∀ c ∈ trailing.head?, isAsciiDigit c = false) :
    ofMessage time (runningMessage connection counters trailing) = .ok (some (.running ⟨t, counters⟩)) := by
  rw [ofMessage, fields?_runningMessage hne hdigits htrailing]
  simp only [report_capturesOf htime (by decide : "cstp" ∉ Counters.names)]
  rfl

theorem ofMessage_handlerMessage {time : List Char} {t : Binary64}
    (htime : Duration.parse (String.ofList time) = .ok t) (hne : connection ≠ [])
    (hdigits : ∀ c ∈ connection, isAsciiDigit c) (hpeer : ¬ Labels.ofHandler.received.toList <:+: peer)
    (htrailing : ∀ c ∈ trailing.head?, isAsciiDigit c = false) :
    ofMessage time (handlerMessage connection peer counters trailing) = .ok (some (.handler ⟨t, counters⟩)) := by
  have hclient : after? "cstp= ".toList (handlerMessage connection peer counters trailing) = none := rfl
  have hrunning : periodicStats.fields? (handlerMessage connection peer counters trailing) = none :=
    fields?_eq_none_of_preferred? (preferred?_literal_eq_none hclient)
  rw [ofMessage, hrunning, fields?_handlerMessage hne hdigits hpeer htrailing]
  simp only [report_capturesOf htime (by decide : "csphandler" ∉ Counters.names)]
  rfl

/-- The reports of a client and of a destroyed handler are read back from the lines that make them, behind any plain
stamp and whatever peer the handler served, with every counter in its own place. -/
theorem ofLine_runningMessage_and_handlerMessage {stamp : Stamp} {t : Binary64} (h : stamp.WellFormed)
    (hplain : stamp.Plain) (htime : Duration.parse (String.ofList stamp.time) = .ok t)
    (counters : Counters) {connection trailing : List Char} (hne : connection ≠ [])
    (hdigits : ∀ c ∈ connection, isAsciiDigit c) (hfeed : '\n' ∉ trailing)
    (htrailing : ∀ c ∈ trailing.head?, isAsciiDigit c = false) :
    ofLine (stamp.text ++ runningMessage connection counters trailing) = .ok (some (.running ⟨t, counters⟩)) ∧
    ∀ peer : List Char, '\n' ∉ peer → ¬ " recv: all_bytes= ".toList <:+: peer →
      ofLine (stamp.text ++ handlerMessage connection peer counters trailing) =
        .ok (some (.handler ⟨t, counters⟩)) := by
  have hnumber : '\n' ∉ connection := fun hmem => absurd (hdigits _ hmem) (by decide)
  constructor
  · have hmessage : '\n' ∉ runningMessage connection counters trailing := by
      have hreadings : '\n' ∉ Labels.ofRunning.readings counters trailing :=
        Labels.lineFeed_not_mem_readings (by decide) (by decide) (by decide) hfeed
      unfold runningMessage
      simp only [List.mem_append, not_or]
      exact ⟨by decide, hnumber, hreadings⟩
    have hhead : (runningMessage connection counters trailing).head? = some 'c' := rfl
    rw [ofLine, h.split?_eq hplain hmessage (by rw [hhead]; decide)]
    exact ofMessage_runningMessage htime hne hdigits htrailing
  · intro peer hpeerFeed hpeer
    have hmessage : '\n' ∉ handlerMessage connection peer counters trailing := by
      have hreadings : '\n' ∉ Labels.ofHandler.readings counters trailing :=
        Labels.lineFeed_not_mem_readings (by decide) (by decide) (by decide) hfeed
      unfold handlerMessage
      simp only [List.mem_append, not_or]
      exact ⟨by decide, hnumber, by decide, hpeerFeed, hreadings⟩
    have hhead : (handlerMessage connection peer counters trailing).head? = some 'c' := rfl
    rw [ofLine, h.split?_eq hplain hmessage (by rw [hhead]; decide)]
    exact ofMessage_handlerMessage htime hne hdigits hpeer htrailing

def stampOfReport : Stamp where
  time := "00:21:30.000".toList
  level := "INFO".toList
  gap := 2
  location := "csp_handler.cpp".toList
  number := "105".toList
  function := "_report_stats".toList
  blanks := 3

/-- The peer ends like the label behind it begins, so that the label seems to stand one blank too early. -/
theorem ofLine_runningMessage_and_handlerMessage_ofPeer :
    ofLine (stampOfReport.text ++ runningMessage "2".toList ⟨7, 6, 5, 4, 3, 2, 1⟩ " left".toList) =
      .ok (some (.running ⟨Binary64.ofNat 1290, ⟨7, 6, 5, 4, 3, 2, 1⟩⟩)) ∧
    ofLine (stampOfReport.text ++
        handlerMessage "2".toList " recv: all_bytes=".toList ⟨7, 6, 5, 4, 3, 2, 1⟩ " left".toList) =
      .ok (some (.handler ⟨Binary64.ofNat 1290, ⟨7, 6, 5, 4, 3, 2, 1⟩⟩)) := by
  have hstamp : stampOfReport.WellFormed := by decide +kernel
  have hplain : stampOfReport.Plain := by decide +kernel
  have htime : Duration.parse (String.ofList stampOfReport.time) = .ok (Binary64.ofNat 1290) := by decide +kernel
  have hdigits : ∀ c ∈ "2".toList, isAsciiDigit c := List.all_eq_true.mp (by decide)
  have htrailing : ∀ c ∈ " left".toList.head?, isAsciiDigit c = false := by
    rintro c ⟨⟩
    decide
  obtain ⟨hrunning, hhandler⟩ := ofLine_runningMessage_and_handlerMessage hstamp hplain htime
    ⟨7, 6, 5, 4, 3, 2, 1⟩ (by decide) hdigits (by decide) htrailing
  exact ⟨hrunning, hhandler _ (by decide) (by decide +kernel)⟩

end ProxyLine

end PageLoads.Line
