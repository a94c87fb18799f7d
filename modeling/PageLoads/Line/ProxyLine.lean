import PageLoads.Duration
import PageLoads.Line.Stamp
import PageLoads.Traffic.Counters

namespace PageLoads.Line

def periodicStats : Pattern where
  name := "periodic stats"
  tokens := [.literal "cstp= ", .number "cstp",
    .literal ": recv_so_far: all_bytes= ", .number "recv_all_bytes",
    .literal " useful_bytes= ", .number "recv_useful_bytes",
    .literal " dummy_cells= ", .number "recv_dummy_cells",
    .literal " ; send_so_far: all_bytes= ", .number "send_all_bytes",
    .literal " useful_bytes= ", .number "send_useful_bytes",
    .literal " dummy_cells= ", .number "send_dummy_cells",
    .literal " dummy_cells_avoided_so_far= ", .number "avoided_send_dummy_cells", .skip]

def handlerStats : Pattern where
  name := "handler stats"
  tokens := [.literal "csphandler= ", .number "csphandler", .literal ": with peer ", .skip,
    .literal " recv: all_bytes= ", .number "recv_all_bytes",
    .literal " useful_bytes= ", .number "recv_useful_bytes",
    .literal " dummy_cells= ", .number "recv_dummy_cells",
    .literal " ; send: all_bytes= ", .number "send_all_bytes",
    .literal " useful_bytes= ", .number "send_useful_bytes",
    .literal " dummy_cells= ", .number "send_dummy_cells",
    .literal " dummy_cells_avoided= ", .number "avoided_send_dummy_cells", .skip]

inductive ProxyLine where
  | running (report : Report)
  | handler (report : Report)
  deriving DecidableEq, Repr

namespace ProxyLine

def counters (fields : Fields) : Except Fault Counters := do
  return {
    receivedBytes := ← fields.word64 "recv_all_bytes"
    receivedUsefulBytes := ← fields.word64 "recv_useful_bytes"
    receivedDummyCells := ← fields.word64 "recv_dummy_cells"
    sentBytes := ← fields.word64 "send_all_bytes"
    sentUsefulBytes := ← fields.word64 "send_useful_bytes"
    sentDummyCells := ← fields.word64 "send_dummy_cells"
    avoidedDummyCells := ← fields.word64 "avoided_send_dummy_cells" }

def report (time : List Char) (fields : Fields) : Except Fault Report := do
  return ⟨← Duration.parse (String.ofList time), ← counters fields⟩

def ofMessage (time message : List Char) : Except Fault (Option ProxyLine) :=
  match periodicStats.fields? message with
  | some fields => (some ∘ .running) <$> report time fields
  | none =>
    match handlerStats.fields? message with
    | some fields => (some ∘ .handler) <$> report time fields
    | none => .ok none

def ofLine (line : List Char) : Except Fault (Option ProxyLine) :=
  match split? line with
  | some (time, message) => ofMessage time message
  | none => .ok none

end ProxyLine

end PageLoads.Line
