import PageLoads.ResultFile.Codec
import PageLoads.ResultFile.Version
import PageLoads.Trial

/-!
# The layout of result files

A result file holds the version of its layout and one trial. The version is read on its own first, so a
file of another version is refused before its body is looked at; bytes after the trial are ignored. The
running totals are written in ascending order of the host names and are accepted in any order, the last
entry of a host counting.
-/

namespace PageLoads

namespace Codec

def mode : Codec ProxyMode :=
  choice ProxyMode.all

def reason : Codec FailureReason :=
  choice [.failed, .timedOut]

/-- The index of success is zero, that of failure one, with the reason behind it. -/
def outcome : Codec Outcome where
  write
    | .succeeded => writeNat 4 0
    | .failed why => writeNat 4 1 ++ reason.write why
  read content := do
    let (index, rest) ← readNat 4 content
    match index with
    | 0 => return (.succeeded, rest)
    | 1 =>
      let (why, rest) ← reason.read rest
      return (.failed why, rest)
    | _ => throw (refuse (.unknownVariant index 2))

def pageLoad : Codec PageLoad :=
  imap
    (fun (host, number, url, mode, outcome, startSecond, reportTime, loadMilliseconds,
        firstByteMilliseconds, requests, succeededRequests, failedRequests, requestsAfterDom,
        forcedRequests) =>
      { host, number, url, mode, outcome, startSecond, reportTime, loadMilliseconds,
        firstByteMilliseconds, requests, succeededRequests, failedRequests, requestsAfterDom,
        forcedRequests })
    (fun l =>
      (l.host, l.number, l.url, l.mode, l.outcome, l.startSecond, l.reportTime, l.loadMilliseconds,
        l.firstByteMilliseconds, l.requests, l.succeededRequests, l.failedRequests,
        l.requestsAfterDom, l.forcedRequests))
    (text.seq (word32.seq (text.seq (mode.seq (outcome.seq (word64.seq (binary64.seq (word64.seq
      (word64.seq (word32.seq (word32.seq (word32.seq (word32.seq word32)))))))))))))

def counters : Codec Counters :=
  imap
    (fun (receivedBytes, receivedUsefulBytes, receivedDummyCells, sentBytes, sentUsefulBytes,
        sentDummyCells, avoidedDummyCells) =>
      { receivedBytes, receivedUsefulBytes, receivedDummyCells, sentBytes, sentUsefulBytes,
        sentDummyCells, avoidedDummyCells })
    (fun c =>
      (c.receivedBytes, c.receivedUsefulBytes, c.receivedDummyCells, c.sentBytes, c.sentUsefulBytes,
        c.sentDummyCells, c.avoidedDummyCells))
    (word64.seq (word64.seq (word64.seq (word64.seq (word64.seq (word64.seq word64))))))

def report : Codec Report :=
  imap (fun (time, counters) => ⟨time, counters⟩) (fun r => (r.time, r.counters)) (binary64.seq counters)

def run : Codec Run :=
  imap (fun (release, startTime, completionTime) => ⟨release, startTime, completionTime⟩)
    (fun r => (r.release, r.startTime, r.completionTime)) (text.seq (text.seq text))

/-- The running totals as they stand in a file, in any order. -/
def running : Codec (List (String × List Report)) :=
  list (text.seq (list report))

def trial : Codec Trial :=
  imap
    (fun (run, description, loads, entries, handlers) =>
      { run, description, loads, running := KeyedList.ofList entries, handlers,
        ascending := KeyedList.ascending_ofList entries })
    (fun t => (t.run, t.description, t.loads, t.running, t.handlers))
    (run.seq (text.seq ((list pageLoad).seq (running.seq (list report)))))

end Codec

namespace ResultFile

/-- The bytes of a result file before compression. -/
def encode (trial : Trial) : Bytes :=
  Codec.writeNat 4 version ++ Codec.trial.write trial

/-- The trial in the content of a result file and the content behind it; the path is named in the
refusal of another version. -/
def read (path : String) (content : Content) : Except Cause (Trial × Content) := do
  let (found, rest) ← Codec.readNat 4 content
  if found ≠ version then throw (.fault (.otherVersion path found version))
  Codec.trial.read rest

def decode (path : String) (content : Content) : Except Cause Trial :=
  (read path content).map Prod.fst

end ResultFile

end PageLoads
