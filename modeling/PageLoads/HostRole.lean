import PageLoads.Settings
import PageLoads.Text.Stem

/-!
# Host roles

The name of a simulated host tells what its logs are: a web client's name begins with the stem of
clients, an exit relay's with the stem of relays and holds the exit marker. The logs of other hosts are
not read.
-/

namespace PageLoads

open PageLoads.Text

inductive HostRole where
  | webClient
  | exitRelay
  deriving DecidableEq, Repr

def HostRole.ofName? (settings : ParseSettings) (name : String) : Option HostRole :=
  if hasStem settings.clientStem name then some .webClient
  else if hasStem settings.relayStem name && holds settings.exitMarker.toList name.toList then
    some .exitRelay
  else none

end PageLoads
