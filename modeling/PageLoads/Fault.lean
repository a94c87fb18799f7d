import PageLoads.Number.Printed
import PageLoads.Text.Utf8

/-!
# Faults

Everything that can go wrong, as causes with the data they are about, and the one text of each. A
`Fault` is about logs, files or their content, a `SettingsFault` about the settings, a `Crash` is an
arithmetic or memory limit. A `Failure` is a cause together with what was being done.
-/

namespace PageLoads

inductive IoFault where
  | notFound
  | notDirectory
  | isDirectory
  | nameTooLong
  | nullInPath
  /-- A line or file is not UTF-8. -/
  | notText
  /-- A file that should be compressed does not begin as one. -/
  | unknownFrame
  /-- A compressed file ends before a frame in it does. -/
  | incompleteFrame
  | unsupportedFrame
  /-- A frame was written with a dictionary. -/
  | foreignDictionary
  /-- A frame needs too many bytes at hand. -/
  | oversizedFrame
  | corruptFrame
  | outdatedFrame
  /-- A frame holds more than there is room for. -/
  | overfullFrame
  | truncatedPart
  /-- Too few literals stand in a frame for their form. -/
  | badLiterals
  | missingCode
  | wrongChecksum
  /-- A block of a frame is of a form that was never read. -/
  | unreadableBlock
  deriving DecidableEq, Repr

inductive FormatFault where
  | notDuration (text : String)
  | badField (field text : String)
  | badSeconds (field text : String)
  | missingField (pattern field : String)
  | notStartupBanner (line : String)
  | noInitBanner
  deriving DecidableEq, Repr

inductive RangeFault where
  | notPositive (text : String) (value : Binary64)
  | doesNotFit (pattern field digits : String)
  deriving DecidableEq, Repr

inductive Inconsistency where
  | domEventBeforeLoad
  | resultBeforeLoad
  | noOpenLoad (url : String)
  | otherUrl (found expected : String)
  | otherNumber (found expected : Nat)
  | unknownProxyMode (text : String)
  | unknownOutcome (text : String)
  | noDomEvent (number : Nat)
  | countersWentBackwards
  deriving DecidableEq, Repr

inductive ShutdownFault where
  | otherRelease (found expected : String)
  | notShutdownBanner (line : String)
  deriving DecidableEq, Repr

/-- Why a client's traffic since the cutoff is not known. -/
inductive DeltaFault where
  | noReport
  | singleReport
  | countersWentBackwards
  deriving DecidableEq, Repr

inductive DecodeFault where
  | endOfBytes
  | io (cause : IoFault)
  | unknownVariant (index count : Nat)
  | notText (cause : Text.Utf8Fault)
  deriving DecidableEq, Repr

inductive Fault where
  | format (line : Option Nat) (cause : FormatFault)
  | range (line : Option Nat) (cause : RangeFault)
  | inconsistentLog (line : Nat) (cause : Inconsistency)
  | uncleanShutdown (cause : ShutdownFault)
  | otherVersion (path : String) (found expected : Nat)
  | missingLog (tried : List String)
  | insufficientReports (host : String) (cause : DeltaFault)
  | io (cause : IoFault)
  | undecodable (cause : DecodeFault)
  deriving DecidableEq, Repr

inductive SettingsFault where
  | emptyParseSetting (name : String)
  | emptyAnalyzeSetting (name : String)
  | badSize (name : String) (value : Binary64)
  | badScale (value : Binary64)
  | badTime (name : String) (cause : Fault)
  | reversedTimes (startAfter doneBefore : Binary64)
  deriving DecidableEq, Repr

inductive Crash where
  | sumTooLarge
  | textTooLong
  deriving DecidableEq, Repr

inductive Activity where
  | parsingExperiment (path : String)
  | parsingSimulatorLog (path : String)
  | listingHosts (path : String)
  | listingHost (path : String)
  | openingLog (path : String)
  | parsingDriverLog (path : String)
  | parsingProxyLog (path : String)
  | creatingResultFile (path : String)
  | openingResultFile (path : String)
  | readingResultFile (path : String)
  | creatingTable (path : String)
  | totallingTraffic (path : String)
  | readingSummary (path : String)
  | writingSummary (path : String)
  | openingSettings (path : String)
  | parsingSettings (path : String)
  deriving DecidableEq, Repr

inductive Cause where
  | fault (cause : Fault)
  | settings (cause : SettingsFault)
  | notSettings
  | crash (cause : Crash)
  deriving DecidableEq, Repr

/-- A cause, and what was being done when it arose, the widest activity first. -/
structure Failure where
  doing : List Activity
  cause : Cause
  deriving DecidableEq, Repr

def IoFault.message : IoFault → String
  | .notFound => "No such file or directory (os error 2)"
  | .notDirectory => "Not a directory (os error 20)"
  | .isDirectory => "Is a directory (os error 21)"
  | .nameTooLong => "File name too long (os error 36)"
  | .nullInPath => "file name contained an unexpected NUL byte"
  | .notText => "stream did not contain valid UTF-8"
  | .unknownFrame => "Unknown frame descriptor"
  | .incompleteFrame => "incomplete frame"
  | .unsupportedFrame => "Unsupported frame parameter"
  | .foreignDictionary => "Dictionary mismatch"
  | .oversizedFrame => "Frame requires too much memory for decoding"
  | .corruptFrame => "Data corruption detected"
  | .outdatedFrame => "Version not supported"
  | .overfullFrame => "Destination buffer is too small"
  | .truncatedPart => "Src size is incorrect"
  | .badLiterals => "Header of Literals' block doesn't respect format specification"
  | .missingCode => "Dictionary is corrupted"
  | .wrongChecksum => "Restored data doesn't match checksum"
  | .unreadableBlock => "Error (generic)"

def FormatFault.message : FormatFault → String
  | .notDuration text => s!"\"{text}\" is not in hr:min:sec format"
  | .badField field text => s!"bad field \"{field}\" in \"{text}\""
  | .badSeconds field text => s!"bad seconds field \"{field}\" in \"{text}\""
  | .missingField pattern field => s!"{pattern} line has no field \"{field}\""
  | .notStartupBanner line => s!"expected startup banner, got \"{line}\""
  | .noInitBanner => "no \"Shadow initialized at\" banner"

def RangeFault.message : RangeFault → String
  | .notPositive text value => s!"duration \"{text}\" must be positive, got {value.plain}"
  | .doesNotFit pattern field digits => s!"{pattern} field \"{field}\" = {digits} does not fit"

def Inconsistency.message : Inconsistency → String
  | .domEventBeforeLoad => "DOM load event before any page load started"
  | .resultBeforeLoad => "load result before any page load started"
  | .noOpenLoad url => s!"load result for [{url}] with no open load"
  | .otherUrl found expected => s!"result url [{found}] != loading url [{expected}]"
  | .otherNumber found expected => s!"result loadnum {found} != expected loadnum {expected}"
  | .unknownProxyMode text => s!"unknown proxyMode \"{text}\""
  | .unknownOutcome text => s!"unknown loadResult \"{text}\""
  | .noDomEvent number => s!"load {number} succeeded without a DOM load event"
  | .countersWentBackwards => "running counters went backwards"

def ShutdownFault.message : ShutdownFault → String
  | .otherRelease found expected =>
    s!"release at shutdown \"{found}\" differs from release at start \"{expected}\""
  | .notShutdownBanner line => s!"last line is not a shutdown banner: \"{line}\""

def DeltaFault.message : DeltaFault → String
  | .noReport => "no report at or after the cutoff"
  | .singleReport => "the first report after the cutoff is also the last one"
  | .countersWentBackwards => "running counters went backwards"

def DecodeFault.message : DecodeFault → String
  | .endOfBytes => "io error: failed to fill whole buffer"
  | .io cause => s!"io error: {cause.message}"
  | .unknownVariant index count =>
    s!"invalid value: integer \x60{index}\x60, expected variant index 0 <= i < {count}"
  | .notText cause => s!"string is not valid utf8: {cause.message}"

def lineText : Option Nat → String
  | none => ""
  | some line => s!"line {line}: "

def Fault.message : Fault → String
  | .format line cause => s!"malformed input: {lineText line}{cause.message}"
  | .range line cause => s!"value out of range: {lineText line}{cause.message}"
  | .inconsistentLog line cause => s!"inconsistent log at line {line}: {cause.message}"
  | .uncleanShutdown cause => s!"simulation did not shut down cleanly: {cause.message}"
  | .otherVersion path found expected =>
    s!"file {path} has format version {found}, expected {expected}"
  | .missingLog tried => "no log file found, tried: " ++ ", ".intercalate tried
  | .insufficientReports host cause => s!"host {host}: {cause.message}"
  | .io cause => cause.message
  | .undecodable cause => s!"serialization failed: {cause.message}"

def SettingsFault.message : SettingsFault → String
  | .emptyParseSetting name => s!"Invalid parse configuration: {name} cannot be empty"
  | .emptyAnalyzeSetting name => s!"Invalid analyze configuration: {name} cannot be empty"
  | .badSize name value =>
    s!"Invalid analyze configuration: {name} must be a non-negative number, got {value.plain}"
  | .badScale value => s!"Invalid analyze configuration: time_scale must be positive, got {value.plain}"
  | .badTime name cause => s!"Invalid analyze configuration: {name}: {cause.message}"
  | .reversedTimes startAfter doneBefore =>
    s!"Invalid analyze configuration: start_after {startAfter.plain} is greater than done_before {doneBefore.plain}"

def Crash.message : Crash → String
  | .sumTooLarge => "attempt to add with overflow"
  | .textTooLong => "capacity overflow"

def Activity.message : Activity → String
  | .parsingExperiment path => s!"Failed to parse experiment: {path}"
  | .parsingSimulatorLog path => s!"Failed to parse simulator log: {path}"
  | .listingHosts path => s!"Failed to list hosts directory: {path}"
  | .listingHost path => s!"Failed to list host directory: {path}"
  | .openingLog path => s!"Failed to open {path}"
  | .parsingDriverLog path => s!"Failed to parse driver log: {path}"
  | .parsingProxyLog path => s!"Failed to parse proxy log: {path}"
  | .creatingResultFile path => s!"Failed to create result file: {path}"
  | .openingResultFile path => s!"Failed to open result file: {path}"
  | .readingResultFile path => s!"Failed to read result file: {path}"
  | .creatingTable path => s!"Failed to create CDF file: {path}"
  | .totallingTraffic path => s!"Failed to compute proxy totals of {path}"
  | .readingSummary path => s!"Failed to read summary file: {path}"
  | .writingSummary path => s!"Failed to write summary to {path}"
  | .openingSettings path => s!"Failed to open config file: {path}"
  | .parsingSettings path => s!"Failed to parse config file: {path}"

/-- The text of a cause; a file that holds no settings is described by the activity alone. -/
def Cause.message? : Cause → Option String
  | .fault cause => some cause.message
  | .settings cause => some cause.message
  | .notSettings => none
  | .crash cause => some cause.message

/-- The activities and the cause, widest first. A crash speaks for itself. -/
def Failure.message (failure : Failure) : String :=
  match failure.cause with
  | .crash cause => cause.message
  | cause => ": ".intercalate (failure.doing.map Activity.message ++ cause.message?.toList)

namespace Failure

def ofFault (cause : Fault) : Failure :=
  ⟨[], .fault cause⟩

def ofSettings (cause : SettingsFault) : Failure :=
  ⟨[], .settings cause⟩

def ofCrash (cause : Crash) : Failure :=
  ⟨[], .crash cause⟩

/-- The failure as seen from an activity that it is part of. -/
def during (activity : Activity) (failure : Failure) : Failure :=
  { failure with doing := activity :: failure.doing }

end Failure

/-- Names the line of a log in faults of format and range; the others name theirs already. -/
def Fault.atLine (line : Nat) : Fault → Fault
  | .format _ cause => .format (some line) cause
  | .range _ cause => .range (some line) cause
  | fault => fault

end PageLoads
