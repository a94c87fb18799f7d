import PageLoads.CommandLine.Arguments
import PageLoads.Console
import PageLoads.Experiment
import PageLoads.SettingsFile

namespace PageLoads.CommandLine

def programName : String :=
  "process-result"

def versionText : String :=
  s!"{programName} 0.1.0\n"

def usage : String :=
  s!"usage: {programName} [options] parse <directory>\n   or: {programName} [options] analyze <file>..."

structure Ending where
  exitCode : Nat
  output : String
  complaint : String
  deriving DecidableEq, Repr

namespace Ending

def success (output : String) : Ending :=
  ⟨0, output, ""⟩

def ofFailure (failure : Failure) : Ending :=
  match failure.cause with
  | .crash _ => ⟨101, "", failure.message⟩
  | _ => ⟨1, "", failure.message⟩

def ofStop : Stop → Ending
  | .help => success ""
  | .version => success versionText
  | .wrongUsage => ⟨2, "", usage⟩

end Ending

/-- Reads the experiment in a directory into a result file. An existing result file is kept unless it
is to be replaced, and then the experiment is not read. -/
def runParse (store : Store) (settings : ParseSettings) (directory description : String) (force : Bool) :
    Except Failure Store :=
  if store.holds settings.outputFile && !force then .ok store
  else do
    let trial ← (Experiment.read store settings directory description).mapError
      (.during (.parsingExperiment directory))
    ResultFile.save store settings.outputFile trial

def ParseCommand.settings (command : ParseCommand) (base : ParseSettings) :
    Except Failure ParseSettings := do
  let settings := { base with outputFile := command.output.getD base.outputFile }
  (SettingsFault.refuse settings.violation?).mapError .ofSettings
  return settings

def ParseCommand.run (command : ParseCommand) (base : ParseSettings) (store : Store) :
    Store × Except Failure String :=
  let result := do
    runParse store (← command.settings base) command.directory command.description command.force
  match result with
  | .ok store => (store, .ok "")
  | .error failure => (store, .error failure)

def AnalyzeCommand.settings (command : AnalyzeCommand) (base : AnalyzeSettings) : AnalyzeSettings :=
  { base with
    firstByteBucket := command.firstByteBucket.getD base.firstByteBucket
    loadTimeBucket := command.loadTimeBucket.getD base.loadTimeBucket
    tableStem := command.tableStem.getD base.tableStem
    startAfter := command.startAfter.getD base.startAfter
    doneBefore := command.doneBefore <|> base.doneBefore }

def AnalyzeCommand.options (command : AnalyzeCommand) (base : AnalyzeSettings) :
    Except Failure AnalysisOptions := do
  let options ← (AnalysisOptions.ofSettings (command.settings base)).mapError .ofSettings
  return { options with
    selection := { options.selection with urls := command.urls }
    infoOnly := command.infoOnly
    loadsOnly := command.loadsOnly }

def AnalyzeCommand.run (command : AnalyzeCommand) (base : AnalyzeSettings) (commandLine : String)
    (store : Store) : Store × Except Failure String :=
  match command.options base with
  | .error failure => (store, .error failure)
  | .ok options =>
    match Analysis.run store options commandLine command.files with
    | (store, .error failure) => (store, .error failure)
    | (store, .ok findings) => (store, (Console.lines findings).map Console.text)

def Invocation.run (invocation : Invocation) (commandLine : String) (store : Store) :
    Store × Except Failure String :=
  let settings : Except Failure Settings := match invocation.settingsPath with
    | some path => SettingsFile.load store path
    | none => .ok {}
  match settings, invocation.command with
  | .error failure, _ => (store, .error failure)
  | .ok settings, .parse command => command.run settings.parse store
  | .ok settings, .analyze command => command.run settings.analyze commandLine store

def run (arguments : List String) (store : Store) : Store × Ending :=
  match read arguments with
  | .error stop => (store, Ending.ofStop stop)
  | .ok invocation =>
    match invocation.run (" ".intercalate (programName :: arguments)) store with
    | (store, .ok output) => (store, Ending.success output)
    | (store, .error failure) => (store, Ending.ofFailure failure)

end PageLoads.CommandLine
