import PageLoads.Settings
import PageLoads.Store.Basic
import PageLoads.Yaml.Document

namespace PageLoads.SettingsFile

/-- The entries of a section; a section that is left blank has none. -/
def section? : YamlNode → Option (List (YamlNode × YamlNode))
  | .mapping entries => if entries.all fun entry => entry.1.isScalar then some entries else none
  | .scalar true "" => some []
  | _ => none

/-- The value that a section has for a key, or the default if it has none. -/
def valueOr {α : Type} (fallback : α) (read : YamlNode → Option α)
    (entries : List (YamlNode × YamlNode)) (key : String) : Option α :=
  match YamlNode.valuesOf entries key with
  | [] => some fallback
  | [value] => read value
  | _ => none

def optionalText? (node : YamlNode) : Option (Option String) :=
  if node.isNothing then some none else node.text?.map some

/-- The number that a plain scalar spells that may have a plus sign: infinity or a finite number. -/
def signedNumber? (cs : List Char) : Option Binary64 :=
  if [".inf", ".Inf", ".INF"].contains (String.ofList cs) then some Binary64.infinity
  else (Decimal.binary64? cs).filter Binary64.isFinite

def numberOf? (text : String) : Option Binary64 :=
  if ["-.inf", "-.Inf", "-.INF"].contains text then some (-Binary64.infinity)
  else if [".nan", ".NaN", ".NAN"].contains text then some Binary64.nan
  else
    match text.toList with
    | '+' :: '+' :: _ | '+' :: '-' :: _ => none
    | '+' :: cs => signedNumber? cs
    | cs => signedNumber? cs

def number? : YamlNode → Option Binary64
  | .scalar true text => numberOf? text
  | _ => none

def parseSettings? (node : YamlNode) : Option ParseSettings := do
  let base : ParseSettings := {}
  let entries ← section? node
  let text (fallback key : String) : Option String := valueOr fallback YamlNode.text? entries key
  return {
    hostsDir := ← text base.hostsDir "hosts_dir"
    simulatorLog := ← text base.simulatorLog "shadow_log"
    clientStem := ← text base.clientStem "webclient_prefix"
    relayStem := ← text base.relayStem "relay_prefix"
    exitMarker := ← text base.exitMarker "exit_marker"
    driverLogStem := ← text base.driverLogStem "driver_log_prefix"
    proxyLogStem := ← text base.proxyLogStem "tproxy_log_prefix"
    outputFile := ← text base.outputFile "output_file" }

def analyzeSettings? (node : YamlNode) : Option AnalyzeSettings := do
  let base : AnalyzeSettings := {}
  let entries ← section? node
  let text (fallback key : String) : Option String := valueOr fallback YamlNode.text? entries key
  let number (fallback : Binary64) (key : String) : Option Binary64 := valueOr fallback number? entries key
  return {
    startAfter := ← text base.startAfter "start_after"
    doneBefore := ← valueOr base.doneBefore optionalText? entries "done_before"
    loadTimeBucket := ← number base.loadTimeBucket "web_plt_bucket_size"
    firstByteBucket := ← number base.firstByteBucket "web_ttfb_bucket_size"
    timeScale := ← number base.timeScale "time_scale"
    tableStem := ← text base.tableStem "output_cdf_prefix"
    summaryFile := ← text base.summaryFile "summary_file"
    hostStem := ← text base.hostStem "web_host_prefix"
    tableTag := ← text base.tableTag "web_output_tag" }

def ofNode? (node : YamlNode) : Option Settings := do
  let entries ← section? node
  return {
    parse := ← valueOr {} parseSettings? entries "parse"
    analyze := ← valueOr {} analyzeSettings? entries "analyze" }

def ofContent? (content : Content) : Option Settings :=
  match content.all with
  | .error _ => none
  | .ok bytes => (Text.decode? bytes).bind fun text => (Yaml.parse? text).bind ofNode?

/-- Reads the settings at a path, which must have no violation. -/
def load (store : Store) (path : String) : Except Failure Settings := do
  let content ← (store.openPlain path).mapError fun fault =>
    (Failure.ofFault (.io fault)).during (.openingSettings path)
  match ofContent? content with
  | none => throw ⟨[.parsingSettings path], .notSettings⟩
  | some settings =>
    (SettingsFault.refuse settings.violation?).mapError .ofSettings
    return settings

end PageLoads.SettingsFile
