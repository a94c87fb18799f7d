import PageLoads.Number.Decimal

/-!
# Command-line arguments

What the arguments of the program ask for. Options that belong to both commands may stand before the
command or after it, where the later one counts; any other option may stand only once unless it is
repeatable. Arguments are read from left to right, and the first that is wrong, or asks for help or the
version, decides.
-/

namespace PageLoads.CommandLine

inductive OptionName where
  | settings
  | logLevel
  | threads
  | description
  | force
  | output
  | infoOnly
  | loadsOnly
  | url
  | firstByteBucket
  | loadTimeBucket
  | tableStem
  | startAfter
  | doneBefore
  deriving DecidableEq, Repr

inductive ValueKind where
  | absent
  | text
  /-- A text that is not empty. -/
  | path
  /-- A whole number of 64 bits. -/
  | count
  | number
  deriving DecidableEq, Repr

def ValueKind.accepts (kind : ValueKind) (value : String) : Bool :=
  match kind with
  | .absent => false
  | .text => true
  | .path => value ≠ ""
  | .count => (Decimal.unsigned? (UInt64.size - 1) value.toList).isSome
  | .number => (Decimal.binary64? value.toList).isSome

namespace OptionName

def long : OptionName → String
  | .settings => "config"
  | .logLevel => "log-level"
  | .threads => "threads"
  | .description => "description"
  | .force => "force"
  | .output => "output"
  | .infoOnly => "show-info-only"
  | .loadsOnly => "web-only"
  | .url => "web-url"
  | .firstByteBucket => "web-ttfb-bucketsize"
  | .loadTimeBucket => "web-plt-bucketsize"
  | .tableStem => "output-cdf-prefix"
  | .startAfter => "startAfter"
  | .doneBefore => "doneBefore"

def short? : OptionName → Option Char
  | .settings => some 'c'
  | .threads => some 'j'
  | .description => some 'd'
  | .force => some 'f'
  | .output => some 'o'
  | _ => none

def valueKind : OptionName → ValueKind
  | .settings | .output => .path
  | .threads => .count
  | .force | .infoOnly | .loadsOnly => .absent
  | .firstByteBucket | .loadTimeBucket => .number
  | _ => .text

def repeatable (name : OptionName) : Bool :=
  name = .url

def shared : List OptionName :=
  [.settings, .logLevel, .threads]

end OptionName

/-- Why the reading of arguments stops before their end. -/
inductive Stop where
  | wrongUsage
  | help
  | version
  deriving DecidableEq, Repr

/-- The arguments of one level: options with their values, and operands. -/
structure Given where
  options : List (OptionName × String) := []
  operands : List String := []
  deriving DecidableEq, Repr

namespace Given

def value? (given : Given) (name : OptionName) : Option String :=
  given.options.lookup name

def has (given : Given) (name : OptionName) : Bool :=
  (given.value? name).isSome

def values (given : Given) (name : OptionName) : List String :=
  (given.options.filter fun option => option.1 = name).map Prod.snd

/-- Adds an option, unless its value is wrong or it stands there already. -/
def add (given : Given) (name : OptionName) (value : String) : Except Stop Given :=
  if (name.valueKind ≠ .absent && !name.valueKind.accepts value) || (given.has name && !name.repeatable) then
    .error .wrongUsage
  else .ok { given with options := given.options ++ [(name, value)] }

/-- Adds an operand, of which there may be as many as said. Operands are paths. -/
def addOperand (given : Given) (limit : Option Nat) (operand : String) : Except Stop Given :=
  if operand = "" || limit.any fun limit => limit ≤ given.operands.length then .error .wrongUsage
  else .ok { given with operands := given.operands ++ [operand] }

end Given

structure Level where
  options : List OptionName
  /-- The greatest number of operands, if there is one. -/
  operands : Option Nat
  versioned : Bool

inductive Shape where
  /-- Two hyphens alone: only operands follow. -/
  | endOfOptions
  /-- Two hyphens and the rest. -/
  | long (body : List Char)
  /-- One hyphen and the rest, which is not empty. -/
  | short (body : List Char)
  | operand
  deriving DecidableEq, Repr

def Shape.of (argument : String) : Shape :=
  match argument.toList with
  | ['-', '-'] => .endOfOptions
  | '-' :: '-' :: body => .long body
  | '-' :: c :: body => .short (c :: body)
  | _ => .operand

/-- The parts of a long option before and after its first equals sign. -/
def splitValue (body : List Char) : String × Option String :=
  match body.span (· ≠ '=') with
  | (name, _ :: value) => (String.ofList name, some (String.ofList value))
  | (name, []) => (String.ofList name, none)

/-- What reading an option leads to: arguments without it, or an option that takes its value from the
next argument. -/
inductive Step where
  | done (given : Given)
  | awaits (given : Given) (name : OptionName)

def readLong (level : Level) (given : Given) (body : List Char) : Except Stop Step :=
  let (text, value?) := splitValue body
  match level.options.find? fun name => name.long = text, value? with
  | some name, some value =>
    if name.valueKind = .absent then .error .wrongUsage else (given.add name value).map .done
  | some name, none =>
    if name.valueKind = .absent then (given.add name "").map .done else .ok (.awaits given name)
  | none, none =>
    if text = "help" then .error .help
    else if text = "version" && level.versioned then .error .version
    else .error .wrongUsage
  | none, some _ => .error .wrongUsage

/-- Reads short options that stand together. The first with a value takes the rest as its value, with or
without an equals sign before it. -/
def readShort (level : Level) (given : Given) : List Char → Except Stop Step
  | [] => .ok (.done given)
  | c :: rest =>
    match level.options.find? fun name => name.short? = some c with
    | some name =>
      if name.valueKind = .absent then
        match given.add name "" with
        | .ok given => readShort level given rest
        | .error stop => .error stop
      else
        match rest with
        | [] => .ok (.awaits given name)
        | '=' :: value => (given.add name (String.ofList value)).map .done
        | value => (given.add name (String.ofList value)).map .done
    | none =>
      if c = 'h' then .error .help
      else if c = 'V' && level.versioned then .error .version
      else .error .wrongUsage

/-- Reads the arguments of a level up to the operand that `stopsAt` names, if it names one: what was
given before it, and the operand with the arguments behind it. -/
def readLevel (level : Level) (stopsAt : String → Bool) (given : Given) (awaiting : Option OptionName) :
    List String → Except Stop (Given × Option (String × List String))
  | [] => if awaiting.isSome then .error .wrongUsage else .ok (given, none)
  | argument :: rest =>
    match Shape.of argument, awaiting with
    | .operand, some name =>
      match given.add name argument with
      | .ok given => readLevel level stopsAt given none rest
      | .error stop => .error stop
    | _, some _ => .error .wrongUsage
    | .endOfOptions, none =>
      match rest.foldlM (fun given operand => given.addOperand level.operands operand) given with
      | .ok given => .ok (given, none)
      | .error stop => .error stop
    | .long body, none =>
      match readLong level given body with
      | .ok (.done given) => readLevel level stopsAt given none rest
      | .ok (.awaits given name) => readLevel level stopsAt given (some name) rest
      | .error stop => .error stop
    | .short body, none =>
      match readShort level given body with
      | .ok (.done given) => readLevel level stopsAt given none rest
      | .ok (.awaits given name) => readLevel level stopsAt given (some name) rest
      | .error stop => .error stop
    | .operand, none =>
      if stopsAt argument then .ok (given, some (argument, rest))
      else
        match given.addOperand level.operands argument with
        | .ok given => readLevel level stopsAt given none rest
        | .error stop => .error stop

structure ParseCommand where
  directory : String
  description : String
  force : Bool
  output : Option String
  deriving DecidableEq, Repr

structure AnalyzeCommand where
  files : List String
  infoOnly : Bool
  loadsOnly : Bool
  urls : List String
  firstByteBucket : Option Binary64
  loadTimeBucket : Option Binary64
  tableStem : Option String
  startAfter : Option String
  doneBefore : Option String
  deriving DecidableEq, Repr

inductive Command where
  | parse (command : ParseCommand)
  | analyze (command : AnalyzeCommand)
  deriving DecidableEq, Repr

structure Invocation where
  settingsPath : Option String
  command : Command
  deriving DecidableEq, Repr

def mainLevel : Level :=
  { options := OptionName.shared, operands := some 0, versioned := true }

def parseLevel : Level :=
  { options := OptionName.shared ++ [.description, .force, .output], operands := some 1, versioned := false }

def analyzeLevel : Level :=
  { options := OptionName.shared ++ [.infoOnly, .loadsOnly, .url, .firstByteBucket, .loadTimeBucket,
      .tableStem, .startAfter, .doneBefore]
    operands := none
    versioned := false }

def ParseCommand.ofGiven (given : Given) : Except Stop ParseCommand :=
  match given.operands with
  | directory :: _ => .ok {
      directory
      description := (given.value? .description).getD ""
      force := given.has .force
      output := given.value? .output }
  | [] => .error .wrongUsage

def Given.number? (given : Given) (name : OptionName) : Option Binary64 :=
  (given.value? name).bind fun value => Decimal.binary64? value.toList

def AnalyzeCommand.ofGiven (given : Given) : Except Stop AnalyzeCommand :=
  if given.operands = [] then .error .wrongUsage
  else .ok {
    files := given.operands
    infoOnly := given.has .infoOnly
    loadsOnly := given.has .loadsOnly
    urls := given.values .url
    firstByteBucket := given.number? .firstByteBucket
    loadTimeBucket := given.number? .loadTimeBucket
    tableStem := given.value? .tableStem
    startAfter := given.value? .startAfter
    doneBefore := given.value? .doneBefore }

/-- What the command of help is given: nothing, or a command that there is. -/
def asksForHelp (arguments : List String) : Bool :=
  match arguments with
  | [] => true
  | [name] => ["parse", "analyze", "help"].contains name
  | _ => false

def readCommand (before : Given) (name : String) (rest : List String) : Except Stop Invocation := do
  let settingsPath (given : Given) := given.value? .settings <|> before.value? .settings
  if name = "parse" then
    let (given, _) ← readLevel parseLevel (fun _ => false) {} none rest
    return { settingsPath := settingsPath given, command := .parse (← ParseCommand.ofGiven given) }
  else if name = "analyze" then
    let (given, _) ← readLevel analyzeLevel (fun _ => false) {} none rest
    return { settingsPath := settingsPath given, command := .analyze (← AnalyzeCommand.ofGiven given) }
  else if name = "help" && asksForHelp rest then throw .help
  else throw .wrongUsage

def read (arguments : List String) : Except Stop Invocation := do
  match ← readLevel mainLevel (fun _ => true) {} none arguments with
  | (before, some (name, rest)) => readCommand before name rest
  | (_, none) => throw .wrongUsage

end PageLoads.CommandLine
