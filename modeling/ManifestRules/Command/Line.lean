import ManifestRules.Command.Argument
import ManifestRules.Path
import ManifestRules.Pipeline
import ManifestRules.Report
/-!
# The command line

The arguments in front of the command and those behind it are read as two
levels. Two options stand at both, and what is given behind the command counts.
-/

namespace ManifestRules.Command

/-- The arguments of a build. -/
structure BuildRequest where
  /-- What the build is made with. -/
  config : BuildConfig
  /-- Where the input is. -/
  input : Option String
  /-- Where the output goes. -/
  output : Option String
deriving Repr, Inhabited

/-- The arguments of a validation. -/
structure ValidateRequest where
  /-- Where the rule file is. -/
  rules : String
  /-- Where the values are. -/
  values : Option String
  /-- Warnings count as failures. -/
  strict : Bool
deriving Repr, DecidableEq, Inhabited

/-- The arguments of a query. -/
structure QueryRequest where
  /-- The text of the query. -/
  selector : String
  /-- Where the input is. -/
  input : Option String
deriving Repr, DecidableEq, Inhabited

/-- A shell that commands can be completed in. -/
inductive Shell where
  /-- GNU Bash. -/
  | bash
  /-- Elvish. -/
  | elvish
  /-- The friendly interactive shell. -/
  | fish
  /-- PowerShell. -/
  | powershell
  /-- The Z shell. -/
  | zsh
deriving Repr, DecidableEq, Inhabited

namespace Shell

/-- The name of a shell. -/
def name : Shell → String
  | bash => "bash"
  | elvish => "elvish"
  | fish => "fish"
  | powershell => "powershell"
  | zsh => "zsh"

/-- All shells. -/
def all : List Shell := [bash, elvish, fish, powershell, zsh]

/-- The shell with a name. -/
def ofName? (text : String) : Option Shell := all.find? fun s => s.name == text

end Shell

/-- What the program is asked to do. -/
inductive Task where
  /-- Apply rules to manifests. -/
  | build (request : BuildRequest)
  /-- Check a rule file and its templates. -/
  | validate (request : ValidateRequest)
  /-- Answer a query about manifests. -/
  | query (request : QueryRequest)
  /-- Write a script that completes commands. -/
  | completions (shell : Shell)
deriving Repr, Inhabited

/-- A call of the program. -/
structure Invocation where
  /-- The flag about colour. -/
  color : String
  /-- The flag about the log. -/
  logLevel : String
  /-- What is to be done. -/
  task : Task
deriving Repr, Inhabited

namespace Line

/-- The variable that names the rule file if no argument does. -/
def rulesVariable : String := "KUBEGRAPH_RULES"

/-- Any text is accepted. -/
def anyText (_ : String) : Bool := true

/-- A text that can be a location. -/
def isLocation (text : String) : Bool := !text.isEmpty

/-- An option with a location. -/
def locationOption (name : String) (letter : Option Char) : OptionRule :=
  ⟨name, letter, .value isLocation⟩

/-- The options that stand at both levels. -/
def commonOptions : List OptionRule :=
  [⟨"color", none, .value anyText⟩, ⟨"log-level", none, .value anyText⟩,
    ⟨"help", some 'h', .help⟩]

/-- The arguments in front of the command. -/
def topLevel : Level := ⟨"", commonOptions ++ [⟨"version", some 'V', .version⟩], []⟩

/-- The arguments of `build`. -/
def buildLevel : Level :=
  ⟨"build",
    commonOptions ++
      [locationOption "rules" (some 'r'), locationOption "input" (some 'i'),
        locationOption "values" none, locationOption "output" (some 'o'),
        ⟨"strict", none, .flag⟩,
        ⟨"max-documents", none, .value fun text => (Path.readIndex? text).isSome⟩],
    []⟩

/-- The arguments of `validate`. -/
def validateLevel : Level :=
  ⟨"validate",
    commonOptions ++
      [locationOption "rules" (some 'r'), locationOption "values" none,
        ⟨"strict", none, .flag⟩],
    []⟩

/-- The arguments of `query`. -/
def queryLevel : Level :=
  ⟨"query", commonOptions ++ [locationOption "input" (some 'i')], [anyText]⟩

/-- The arguments of `completions`. -/
def completionsLevel : Level :=
  ⟨"completions", commonOptions, [fun text => (Shell.ofName? text).isSome]⟩

/-- Where the rule file is: what the argument says, or else the variable. -/
def rulesOf (s : Surroundings) (a : Arguments) : Except Stop String :=
  match a.value? "rules", s.setting? rulesVariable with
  | some location, _ => .ok location
  | none, some location =>
    if isLocation location then .ok location
    else .error (.fault "a value is required for '--rules' but none was supplied")
  | none, none => .error (.fault "the following required arguments were not provided: --rules")

/-- The only word of a command. -/
def wordOf (a : Arguments) : Except Stop String :=
  match a.words with
  | [text] => .ok text
  | _ => .error (.fault "a required argument was not provided")

/-- The task of `build`. -/
def buildTask (s : Surroundings) (a : Arguments) : Except Stop Task := do
  let rules ← rulesOf s a
  let limit := ((a.value? "max-documents").bind Path.readIndex?).getD defaultDocumentLimit
  pure (.build ⟨⟨rules, a.value? "values", a.has "strict", limit⟩, a.value? "input",
    a.value? "output"⟩)

/-- The task of `validate`. -/
def validateTask (s : Surroundings) (a : Arguments) : Except Stop Task := do
  let rules ← rulesOf s a
  pure (.validate ⟨rules, a.value? "values", a.has "strict"⟩)

/-- The task of `query`. -/
def queryTask (a : Arguments) : Except Stop Task := do
  let selector ← wordOf a
  pure (.query ⟨selector, a.value? "input"⟩)

/-- The task of `completions`. -/
def completionsTask (a : Arguments) : Except Stop Task := do
  let text ← wordOf a
  match Shell.ofName? text with
  | some shell => pure (.completions shell)
  | none => throw (.fault "unknown shell")

/-- The commands, with their arguments and the tasks these make. -/
def commands (s : Surroundings) : List (Level × (Arguments → Except Stop Task)) :=
  [(buildLevel, buildTask s), (validateLevel, validateTask s), (queryLevel, queryTask),
    (completionsLevel, completionsTask)]

/-- The command that help is asked for by its words, if all of them are known. -/
def helpTopic (names : List String) : List String → Except Stop String
  | [] => .ok ""
  | [topic] =>
    if topic = "help" ∨ names.contains topic then .ok topic
    else .error (.fault ("unrecognized subcommand '" ++ topic ++ "'"))
  | _ :: extra :: _ => .error (.fault ("unrecognized subcommand '" ++ extra ++ "'"))

/-- The value of an option that stands at both levels. -/
def common (head tail : Arguments) (name default : String) : String :=
  ((tail.value? name).or (head.value? name)).getD default

/-- Read the command and its arguments. -/
def readCommand (s : Surroundings) (head : Arguments) (name : String)
    (arguments : List String) : Except Stop Invocation :=
  match (commands s).find? fun c => c.1.name == name with
  | some (level, toTask) => do
    let tail ← level.read arguments
    let task ← toTask tail
    pure ⟨common head tail "color" Report.automatic, common head tail "log-level" "warn", task⟩
  | none =>
    if name = "help" then do
      let topic ← helpTopic ((commands s).map fun c => c.1.name) arguments
      throw (.help topic)
    else .error (.fault ("unrecognized subcommand '" ++ name ++ "'"))

/-- Read the arguments of the program. -/
def read (s : Surroundings) (arguments : List String) : Except Stop Invocation := do
  let (head, rest) ← topLevel.readHead Reading.start arguments
  match rest with
  | name :: more => readCommand s head name more
  | [] => throw (.fault "a subcommand is required but one was not provided")

end Line

end ManifestRules.Command
