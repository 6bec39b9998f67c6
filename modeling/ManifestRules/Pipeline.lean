import ManifestRules.Engine
import ManifestRules.Files.Access
import ManifestRules.Input
import ManifestRules.Rule.File
import ManifestRules.Template.Renderer
import ManifestRules.Yaml.Codec
/-!
# A build from files

The values are read first, then the rule file, which is rendered with them, and
then the templates that its rules refer to. Templates stand in files relative
to the directory of the rule file; one that cannot be read matters only when it
is rendered.
-/

namespace ManifestRules

/-- What a build is made with. -/
structure BuildConfig where
  /-- Where the rule file is. -/
  rules : String
  /-- Where the values are, if not beside the rule file. -/
  values : Option String
  /-- Missing variables are failures. -/
  strict : Bool
  /-- How many documents the graph may hold. -/
  limit : Nat
deriving Repr, Inhabited

/-- What has been read before templates are. -/
structure Loaded where
  /-- The variables. -/
  vars : Mapping
  /-- The rule file. -/
  file : RuleFile
deriving Repr, Inhabited

namespace Pipeline

/-- The name of the values file beside a rule file. -/
def defaultValues : String := "values.yaml"

/-- The directory of a rule file, which templates are relative to. -/
def rulesDirectory (rules : String) : String :=
  match Location.parent? rules with
  | some directory => if directory.isEmpty then "." else directory
  | none => "."

variable {m : Type → Type} [Monad m]

/-- The values for a rule file. A file that is named must be there; the one
beside the rule file need not. -/
def loadValues (fs : Files m) (rules : String) (values : Option String) :
    ExceptT Error m Mapping := do
  match values with
  | some location => liftExcept (Values.parse (← Input.readFile fs location))
  | none =>
    let location := Location.join (rulesDirectory rules) defaultValues
    match ← fs.kind location with
    | none => pure []
    | some _ => liftExcept (Values.parse (← Input.readFile fs location))
where
  /-- Pass a result on. -/
  liftExcept {α : Type} (r : Except Error α) : ExceptT Error m α := ExceptT.mk (pure r)

/-- The rule file, rendered with variables. -/
def loadRules (fs : Files m) (rules : String) (r : Renderer) (vars : Mapping) :
    ExceptT Error m RuleFile := do
  let text ← Input.readFile fs rules
  ExceptT.mk (pure (RuleFile.renderAndParse r text vars))

/-- The template of a reference. -/
def loadTemplate (fs : Files m) (directory reference : String) : m (Except Error String) := do
  let location := Location.join directory reference
  match ← fs.read location with
  | .ok text => pure (.ok text)
  | .error f => pure (.error (.templateNotFound location f.text))

/-- The templates of references, each with its text or the failure to read it. -/
def loadTemplates (fs : Files m) (directory : String) (references : List String) :
    m (List (String × Except Error String)) :=
  references.mapM fun reference => do
    pure (reference, ← loadTemplate fs directory reference)

/-- The source of templates that have been read. -/
def sourceOf (directory : String) (found : List (String × Except Error String)) :
    TemplateSource where
  load reference :=
    match found.find? fun t => t.1 == reference with
    | some t => t.2
    | none => .error (.templateNotFound (Location.join directory reference)
        FileFault.notFound.text)

/-- The templates that rules refer to, each once. -/
def references (rules : List Rule) : List String :=
  (rules.flatMap Rule.references).eraseDups

/-- Read values and rules. -/
def load (fs : Files m) (c : BuildConfig) : ExceptT Error m Loaded := do
  let vars ← loadValues fs c.rules c.values
  let file ← loadRules fs c.rules (Template.renderer c.strict) vars
  pure ⟨vars, file⟩

/-- The engine for what has been read. -/
def engine (fs : Files m) (c : BuildConfig) (l : Loaded) : m Engine := do
  let directory := rulesDirectory c.rules
  let found ← loadTemplates fs directory (references l.file.rules)
  pure ⟨l.file.rules, l.vars, sourceOf directory found, Template.renderer c.strict, Yaml.codec,
    c.limit⟩

/-- Build the graph of an input with what has been read. -/
def buildLoaded (fs : Files m) (c : BuildConfig) (l : Loaded) (input : String) :
    ExceptT Error m Graph :=
  ExceptT.mk do
    let e ← engine fs c l
    pure (e.build input)

/-- Build the graph of an input. -/
def build (fs : Files m) (c : BuildConfig) (input : String) : ExceptT Error m Graph := do
  let l ← load fs c
  buildLoaded fs c l input

/-- The stream of a graph. -/
def write (g : Graph) : ExceptT Error m String :=
  ExceptT.mk (pure (Stream.serializeDocuments Yaml.codec g))

/-- Build the graph of an input and write it. -/
def execute (fs : Files m) (c : BuildConfig) (input : String) : ExceptT Error m String := do
  let g ← build fs c input
  write g

end Pipeline

end ManifestRules
