import ManifestRules.Command.Line
import ManifestRules.Command.Log
import ManifestRules.Command.Outcome
/-!
# The command `validate`

A validation reads the values and the rule file, lists the rules without any
effect, and checks that every template that is referred to can be read and is a
template. What it finds is reported line by line; `Findings.outcome` says what
it comes to in the end.
-/

namespace ManifestRules.Command

/-- What is found about rules and their templates. -/
structure Findings where
  /-- How many rules there are. -/
  ruleCount : Nat
  /-- The places of the rules that have no effect. -/
  idle : List Nat
  /-- The templates that are referred to, each with what is wrong with it. -/
  templates : List (String × Option Error)
deriving Repr, Inhabited

namespace Findings

/-- A template is wrong. -/
def hasErrors (f : Findings) : Bool := f.templates.any fun t => t.2.isSome

/-- A rule deserves attention. -/
def hasWarnings (f : Findings) : Bool := !f.idle.isEmpty

/-- A line of the report. -/
def line (useColor : Bool) (s : Status) (text : String) : String :=
  s.marker useColor ++ " " ++ text ++ "\n"

/-- The line about a template. -/
def templateLine (useColor : Bool) (t : String × Option Error) : String :=
  match t.2 with
  | none => line useColor .ok t.1
  | some e => line useColor .error (t.1 ++ ": " ++ e.message)

/-- The lines about all templates. -/
def templateLines (useColor : Bool) (f : Findings) : String :=
  if f.templates.isEmpty then ""
  else
    "\n" ++ line useColor .scan "Checking templates..." ++
      String.join (f.templates.map (templateLine useColor))

/-- The report on what is found. -/
def report (useColor : Bool) (f : Findings) : String :=
  "\n" ++ line useColor .info "Rule Summary:" ++
    "   Total rules: " ++ toString f.ruleCount ++ "\n" ++
    "   Templates referenced: " ++ toString f.templates.length ++ "\n" ++
    String.join (f.idle.map fun i =>
      line useColor .warn ("Rule " ++ toString i ++ " has no inject, patches or newResources")) ++
    f.templateLines useColor ++ "\n"

/-- What the findings come to: the line that ends the report, and the failure if
there is one. -/
def verdict (strict useColor : Bool) (f : Findings) : String × Option String :=
  if f.hasErrors then (line useColor .error "Validation failed", some "Validation failed")
  else if f.hasWarnings && strict then
    (line useColor .error "Validation failed (strict mode, warnings present)",
      some "Validation failed in strict mode")
  else if f.hasWarnings then (line useColor .warn "Validation passed with warnings", none)
  else (line useColor .ok "Validation passed", none)

/-- The outcome of a validation, given what has been reported before. -/
def outcome (strict useColor : Bool) (before : String) (f : Findings) : Outcome :=
  let (last, failure) := f.verdict strict useColor
  let stdout := before ++ f.report useColor ++ last
  match failure with
  | some message => .failed stdout message
  | none => .done stdout

end Findings

namespace ValidateRequest

variable {m : Type → Type} [Monad m]

/-- The places of the rules that have no effect. -/
def idleRules (rules : List Rule) : List Nat :=
  (rules.zipIdx.filter fun r => !r.1.hasEffect).map (·.2)

/-- The templates that rules refer to, in order and each once. -/
def sortedReferences (rules : List Rule) : List String :=
  (Pipeline.references rules).mergeSort Input.nameLe

/-- What is wrong with a template. -/
def checkTemplate (r : Renderer) (reference : String) (text : Except Error String) :
    Option Error :=
  match text.bind (r.check reference) with
  | .ok () => none
  | .error e => some e

/-- Look rules over. -/
def inspect (fs : Files m) (r : Renderer) (location : String) (rules : List Rule) :
    m Findings := do
  let found ← Pipeline.loadTemplates fs (Pipeline.rulesDirectory location)
    (sortedReferences rules)
  pure ⟨rules.length, idleRules rules, found.map fun t => (t.1, checkTemplate r t.1 t.2)⟩

/-- Validate with variables that have been read. -/
def runWith (fs : Files m) (log : RuleFile → String) (useColor : Bool) (before : String)
    (r : ValidateRequest) (vars : Mapping) : m Outcome := do
  let renderer := Template.renderer r.strict
  match ← (Pipeline.loadRules fs r.rules renderer vars).run with
  | .error e =>
    let problem := "Rule file parsing failed: " ++ e.message
    pure (.failed (before ++ Findings.line useColor .error problem) problem)
  | .ok file =>
    let f ← inspect fs renderer r.rules file.rules
    let read := before ++ Findings.line useColor .ok "Rule file parsed successfully"
    pure ((f.outcome r.strict useColor read).withLog (log file))

/-- Validate. -/
def run (fs : Files m) (log : RuleFile → String) (useColor : Bool) (r : ValidateRequest) :
    m Outcome := do
  let before := Findings.line useColor .scan ("Validating rules: " ++ r.rules)
  match ← (Pipeline.loadValues fs r.rules r.values).run with
  | .ok vars => r.runWith fs log useColor before vars
  | .error e =>
    pure (.failed
      (before ++ Findings.line useColor .error ("Values could not be loaded: " ++ e.message))
      ("Values loading failed: " ++ e.message))

end ValidateRequest

end ManifestRules.Command
