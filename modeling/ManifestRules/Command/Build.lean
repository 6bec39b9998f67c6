import ManifestRules.Command.Line
import ManifestRules.Command.Log
import ManifestRules.Command.Outcome
/-!
# The commands `build` and `query`

A build applies the rules to the input and writes the stream that comes of it.
A query is answered on the input as it is.
-/

namespace ManifestRules.Command

variable {m : Type → Type} [Monad m]

namespace BuildRequest

/-- Write the output to where it goes. -/
def deliver (fs : Files m) (r : BuildRequest) (text : String) : m Outcome := do
  match r.output with
  | none => pure (.done text)
  | some location =>
    match ← fs.write location text with
    | .ok () => pure (.done "")
    | .error f => pure (.failedBy ("Failed to write output to " ++ location) f.text)

/-- Build with rules that have been read. -/
def runLoaded (fs : Files m) (r : BuildRequest) (l : Loaded) (input : String) : m Outcome := do
  let built := do
    let g ← Pipeline.buildLoaded fs r.config l input
    Pipeline.write g
  match ← built.run with
  | .ok text => r.deliver fs text
  | .error e => pure (.ofError e)

/-- Build from an input that has been read. The log tells about the rule file. -/
def runOn (fs : Files m) (log : RuleFile → String) (r : BuildRequest) (input : String) :
    m Outcome := do
  match ← (Pipeline.load fs r.config).run with
  | .ok l =>
    let o ← r.runLoaded fs l input
    pure (o.withLog (log l.file))
  | .error e => pure (.ofError e)

/-- Build. The rule file has to be there before any input is read. -/
def run (fs : Files m) (standard : m Input.Standard) (log : RuleFile → String)
    (r : BuildRequest) : m Outcome := do
  match ← fs.kind r.config.rules with
  | none => pure (.failed "" ("Rule file not found: " ++ r.config.rules))
  | some _ =>
    match ← (Input.read fs standard r.input).run with
    | .ok input => r.runOn fs log input
    | .error e => pure (.ofError e)

end BuildRequest

namespace QueryRequest

/-- The answer to a query as it is written. -/
def write : Resolution → Except Error String
  | .found v => Yaml.codec.encode v
  | .noMatch => .ok (Resolution.noMatchText ++ "\n")

/-- Answer a query on an input. -/
def answer (selector input : String) : Except Error String := do
  let ds ← Stream.parseDocuments Yaml.codec input
  write (← (Graph.ofList ds).resolve selector)

/-- Answer a query. -/
def run (fs : Files m) (standard : m Input.Standard) (r : QueryRequest) : m Outcome := do
  match ← (Input.read fs standard r.input).run with
  | .error e => pure (.ofError e)
  | .ok input =>
    match answer r.selector input with
    | .ok text => pure (.done text)
    | .error e => pure (.ofError e)

end QueryRequest

end ManifestRules.Command
