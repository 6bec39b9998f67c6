import ManifestRules.Command.Build
import ManifestRules.Command.Help
import ManifestRules.Command.Validate
/-!
# A call of the program

The arguments are read, and the task they make is carried out on whatever files
there are. Nothing but a build that is told where its output goes changes a file.
-/

namespace ManifestRules.Command

variable {m : Type → Type} [Monad m]

/-- The environment variables that the program looks at. -/
def variableNames : List String :=
  [Line.rulesVariable, "NO_COLOR", "CLICOLOR", "CLICOLOR_FORCE", "TERM"]

/-- Carry a task out. -/
def Invocation.run (fs : Files m) (s : Surroundings) (standard : m Input.Standard)
    (i : Invocation) : m Outcome :=
  let log := Log.ofFile s i.logLevel
  match i.task with
  | .build r => r.run fs standard log
  | .validate r => r.run fs log (Report.useColor i.color s)
  | .query r => r.run fs standard
  | .completions shell => pure (.done (Help.script shell))

/-- Call the program. -/
def run (fs : Files m) (s : Surroundings) (standard : m Input.Standard)
    (arguments : List String) : m Outcome :=
  match Line.read s arguments with
  | .ok i => i.run fs s standard
  | .error stop => pure (Help.outcomeOf stop)

end ManifestRules.Command
