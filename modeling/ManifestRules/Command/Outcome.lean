import ManifestRules.Error
/-!
# Outcomes of calls

A call leaves a code and a text on either output. The code is 0 when the task
is done, 1 when it fails and 2 when the arguments are wrong.
-/

namespace ManifestRules.Command

/-- What a call leaves behind. -/
structure Outcome where
  /-- The exit code. -/
  code : Nat
  /-- The text on standard output. -/
  stdout : String
  /-- The text on standard error. -/
  stderr : String
deriving Repr, DecidableEq, Inhabited

namespace Outcome

/-- The task is done. -/
def done (stdout : String) : Outcome := ⟨0, stdout, ""⟩

/-- The task has failed after some output. -/
def failed (stdout message : String) : Outcome := ⟨1, stdout, "Error: " ++ message ++ "\n"⟩

/-- The task has failed with a cause from outside. -/
def failedBy (message cause : String) : Outcome :=
  failed "" (message ++ "\n\nCaused by:\n    " ++ cause)

/-- A failure of the task. -/
def ofError (e : Error) : Outcome :=
  match e.cause? with
  | some cause => failedBy e.message cause
  | none => failed "" e.message

/-- The arguments are wrong. -/
def misused (message : String) : Outcome := ⟨2, "", message⟩

/-- The outcome with a text in front of what is on standard error. -/
def withLog (log : String) (o : Outcome) : Outcome := { o with stderr := log ++ o.stderr }

end Outcome

end ManifestRules.Command
