import ManifestRules.Text.Case
/-!
# How reports look

Lines of a report begin with a marker, which is a picture where colour is
wanted and a word in brackets elsewhere. The colour flag decides if it is
`always` or `never`; anything else leaves the decision to the environment.
-/

namespace ManifestRules

/-- What the program is run in, as far as it looks at it. -/
structure Surroundings where
  /-- The environment variables that are set. -/
  settings : List (String × String)
  /-- Standard output is a terminal. -/
  terminal : Bool
deriving Repr, DecidableEq, Inhabited

namespace Surroundings

/-- The value of an environment variable, if it is set. -/
def setting? (s : Surroundings) (name : String) : Option String :=
  (s.settings.find? fun v => v.1 == name).map (·.2)

/-- The terminal, if there is one, is known to show colours. -/
def showsColor (s : Surroundings) : Bool :=
  s.terminal && (s.setting? "TERM").any (· ≠ "dumb")

end Surroundings

/-- What a line of a report is about. -/
inductive Status where
  /-- Something is looked at. -/
  | scan
  /-- Something is as it should be. -/
  | ok
  /-- Something deserves attention. -/
  | warn
  /-- Something has failed. -/
  | error
  /-- A fact. -/
  | info
deriving Repr, DecidableEq

namespace Status

/-- The picture of a status. -/
def picture : Status → String
  | scan => "🔍"
  | ok => "✅"
  | warn => "⚠️"
  | error => "❌"
  | info => "📊"

/-- The word of a status. -/
def word : Status → String
  | scan => "[SCAN]"
  | ok => "[OK]"
  | warn => "[WARN]"
  | error => "[ERR]"
  | info => "[INFO]"

/-- The marker of a status. -/
def marker (useColor : Bool) (s : Status) : String :=
  if useColor then s.picture else s.word

end Status

namespace Report

/-- The flag that leaves the decision about colour to the environment. -/
def automatic : String := "auto"

/-- Colour is wanted in these surroundings. The variables are asked one after the
other, and the first that has an opinion decides. -/
def detectColor (s : Surroundings) : Bool :=
  if (s.setting? "NO_COLOR").isSome then false
  else if s.setting? "CLICOLOR" = some "0" then false
  else if (s.setting? "CLICOLOR_FORCE").any fun v => v ≠ "0" && v ≠ "" then true
  else if s.setting? "TERM" = some "dumb" then false
  else s.showsColor

/-- Colour is wanted, given the flag; case does not count in it. -/
def useColor (flag : String) (s : Surroundings) : Bool :=
  match Text.lowerString flag with
  | "always" => true
  | "never" => false
  | _ => detectColor s

end Report

end ManifestRules
