import ManifestRules.Report
import ManifestRules.Rule.File
/-!
# The log

What is worth telling about a rule file goes to the log on standard error, as
far as the log flag lets it. The flag is a list of directives parted by commas:
a level, the name of a part of the program, or both. The directive with the
longest name that fits decides.
-/

namespace ManifestRules.Command

/-- How much of a part of the program is logged. -/
inductive LogLevel where
  /-- Nothing. -/
  | off
  /-- Failures. -/
  | error
  /-- Warnings, too. -/
  | warn
  /-- What is done, too. -/
  | info
  /-- How it is done, too. -/
  | debug
  /-- Everything. -/
  | trace
deriving Repr, DecidableEq, Inhabited

namespace LogLevel

/-- The name of a level. -/
def name : LogLevel → String
  | off => "off"
  | error => "error"
  | warn => "warn"
  | info => "info"
  | debug => "debug"
  | trace => "trace"

/-- All levels. -/
def all : List LogLevel := [off, error, warn, info, debug, trace]

/-- The level with a name; case does not count. -/
def ofName? (text : List Char) : Option LogLevel :=
  all.find? fun l => l.name.toList == text.map Char.toLower

/-- Warnings are logged. -/
def showsWarnings : LogLevel → Bool
  | off | error => false
  | warn | info | debug | trace => true

end LogLevel

/-- How much is logged of the parts of the program whose names begin in some way. -/
structure LogDirective where
  /-- How the names begin. -/
  target : List Char
  /-- How much is logged. -/
  level : LogLevel
deriving Repr, DecidableEq, Inhabited

namespace Log

/-- The part of the program that reads rule files. -/
def rulesTarget : String := "kubegraph::config"

/-- Read a directive; one that is malformed does not count. -/
def readDirective? (text : List Char) : Option LogDirective :=
  match Text.splitAt '=' text with
  | [name] =>
    match LogLevel.ofName? name with
    | some l => some ⟨[], l⟩
    | none => some ⟨name, .trace⟩
  | [name, level] =>
    if (Text.trim level).isEmpty then some ⟨name, .trace⟩
    else (LogLevel.ofName? (Text.trim level)).map fun l => ⟨name, l⟩
  | _ => none

/-- Read the log flag. What is behind a slash does not count, and more than one
slash spoils it. -/
def readDirectives (flag : String) : List LogDirective :=
  match Text.splitAt '/' flag.toList with
  | [names] | [names, _] =>
    (((Text.splitAt ',' names).map Text.trim).filter fun t => !t.isEmpty).filterMap
      readDirective?
  | _ => []

/-- The directive that decides about a part of the program: of those with the
longest name, the last. -/
def deciding? (directives : List LogDirective) (target : String) : Option LogDirective :=
  (directives.filter fun d => d.target.isPrefixOf target.toList).foldl
    (fun best d =>
      match best with
      | some b => if d.target.length < b.target.length then some b else some d
      | none => some d)
    none

/-- How much is logged of a part of the program. Without directives, failures are. -/
def levelOf (directives : List LogDirective) (target : String) : LogLevel :=
  if directives.isEmpty then .error
  else ((deciding? directives target).map (·.level)).getD .off

/-- The log is coloured, though standard error is no terminal. -/
def isColored (s : Surroundings) : Bool :=
  (s.setting? "NO_COLOR").all (·.isEmpty) && (s.setting? "CLICOLOR_FORCE").any (· ≠ "0")

/-- A text in a colour of the terminal. -/
def paint (colored : Bool) (color text : String) : String :=
  if colored then "\x1b[" ++ color ++ "m" ++ text ++ "\x1b[0m" else text

/-- A warning as it stands in the log. -/
def warningLine (s : Surroundings) (target text : String) : String :=
  let colored := isColored s
  paint colored "90" "[" ++ paint colored "33" "WARN " ++ " " ++ target ++
    paint colored "90" "]" ++ " " ++ text ++ "\n"

/-- What the log says about a rule file. -/
def ofFile (s : Surroundings) (flag : String) (f : RuleFile) : String :=
  match f.notice with
  | some notice =>
    if (levelOf (readDirectives flag) rulesTarget).showsWarnings then
      warningLine s rulesTarget notice.text
    else ""
  | none => ""

end Log

end ManifestRules.Command
