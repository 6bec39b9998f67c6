/-!
# Failures of a run

Every failure ends a run. `Error.message` gives the text that is shown for
each; a failure that comes from outside the rules also has a cause, shown on
its own by the command line.
-/

namespace ManifestRules

/-- Why a run failed. -/
inductive Error where
  /-- A document could not be decoded, or is no mapping. -/
  | parse (message : String) (hint : Option String)
  /-- A document has no usable kind; its text, or its name. -/
  | missingKind (document : String)
  /-- A query does not follow the selector grammar. -/
  | selectorSyntax (query message : String)
  /-- A template could not be read or rendered. -/
  | template (message : String) (name : Option String)
  /-- A template could not be loaded. -/
  | templateNotFound (reference message : String)
  /-- The rule file could not be decoded into rules. -/
  | rulesParse (message : String) (hint : Option String)
  /-- No input could be collected. -/
  | input (message : String)
  /-- The graph grew past its limit. -/
  | documentLimit (limit : Nat)
  /-- A value has no written form. -/
  | serialization (message : String)
  /-- A file could not be read or written. -/
  | io (message : String)
  /-- A values text could not be decoded. -/
  | yaml (message : String)
  /-- A value has no place in the data model of templates. -/
  | json (message : String)
  /-- A file name pattern is malformed. -/
  | glob (message : String)
  /-- A directory could not be scanned. -/
  | walk (message : String)
deriving Repr, DecidableEq, Inhabited

namespace Error

/-- A hint on a line of its own. -/
def hintLine (hint : Option String) : String :=
  match hint with
  | some text => "\n  hint: " ++ text
  | none => ""

/-- The text shown for a failure. -/
def message : Error → String
  | .parse text hint => "Document parsing error: " ++ text ++ hintLine hint
  | .missingKind document =>
    "Document is missing a non-empty string `kind`:\n" ++ document
  | .selectorSyntax query text =>
    "Selector syntax error in '" ++ query ++ "': " ++ text
  | .template text name =>
    "Template processing error: " ++ text ++
      (match name with
        | some t => " (template: " ++ t ++ ")"
        | none => "")
  | .templateNotFound reference text =>
    "Template not found: " ++ reference ++ " - " ++ text
  | .rulesParse text hint => "Rules parsing error: " ++ text ++ hintLine hint
  | .input text => "Input error: " ++ text
  | .documentLimit limit =>
    "Document limit of " ++ toString limit ++
      " exceeded; a rule is probably matching the resources it creates"
  | .serialization text => "Serialization error: " ++ text
  | .io text => "I/O error: " ++ text
  | .yaml text => "YAML parsing error: " ++ text
  | .json text => "JSON conversion error: " ++ text
  | .glob text => "Glob pattern error: " ++ text
  | .walk text => "Directory walk error: " ++ text

/-- The cause that a failure passes on from outside, if it does. -/
def cause? : Error → Option String
  | .io text | .yaml text | .json text | .glob text | .walk text => some text
  | _ => none

end Error

end ManifestRules
