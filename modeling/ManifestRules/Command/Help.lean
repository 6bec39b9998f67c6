import ManifestRules.Command.Line
import ManifestRules.Command.Outcome
/-!
# Help and completions

Help lists the arguments of a command or, without one, the commands. The
scripts that complete commands know the names of commands and options.
-/

namespace ManifestRules.Command.Help

/-- The name of the program. -/
def program : String := "kubegraph"

/-- The version of the program. -/
def version : String := "0.1.0"

/-- The commands, each with what it does. -/
def commands : List (Level × String) :=
  [(Line.buildLevel, "Apply a rule file to the input manifests and print the result"),
    (Line.validateLevel, "Check a rule file and the templates it references"),
    (Line.queryLevel, "Resolve a selector against the input manifests"),
    (Line.completionsLevel, "Generate shell completion scripts")]

/-- An option as it is written on the command line. -/
def optionText (o : OptionRule) : String :=
  let long := "--" ++ o.name ++
    (match o.kind with
      | .value _ => " <VALUE>"
      | _ => "")
  match o.letter with
  | some c => "-" ++ String.singleton c ++ ", " ++ long
  | none => "    " ++ long

/-- The options of a level, line by line. -/
def optionLines (l : Level) : String :=
  "Options:\n" ++ String.join (l.options.map fun o => "  " ++ optionText o ++ "\n")

/-- Help about a command. -/
def ofCommand (l : Level) (about : String) : String :=
  about ++ "\n\nUsage: " ++ program ++ " " ++ l.name ++ " [OPTIONS]" ++
    String.join (l.words.map fun _ => " <WORD>") ++ "\n\n" ++ optionLines l

/-- Help about the program. -/
def ofProgram : String :=
  "Apply cross-referencing rules to Kubernetes manifests\n\nUsage: " ++ program ++
    " [OPTIONS] <COMMAND>\n\nCommands:\n" ++
    String.join (commands.map fun c => "  " ++ c.1.name ++ "  " ++ c.2 ++ "\n") ++
    "  help  Print help\n\n" ++ optionLines Line.topLevel

/-- Help about a command or, if there is none of the name, the program. -/
def text (topic : String) : String :=
  match commands.find? fun c => c.1.name == topic with
  | some c => ofCommand c.1 c.2
  | none => ofProgram

/-- The names that can be completed. -/
def names : List String :=
  (commands.map fun c => c.1.name) ++ ["help"] ++
    ((commands.flatMap fun c => c.1.options).map fun o => "--" ++ o.name).eraseDups

/-- A script that completes commands in a shell. -/
def script (s : Shell) : String :=
  let words := " ".intercalate names
  match s with
  | .bash => "complete -o default -W \"" ++ words ++ "\" " ++ program ++ "\n"
  | .zsh => "#compdef " ++ program ++ "\ncompadd -- " ++ words ++ "\n_files\n"
  | .fish => "complete -c " ++ program ++ " -a \"" ++ words ++ "\"\n"
  | .elvish =>
    "set edit:completion:arg-completer[" ++ program ++ "] = \x7b|@words| put " ++ words ++
      " \x7d\n"
  | .powershell =>
    "Register-ArgumentCompleter -Native -CommandName '" ++ program ++
      "' -ScriptBlock \x7b param($word) '" ++ words ++
      "' -split ' ' | Where-Object \x7b $_ -like \"$word*\" \x7d \x7d\n"

/-- The outcome of a reading that ended early. -/
def outcomeOf : Stop → Outcome
  | .help topic => .done (text topic)
  | .version => .done (program ++ " " ++ version ++ "\n")
  | .fault message =>
    .misused ("error: " ++ message ++ "\n\nUsage: " ++ program ++
      " [OPTIONS] <COMMAND>\n\nFor more information, try '--help'.\n")

end ManifestRules.Command.Help
