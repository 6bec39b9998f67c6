import ManifestRules.Text.Blank
/-!
# Arguments of one level

The arguments of a command are read from left to right by `Level.step`, one at
a time, and the first that is wrong ends the reading, as does a call for help.
An option has a long name and perhaps a letter; its value may stand in the same
argument or in the next one. Letters may share an argument. Behind two bare
dashes, and where no option can stand, there are words.
-/

namespace ManifestRules.Command

/-- What an option is for. -/
inductive OptionKind where
  /-- It stands for itself. -/
  | flag
  /-- It has a value, which has to be accepted. -/
  | value (accepts : String → Bool)
  /-- It asks for help. -/
  | help
  /-- It asks for the version. -/
  | version

/-- An option. -/
structure OptionRule where
  /-- The name behind two dashes. -/
  name : String
  /-- The letter behind one dash. -/
  letter : Option Char
  /-- What it is for. -/
  kind : OptionKind

/-- Why the reading of arguments ends early. -/
inductive Stop where
  /-- Help is asked for, about a command or, if it has no name, the program. -/
  | help (command : String)
  /-- The version is asked for. -/
  | version
  /-- An argument is wrong. -/
  | fault (message : String)
deriving Repr, DecidableEq, Inhabited

/-- The arguments that a command takes. -/
structure Level where
  /-- Its name. -/
  name : String
  /-- Its options. -/
  options : List OptionRule
  /-- Its words, in order, each of which has to be accepted. -/
  words : List (String → Bool)

/-- The arguments that a command has been given. -/
structure Arguments where
  /-- The options in order, each with its value if it has one. -/
  options : List (String × Option String)
  /-- The words in order. -/
  words : List String
deriving Repr, DecidableEq, Inhabited

namespace Arguments

/-- No arguments. -/
def none : Arguments := ⟨[], []⟩

/-- The option has been given. -/
def has (a : Arguments) (name : String) : Bool := a.options.any fun o => o.1 == name

/-- The value that an option has been given. -/
def value? (a : Arguments) (name : String) : Option String :=
  (a.options.find? fun o => o.1 == name).bind (·.2)

end Arguments

/-- How far the reading has come. -/
structure Reading where
  /-- What has been given so far. -/
  given : Arguments
  /-- The option whose value comes next. -/
  waiting : Option OptionRule
  /-- Two bare dashes have been read. -/
  closed : Bool

namespace Reading

/-- Nothing has been read. -/
def start : Reading := ⟨Arguments.none, none, false⟩

/-- Note an option; none may be given twice. -/
def note (s : Reading) (name : String) (value : Option String) : Except Stop Reading :=
  if s.given.has name then
    .error (.fault ("the argument '--" ++ name ++ "' cannot be used multiple times"))
  else
    .ok { s with given := { s.given with options := s.given.options ++ [(name, value)] },
                 waiting := none }

/-- Note an option with its value. -/
def noteValue (s : Reading) (name : String) (accepts : String → Bool) (value : String) :
    Except Stop Reading :=
  if accepts value then s.note name (some value)
  else .error (.fault ("invalid value '" ++ value ++ "' for '--" ++ name ++ "'"))

end Reading

/-- The argument looks like an option: a dash with something behind it. -/
def looksLikeOption (argument : String) : Bool :=
  match argument.toList with
  | '-' :: _ :: _ => true
  | _ => false

namespace Level

/-- An argument that is not known here. -/
def unexpected {α : Type} (argument : String) : Except Stop α :=
  .error (.fault ("unexpected argument '" ++ argument ++ "' found"))

/-- Read a word. -/
def word (l : Level) (s : Reading) (argument : String) : Except Stop Reading :=
  match l.words[s.given.words.length]? with
  | none => unexpected argument
  | some accepts =>
    if accepts argument then
      .ok { s with given := { s.given with words := s.given.words ++ [argument] } }
    else .error (.fault ("invalid value '" ++ argument ++ "'"))

/-- Read an option that stands without a value in its argument. -/
def bareOption (l : Level) (s : Reading) (o : OptionRule) : Except Stop Reading :=
  match o.kind with
  | .flag => s.note o.name none
  | .value _ => .ok { s with waiting := some o }
  | .help => .error (.help l.name)
  | .version => .error .version

/-- Read the value of an option. -/
def optionValue (s : Reading) (o : OptionRule) (value : String) : Except Stop Reading :=
  match o.kind with
  | .value accepts => s.noteValue o.name accepts value
  | _ => .error (.fault ("unexpected value '" ++ value ++ "' for '--" ++ o.name ++ "' found"))

/-- Read a long option, without its dashes. -/
def long (l : Level) (s : Reading) (text : List Char) : Except Stop Reading :=
  let (name, value) :=
    match Text.splitOnce '=' text with
    | some (name, value) => (String.ofList name, some (String.ofList value))
    | none => (String.ofList text, none)
  match l.options.find? fun o => o.name == name, value with
  | none, _ => unexpected ("--" ++ name)
  | some o, none => l.bareOption s o
  | some o, some v => optionValue s o v

/-- The value behind a letter, with or without an equals sign. -/
def attached : List Char → String
  | '=' :: rest => String.ofList rest
  | rest => String.ofList rest

/-- Read letters that share an argument. -/
def letters (l : Level) (s : Reading) : List Char → Except Stop Reading
  | [] => .ok s
  | c :: rest =>
    match l.options.find? fun o => o.letter == some c with
    | none => unexpected ("-" ++ String.singleton c)
    | some o =>
      match o.kind, rest with
      | .value _, _ :: _ => optionValue s o (attached rest)
      | _, _ => do
        let s ← l.bareOption s o
        l.letters s rest

/-- Read an argument. -/
def step (l : Level) (s : Reading) (argument : String) : Except Stop Reading :=
  match s.waiting with
  | some o =>
    if looksLikeOption argument then
      .error (.fault ("a value is required for '--" ++ o.name ++ "' but none was supplied"))
    else optionValue s o argument
  | none =>
    if s.closed then l.word s argument
    else
      match argument.toList with
      | ['-', '-'] => .ok { s with closed := true }
      | '-' :: '-' :: text => l.long s text
      | '-' :: c :: more => l.letters s (c :: more)
      | _ => l.word s argument

/-- What has been given when the arguments are at their end. -/
def finish (s : Reading) : Except Stop Arguments :=
  match s.waiting with
  | some o => .error (.fault ("a value is required for '--" ++ o.name ++ "' but none was supplied"))
  | none => .ok s.given

/-- Read all arguments. -/
def read (l : Level) (arguments : List String) : Except Stop Arguments := do
  let s ← arguments.foldlM l.step Reading.start
  finish s

/-- The argument is the word that a command begins with. -/
def isCommandWord (s : Reading) (argument : String) : Bool :=
  s.waiting.isNone && !s.closed && !looksLikeOption argument

/-- Read the arguments in front of the first word that can begin a command, and
give the others back. -/
def readHead (l : Level) (s : Reading) :
    List String → Except Stop (Arguments × List String)
  | [] => do
    let given ← finish s
    pure (given, [])
  | argument :: rest =>
    if isCommandWord s argument then .ok (s.given, argument :: rest)
    else do
      let s ← l.step s argument
      l.readHead s rest

end Level

end ManifestRules.Command
