import ManifestRules.Yaml.Plain
/-!
# How a text is written as a scalar

A text without line feeds is written plain if it can be and would be read as a
text again, otherwise in single quotes, and in double quotes if it holds
characters that need an escape. A text with line feeds becomes a literal block
where that keeps every character.
-/

namespace ManifestRules.Yaml

/-- The ways to write a scalar. -/
inductive ScalarStyle where
  /-- As it is. -/
  | plain
  /-- In single quotes. -/
  | single
  /-- In double quotes, with escapes. -/
  | double
  /-- As a block that keeps its lines. -/
  | literal
deriving DecidableEq, Repr

namespace ScalarStyle

/-- A character that can be written without an escape. -/
def isPrintable (c : Char) : Bool :=
  let n := c.toNat
  n == 0x0A || (0x20 ≤ n && n ≤ 0x7E) ||
    (0xA0 ≤ n && n != 0xFEFF && n != 0xFFFE && n != 0xFFFF)

/-- The character and the one behind it form something else than a text when a
plain scalar starts with them. -/
def startsIndicator (c next : Char) : Bool :=
  "#,[]\x7b\x7d&*!|>'\"%@\x60".toList.contains c ||
    ((c == '?' || c == ':' || c == '-') && isGapOrEnd next)

/-- Behind the first character, a colon before a gap or a number sign behind one
stands where the tail of a text starts. -/
def hasIndicator : Char → List Char → Bool
  | _, [] => false
  | before, c :: rest =>
    (c == ':' && isGapOrEnd (rest.headD endMark)) || (c == '#' && isGapOrEnd before) ||
      hasIndicator c rest

/-- The text begins like a line that starts or ends a document. -/
def startsMarker (s : List Char) : Bool :=
  s.take 3 == ['-', '-', '-'] || s.take 3 == ['.', '.', '.']

/-- The text would not be read as plain text in a block collection. -/
def hasBlockIndicator (s : List Char) : Bool :=
  startsMarker s ||
    match s with
    | [] => false
    | c :: rest => startsIndicator c (rest.headD endMark) || hasIndicator c rest

/-- Two characters with the given properties stand side by side. -/
def adjacent (p q : Char → Bool) : List Char → Bool
  | a :: b :: rest => (p a && q b) || adjacent p q (b :: rest)
  | _ => false

/-- A space, not a tab. -/
def isBlankSpace (c : Char) : Bool := c == ' '

/-- The text has a line break. -/
def isMultiline (s : List Char) : Bool := s.any isBreak

/-- The text begins or ends with a character of the property. -/
def atEnds (p : Char → Bool) (s : List Char) : Bool :=
  s.head?.any p || s.getLast?.any p

/-- The text needs escapes whatever the context. -/
def needsEscapes (s : List Char) : Bool :=
  adjacent isBlankSpace isBreak s || s.any fun c => !isPrintable c

/-- The text can be written plain. -/
def plainAllowed (s : List Char) : Bool :=
  !(atEnds (fun c => isBlankSpace c || isBreak c) s || needsEscapes s || isMultiline s ||
    hasBlockIndicator s)

/-- The text can be written in single quotes. -/
def singleAllowed (s : List Char) : Bool :=
  !(adjacent isBreak isBlankSpace s || needsEscapes s)

/-- The text can be written as a block. -/
def blockAllowed (s : List Char) : Bool :=
  !(s.isEmpty || s.getLast?.any isBlankSpace || needsEscapes s)

/-- The plain scalar of this text would not be read as a text, or looks as if it
might not. -/
def needsQuotes (s : String) : Bool :=
  Plain.ofText s != .text || Plain.isPaddedNumber s.toList

/-- The style of a text. -/
def ofText (s : String) : ScalarStyle :=
  let cs := s.toList
  if cs.contains '\n' then (if blockAllowed cs then .literal else .double)
  else if !needsQuotes s && plainAllowed cs then .plain
  else if singleAllowed cs then .single
  else .double

end ScalarStyle

namespace Written

/-- Spaces up to a column. -/
def pad (n : Nat) : List Char := List.replicate n ' '

/-- A text with spaces in front of every line that has characters; the flag
tells that a line starts here. -/
def padLines (indent : Nat) : Bool → List Char → List Char
  | _, [] => []
  | start, c :: rest =>
    if isBreak c then c :: padLines indent true rest
    else if start then pad indent ++ c :: padLines indent false rest
    else c :: padLines indent false rest

/-- The indicator of a literal block: an indentation digit where the first line
would hide it, and how the line feeds at the end are to be read. -/
def literalHeader (s : List Char) : List Char :=
  let digit := if s.head?.any fun c => c == ' ' || isBreak c then ['2'] else []
  let chomping :=
    match s.reverse with
    | [] => ['-']
    | c :: before =>
      if !isBreak c then ['-']
      else
        match before with
        | [] => ['+']
        | d :: _ => if isBreak d then ['+'] else []
  '|' :: digit ++ chomping

/-- A literal block with its lines at a column. -/
def literal (indent : Nat) (s : List Char) : List Char :=
  literalHeader s ++ '\n' :: padLines indent true s

/-- A text in single quotes; a line break inside is followed by spaces. -/
def single (indent : Nat) (s : List Char) : List Char :=
  let doubled := s.flatMap fun c => if c = '\'' then ['\'', '\''] else [c]
  let last := if s.getLast?.any isBreak then pad indent else []
  '\'' :: padLines indent false doubled ++ last ++ ['\'']

/-- A hexadecimal digit, upper case. -/
def hexDigit (n : Nat) : Char :=
  if n < 10 then Char.ofNat (n + 48) else Char.ofNat (n + 55)

/-- A number in a fixed count of hexadecimal digits. -/
def hexDigits : Nat → Nat → List Char
  | 0, _ => []
  | count + 1, n => hexDigits count (n / 16) ++ [hexDigit (n % 16)]

/-- The letter behind the backslash for a character that has one. -/
def escapeLetter? (c : Char) : Option Char :=
  match c with
  | '\x00' => some '0'
  | '\x07' => some 'a'
  | '\x08' => some 'b'
  | '\t' => some 't'
  | '\n' => some 'n'
  | '\x0b' => some 'v'
  | '\x0c' => some 'f'
  | '\r' => some 'r'
  | '\x1b' => some 'e'
  | '"' => some '"'
  | '\\' => some '\\'
  | '\u0085' => some 'N'
  | '\u2028' => some 'L'
  | '\u2029' => some 'P'
  | _ => none

/-- A character in double quotes. -/
def doubleChar (c : Char) : List Char :=
  match escapeLetter? c with
  | some letter => ['\\', letter]
  | none =>
    if ScalarStyle.isPrintable c then [c]
    else
      let n := c.toNat
      if n ≤ 0xFF then '\\' :: 'x' :: hexDigits 2 n
      else if n ≤ 0xFFFF then '\\' :: 'u' :: hexDigits 4 n
      else '\\' :: 'U' :: hexDigits 8 n

/-- A text in double quotes. -/
def double (s : List Char) : List Char :=
  '"' :: (s.flatMap doubleChar ++ ['"'])

/-- A text in its style, with the lines of a block at a column. -/
def text (indent : Nat) (s : String) : List Char :=
  match ScalarStyle.ofText s with
  | .plain => s.toList
  | .single => single indent s.toList
  | .double => double s.toList
  | .literal => literal indent s.toList

end Written

end ManifestRules.Yaml
