/-!
# Reading positions in a YAML text

A cursor is the text still to be read together with the place it starts at.
The characters a text may hold and the ones that break a line are fixed by the
format; a line break is read as one character, whatever it was written with.
-/

namespace ManifestRules.Yaml

/-- Why a text is not YAML, and where that was noticed. -/
structure Fault where
  /-- What was found or missed. -/
  problem : String
  /-- Line and column, both from zero. -/
  place : Option (Nat × Nat)
deriving Repr, DecidableEq, Inhabited

/-- The text of a fault, in one line and with places counted from one. -/
def Fault.text (f : Fault) : String :=
  match f.place with
  | some (line, column) =>
    f.problem ++ " at line " ++ toString (line + 1) ++ " column " ++ toString (column + 1)
  | none => f.problem

/-- A character that may stand in a text. -/
def isAllowed (c : Char) : Bool :=
  let n := c.toNat
  n == 0x09 || n == 0x0A || n == 0x0D || (0x20 ≤ n && n ≤ 0x7E) || n == 0x85 ||
    (0xA0 ≤ n && n ≤ 0xD7FF) || (0xE000 ≤ n && n ≤ 0xFFFD) || 0x10000 ≤ n

/-- A character that breaks a line. -/
def isBreak (c : Char) : Bool :=
  c == '\n' || c == '\r' || c == '\u0085' || c == '\u2028' || c == '\u2029'

/-- A space or a tab. -/
def isSpace (c : Char) : Bool :=
  c == ' ' || c == '\t'

/-- What is found behind the last character. No text holds it. -/
def endMark : Char := '\x00'

/-- A line break or the end. -/
def isBreakOrEnd (c : Char) : Bool :=
  isBreak c || c == endMark

/-- A space, a line break or the end. -/
def isGapOrEnd (c : Char) : Bool :=
  isSpace c || isBreakOrEnd c

/-- A letter, digit, underscore or dash of ASCII, as in anchors and handles. -/
def isWordChar (c : Char) : Bool :=
  ('0' ≤ c && c ≤ '9') || ('a' ≤ c && c ≤ 'z') || ('A' ≤ c && c ≤ 'Z') || c == '_' || c == '-'

/-- The byte order mark. -/
def byteOrderMark : Char := '\ufeff'

/-- A position in a text. -/
structure Cursor where
  /-- What is still to be read. -/
  rest : List Char
  /-- Lines before the position. -/
  line : Nat
  /-- Characters before the position in its line. -/
  column : Nat
  /-- Bytes before the position. -/
  index : Nat
  /-- Bytes of the whole text. -/
  size : Nat
deriving Repr, Inhabited

namespace Cursor

/-- How many bytes characters take. -/
def bytesIn (cs : List Char) : Nat := cs.foldl (fun n c => n + c.utf8Size) 0

/-- The start of a text. -/
def ofText (text : List Char) : Cursor := ⟨text, 0, 0, 0, bytesIn text⟩

/-- How many bytes are still to be read. -/
def left (c : Cursor) : Nat := c.size - c.index

/-- The character `n` places ahead. -/
def peekAt (c : Cursor) (n : Nat) : Char := c.rest.getD n endMark

/-- The next character. -/
def peek (c : Cursor) : Char := c.peekAt 0

/-- Nothing is left. -/
def atEnd (c : Cursor) : Bool := c.peek == endMark

/-- Move over characters of one line. -/
def skip (c : Cursor) (n : Nat) : Cursor :=
  { c with
    rest := c.rest.drop n
    column := c.column + n
    index := c.index + bytesIn (c.rest.take n) }

/-- Read a line break, if there is one. Carriage return, line feed and next
line are read as a line feed; the other two stay what they are. -/
def readBreak (c : Cursor) : List Char × Cursor :=
  match c.rest with
  | '\r' :: '\n' :: rest => (['\n'], ⟨rest, c.line + 1, 0, c.index + 2, c.size⟩)
  | ch :: rest =>
    if isBreak ch then
      ([if ch = '\u2028' ∨ ch = '\u2029' then ch else '\n'],
        ⟨rest, c.line + 1, 0, c.index + ch.utf8Size, c.size⟩)
    else ([], c)
  | [] => ([], c)

/-- Move over a line break, if there is one. -/
def skipBreak (c : Cursor) : Cursor := c.readBreak.2

/-- Read characters of one line as long as they have a property. -/
def takeWhile (c : Cursor) (p : Char → Bool) : List Char × Cursor :=
  let taken := c.rest.takeWhile p
  (taken, c.skip taken.length)

/-- Move over characters of one line as long as they have a property. -/
def skipWhile (c : Cursor) (p : Char → Bool) : Cursor := (c.takeWhile p).2

/-- Move to the end of the line. -/
def skipLine (c : Cursor) : Cursor := c.skipWhile fun ch => !isBreak ch

/-- A fault noticed here. -/
def fault (c : Cursor) (problem : String) : Fault := ⟨problem, some (c.line, c.column)⟩

/-- Three of the same character at the start of a line, followed by a gap. -/
def atMarker (c : Cursor) (ch : Char) : Bool :=
  c.column == 0 && c.peekAt 0 == ch && c.peekAt 1 == ch && c.peekAt 2 == ch &&
    isGapOrEnd (c.peekAt 3)

/-- A line that starts or ends a document. -/
def atDocumentMarker (c : Cursor) : Bool := c.atMarker '-' || c.atMarker '.'

end Cursor

end ManifestRules.Yaml
