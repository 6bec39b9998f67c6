import ManifestRules.Yaml.Scalar
/-!
# Tokens of a YAML text

Besides scalars, a text is made of indicators, names and directives. This
module has the type of tokens and reads the ones that carry a name; the order
of tokens is the business of the lexer.
-/

namespace ManifestRules.Yaml

/-- A token. Indentation appears as the start and end of block collections. -/
inductive Token where
  /-- The version a document was written for. -/
  | version (major minor : Nat)
  /-- An abbreviation for the start of tags. -/
  | tagHandle (handle : String) (start : List UInt8)
  /-- Three dashes. -/
  | documentStart
  /-- Three dots. -/
  | documentEnd
  /-- A block sequence starts. -/
  | blockSequence
  /-- A block mapping starts. -/
  | blockMapping
  /-- A block collection ends. -/
  | blockEnd
  /-- An opening square bracket. -/
  | openSequence
  /-- A closing square bracket. -/
  | closeSequence
  /-- An opening brace. -/
  | openMapping
  /-- A closing brace. -/
  | closeMapping
  /-- The dash before an item. -/
  | item
  /-- The comma after an item. -/
  | comma
  /-- The start of a key, written or implied. -/
  | key
  /-- The colon before a value. -/
  | value
  /-- A reference to a name. -/
  | alias (name : String)
  /-- A name for what follows. -/
  | anchor (name : String)
  /-- A tag for what follows, as a handle and the bytes behind it. -/
  | tag (handle : String) (bytes : List UInt8)
  /-- A scalar, and whether it was written without quotes in one block. -/
  | scalar (text : String) (plain : Bool)
deriving Repr, DecidableEq, Inhabited

namespace Token

/-- The UTF-8 bytes of a text. -/
def bytesOf (text : List Char) : List UInt8 :=
  (String.ofList text).toUTF8.toList

/-- A character that stands for itself in a tag. -/
def isTagChar (wide : Bool) (c : Char) : Bool :=
  isWordChar c || ";/?:@&=+$.%!~*'()".toList.contains c ||
    (wide && (c == ',' || c == '[' || c == ']'))

/-- The value of one escaped byte. -/
def readEscapedByte (c : Cursor) : Except Fault (Nat × Cursor) :=
  match (if c.peek == '%' then Scalar.hexNumber? ((c.rest.drop 1).take 2) else none) with
  | some n =>
    if ((c.rest.drop 1).take 2).length < 2 then .error (c.fault "did not find URI escaped octet")
    else .ok (n, c.skip 3)
  | none => .error (c.fault "did not find URI escaped octet")

/-- How many bytes a character takes, by its first byte. -/
def sequenceLength? (byte : Nat) : Option Nat :=
  if byte < 0x80 then some 1
  else if byte / 32 = 6 then some 2
  else if byte / 16 = 14 then some 3
  else if byte / 8 = 30 then some 4
  else none

/-- Read the bytes after the first one of an escaped character. -/
def readTrailing : Nat → Cursor → Except Fault (List UInt8 × Cursor)
  | 0, c => .ok ([], c)
  | n + 1, c => do
    let (byte, c') ← readEscapedByte c
    if byte / 64 ≠ 2 then throw (c.fault "found an incorrect trailing UTF-8 octet")
    let (more, c') ← readTrailing n c'
    pure (UInt8.ofNat byte :: more, c')

/-- Read an escaped character. -/
def readEscapedChar (c : Cursor) : Except Fault (List UInt8 × Cursor) := do
  let (byte, c') ← readEscapedByte c
  match sequenceLength? byte with
  | none => throw (c.fault "found an incorrect leading UTF-8 octet")
  | some n =>
    let (more, c') ← readTrailing (n - 1) c'
    pure (UInt8.ofNat byte :: more, c')

/-- Read the characters of a tag as bytes. -/
def readTagBytes (wide : Bool) : Nat → Cursor → Except Fault (List UInt8 × Cursor)
  | 0, c => .ok ([], c)
  | fuel + 1, c => do
    let ch := c.peek
    if !isTagChar wide ch then pure ([], c)
    else
      let (bytes, c) ← if ch == '%' then readEscapedChar c else pure (bytesOf [ch], c.skip 1)
      let (more, c) ← readTagBytes wide fuel c
      pure (bytes ++ more, c)

/-- The bytes in front of the first zero: a tag ends there, however it goes on. -/
def untilZero (bytes : List UInt8) : List UInt8 := bytes.takeWhile (· ≠ 0)

/-- Read the characters of a tag, of which there has to be one. -/
def readTagText (wide : Bool) (c : Cursor) : Except Fault (List UInt8 × Cursor) := do
  let (bytes, c') ← readTagBytes wide (c.left + 1) c
  if bytes.isEmpty then throw (c.fault "did not find expected tag URI")
  pure (untilZero bytes, c')

/-- Read a handle: an exclamation mark, perhaps a word, perhaps a second mark. -/
def readHandle (c : Cursor) : Except Fault (List Char × Cursor) :=
  if c.peek != '!' then .error (c.fault "did not find expected '!'")
  else
    let (word, c) := (c.skip 1).takeWhile isWordChar
    if c.peek == '!' then .ok ('!' :: word ++ ['!'], c.skip 1) else .ok ('!' :: word, c)

/-- The handle ends in a mark other than its first. -/
def isClosedHandle (handle : List Char) : Bool :=
  1 < handle.length && handle.getLast? == some '!'

/-- Read a tag; the cursor is at its exclamation mark. A tag in angle brackets
has the empty handle, and so has the lone mark. -/
def readTag (flow : Bool) (c : Cursor) : Except Fault (Token × Cursor) := do
  let (token, c) ←
    if c.peekAt 1 == '<' then
      let (bytes, c) ← readTagText true (c.skip 2)
      if c.peek != '>' then throw (c.fault "did not find the expected '>'")
      pure (.tag "" bytes, c.skip 1)
    else
      let (handle, c) ← readHandle c
      if isClosedHandle handle then
        let (bytes, c) ← readTagText false c
        pure (.tag (String.ofList handle) bytes, c)
      else
        let (more, c) ← readTagBytes false (c.left + 1) c
        let bytes := untilZero (bytesOf (handle.drop 1) ++ more)
        pure (if bytes.isEmpty then .tag "" (bytesOf ['!']) else .tag "!" bytes, c)
  if isGapOrEnd c.peek || (flow && c.peek == ',') then pure (token, c)
  else throw (c.fault "did not find expected whitespace or line break")

/-- Read the name of an anchor or alias; the cursor is at its indicator. -/
def readAnchorName (c : Cursor) : Except Fault (String × Cursor) :=
  let (name, c) := (c.skip 1).takeWhile isWordChar
  if !name.isEmpty && (isGapOrEnd c.peek || "?:,]\x7d%@\x60".toList.contains c.peek) then
    .ok (String.ofList name, c)
  else .error (c.fault "did not find expected alphabetic or numeric character")

/-- Read a number of at most nine digits. -/
def readVersionNumber (c : Cursor) : Except Fault (Nat × Cursor) :=
  let (ds, c') := c.takeWhile fun ch => '0' ≤ ch && ch ≤ '9'
  if ds.isEmpty then .error (c.fault "did not find expected version number")
  else if 9 < ds.length then .error (c.fault "found extremely long version number")
  else .ok (ds.foldl (fun n d => 10 * n + (d.toNat - 48)) 0, c')

/-- Read the value of a version directive. -/
def readVersion (c : Cursor) : Except Fault (Token × Cursor) := do
  let (major, c) ← readVersionNumber (c.skipWhile isSpace)
  if c.peek != '.' then throw (c.fault "did not find expected digit or '.' character")
  let (minor, c) ← readVersionNumber (c.skip 1)
  pure (.version major minor, c)

/-- Read the value of a tag directive. -/
def readTagDirective (c : Cursor) : Except Fault (Token × Cursor) := do
  let (handle, c) ← readHandle (c.skipWhile isSpace)
  if !(handle == ['!'] || isClosedHandle handle) then throw (c.fault "did not find expected '!'")
  if !isSpace c.peek then throw (c.fault "did not find expected whitespace")
  let (bytes, c) ← readTagText true (c.skipWhile isSpace)
  if !isGapOrEnd c.peek then throw (c.fault "did not find expected whitespace or line break")
  pure (.tagHandle (String.ofList handle) bytes, c)

/-- Read a directive with its line; the cursor is at the percent sign. -/
def readDirective (c : Cursor) : Except Fault (Token × Cursor) := do
  let (name, c) := (c.skip 1).takeWhile isWordChar
  if name.isEmpty then throw (c.fault "could not find expected directive name")
  if !isGapOrEnd c.peek then throw (c.fault "found unexpected non-alphabetical character")
  let (token, c) ←
    if name == "YAML".toList then readVersion c
    else if name == "TAG".toList then readTagDirective c
    else throw (c.fault "found unknown directive name")
  let c := c.skipWhile isSpace
  let c := if c.peek == '#' then c.skipLine else c
  if !isBreakOrEnd c.peek then
    throw (c.fault "did not find expected comment or line break")
  pure (token, c.skipBreak)

end Token

end ManifestRules.Yaml
