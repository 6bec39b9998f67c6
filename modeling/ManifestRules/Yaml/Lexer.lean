import ManifestRules.Yaml.Token
/-!
# The tokens of a YAML text in order

Two things make the order of tokens depend on more than the next character.
Indentation opens and closes block collections. And a key is known as a key
only by the colon behind it, so wherever a key may start its place is kept,
and the tokens that open it are put there once the colon is found. A place is
given up when the line ends or after 1024 bytes.
-/

namespace ManifestRules.Yaml

/-- A place where a key may have started. -/
structure KeyPlace where
  /-- A key has to start here, by the indentation. -/
  required : Bool
  /-- How many tokens come before. -/
  number : Nat
  /-- Its line. -/
  line : Nat
  /-- Its column. -/
  column : Nat
  /-- Its index. -/
  index : Nat
deriving Repr, Inhabited

/-- The state of the lexer between two tokens. -/
structure Lexer where
  /-- Where it is. -/
  cursor : Cursor
  /-- The tokens so far, the last one first. -/
  tokens : List Token
  /-- How many tokens there are so far. -/
  count : Nat
  /-- The indentation of the innermost block collection, -1 outside all. -/
  indent : Int
  /-- The indentations around that one. -/
  indents : List Int
  /-- A key may start here. -/
  keyAllowed : Bool
  /-- Where a key may have started in the innermost flow collection. -/
  place : Option KeyPlace
  /-- The same for the collections around that one. -/
  places : List (Option KeyPlace)
deriving Inhabited

namespace Lexer

/-- The state before the first token. -/
def ofText (text : List Char) : Lexer :=
  ⟨Cursor.ofText text, [], 0, -1, [], true, none, []⟩

/-- The position is inside a flow collection. -/
def inFlow (s : Lexer) : Bool := !s.places.isEmpty

/-- Append a token. -/
def push (s : Lexer) (t : Token) : Lexer :=
  { s with tokens := t :: s.tokens, count := s.count + 1 }

/-- Put a token behind the first `n` tokens. -/
def insert (s : Lexer) (n : Nat) (t : Token) : Lexer :=
  let later := s.count - n
  { s with tokens := s.tokens.take later ++ t :: s.tokens.drop later, count := s.count + 1 }

/-- Move over `n` characters. -/
def skip (s : Lexer) (n : Nat) : Lexer := { s with cursor := s.cursor.skip n }

/-- Say whether a key may start here. -/
def allowKey (s : Lexer) (allowed : Bool) : Lexer := { s with keyAllowed := allowed }

/-- A fault noticed here. -/
def fault (s : Lexer) (problem : String) : Fault := s.cursor.fault problem

/-- Give up the place of a key. -/
def dropPlace (s : Lexer) : Except Fault Lexer :=
  match s.place with
  | some place =>
    if place.required then .error (s.fault "could not find expected ':'")
    else .ok { s with place := none }
  | none => .ok s

/-- Keep this place if a key may start here. -/
def savePlace (s : Lexer) : Except Fault Lexer :=
  if s.keyAllowed then do
    let s ← s.dropPlace
    let c := s.cursor
    pure { s with
      place := some ⟨!s.inFlow && s.indent == (c.column : Int), s.count, c.line,
        c.column, c.index⟩ }
  else .ok s

/-- A place is too far back. -/
def isStale (s : Lexer) (place : KeyPlace) : Bool :=
  place.line < s.cursor.line || place.index + 1024 < s.cursor.index

/-- A place that is not too far back. -/
def refresh (s : Lexer) (place? : Option KeyPlace) : Except Fault (Option KeyPlace) :=
  match place? with
  | some place =>
    if s.isStale place then
      if place.required then .error (s.fault "could not find expected ':'") else .ok none
    else .ok (some place)
  | none => .ok none

/-- Give up all places that are too far back. -/
def dropStale (s : Lexer) : Except Fault Lexer := do
  let place ← s.refresh s.place
  let places ← s.places.mapM s.refresh
  pure { s with place, places }

/-- Close the block collections that stand further in than a column. -/
def unrollFrom : List Int → Lexer → Int → Lexer
  | [], s, _ => s
  | outer :: more, s, column =>
    if column < s.indent then
      unrollFrom more { s.push .blockEnd with indent := outer, indents := more } column
    else s

/-- Close block collections; a flow collection is not concerned. -/
def unroll (s : Lexer) (column : Int) : Lexer :=
  if s.inFlow then s else unrollFrom s.indents s column

/-- Open a block collection whose first token stands at a column, if there is
none yet, with its token behind the first `n` ones. -/
def roll (s : Lexer) (column n : Nat) (t : Token) : Lexer :=
  if !s.inFlow && s.indent < (column : Int) then
    { s.insert n t with indent := column, indents := s.indent :: s.indents }
  else s

/-- Open a block collection here. -/
def rollHere (s : Lexer) (t : Token) : Lexer := s.roll s.cursor.column s.count t

/-- Move over white space, comments and line breaks. -/
def skipGaps : Nat → Lexer → Lexer
  | 0, s => s
  | fuel + 1, s =>
    let c := s.cursor
    let c := if c.column == 0 && c.peek == byteOrderMark then c.skip 1 else c
    let tabs := s.inFlow || !s.keyAllowed
    let c := c.skipWhile fun ch => ch == ' ' || (tabs && ch == '\t')
    let c := if c.peek == '#' then c.skipLine else c
    if isBreak c.peek then
      skipGaps fuel { s with cursor := c.skipBreak, keyAllowed := s.keyAllowed || !s.inFlow }
    else { s with cursor := c }

/-- End all block collections and forget the place of a key. -/
def closeAll (s : Lexer) : Except Fault Lexer := do
  let s ← (s.unroll (-1)).dropPlace
  pure (s.allowKey false)

/-- An opening bracket or brace. -/
def openFlow (s : Lexer) (t : Token) : Except Fault Lexer := do
  let s ← s.savePlace
  pure { (s.push t).skip 1 with place := none, places := s.place :: s.places, keyAllowed := true }

/-- A closing bracket or brace. -/
def closeFlow (s : Lexer) (t : Token) : Except Fault Lexer := do
  let s ← s.dropPlace
  let s := (s.push t).skip 1
  match s.places with
  | place :: places => pure { s with place, places, keyAllowed := false }
  | [] => pure { s with keyAllowed := false }

/-- A comma. -/
def comma (s : Lexer) : Except Fault Lexer := do
  let s ← s.dropPlace
  pure ((s.push .comma).skip 1 |>.allowKey true)

/-- A dash. -/
def item (s : Lexer) : Except Fault Lexer := do
  if !s.inFlow && !s.keyAllowed then
    throw (s.fault "block sequence entries are not allowed in this context")
  let s ← (s.rollHere .blockSequence).dropPlace
  pure ((s.push .item).skip 1 |>.allowKey true)

/-- A question mark. -/
def key (s : Lexer) : Except Fault Lexer := do
  if !s.inFlow && !s.keyAllowed then
    throw (s.fault "mapping keys are not allowed in this context")
  let s ← (s.rollHere .blockMapping).dropPlace
  pure ((s.push .key).skip 1 |>.allowKey !s.inFlow)

/-- A colon: what stands at the place of a key becomes one. -/
def value (s : Lexer) : Except Fault Lexer :=
  match s.place with
  | some place =>
    let s := (s.insert place.number .key).roll place.column place.number .blockMapping
    .ok { (s.push .value).skip 1 with place := none, keyAllowed := false }
  | none =>
    if !s.inFlow && !s.keyAllowed then
      .error (s.fault "mapping values are not allowed in this context")
    else .ok ((s.rollHere .blockMapping).push .value |>.skip 1 |>.allowKey !s.inFlow)

/-- A token that may start a key, read from the cursor. -/
def word (s : Lexer) (read : Cursor → Except Fault (Token × Cursor)) : Except Fault Lexer := do
  let s ← s.savePlace
  let (t, c) ← read s.cursor
  pure ({ s with cursor := c }.push t |>.allowKey false)

/-- A block scalar. -/
def block (s : Lexer) (literal : Bool) : Except Fault Lexer := do
  let s ← s.dropPlace
  let (text, c) ← Scalar.readBlock literal s.indent (s.cursor.skip 1)
  pure ({ s with cursor := c }.push (.scalar text false) |>.allowKey true)

/-- A plain scalar. -/
def plain (s : Lexer) : Except Fault Lexer := do
  let s ← s.savePlace
  let (text, broken, c) ← Scalar.readPlain s.inFlow (s.indent + 1).toNat s.cursor
  pure ({ s with cursor := c }.push (.scalar text true) |>.allowKey broken)

/-- A quoted scalar as a token. -/
def readQuotedToken (single : Bool) (c : Cursor) : Except Fault (Token × Cursor) := do
  let (text, c) ← Scalar.readQuoted single (c.skip 1)
  pure (.scalar text false, c)

/-- An alias as a token. -/
def readAlias (c : Cursor) : Except Fault (Token × Cursor) := do
  let (name, c) ← Token.readAnchorName c
  pure (.alias name, c)

/-- An anchor as a token. -/
def readAnchor (c : Cursor) : Except Fault (Token × Cursor) := do
  let (name, c) ← Token.readAnchorName c
  pure (.anchor name, c)

/-- A character that starts no plain scalar, or only before certain characters. -/
def isIndicator (c : Char) : Bool :=
  "-?:,[]\x7b\x7d#&*!|>'\"%@\x60".toList.contains c

/-- A plain scalar starts at a cursor. -/
def startsPlain (flow : Bool) (c : Cursor) : Bool :=
  let ch := c.peek
  let next := c.peekAt 1
  (!isGapOrEnd ch && !isIndicator ch) || (ch == '-' && !isSpace next) ||
    (!flow && (ch == '?' || ch == ':') && !isGapOrEnd next)

/-- Read the token at the cursor, which is neither in a gap nor at the end. -/
def step (s : Lexer) : Except Fault Lexer :=
  let c := s.cursor
  let ch := c.peek
  let gapNext := isGapOrEnd (c.peekAt 1)
  if c.column == 0 && ch == '%' then do
    let s ← s.closeAll
    let (t, c) ← Token.readDirective s.cursor
    pure ({ s with cursor := c }.push t)
  else if c.atMarker '-' then do
    let s ← s.closeAll
    pure ((s.push .documentStart).skip 3)
  else if c.atMarker '.' then do
    let s ← s.closeAll
    pure ((s.push .documentEnd).skip 3)
  else if ch == '[' then s.openFlow .openSequence
  else if ch == '\x7b' then s.openFlow .openMapping
  else if ch == ']' then s.closeFlow .closeSequence
  else if ch == '\x7d' then s.closeFlow .closeMapping
  else if ch == ',' then s.comma
  else if ch == '-' && gapNext then s.item
  else if ch == '?' && (s.inFlow || gapNext) then s.key
  else if ch == ':' && (s.inFlow || gapNext) then s.value
  else if ch == '*' then s.word readAlias
  else if ch == '&' then s.word readAnchor
  else if ch == '!' then s.word (Token.readTag s.inFlow)
  else if ch == '|' && !s.inFlow then s.block true
  else if ch == '>' && !s.inFlow then s.block false
  else if ch == '\'' then s.word (readQuotedToken true)
  else if ch == '"' then s.word (readQuotedToken false)
  else if startsPlain s.inFlow c then s.plain
  else .error (s.fault "found character that cannot start any token")

/-- Read all tokens up to the end of the text. -/
def run : Nat → Lexer → Except Fault (List Token)
  | 0, s => .error (s.fault "the text has more tokens than characters")
  | fuel + 1, s => do
    let s := skipGaps (fuel + 1) s
    let s ← s.dropStale
    let s := s.unroll s.cursor.column
    if s.cursor.atEnd then
      let s ← s.closeAll
      pure s.tokens.reverse
    else
      let s ← s.step
      run fuel s

end Lexer

/-- The tokens of a text. -/
def Token.ofText (text : List Char) : Except Fault (List Token) :=
  if text.all isAllowed then Lexer.run (text.length + 2) (Lexer.ofText text)
  else .error ⟨"control characters are not allowed", none⟩

end ManifestRules.Yaml
