import ManifestRules.Yaml.Cursor
/-!
# Scalars in a YAML text

Quoted, plain and block scalars are read here from the character behind their
first indicator up to their end. Inside quoted and plain scalars white space
forms gaps, and a gap with line breaks is folded (`Gap.folded`). Texts are
gathered in reverse order. Every loop has a bound that the length of the text
provides.
-/

namespace ManifestRules.Yaml

/-- White space inside a scalar. -/
structure Gap where
  /-- Spaces before the first line break. -/
  spaces : List Char
  /-- The first line break. -/
  first : List Char
  /-- The line breaks after the first. -/
  more : List Char
  /-- The gap crosses a line. -/
  broken : Bool

namespace Gap

/-- What stands for the gap in the scalar: spaces in a line as they are, one
line feed as a space, and of several line feeds all but the first. -/
def folded (g : Gap) : List Char :=
  if g.broken then
    if g.first = ['\n'] then (if g.more.isEmpty then [' '] else g.more)
    else g.first ++ g.more
  else g.spaces

/-- Read a gap. In a plain scalar, a tab before the column `tabLimit` of a
later line is a fault. -/
def read (tabLimit : Nat) : Nat → Gap → Cursor → Except Fault (Gap × Cursor)
  | 0, g, c => .ok (g, c)
  | fuel + 1, g, c =>
    let ch := c.peek
    if isSpace ch then
      if g.broken && ch == '\t' && c.column < tabLimit then
        .error (c.fault "found a tab character that violates indentation")
      else if g.broken then read tabLimit fuel g (c.skip 1)
      else read tabLimit fuel { g with spaces := g.spaces ++ [ch] } (c.skip 1)
    else if isBreak ch then
      let (br, c') := c.readBreak
      if g.broken then read tabLimit fuel { g with more := g.more ++ br } c'
      else read tabLimit fuel { g with first := br, broken := true } c'
    else .ok (g, c)

/-- No white space yet. -/
def empty : Gap := ⟨[], [], [], false⟩

/-- A gap that starts with a line break that does not count. -/
def afterEscapedBreak : Gap := ⟨[], [], [], true⟩

end Gap

namespace Scalar

/-- The value of a hexadecimal digit. -/
def hexValue? (c : Char) : Option Nat :=
  if '0' ≤ c ∧ c ≤ '9' then some (c.toNat - 48)
  else if 'a' ≤ c ∧ c ≤ 'f' then some (c.toNat - 87)
  else if 'A' ≤ c ∧ c ≤ 'F' then some (c.toNat - 55)
  else none

/-- The number that hexadecimal digits write. -/
def hexNumber? (ds : List Char) : Option Nat :=
  ds.foldl (fun n? d => n?.bind fun n => (hexValue? d).map fun v => 16 * n + v) (some 0)

/-- The character that a letter after a backslash stands for. -/
def shortEscape? (c : Char) : Option Char :=
  match c with
  | '0' => some '\x00'
  | 'a' => some '\x07'
  | 'b' => some '\x08'
  | 't' => some '\t'
  | '\t' => some '\t'
  | 'n' => some '\n'
  | 'v' => some '\x0b'
  | 'f' => some '\x0c'
  | 'r' => some '\r'
  | 'e' => some '\x1b'
  | ' ' => some ' '
  | '"' => some '"'
  | '/' => some '/'
  | '\\' => some '\\'
  | 'N' => some '\u0085'
  | '_' => some '\u00a0'
  | 'L' => some '\u2028'
  | 'P' => some '\u2029'
  | _ => none

/-- How many hexadecimal digits follow a letter after a backslash. -/
def escapeWidth? (c : Char) : Option Nat :=
  match c with
  | 'x' => some 2
  | 'u' => some 4
  | 'U' => some 8
  | _ => none

/-- Read an escape sequence; the cursor is at its backslash. -/
def readEscape (c : Cursor) : Except Fault (Char × Cursor) :=
  match shortEscape? (c.peekAt 1) with
  | some ch => .ok (ch, c.skip 2)
  | none =>
    match escapeWidth? (c.peekAt 1) with
    | none => .error (c.fault "found unknown escape character")
    | some width =>
      let ds := (c.rest.drop 2).take width
      match (if ds.length = width then hexNumber? ds else none) with
      | none => .error (c.fault "did not find expected hexadecimal number")
      | some n =>
        if (0xD800 ≤ n ∧ n ≤ 0xDFFF) ∨ 0x10FFFF < n then
          .error (c.fault "found invalid Unicode character escape code")
        else .ok (Char.ofNat n, c.skip (2 + width))

/-- Read a quoted scalar up to the next gap or its end. The flag tells that an
escaped line break ended the run. -/
def readQuotedRun (single : Bool) :
    Nat → List Char → Cursor → Except Fault (List Char × Cursor × Bool)
  | 0, acc, c => .ok (acc, c, false)
  | fuel + 1, acc, c =>
    let ch := c.peek
    if isGapOrEnd ch then .ok (acc, c, false)
    else if single && ch == '\'' && c.peekAt 1 == '\'' then
      readQuotedRun single fuel ('\'' :: acc) (c.skip 2)
    else if ch == (if single then '\'' else '"') then .ok (acc, c, false)
    else if !single && ch == '\\' then
      if isBreak (c.peekAt 1) then .ok (acc, (c.skip 1).skipBreak, true)
      else
        match readEscape c with
        | .ok (e, c') => readQuotedRun single fuel (e :: acc) c'
        | .error f => .error f
    else readQuotedRun single fuel (ch :: acc) (c.skip 1)

/-- Read a quoted scalar run by run. -/
def readQuotedRuns (single : Bool) :
    Nat → List Char → Cursor → Except Fault (List Char × Cursor)
  | 0, _, c => .error (c.fault "found unexpected end of stream")
  | fuel + 1, acc, c => do
    if c.atDocumentMarker then throw (c.fault "found unexpected document indicator")
    if c.atEnd then throw (c.fault "found unexpected end of stream")
    let (acc, c, escaped) ← readQuotedRun single (fuel + 1) acc c
    if c.peek == (if single then '\'' else '"') then pure (acc, c.skip 1)
    else
      let (gap, c) ←
        Gap.read 0 (fuel + 1) (if escaped then Gap.afterEscapedBreak else Gap.empty) c
      readQuotedRuns single fuel (gap.folded.reverse ++ acc) c

/-- Read a quoted scalar; the cursor is behind its first quote. -/
def readQuoted (single : Bool) (c : Cursor) : Except Fault (String × Cursor) := do
  let (acc, c) ← readQuotedRuns single (c.left + 2) [] c
  pure (String.ofList acc.reverse, c)

/-- The brackets and the comma, which end a plain scalar in a flow collection. -/
def isFlowIndicator (c : Char) : Bool :=
  c == ',' || c == '[' || c == ']' || c == '\x7b' || c == '\x7d'

/-- Read a plain scalar up to the next gap or its end. -/
def readPlainRun (flow : Bool) :
    Nat → List Char → Cursor → Except Fault (List Char × Cursor)
  | 0, acc, c => .ok (acc, c)
  | fuel + 1, acc, c =>
    let ch := c.peek
    let next := c.peekAt 1
    if isGapOrEnd ch then .ok (acc, c)
    else if flow && ch == ':' && (isFlowIndicator next || next == '?') then
      .error (c.fault "found unexpected ':'")
    else if (ch == ':' && isGapOrEnd next) || (flow && isFlowIndicator ch) then .ok (acc, c)
    else readPlainRun flow fuel (ch :: acc) (c.skip 1)

/-- A plain scalar while it is read. -/
structure Plain where
  /-- The text so far, in reverse order. -/
  acc : List Char
  /-- The gap behind it crosses a line. -/
  broken : Bool

/-- Read a plain scalar run by run. The gap before a run counts only if the run
is not empty. -/
def readPlainRuns (flow : Bool) (indent : Nat) :
    Nat → List Char → Gap → Cursor → Except Fault (Plain × Cursor)
  | 0, acc, gap, c => .ok (⟨acc, gap.broken⟩, c)
  | fuel + 1, acc, gap, c => do
    if c.atDocumentMarker || c.peek == '#' then pure (⟨acc, gap.broken⟩, c)
    else
      let (run, c) ← readPlainRun flow (fuel + 1) [] c
      let (acc, gap) :=
        if run.isEmpty then (acc, gap) else (run ++ (gap.folded.reverse ++ acc), Gap.empty)
      if isSpace c.peek || isBreak c.peek then
        let (gap, c) ← Gap.read indent (fuel + 1) gap c
        if !flow && c.column < indent then pure (⟨acc, gap.broken⟩, c)
        else readPlainRuns flow indent fuel acc gap c
      else pure (⟨acc, gap.broken⟩, c)

/-- Read a plain scalar whose lines have to reach the column `indent`. The flag
tells that the gap behind it crosses a line. -/
def readPlain (flow : Bool) (indent : Nat) (c : Cursor) :
    Except Fault (String × Bool × Cursor) := do
  let (plain, c) ← readPlainRuns flow indent (c.left + 2) [] Gap.empty c
  pure (String.ofList plain.acc.reverse, plain.broken, c)

/-- What becomes of the line breaks at the end of a block scalar. -/
inductive Chomping where
  /-- None is kept. -/
  | strip
  /-- The first is kept. -/
  | clip
  /-- All are kept. -/
  | keep
deriving DecidableEq, Repr

/-- The chomping that a character asks for. -/
def chomping? (c : Char) : Option Chomping :=
  match c with
  | '+' => some .keep
  | '-' => some .strip
  | _ => none

/-- Read an indentation digit, if there is one. -/
def readIncrement (c : Cursor) : Except Fault (Option Nat × Cursor) :=
  let ch := c.peek
  if ch == '0' then .error (c.fault "found an indentation indicator equal to 0")
  else if '1' ≤ ch ∧ ch ≤ '9' then .ok (some (ch.toNat - 48), c.skip 1)
  else .ok (none, c)

/-- Read the indicators of a block scalar, in either order. -/
def readIndicators (c : Cursor) : Except Fault (Chomping × Option Nat × Cursor) := do
  match chomping? c.peek with
  | some chomping =>
    let (increment, c) ← readIncrement (c.skip 1)
    pure (chomping, increment, c)
  | none =>
    let (increment, c) ← readIncrement c
    match (if increment.isSome then chomping? c.peek else none) with
    | some chomping => pure (chomping, increment, c.skip 1)
    | none => pure (.clip, increment, c)

/-- Blank lines of a block scalar while they are read. -/
structure BlankLines where
  /-- The line breaks read, in order. -/
  breaks : List Char
  /-- The largest column seen. -/
  widest : Nat

/-- Read indentation and blank lines. Without a known indentation every space
counts as indentation. -/
def readBlankLines (indent : Option Nat) :
    Nat → BlankLines → Cursor → Except Fault (BlankLines × Cursor)
  | 0, b, c => .ok (b, c)
  | fuel + 1, b, c =>
    let spaces := (c.rest.takeWhile (· == ' ')).length
    let c :=
      match indent with
      | some n => c.skip (min spaces (n - c.column))
      | none => c.skip spaces
    let b := { b with widest := max b.widest c.column }
    let inside :=
      match indent with
      | some n => c.column < n
      | none => true
    if inside && c.peek == '\t' then
      .error (c.fault "found a tab character where an indentation space is expected")
    else if isBreak c.peek then
      let (br, c') := c.readBreak
      readBlankLines indent fuel { b with breaks := b.breaks ++ br } c'
    else .ok (b, c)

/-- The lines of a block scalar while they are read. -/
structure BlockLines where
  /-- The text so far, in reverse order. -/
  acc : List Char
  /-- The break behind the last line read. -/
  pending : List Char
  /-- The breaks of the blank lines behind that. -/
  blank : List Char
  /-- The last line read starts with a space. -/
  spaced : Bool

/-- The text with what stands between the last line and the next one, in reverse order. -/
def BlockLines.joined (literal nextSpaced : Bool) (b : BlockLines) : List Char :=
  if !literal && b.pending == ['\n'] && !b.spaced && !nextSpaced then
    if b.blank.isEmpty then ' ' :: b.acc else b.blank.reverse ++ b.acc
  else b.blank.reverse ++ (b.pending.reverse ++ b.acc)

/-- Read the lines of a block scalar that stand at its indentation. -/
def readBlockLines (literal : Bool) (indent : Nat) :
    Nat → BlockLines → Cursor → Except Fault (BlockLines × Cursor)
  | 0, b, c => .ok (b, c)
  | fuel + 1, b, c => do
    if c.column == indent && !c.atEnd then
      let spaced := isSpace c.peek
      let (line, c) := c.takeWhile fun ch => !isBreak ch
      let acc := line.reverse ++ b.joined literal spaced
      let (pending, c) := c.readBreak
      let (blank, c) ← readBlankLines (some indent) (fuel + 1) ⟨[], 0⟩ c
      readBlockLines literal indent fuel ⟨acc, pending, blank.breaks, spaced⟩ c
    else pure (b, c)

/-- Read a block scalar; the cursor is behind its indicator. The indentation of
the surrounding collection is `parent`, -1 outside all. -/
def readBlock (literal : Bool) (parent : Int) (c : Cursor) :
    Except Fault (String × Cursor) := do
  let (chomping, increment, c) ← readIndicators c
  let c := c.skipWhile isSpace
  let c := if c.peek == '#' then c.skipLine else c
  if !isBreakOrEnd c.peek then
    throw (c.fault "did not find expected comment or line break")
  let c := c.skipBreak
  let fuel := c.left + 2
  let known := increment.map fun n => parent.toNat + n
  let (blank, c) ← readBlankLines known fuel ⟨[], 0⟩ c
  let indent := known.getD (max blank.widest (max (parent + 1).toNat 1))
  let (b, c) ← readBlockLines literal indent fuel ⟨[], [], blank.breaks, false⟩ c
  let acc := if chomping = .strip then b.acc else b.pending.reverse ++ b.acc
  let acc := if chomping = .keep then b.blank.reverse ++ acc else acc
  pure (String.ofList acc.reverse, c)

end Scalar

end ManifestRules.Yaml
