import ManifestRules.Json.Literal
import ManifestRules.Template.Syntax
/-!
# The grammar inside tags

A rule reads from the front of a text. It matches, does not match, or finds a
fault that no other rule can mend. Choices are ordered: the second alternative
counts only where the first does not match. White space may stand between the
parts of a tag, but not inside names, references and literals.
-/

namespace ManifestRules.Template

/-- Text that is still to be read, with its length. -/
structure Remaining where
  /-- The characters. -/
  chars : List Char
  /-- How many there are. -/
  count : Nat
deriving Repr, Inhabited

namespace Remaining

/-- All of a text. -/
def ofText (s : List Char) : Remaining := ⟨s, s.length⟩

/-- The text without its first `n` characters. -/
def drop (s : Remaining) (n : Nat) : Remaining := ⟨s.chars.drop n, s.count - n⟩

/-- The part of the text in front of a tail of it. -/
def ahead (s tail : Remaining) : List Char := s.chars.take (s.count - tail.count)

end Remaining

/-- A rule. Failing without a problem means that it does not match. -/
abbrev Rule := StateT Remaining (Except (Option String))

namespace Rule

/-- The rule that never matches. -/
def noMatch {α : Type} : Rule α := fun _ => .error none

/-- End with a fault. -/
def fault {α : Type} (problem : String) : Rule α := fun _ => .error (some problem)

/-- The first rule, or where it does not match the second. -/
def or {α : Type} (first second : Rule α) : Rule α := fun s =>
  match first s with
  | .error none => second s
  | result => result

/-- The rule, or nothing where it does not match. -/
def optional {α : Type} (r : Rule α) : Rule (Option α) := or (some <$> r) (pure none)

/-- Nothing, where the rule does not match. -/
def absent {α : Type} (r : Rule α) : Rule Unit := fun s =>
  match r s with
  | .ok _ => .error none
  | .error none => .ok ((), s)
  | .error (some problem) => .error (some problem)

/-- What is left to be read. -/
def rest : Rule Remaining := fun s => .ok (s, s)

/-- Read a given text. -/
def exactly (text : String) : Rule Unit := fun s =>
  match Json.strip? text.toList s.chars with
  | some rest => .ok ((), ⟨rest, s.count - text.length⟩)
  | none => .error none

/-- Read characters as long as they have a property. -/
def takeWhile (p : Char → Bool) : Rule (List Char) := fun s =>
  let cs := s.chars.takeWhile p
  .ok (cs, s.drop cs.length)

/-- Read characters that have a property, of which there has to be one. -/
def takeSome (p : Char → Bool) : Rule (List Char) := do
  let cs ← takeWhile p
  if cs.isEmpty then noMatch else pure cs

/-- Move over white space. -/
def spaces : Rule Unit := do
  let _ ← takeWhile Json.isSpace

/-- Read with a rule as often as it matches, at most as often as given. -/
def repeated {α : Type} (r : Rule α) : Nat → Rule (List α)
  | 0 => pure []
  | limit + 1 => do
    match ← optional r with
    | none => pure []
    | some x =>
      let xs ← repeated r limit
      pure (x :: xs)

/-- Read with a rule as often as it matches. -/
def many {α : Type} (r : Rule α) : Rule (List α) := do
  let s ← rest
  repeated r (s.count + 1)

/-- What a rule reads, as it is written. -/
def source {α : Type} (r : Rule α) : Rule (α × List Char) := fun s =>
  match r s with
  | .ok (x, s') => .ok ((x, s.ahead s'), s')
  | .error e => .error e

/-- A character of names. -/
def isSymbol (c : Char) : Bool :=
  ('a' ≤ c && c ≤ 'z') || ('A' ≤ c && c ≤ 'Z') || ('0' ≤ c && c ≤ '9') || c == '_' ||
    c == '-' || c == '$' || c == ':' || 0x80 ≤ c.toNat

/-- The next character is one of names. -/
def symbol : Rule Unit := fun s =>
  if s.chars.head?.any isSymbol then .ok ((), s.drop 1) else .error none

/-- A name. -/
def identifier : Rule String := String.ofList <$> takeSome isSymbol

/-- The mark between the steps of a reference. -/
def separator : Rule Unit := or (exactly "/") (exactly ".")

/-- A step by name; brackets allow any name. -/
def step : Rule (List Char) :=
  or (takeSome isSymbol) do
    exactly "["
    let cs ← takeWhile (· ≠ ']')
    exactly "]"
    pure cs

/-- Words for the current value in front of a reference, which add nothing. -/
def current : Rule Unit :=
  or (do exactly "this"; separator) (exactly "./")

/-- The steps that names lead through; a step named `this` leads nowhere. -/
def namedSegments (names : List (List Char)) : List Segment :=
  (names.filter (· ≠ "this".toList)).map fun cs => .name (String.ofList cs)

/-- The steps of a reference. -/
def segments : Rule (List Segment) := do
  let _ ← optional current
  let root ← optional (do exactly "@root"; separator)
  let loc ← optional (exactly "@")
  let ups ← many (do exactly ".."; separator)
  let first ← step
  let more ← many (do separator; step)
  pure ((if root.isSome then [.root] else []) ++ (if loc.isSome then [.local] else []) ++
    ups.map (fun _ => .up) ++ namedSegments (first :: more))

/-- A reference. -/
def reference : Rule Reference := do
  let (segs, text) ← source segments
  pure ⟨String.ofList text, segs⟩

/-- A character inside a quoted literal, or an escape. -/
def quotedPart (quote : Char) : Rule Unit := fun s =>
  match s.chars with
  | '\\' :: 'u' :: rest => if (Json.readHex4? rest).isSome then .ok ((), s.drop 6) else .error none
  | '\\' :: c :: _ =>
    if c = quote ∨ "\\/bfnrt".toList.contains c then .ok ((), s.drop 2) else .error none
  | c :: _ => if c = quote ∨ c = '\\' then .error none else .ok ((), s.drop 1)
  | [] => .error none

/-- A literal text in the given quotes. -/
def quoted (quote : Char) : Rule Unit := do
  exactly (String.singleton quote)
  let _ ← many (quotedPart quote)
  exactly (String.singleton quote)

/-- A literal text. -/
def quotedLiteral : Rule Unit := or (quoted '"') (quoted '\'')

/-- A word that ends where it stands. -/
def keyword (word : String) : Rule Unit := do
  exactly word
  absent symbol

/-- A literal number. -/
def numberLiteral : Rule Unit := do
  let _ ← optional (exactly "-")
  let _ ← takeSome Double.isDigit
  let _ ← optional (exactly ".")
  let _ ← takeWhile Double.isDigit
  let _ ← optional (do
    exactly "E"
    let _ ← optional (exactly "-")
    takeSome Double.isDigit)
  absent symbol

/-- The items of a literal collection, each read by the rule. -/
def commaSeparated (item : Rule Unit) : Rule Unit := do
  spaces
  let _ ← optional item
  let _ ← many (do spaces; exactly ","; spaces; item)
  spaces

/-- The extent of a literal, nested at most as deep as given. -/
def literalExtent : Nat → Rule Unit
  | 0 => noMatch
  | depth + 1 =>
    or quotedLiteral <|
    or (do
      exactly "["
      commaSeparated (literalExtent depth)
      exactly "]") <|
    or (do
      exactly "\x7b"
      commaSeparated do
        quotedLiteral
        spaces
        exactly ":"
        spaces
        literalExtent depth
      exactly "\x7d") <|
    or numberLiteral <|
    or (keyword "null") <|
    or (keyword "true") (keyword "false")

/-- What stands between single quotes, as it would stand between double ones. -/
def requote : List Char → List Char
  | '\\' :: '\'' :: rest => '\'' :: requote rest
  | '"' :: rest => '\\' :: '"' :: requote rest
  | c :: rest => c :: requote rest
  | [] => []

/-- The value of a literal as it is written. -/
def literalValue? (text : List Char) : Option Json :=
  match text with
  | '\'' :: rest => Json.read? ('"' :: requote rest.dropLast ++ ['"'])
  | _ => Json.read? text

/-- A literal. What has the extent of one must be valid. -/
def literal : Rule Json := do
  let s ← rest
  let (_, text) ← source (literalExtent (s.count + 1))
  match literalValue? text with
  | some v => pure v
  | none => fault "invalid literal"

/-- A word that is no argument. -/
def reserved : Rule Unit := do
  or (exactly "as") (exactly "else")
  spaces
  absent symbol

/-- The arguments of a helper call. -/
structure Arguments where
  /-- The arguments by place. -/
  args : List Expr
  /-- The arguments by name. -/
  options : List (String × Expr)

/-- An argument by name or by place; `Sum.inl` holds one by name. -/
def argument (value : Rule Expr) : Rule ((String × Expr) ⊕ Expr) :=
  or (do
    let name ← identifier
    spaces
    exactly "="
    spaces
    let e ← value
    pure (.inl (name, e)))
    (.inr <$> value)

/-- Named arguments without those whose name is given again behind them. -/
def lastOfEachName : List (String × Expr) → List (String × Expr)
  | [] => []
  | o :: rest =>
    if rest.any fun later => later.1 == o.1 then lastOfEachName rest
    else o :: lastOfEachName rest

/-- Arguments parted by name and place. -/
def partArguments (found : List ((String × Expr) ⊕ Expr)) : Arguments :=
  ⟨found.filterMap Sum.getRight?, lastOfEachName (found.filterMap Sum.getLeft?)⟩

/-- The arguments that follow a helper's name, perhaps none. -/
def arguments (value : Rule Expr) : Rule Arguments := do
  let found ← many (do spaces; argument value)
  pure (partArguments found)

/-- A helper's name with arguments, of which there has to be one. -/
def fullCall (value : Rule Expr) : Rule (String × Arguments) := do
  let name ← identifier
  let a ← arguments value
  if a.args.isEmpty && a.options.isEmpty then noMatch else pure (name, a)

/-- A call in parentheses. -/
def parenthesized (value : Rule Expr) : Rule Expr := do
  exactly "("
  spaces
  let e ←
    or (do
      let (name, a) ← fullCall value
      pure (.call name a.args a.options))
      (do
        let r ← reference
        pure (.call r.text [] []))
  spaces
  exactly ")"
  pure e

/-- An argument's value, with calls nested at most as deep as given. -/
def valueWithin : Nat → Rule Expr
  | 0 => noMatch
  | depth + 1 => do
    absent reserved
    or (.literal <$> literal) <|
      or (.reference <$> reference) (parenthesized (valueWithin depth))

/-- An argument's value. -/
def value : Rule Expr := do
  let s ← rest
  valueWithin (s.count + 1)

/-- The name of a tag without arguments: a reference or a call in parentheses. -/
def name : Rule Expr :=
  or (parenthesized value) (.reference <$> reference)

/-- The names for a block between bars. -/
def blockNames : Rule (List String) := do
  exactly "as"
  spaces
  exactly "|"
  spaces
  let first ← identifier
  spaces
  let second ← optional identifier
  spaces
  exactly "|"
  pure (first :: second.toList)

/-- A helper call with the names for its block. -/
def head : Rule Head := do
  let helper ← identifier
  let a ← arguments value
  let names ← optional (do spaces; blockNames)
  pure ⟨helper, a.args, a.options, names.getD [], false⟩

/-- A character in the names of fragments. -/
def isLabel (c : Char) : Bool := isSymbol c || c == '/' || c == '.' || c == '@'

/-- The name of a fragment and how it is written. Quotes are a part of it. -/
def fragmentName : Rule (Expr × String) :=
  let asWritten (cs : List Char) : Expr × String :=
    (.literal (.string (String.ofList cs)), String.ofList cs)
  or (asWritten <$> takeSome isLabel) <|
  or (do
    exactly "'"
    let cs ← takeSome (· ≠ '\'')
    exactly "'"
    pure (asWritten ('\'' :: cs ++ ['\'']))) <|
  do
    let (e, text) ← source name
    pure (e, String.ofList text)

/-- An inclusion, as far as the braces hold it. -/
def inclusion : Rule Inclusion := do
  let (e, label) ← fragmentName
  let a ← arguments value
  pure ⟨label, e, a.args, a.options, "", false⟩

end Rule

end ManifestRules.Template
