import ManifestRules.Template.Grammar
import ManifestRules.Text.Blank
/-!
# The pieces of a template

A template text is cut into text and tags. Two braces open a tag unless a
backslash stands before them; of several backslashes one is removed and the tag
counts. Tags decide about the white space around them: a tilde eats all of it,
and one that does not write a value takes its whole line along if it stands
there alone (`Piece.layout`).
-/

namespace ManifestRules.Template

/-- What a tag does. -/
inductive TagKind where
  /-- It writes. -/
  | element (e : Element)
  /-- It is a comment. -/
  | comment
  /-- It puts a fragment in. -/
  | includes (i : Inclusion)
  /-- It is a directive without a body. -/
  | directs (head : Head)
  /-- It opens a block. -/
  | opens (head : Head)
  /-- It opens the body of an inclusion. -/
  | opensInclusion (i : Inclusion)
  /-- It opens the body of a directive. -/
  | opensDirective (head : Head)
  /-- It parts a block with a condition of its own. -/
  | otherwiseIf (head : Head)
  /-- It parts a block. -/
  | otherwise
  /-- It closes a block; the name may be left out. -/
  | closes (name : String)
deriving Repr, Inhabited

/-- A tag with its effect on the text around it. -/
structure Tag where
  /-- What it does. -/
  kind : TagKind
  /-- It eats the white space before it. -/
  trimBefore : Bool
  /-- It eats the white space behind it. -/
  trimAfter : Bool
deriving Repr, Inhabited

/-- Where a tag stands in its line. -/
structure Place where
  /-- There is nothing else in the line. -/
  alone : Bool
  /-- The spaces and tabs just before the tag. -/
  margin : List Char
deriving Repr, Inhabited

/-- A piece of a template. -/
inductive Piece where
  /-- Text, without the backslashes that are removed. -/
  | text (s : List Char)
  /-- The text in a block that holds no tags. -/
  | raw (s : List Char)
  /-- A tag, and where it stands. -/
  | tag (t : Tag) (place : Place)
deriving Repr, Inhabited

namespace Rule

/-- A rule between the braces of a tag, with tildes at its ends. -/
def inTag {α : Type} (opening closing : String) (r : Rule α) : Rule (α × Bool × Bool) := do
  exactly opening
  spaces
  let before ← optional (exactly "~")
  spaces
  let x ← r
  spaces
  let after ← optional (exactly "~")
  spaces
  exactly closing
  pure (x, before.isSome, after.isSome)

/-- A tag of a kind. -/
def tagOf (r : Rule (TagKind × Bool × Bool)) : Rule Tag := do
  let (kind, before, after) ← r
  pure ⟨kind, before, after⟩

/-- The word or sign that parts a block. -/
def otherwiseWord : Rule Unit := or (exactly "else") (exactly "^")

/-- The content of a tag that parts a block. -/
def otherwiseBody : Rule TagKind := do
  otherwiseWord
  pure .otherwise

/-- The content of a tag that parts a block with a condition. -/
def otherwiseIfBody : Rule TagKind := do
  otherwiseWord
  spaces
  .otherwiseIf <$> head

/-- The content of a tag that writes. -/
def writeBody : Rule TagKind :=
  or (do
    let (helper, a) ← fullCall value
    pure (.element (.call helper a.args a.options)))
    ((fun e => .element (.value e)) <$> name)

/-- A content behind a sign. -/
def behind {α : Type} (sign : String) (r : Rule α) : Rule α := do
  exactly sign
  spaces
  r

/-- The content of a tag that closes a block. -/
def closingBody : Rule TagKind := do
  let label ← optional fragmentName
  pure (.closes ((label.map (·.2)).getD ""))

/-- How many characters stand before the first place of a text. -/
def placeOf? (closing : List Char) : List Char → Option Nat
  | [] => none
  | c :: rest =>
    if closing.isPrefixOf (c :: rest) then some 0 else (placeOf? closing rest).map (· + 1)

/-- Read up to a closing text and move over it. -/
def through (closing : String) : Rule Unit := fun s =>
  match placeOf? closing.toList s.chars with
  | some n => .ok ((), s.drop (n + closing.length))
  | none => .error none

/-- A comment; between dashes it may hold closing braces. -/
def comment : Rule Unit :=
  or (do
    exactly "\x7b\x7b!"
    spaces
    exactly "--"
    through "--\x7d\x7d")
    (do
      exactly "\x7b\x7b!"
      through "\x7d\x7d")

/-- The text up to four opening braces, without the backslashes that are
removed; `pending` counts the backslashes just before. -/
def rawText (pending : Nat) : List Char → List Char × List Char
  | [] => (List.replicate pending '\\', [])
  | '\\' :: rest => rawText (pending + 1) rest
  | '\x7b' :: '\x7b' :: '\x7b' :: '\x7b' :: rest =>
    if pending = 1 then
      let (out, left) := rawText 0 rest
      ("\x7b\x7b\x7b\x7b".toList ++ out, left)
    else
      (List.replicate (pending - 1) '\\', '\x7b' :: '\x7b' :: '\x7b' :: '\x7b' :: rest)
  | '\x7b' :: '\x7b' :: rest =>
    let (out, left) := rawText 0 rest
    (List.replicate (pending - 1) '\\' ++ '\x7b' :: '\x7b' :: out, left)
  | c :: rest =>
    let (out, left) := rawText 0 rest
    (List.replicate pending '\\' ++ c :: out, left)

/-- Read the text of a block without tags. White space in front does not count. -/
def rawContent : Rule (List Char) := fun s =>
  let (out, left) := rawText 0 (Json.skipSpaces s.chars)
  .ok (out, Remaining.ofText left)

/-- The rules for tags between two braces, except comments. -/
def plainTags : List (Rule (TagKind × Bool × Bool)) :=
  let two {α : Type} (r : Rule α) := inTag "\x7b\x7b" "\x7d\x7d" r
  [ two otherwiseBody,
    two otherwiseIfBody,
    two writeBody,
    inTag "\x7b\x7b\x7b" "\x7d\x7d\x7d" writeBody,
    two (behind "\x7b" do
      let k ← writeBody
      spaces
      exactly "\x7d"
      pure k),
    two (behind "&" ((fun e => .element (.value e)) <$> name)),
    two (behind "#" (.opens <$> head)) ]

/-- The rules for tags that come last. -/
def otherTags : List (Rule (TagKind × Bool × Bool)) :=
  let two {α : Type} (r : Rule α) := inTag "\x7b\x7b" "\x7d\x7d" r
  [ two (behind "*" (.directs <$> head)),
    two (behind "#" (behind "*" (.opensDirective <$> head))),
    two (behind ">" (.includes <$> inclusion)),
    two (behind "#" (behind ">" (.opensInclusion <$> inclusion))),
    two (behind "/" closingBody) ]

/-- The first rule of a list that matches. -/
def firstOf {α : Type} : List (Rule α) → Rule α
  | [] => noMatch
  | r :: rs => or r (firstOf rs)

/-- A tag, and not a block without tags. -/
def tag : Rule Tag :=
  or (tagOf (firstOf plainTags)) <|
  or (do
    comment
    pure ⟨.comment, false, false⟩)
    (tagOf (firstOf otherTags))

/-- A block without tags. -/
structure RawBlock where
  /-- The tag that opens it. -/
  opening : Tag
  /-- The text from behind that tag on. -/
  behindOpening : Remaining
  /-- The text in it. -/
  content : List Char
  /-- The text from the closing tag on. -/
  atClosing : Remaining
  /-- The tag that closes it. -/
  closing : Tag

/-- Read a block without tags. -/
def rawBlock : Rule RawBlock := do
  let four {α : Type} (r : Rule α) := inTag "\x7b\x7b\x7b\x7b" "\x7d\x7d\x7d\x7d" r
  let opening ← tagOf (four (.opens <$> head))
  let behindOpening ← rest
  let content ← rawContent
  let atClosing ← rest
  let closing ← tagOf (four (behind "/" (.closes <$> identifier)))
  pure ⟨opening, behindOpening, content, atClosing, closing⟩

end Rule

namespace Piece

/-- The text up to the next tag, without the backslashes that are removed, and
how many characters it takes; `pending` counts the backslashes just before. -/
def takeText (pending : Nat) : List Char → List Char × Nat
  | [] => (List.replicate pending '\\', 0)
  | '\\' :: rest =>
    let (out, n) := takeText (pending + 1) rest
    (out, n + 1)
  | '\x7b' :: '\x7b' :: rest =>
    if pending = 1 then
      match rest with
      | '\x7b' :: '\x7b' :: rest =>
        let (out, n) := takeText 0 rest
        ('\x7b' :: '\x7b' :: '\x7b' :: '\x7b' :: out, n + 4)
      | rest =>
        let (out, n) := takeText 0 rest
        ('\x7b' :: '\x7b' :: out, n + 2)
    else (List.replicate (pending - 1) '\\', 0)
  | c :: rest =>
    let (out, n) := takeText 0 rest
    (List.replicate pending '\\' ++ c :: out, n + 1)

/-- The place of a tag between the text before it, in reverse order, and the
text behind it. -/
def placeOf (before after : List Char) : Place :=
  let margin := before.takeWhile Text.isLineSpace
  let startsLine :=
    match before.drop margin.length with
    | [] => true
    | c :: _ => Text.isLineEnd c
  let endsLine := after.isEmpty || (after.dropWhile Text.isLineSpace).head?.any Text.isLineEnd
  ⟨startsLine && endsLine, margin.reverse⟩

/-- The pieces of a block without tags at the start of a text, and the rest. -/
def cutRaw (before : List Char) (s : Remaining) : Except String (List Piece × Remaining) :=
  match Rule.rawBlock s with
  | .ok (b, left) =>
    let beforeClosing := (s.ahead b.atClosing).reverse ++ before
    .ok ([.tag b.opening (placeOf before b.behindOpening.chars), .raw b.content,
      .tag b.closing (placeOf beforeClosing left.chars)], left)
  | .error (some problem) => .error problem
  | .error none => .error "invalid tag"

/-- The pieces of the tag or of the block without tags at the start of a text,
and the rest. -/
def cutTag (before : List Char) (s : Remaining) : Except String (List Piece × Remaining) :=
  match Rule.tag s with
  | .ok (t, left) => .ok ([.tag t (placeOf before left.chars)], left)
  | .error (some problem) => .error problem
  | .error none => cutRaw before s

/-- Cut a text into pieces; what comes before it is given in reverse order. -/
def cut : Nat → List Char → Remaining → Except String (List Piece)
  | 0, _, _ => .error "the template has more tags than characters"
  | fuel + 1, before, s =>
    let (words, n) := takeText 0 s.chars
    let before := (s.chars.take n).reverse ++ before
    let atTag := s.drop n
    let lead := if words.isEmpty then [] else [Piece.text words]
    if atTag.chars.isEmpty then .ok lead
    else do
      let (pieces, left) ← cutTag before atTag
      let more ← cut fuel ((atTag.ahead left).reverse ++ before) left
      pure (lead ++ pieces ++ more)

/-- The text without the rest of the line it starts in, if that is blank. -/
def dropLine (s : List Char) : List Char :=
  match s.dropWhile Text.isLineSpace with
  | '\n' :: rest => rest
  | '\r' :: '\n' :: rest => rest
  | rest => rest

/-- The text without spaces and tabs at its end. -/
def trimLineEnd (s : List Char) : List Char :=
  (s.reverse.dropWhile Text.isLineSpace).reverse

/-- A tag takes its line along if it stands there alone. -/
def takesLine (t : Tag) : Bool :=
  match t.kind with
  | .element _ => false
  | _ => true

/-- The text before a piece, after that piece had its effect on it. -/
def trimmedBefore (next : Option Piece) (s : List Char) : List Char :=
  match next with
  | some (.tag t place) =>
    let s := if t.trimBefore then Text.trimEnd s else s
    if takesLine t && place.alone then trimLineEnd s else s
  | _ => s

/-- Give text the white space it has in the end. Coming from the left, `eat`
tells that the last tag eats the white space behind it, and `dropsLine` that it
takes its line along. Blank text that is eaten leaves the latter as it was. -/
def layout (eat dropsLine : Bool) : List Piece → List Piece
  | [] => []
  | .text s :: rest =>
    let isGap := s.all Json.isSpace
    if isGap && eat then layout eat dropsLine rest
    else
      let kept := if eat then Text.trimStart s else if dropsLine then dropLine s else s
      .text (trimmedBefore rest.head? kept) :: layout eat false rest
  | .raw s :: rest =>
    let kept := if eat then Text.trimStart s else if dropsLine then dropLine s else s
    .text (trimmedBefore rest.head? kept) :: layout eat dropsLine rest
  | .tag t place :: rest =>
    let eat :=
      match t.kind with
      | .comment => eat
      | _ => t.trimAfter
    .tag t place :: layout eat (if takesLine t then place.alone else dropsLine) rest

/-- The pieces of a template text. -/
def ofText (text : String) : Except String (List Piece) := do
  let pieces ← cut (text.length + 2) [] (Remaining.ofText text.toList)
  pure (layout false false pieces)

end Piece

end ManifestRules.Template
