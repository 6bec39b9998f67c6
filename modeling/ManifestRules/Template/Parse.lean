import ManifestRules.Template.Piece
/-!
# Templates as trees

Tags that open, part and close blocks are matched here. The tag that closes a
block names its helper; for the body of an inclusion or of a directive it may
leave the name out. A part with a condition of its own is a block inside the
rest of the block before it.
-/

namespace ManifestRules.Template

/-- What a block is that has been opened. -/
inductive Opening where
  /-- A helper's block: its name, the parts before the present one, the last one
  first, and what the present part starts with, nothing behind a bare `else`. -/
  | helper (name : String) (parts : List (Head × List Element)) (head : Option Head)
  /-- The body of an inclusion. -/
  | inclusion (i : Inclusion)
  /-- The body of a directive. -/
  | directive (head : Head)
deriving Repr, Inhabited

namespace Opening

/-- The name of a block. -/
def name : Opening → String
  | .helper name _ _ => name
  | .inclusion i => i.label
  | .directive head => head.helper

/-- A closing tag with this name closes the block. -/
def isClosedBy (o : Opening) (label : String) : Bool :=
  match o with
  | .helper name _ _ => label == name
  | o => label.isEmpty || label == o.name

/-- Put the parts of a block together, given the part that comes last. -/
def close (o : Opening) (body : List Element) : Option Element :=
  match o with
  | .helper _ parts (some head) => some (nest parts (.block head body none))
  | .helper _ ((head, last) :: parts) none => some (nest parts (.block head last (some body)))
  | .helper _ [] none => none
  | .inclusion i => some (.inclusion i (some body))
  | .directive head => some (.directive head (some body))
where
  /-- Each part holds what comes behind it as its `else`. -/
  nest (parts : List (Head × List Element)) (last : Element) : Element :=
    parts.foldl (fun rest part => .block part.1 part.2 (some [rest])) last

end Opening

/-- A block whose end has not come yet. -/
structure OpenBlock where
  /-- What it is. -/
  opening : Opening
  /-- What stands before the block, in reverse order. -/
  before : List Element
deriving Repr, Inhabited

/-- A template while it is read. -/
structure TreeReader where
  /-- The parts of the innermost block so far, in reverse order. -/
  elements : List Element
  /-- The blocks around them, the innermost first. -/
  blocks : List OpenBlock
deriving Repr, Inhabited

namespace TreeReader

/-- Append a part. -/
def push (r : TreeReader) (e : Element) : TreeReader := { r with elements := e :: r.elements }

/-- Open a block. -/
def openBlock (r : TreeReader) (o : Opening) : TreeReader :=
  ⟨[], ⟨o, r.elements⟩ :: r.blocks⟩

/-- Begin the next part of a helper's block; nothing follows a bare `else`. -/
def nextPart (r : TreeReader) (next : Option Head) : Except String TreeReader :=
  match r.blocks with
  | [] => .error "else outside a block"
  | ⟨.helper name parts (some head), before⟩ :: outer =>
    .ok ⟨[], ⟨.helper name ((head, r.elements.reverse) :: parts) next, before⟩ :: outer⟩
  | ⟨.helper _ _ none, _⟩ :: _ => .error "else behind else"
  | b :: _ => .error ("else in the body of " ++ b.opening.name)

/-- Close the innermost block. -/
def closeBlock (r : TreeReader) (label : String) : Except String TreeReader :=
  match r.blocks with
  | [] => .error "a block is closed that was not opened"
  | b :: outer =>
    if b.opening.isClosedBy label then
      match b.opening.close r.elements.reverse with
      | some e => .ok ⟨e :: b.before, outer⟩
      | none => .error "a block without parts"
    else .error ("block " ++ b.opening.name ++ " is closed as " ++ label)

/-- Read a tag at its place. A tag that eats the white space before it has no
line of its own and no margin. -/
def readTag (r : TreeReader) (t : Tag) (place : Place) : Except String TreeReader :=
  let ownLine := place.alone && !t.trimBefore
  let margin := if t.trimBefore then "" else String.ofList place.margin
  match t.kind with
  | .element e => .ok (r.push e)
  | .comment => .ok r
  | .includes i => .ok (r.push (.inclusion { i with margin, ownLine } none))
  | .directs head => .ok (r.push (.directive head none))
  | .opens head => .ok (r.openBlock (.helper head.helper [] (some { head with ownLine })))
  | .opensInclusion i => .ok (r.openBlock (.inclusion { i with ownLine }))
  | .opensDirective head => .ok (r.openBlock (.directive head))
  | .otherwiseIf head => r.nextPart (some { head with ownLine })
  | .otherwise => r.nextPart none
  | .closes label => r.closeBlock label

/-- Read a piece. -/
def step (r : TreeReader) (p : Piece) : Except String TreeReader :=
  match p with
  | .text s | .raw s => .ok (r.push (.text (String.ofList s)))
  | .tag t place => r.readTag t place

end TreeReader

/-- Read a template. -/
def parse (text : String) : Except String (List Element) := do
  let pieces ← Piece.ofText text
  let r ← pieces.foldlM TreeReader.step ⟨[], []⟩
  if r.blocks.isEmpty then pure r.elements.reverse
  else throw "a block is not closed"

end ManifestRules.Template
