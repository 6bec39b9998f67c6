import ManifestRules.Value.Text
import ManifestRules.Yaml.ScalarStyle
/-!
# The written form of a value

Collections are written as blocks, two spaces further in at every level, with
one exception: the dashes of a sequence under a key stand below the key. Empty
collections are brackets. A key that is long, has line breaks or is a
collection is written behind a question mark. `Value.isWritable` tells the
values that have a written form.
-/

namespace ManifestRules.Yaml

namespace Written

/-- What stands behind a `!` as it is, in a tag. -/
def isTagChar (c : Char) : Bool :=
  isWordChar c || "-;/?:@&=+$,.~*'()[]".toList.contains c

/-- A character of a tag; others are written as escaped bytes. -/
def tagChar (c : Char) : List Char :=
  if isTagChar c then [c]
  else
    (String.singleton c).toUTF8.toList.flatMap fun b => '%' :: hexDigits 2 b.toNat

/-- The full text of a tag before it is shortened. It ends before a zero. -/
def fullTag (tag : Tag) : List Char :=
  match tag.name.toList.takeWhile (· ≠ '\x00') with
  | '!' :: rest => '!' :: rest
  | name => '!' :: name

/-- A tag as it is written; the lone mark needs brackets. -/
def tag (t : Tag) : List Char :=
  match fullTag t with
  | '!' :: c :: rest => '!' :: (c :: rest).flatMap tagChar
  | _ => '!' :: '<' :: tagChar '!' ++ ['>']

/-- Where a node is written and how it may be laid out there. -/
structure Place where
  /-- A block collection may start in the same line. -/
  sameLine : Bool
  /-- The column of a sequence. -/
  sequenceAt : Nat
  /-- The column of a mapping. -/
  mappingAt : Nat
  /-- The column of the lines of a scalar. -/
  scalarAt : Nat
  /-- The column of a sequence under a tag. -/
  taggedAt : Nat

namespace Place

/-- The start of a document. -/
def root : Place := ⟨true, 0, 0, 2, 0⟩

/-- Behind the dash of a sequence at a column. -/
def item (n : Nat) : Place := ⟨true, n + 2, n + 2, n + 2, n + 2⟩

/-- Behind the question mark or the lone colon of a mapping at a column. -/
def entry (n : Nat) : Place := ⟨true, n + 2, n + 2, n + 2, n⟩

/-- Behind a key and its colon in a mapping at a column. -/
def row (n : Nat) : Place := ⟨false, n, n + 2, n + 2, n⟩

/-- Behind a tag at a place. -/
def tagged (p : Place) : Place := { p with sameLine := false, sequenceAt := p.taggedAt }

/-- What comes before a block collection at a column. -/
def lead (p : Place) (column : Nat) : List Char :=
  if p.sameLine then [' '] else '\n' :: pad column

end Place

/-- A line feed behind a scalar, unless the scalar has ended its line. -/
def endRow (s : List Char) : List Char :=
  if s.getLast?.any isBreak then s else s ++ ['\n']

/-- A scalar as the rest of its row. -/
def scalarRow (s : List Char) : List Char := ' ' :: endRow s

/-- The text of a scalar or an empty collection in one line; none for others. -/
def flat? (indent : Nat) : Value → Option (List Char)
  | .null => some "null".toList
  | .bool b => some (if b then "true" else "false").toList
  | .number n => some n.text.toList
  | .string s => some (text indent s)
  | .sequence [] => some ['[', ']']
  | .mapping [] => some ['\x7b', '\x7d']
  | _ => none

/-- The bytes that a key counts for, if it has no line breaks and no parts. -/
def keySize? : Value → Option Nat
  | .null => some 4
  | .bool b => some (if b then 4 else 5)
  | .number n => some n.text.utf8ByteSize
  | .string s => if ScalarStyle.isMultiline s.toList then none else some s.utf8ByteSize
  | .sequence [] => some 0
  | .mapping [] => some 0
  | .tagged t inner => (keySize? inner).map (· + (String.ofList (fullTag t)).utf8ByteSize)
  | _ => none

/-- The key can be written in front of its colon. -/
def isSimpleKey (k : Value) : Bool := (keySize? k).any (· ≤ 128)

/-- A key in front of its colon. -/
def simpleKey : Value → List Char
  | .tagged t inner => tag t ++ ' ' :: simpleKey inner
  | k => (flat? 0 k).getD []

mutual
/-- A node as the rest of its row and the rows below it. -/
def node (p : Place) (v : Value) : List Char :=
  match v with
  | .tagged t inner => ' ' :: tag t ++ node p.tagged inner
  | .sequence (first :: more) =>
    p.lead p.sequenceAt ++ items p.sequenceAt (first :: more)
  | .mapping (first :: more) =>
    p.lead p.mappingAt ++ entries p.mappingAt (first :: more)
  | .sequence [] => scalarRow ['[', ']']
  | .mapping [] => scalarRow ['\x7b', '\x7d']
  | .null => scalarRow "null".toList
  | .bool b => scalarRow (if b then "true" else "false").toList
  | .number n => scalarRow n.text.toList
  | .string s => scalarRow (text p.scalarAt s)
termination_by structural v
/-- The rows of a sequence at a column; its first row is already indented. -/
def items (n : Nat) (vs : List Value) : List Char :=
  match vs with
  | [] => []
  | v :: rest =>
    '-' :: node (Place.item n) v ++ (if rest.isEmpty then [] else pad n ++ items n rest)
termination_by structural vs
/-- The rows of a mapping at a column; its first row is already indented. -/
def entries (n : Nat) (es : List (Value × Value)) : List Char :=
  match es with
  | [] => []
  | (k, v) :: rest =>
    (if isSimpleKey k then simpleKey k ++ ':' :: node (Place.row n) v
      else
        '?' :: node (Place.entry n) k ++ (pad n ++ ':' :: node (Place.entry n) v)) ++
      (if rest.isEmpty then [] else pad n ++ entries n rest)
termination_by structural es
end

end Written

/-- A mapping of one entry. -/
def isSingleton : Value → Bool
  | .mapping [_] => true
  | _ => false

/-- A value under a tag. -/
def isTagged : Value → Bool
  | .tagged _ _ => true
  | _ => false

mutual
/-- The value has a written form. A tag must not stand directly under a tag, and
in a mapping of one entry that stands under no tag the key must not be tagged
and no mapping of one entry. -/
def isWritable (underTag : Bool) (v : Value) : Bool :=
  match v with
  | .tagged _ inner => !isTagged inner && isWritable true inner
  | .sequence vs => itemsWritable vs
  | .mapping [(k, w)] =>
    (underTag || !(isTagged k || isSingleton k)) && isWritable false k && isWritable false w
  | .mapping es => entriesWritable es
  | _ => true
termination_by structural v
/-- All items have a written form. -/
def itemsWritable (vs : List Value) : Bool :=
  match vs with
  | [] => true
  | v :: rest => isWritable false v && itemsWritable rest
termination_by structural vs
/-- All keys and values have a written form. -/
def entriesWritable (es : List (Value × Value)) : Bool :=
  match es with
  | [] => true
  | (k, v) :: rest => isWritable false k && isWritable false v && entriesWritable rest
termination_by structural es
end

/-- The written form of a value, with a line feed at its end. -/
def write (v : Value) : String :=
  String.ofList ((Written.node Written.Place.root v).drop 1)

end ManifestRules.Yaml
