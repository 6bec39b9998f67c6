import ManifestRules.Json.Literal
/-!
# Looking into JSON values

What conditions make of a value, how values compare, how large they are, what
parts they have, and the text that a tag writes for them.
-/

namespace ManifestRules.Json

/-- A value that conditions take for true. Numbers hold if they are normal,
or with `zeroHolds` all of them. -/
def holds (zeroHolds : Bool) : Json → Bool
  | .null => false
  | .bool b => b
  | .number n => zeroHolds || (toDouble n).isNormal
  | .string s => !s.isEmpty
  | .array items => !items.isEmpty
  | .object members => !members.isEmpty

/-- A value that a default replaces. -/
def isEmpty : Json → Bool
  | .null => true
  | .bool b => !b
  | .number n => (toDouble n).isZero
  | .string s => s.isEmpty
  | .array items => items.isEmpty
  | .object members => members.isEmpty

/-- How many parts a value has; a text is measured in bytes. -/
def size : Json → Nat
  | .string s => s.utf8ByteSize
  | .array items => items.length
  | .object members => members.length
  | _ => 0

/-- A part of a value, if there is one. -/
def part? (whole index : Json) : Option Json :=
  match whole, index with
  | .array items, .number (.int i) => if 0 ≤ i then items[i.toNat]? else none
  | .object members, .string name => member? members name
  | _, _ => none

/-- The parts of a value by name. Items go by their index, and so do the
characters of a text. -/
def namedParts : Json → List (String × Json)
  | .object members => members
  | .array items => items.zipIdx.map fun (v, i) => (toString i, v)
  | .string s => s.toList.zipIdx.map fun (c, i) => (toString i, .string (String.singleton c))
  | _ => []

/-- The object of the parts of a value and of more members, which win. -/
def extended (v : Json) (more : List (String × Json)) : Json :=
  ofMembers (v.namedParts ++ more)

mutual
/-- The text that a tag writes for a value. -/
def written : Json → String
  | .null => ""
  | .bool b => if b then "true" else "false"
  | .number n => numberText n
  | .string s => s
  | .array items => "[" ++ ", ".intercalate (writtenItems items) ++ "]"
  | .object _ => "[object]"
/-- The texts of items. -/
def writtenItems : List Json → List String
  | [] => []
  | v :: vs => written v :: writtenItems vs
end

/-- Compare numbers exactly. -/
def compareNumbers : Number → Number → Option Ordering
  | .int i, .int j => some (compare i j)
  | .int i, .float x => some (Double.compareInt i x)
  | .float x, .int i => some (Double.compareInt i x).swap
  | .float x, .float y => x.compare? y

/-- The number that a text is, from its first to its last character. -/
def numberOfText? (s : String) : Option Number :=
  match readNumber? s.toList with
  | some (n, []) => some n
  | _ => none

/-- Compare a number with a text that is one. -/
def compareWithText (n : Number) (s : String) : Option Ordering :=
  (numberOfText? s).bind (compareNumbers n)

/-- Compare values of which that makes sense. -/
def compare? : Json → Json → Option Ordering
  | .number m, .number n => compareNumbers m n
  | .string s, .string t => some (compare s t)
  | .bool a, .bool b => some (compare a.toNat b.toNat)
  | .number n, .string s => compareWithText n s
  | .string s, .number n => (compareWithText n s).map Ordering.swap
  | _, _ => none

end ManifestRules.Json
