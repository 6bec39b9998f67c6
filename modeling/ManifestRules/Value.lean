import ManifestRules.Number.Text
/-!
# Value trees

Documents, fragments and template variables are trees of scalars, sequences
and mappings. A mapping is the list of its entries in order; no two keys of it
are the same, where keys of different types always differ (`Value.sameKey`).
A tag wraps a value, and most operations look through it (`Value.untagged`).
-/

namespace ManifestRules

/-- A number keeps whether it was written as an integer. -/
inductive Number where
  /-- An integer, from -2^63 up to 2^64 - 1 in every decoded text. -/
  | int (i : Int)
  /-- A floating-point number. -/
  | float (x : Double)
deriving DecidableEq, Repr, Inhabited

/-- A tag, held without the mark it is written with. -/
structure Tag where
  /-- The name after the mark; no second mark is removed. -/
  name : String
deriving DecidableEq, Repr, Inhabited

/-- The tag written by a text, with or without its mark. A lone mark is a name. -/
def Tag.ofText (text : String) : Tag :=
  match text.toList with
  | '!' :: c :: rest => ⟨String.ofList (c :: rest)⟩
  | _ => ⟨text⟩

/-- A tag as it is shown, with its mark. -/
def Tag.text (tag : Tag) : String :=
  "!" ++ tag.name

/-- A tree of values. -/
inductive Value where
  /-- No value. -/
  | null
  /-- A truth value. -/
  | bool (b : Bool)
  /-- A number. -/
  | number (n : Number)
  /-- A text. -/
  | string (s : String)
  /-- Values in order. -/
  | sequence (items : List Value)
  /-- Entries in order, with keys of any type. -/
  | mapping (entries : List (Value × Value))
  /-- A value under a tag. -/
  | tagged (tag : Tag) (inner : Value)
deriving Repr, Inhabited

/-- The entries of a mapping in order. -/
abbrev Mapping := List (Value × Value)

/-- The same number as a key: integers and floats are never the same. -/
def Number.sameKey : Number → Number → Bool
  | .int i, .int j => i == j
  | .float x, .float y => x.sameKey y
  | _, _ => false

mutual
/-- The same key: equal type and equal content. The order of a mapping's
entries does not count. -/
def Value.sameKey : Value → Value → Bool
  | .null, .null => true
  | .bool a, .bool b => a == b
  | .number m, .number n => m.sameKey n
  | .string s, .string t => s == t
  | .sequence xs, .sequence ys => sameKeyItems xs ys
  | .mapping xs, .mapping ys => xs.length == ys.length && sameKeyEntries xs ys
  | .tagged s v, .tagged t w => s == t && v.sameKey w
  | _, _ => false
termination_by structural v => v
/-- Items agree place by place. -/
def Value.sameKeyItems : List Value → List Value → Bool
  | [], [] => true
  | v :: vs, w :: ws => v.sameKey w && sameKeyItems vs ws
  | _, _ => false
termination_by structural vs => vs
/-- Every entry is found among the others with the same value. -/
def Value.sameKeyEntries : List (Value × Value) → List (Value × Value) → Bool
  | [], _ => true
  | (k, v) :: es, fs =>
    match fs.find? fun e => k.sameKey e.1 with
    | some e => v.sameKey e.2 && sameKeyEntries es fs
    | none => false
termination_by structural es => es
end

namespace Value

/-- The name of a value's type, as messages show it. -/
def typeName : Value → String
  | .null => "Null"
  | .bool _ => "Bool"
  | .number _ => "Number"
  | .string _ => "String"
  | .sequence _ => "Sequence"
  | .mapping _ => "Mapping"
  | .tagged _ _ => "Tagged"

/-- The value under all its tags. -/
def untagged : Value → Value
  | .tagged _ inner => inner.untagged
  | v => v

/-- A text, possibly under tags. -/
def isText (v : Value) : Bool :=
  match v.untagged with
  | .string _ => true
  | _ => false

/-- The entries of a mapping, possibly under tags. -/
def asMapping? (v : Value) : Option Mapping :=
  match v.untagged with
  | .mapping entries => some entries
  | _ => none

/-- Replace what is under all tags, keeping the tags. -/
def mapUntagged (f : Value → Value) : Value → Value
  | .tagged tag inner => .tagged tag (inner.mapUntagged f)
  | v => f v

/-- A function that looks through a tag looks through all the tags around a value. -/
theorem apply_untagged {β : Type} {f : Value → β} (hf : ∀ tag v, f (.tagged tag v) = f v)
    (v : Value) : f v.untagged = f v := by
  match v with
  | .tagged tag inner => exact (apply_untagged hf inner).trans (hf tag inner).symm
  | .null | .bool _ | .number _ | .string _ | .sequence _ | .mapping _ => rfl

/-- Such a function sees of a replaced value what there is instead. -/
theorem apply_mapUntagged {β : Type} {f : Value → β} (hf : ∀ tag v, f (.tagged tag v) = f v)
    (g : Value → Value) (v : Value) : f (v.mapUntagged g) = f (g v.untagged) := by
  match v with
  | .tagged tag inner => exact (hf tag _).trans (apply_mapUntagged hf g inner)
  | .null | .bool _ | .number _ | .string _ | .sequence _ | .mapping _ => rfl

end Value

namespace Mapping

/-- The value of the entry with the given key. -/
def get? (m : Mapping) (key : Value) : Option Value :=
  (m.find? fun e => key.sameKey e.1).map (·.2)

/-- The entry with the given key gets the value and keeps its place and key; a
new key goes to the end. -/
def insert : Mapping → Value → Value → Mapping
  | [], key, v => [(key, v)]
  | (k, w) :: rest, key, v =>
    if key.sameKey k then (k, v) :: rest else (k, w) :: insert rest key v

/-- The mapping of a list of entries, inserted in turn. -/
def ofList (entries : List (Value × Value)) : Mapping :=
  entries.foldl (fun m e => insert m e.1 e.2) []

end Mapping

end ManifestRules
