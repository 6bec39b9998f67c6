import ManifestRules.Text.Blank
import ManifestRules.Value.Text
/-!
# Paths into values

A path is a list of segments; its text joins them with dots. A segment names
an entry of a mapping or gives the index of an item. Walking never fails: a
segment that cannot be followed ends the walk in an outcome that names it, and
that outcome has a text of its own.
-/

namespace ManifestRules

/-- The outcome of a walk. -/
inductive Lookup where
  /-- The value the path leads to. -/
  | found (v : Value)
  /-- The mapping the walk started from, for the empty path. -/
  | root (m : Mapping)
  /-- No entry has the name. -/
  | missing (segment : String)
  /-- The segment is no index of the sequence. -/
  | invalidIndex (segment : String)
  /-- The value before the segment has no parts. -/
  | unexpectedNode (segment : String)
deriving Repr, Inhabited

namespace Lookup

/-- The text of an outcome: that of the value found, or a marker. -/
def text : Lookup → String
  | .found v => v.text
  | .root m => m.text
  | .missing segment => "<missing: " ++ segment ++ ">"
  | .invalidIndex segment => "<invalid index: " ++ segment ++ ">"
  | .unexpectedNode segment => "<unexpected node at: " ++ segment ++ ">"

/-- The outcome as a value; a marker becomes its text. -/
def value : Lookup → Value
  | .found v => v
  | .root m => .mapping m
  | outcome => .string outcome.text

end Lookup

namespace Path

/-- The segments of a path text. -/
def split (path : String) : List String :=
  (Text.splitAt '.' path.toList).map String.ofList

/-- Read an index: ASCII digits after an optional plus sign, below 2^64. -/
def readIndex? (segment : String) : Option Nat :=
  let digits :=
    match segment.toList with
    | '+' :: rest => rest
    | rest => rest
  if !digits.isEmpty && digits.all Double.isDigit then
    let n := Double.digitsValue digits
    if n < 0x10000000000000000 then some n else none
  else none

/-- Follow a path from a value, looking through tags. -/
def walk (v : Value) : List String → Lookup
  | [] => .found v
  | segment :: rest =>
    match v.untagged with
    | .mapping entries =>
      match Mapping.getByName? entries segment with
      | some next => walk next rest
      | none => .missing segment
    | .sequence items =>
      match (readIndex? segment).bind fun i => items[i]? with
      | some next => walk next rest
      | none => .invalidIndex segment
    | _ => .unexpectedNode segment

/-- Follow a path from a mapping; the empty path leads to the mapping itself. -/
def walkMapping (m : Mapping) : List String → Lookup
  | [] => .root m
  | segment :: rest =>
    match m.getByName? segment with
    | some next => walk next rest
    | none => .missing segment

end Path

end ManifestRules
