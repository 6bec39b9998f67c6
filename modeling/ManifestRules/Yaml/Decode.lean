import ManifestRules.Yaml.Node
import ManifestRules.Yaml.Plain
/-!
# The value of a YAML document

Aliases are replaced by what they refer to, plain scalars get their meaning,
and tags of the application are kept. Two bounds keep the value of a text
finite and of moderate size: collections nest at most 128 deep, and aliases
are followed at most a hundred times as often as the text has steps.
-/

namespace ManifestRules.Yaml

/-- What a tag asks of a node. -/
inductive TagMeaning where
  /-- A tag of the application, kept with the value. -/
  | application (name : String)
  /-- A truth value. -/
  | bool
  /-- An integer. -/
  | int
  /-- A float. -/
  | float
  /-- No value. -/
  | null
  /-- Another global tag; a scalar is a text then. -/
  | other
  /-- A local tag that is no text. It counts as none. -/
  | unreadable
deriving Repr, DecidableEq

/-- The meaning of a tag. The mark in front of an application's tag is not part
of its name, except where there is nothing else. -/
def TagMeaning.ofBytes (bytes : List UInt8) : TagMeaning :=
  match bytes with
  | 0x21 :: rest =>
    match String.fromUTF8? (ByteArray.mk (if rest.isEmpty then bytes else rest).toArray) with
    | some name => .application name
    | none => .unreadable
  | _ =>
    match String.fromUTF8? (ByteArray.mk bytes.toArray) with
    | some "tag:yaml.org,2002:bool" => .bool
    | some "tag:yaml.org,2002:int" => .int
    | some "tag:yaml.org,2002:float" => .float
    | some "tag:yaml.org,2002:null" => .null
    | _ => .other

/-- A document: its node, and the nodes that aliases refer to. -/
structure NodeTable where
  /-- The anchored nodes with their numbers, the last started first. -/
  anchored : List (Nat × Node)
  /-- How often aliases may be followed. -/
  limit : Nat

namespace NodeTable

/-- The table of a node. -/
def ofNode (n : Node) : NodeTable :=
  ⟨n.anchored.reverse, n.steps * 100⟩

/-- The node of a number: of several the one that starts last. -/
def get? (t : NodeTable) (number : Nat) : Option Node :=
  (t.anchored.find? fun e => e.1 == number).map (·.2)

end NodeTable

/-- Decoding counts how often aliases were followed. -/
abbrev Decoding := StateT Nat (Except Fault)

namespace Decoding

/-- End with a fault. -/
def fault {α : Type} (problem : String) : Decoding α :=
  fun _ => .error ⟨problem, none⟩

/-- The node itself, or the one that an alias refers to. -/
def follow (t : NodeTable) (n : Node) : Decoding Node :=
  match n with
  | .alias number => fun followed =>
    if t.limit ≤ followed then .error ⟨"repetition limit exceeded", none⟩
    else
      match t.get? number with
      | some found => .ok (found, followed + 1)
      | none => .error ⟨"unknown anchor", none⟩
  | other => pure other

/-- The value that a plain scalar means. -/
def plainValue (text : String) : Decoding Value :=
  match Plain.ofText text with
  | .null => pure .null
  | .bool b => pure (.bool b)
  | .int i => pure (.number (.int i))
  | .wide => fault "integer out of range"
  | .float x => pure (.number (.float x))
  | .text => pure (.string text)

/-- The value of a scalar without regard to tags. -/
def bareScalar (text : String) (plain : Bool) : Decoding Value :=
  if plain then plainValue text else pure (.string text)

/-- The value of a scalar under a tag. The tags of the core types demand the
form of their type, however the scalar was written. -/
def scalarUnder (tag : Option (List UInt8)) (text : String) (plain : Bool) : Decoding Value :=
  match tag.map TagMeaning.ofBytes with
  | none | some .unreadable => bareScalar text plain
  | some (.application name) => do
    let v ← bareScalar text plain
    pure (.tagged (Tag.ofText name) v)
  | some .bool =>
    match Plain.readBool? text with
    | some b => pure (.bool b)
    | none => fault "invalid value: expected a boolean"
  | some .int =>
    match Plain.ofInt? text.toList with
    | some (.int i) => pure (.number (.int i))
    | _ => fault "invalid value: expected an integer"
  | some .float =>
    match Plain.readFloat? text.toList with
    | some x => pure (.number (.float x))
    | none => fault "invalid value: expected a float"
  | some .null =>
    if Plain.isNullWord text then pure .null else fault "invalid value: expected null"
  | some .other => pure (.string text)

/-- Put a collection under its tag, if that is one of the application. -/
def underTag (tag : Option (List UInt8)) (v : Value) : Value :=
  match tag.map TagMeaning.ofBytes with
  | some (.application name) => .tagged (Tag.ofText name) v
  | _ => v

/-- Append an entry whose key must be new. -/
def addEntry (m : Mapping) (k v : Value) : Decoding Mapping :=
  if (Mapping.get? m k).isSome then fault "duplicate entry in a mapping"
  else pure (m ++ [(k, v)])

/-- Decode a node with collections nested at most `depth` deep. -/
def value (t : NodeTable) : Nat → Node → Decoding Value
  | 0, n => do
    match ← follow t n with
    | .scalar p text plain => scalarUnder p.tag text plain
    | _ => fault "recursion limit exceeded"
  | depth + 1, n => do
    match ← follow t n with
    | .scalar p text plain => scalarUnder p.tag text plain
    | .sequence p items =>
      let vs ← items.mapM (value t depth)
      pure (underTag p.tag (.sequence vs))
    | .mapping p entries =>
      let m ← entries.foldlM (fun m e => do
        let k ← value t depth e.1
        let v ← value t depth e.2
        addEntry m k v) []
      pure (underTag p.tag (.mapping m))
    | .alias _ => fault "unknown anchor"

end Decoding

/-- How deep collections may nest. -/
def depthLimit : Nat := 128

/-- The value of a text; a text without document has none. -/
def decode (text : String) : Except Fault Value := do
  match ← Node.ofText text with
  | none => pure .null
  | some n => (Decoding.value (NodeTable.ofNode n) depthLimit n).run' 0

end ManifestRules.Yaml
