import ManifestRules.Value.Text
/-!
# The data model of templates

Templates see values as JSON: tags are gone, the keys of an object are texts
in ascending order of code points, and every float is finite. `Json.ofValue`
makes this view of a value and `Json.text` writes it compactly.
-/

namespace ManifestRules

/-- A JSON value. -/
inductive Json where
  /-- No value. -/
  | null
  /-- A truth value. -/
  | bool (b : Bool)
  /-- A number; a float is finite. -/
  | number (n : Number)
  /-- A text. -/
  | string (s : String)
  /-- Values in order. -/
  | array (items : List Json)
  /-- Members with ascending names. -/
  | object (members : List (String × Json))
deriving Repr, Inhabited

namespace Json

/-- Put a member in its place; a member of the same name gets the new value. -/
def insertMember : List (String × Json) → String → Json → List (String × Json)
  | [], name, v => [(name, v)]
  | (other, w) :: rest, name, v =>
    if name = other then (name, v) :: rest
    else if name < other then (name, v) :: (other, w) :: rest
    else (other, w) :: insertMember rest name v

/-- The object with the given members, of which later ones win. -/
def ofMembers (members : List (String × Json)) : Json :=
  .object (members.foldl (fun found m => insertMember found m.1 m.2) [])

/-- The member of the given name. -/
def member? : List (String × Json) → String → Option Json
  | [], _ => none
  | (other, v) :: rest, name => if name = other then some v else member? rest name

mutual
/-- The view of a value. Keys become their canonical text, and a float that is
not finite becomes its text. -/
def ofValue : Value → Json
  | .null => .null
  | .bool b => .bool b
  | .number (.int i) => .number (.int i)
  | .number (.float x) => if x.isFinite then .number (.float x) else .string x.yamlText
  | .string s => .string s
  | .sequence items => .array (ofItems items)
  | .mapping entries => ofMembers (ofEntries entries)
  | .tagged _ inner => ofValue inner
/-- The views of items in order. -/
def ofItems : List Value → List Json
  | [] => []
  | v :: vs => ofValue v :: ofItems vs
/-- Entries as members, in order. -/
def ofEntries : List (Value × Value) → List (String × Json)
  | [] => []
  | (k, v) :: es => (k.text, ofValue v) :: ofEntries es
end

mutual
/-- The value tree that a JSON value is. -/
def toValue : Json → Value
  | .null => .null
  | .bool b => .bool b
  | .number n => .number n
  | .string s => .string s
  | .array items => .sequence (toItems items)
  | .object members => .mapping (toEntries members)
/-- The trees of items in order. -/
def toItems : List Json → List Value
  | [] => []
  | v :: vs => v.toValue :: toItems vs
/-- Members as entries with text keys. -/
def toEntries : List (String × Json) → List (Value × Value)
  | [] => []
  | (name, v) :: ms => (.string name, v.toValue) :: toEntries ms
end

/-- The value of a hexadecimal digit as a letter, in lower case. -/
def hexDigit (n : Nat) : Char :=
  if n < 10 then Char.ofNat (n + 48) else Char.ofNat (n + 87)

/-- A character inside a quoted text. -/
def quotedChar (c : Char) : List Char :=
  if c = '"' then ['\\', '"']
  else if c = '\\' then ['\\', '\\']
  else if c = '\x08' then ['\\', 'b']
  else if c = '\t' then ['\\', 't']
  else if c = '\n' then ['\\', 'n']
  else if c = '\x0c' then ['\\', 'f']
  else if c = '\r' then ['\\', 'r']
  else if c.toNat < 0x20 then
    ['\\', 'u', '0', '0', hexDigit (c.toNat / 16), hexDigit (c.toNat % 16)]
  else [c]

/-- A quoted text. -/
def quoteChars (s : List Char) : List Char :=
  '"' :: (s.flatMap quotedChar ++ ['"'])

/-- A text in quotes. -/
def quote (s : String) : String :=
  String.ofList (quoteChars s.toList)

/-- The text of a number. -/
def numberText : Number → String
  | .int i => DecimalStyle.intText i
  | .float x => x.jsonText

mutual
/-- Compact JSON text. -/
def text : Json → String
  | .null => "null"
  | .bool b => if b then "true" else "false"
  | .number n => numberText n
  | .string s => quote s
  | .array items => "[" ++ ",".intercalate (itemTexts items) ++ "]"
  | .object members => "\x7b" ++ ",".intercalate (memberTexts members) ++ "\x7d"
/-- The texts of items in order. -/
def itemTexts : List Json → List String
  | [] => []
  | v :: vs => v.text :: itemTexts vs
/-- The texts of members in order. -/
def memberTexts : List (String × Json) → List String
  | [] => []
  | (name, v) :: ms => (quote name ++ ":" ++ v.text) :: memberTexts ms
end

/-- A number as a float. -/
def toDouble : Number → Double
  | .int i => Double.ofInt i
  | .float x => x

mutual
/-- Equal values. An integer and a float are never equal. -/
def same : Json → Json → Bool
  | .null, .null => true
  | .bool a, .bool b => a == b
  | .number (.int i), .number (.int j) => i == j
  | .number (.float x), .number (.float y) => x.numEq y
  | .string s, .string t => s == t
  | .array xs, .array ys => sameItems xs ys
  | .object xs, .object ys => sameMembers xs ys
  | _, _ => false
termination_by structural v => v
/-- Equal items, place by place. -/
def sameItems : List Json → List Json → Bool
  | [], [] => true
  | v :: vs, w :: ws => v.same w && sameItems vs ws
  | _, _ => false
termination_by structural vs => vs
/-- Equal members, place by place. -/
def sameMembers : List (String × Json) → List (String × Json) → Bool
  | [], [] => true
  | (n, v) :: vs, (m, w) :: ws => n == m && v.same w && sameMembers vs ws
  | _, _ => false
termination_by structural vs => vs
end

end Json

end ManifestRules
