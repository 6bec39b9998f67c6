import ManifestRules.Value
/-!
# The canonical text of a value

One text per value is used wherever values are compared as text: in patterns,
in selectors and for entries addressed by name. Tags do not show in it.
-/

namespace ManifestRules

/-- The text of a number. -/
def Number.text : Number → String
  | .int i => DecimalStyle.intText i
  | .float x => x.yamlText

mutual
/-- The canonical text: scalars as they are, collections in one line. -/
def Value.text : Value → String
  | .null => "null"
  | .bool b => if b then "true" else "false"
  | .number n => n.text
  | .string s => s
  | .sequence items => "[" ++ ", ".intercalate (itemTexts items) ++ "]"
  | .mapping entries => "\x7b" ++ ", ".intercalate (entryTexts entries) ++ "\x7d"
  | .tagged _ inner => inner.text
/-- The texts of items in order. -/
def Value.itemTexts : List Value → List String
  | [] => []
  | v :: vs => v.text :: itemTexts vs
/-- The texts of entries in order, key and value parted by a colon. -/
def Value.entryTexts : List (Value × Value) → List String
  | [] => []
  | (k, v) :: es => (k.text ++ ": " ++ v.text) :: entryTexts es
end

/-- The canonical text of a mapping. -/
def Mapping.text (m : Mapping) : String :=
  (Value.mapping m).text

/-- The value of the entry a name addresses: the entry whose key is that very
text, or else the first whose key is no text and reads like the name. -/
def Mapping.getByName? (m : Mapping) (name : String) : Option Value :=
  (m.get? (.string name)).or
    ((m.find? fun e => !e.1.isText && e.1.text == name).map (·.2))

end ManifestRules
