import ManifestRules.Value.Text
/-!
# Patterns

A pattern is a mapping that a document has to contain: every entry of the
pattern is found in the document, nested mappings by the same rule and all
other values by their canonical text. Other entries do not count.
-/

namespace ManifestRules

/-- The value of a document that a pattern's key is compared with: the entry
with the same key, or else the entry that the key's text addresses. -/
def Mapping.counterpart? (actual : Mapping) (key : Value) : Option Value :=
  (actual.get? key).or (actual.getByName? key.text)

mutual
/-- A value found in a document agrees with the value a pattern expects. -/
def Value.agrees (expected found : Value) : Bool :=
  match expected with
  | .mapping entries =>
    match found.asMapping? with
    | some actual => entriesAgree entries actual
    | none => false
  | .tagged _ inner => inner.agrees found
  | .null => found.text == Value.null.text
  | .bool b => found.text == (Value.bool b).text
  | .number n => found.text == (Value.number n).text
  | .string s => found.text == s
  | .sequence items => found.text == (Value.sequence items).text
/-- Every entry of a pattern has an agreeing counterpart. -/
def Value.entriesAgree (pattern : List (Value × Value)) (actual : Mapping) : Bool :=
  match pattern with
  | [] => true
  | (key, expected) :: rest =>
    (match Mapping.counterpart? actual key with
      | some found => expected.agrees found
      | none => false) && entriesAgree rest actual
end

/-- The document contains the pattern. -/
def Mapping.contains (actual pattern : Mapping) : Bool :=
  Value.entriesAgree pattern actual

end ManifestRules
