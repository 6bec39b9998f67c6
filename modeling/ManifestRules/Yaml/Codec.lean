import ManifestRules.Stream
import ManifestRules.Yaml.Decode
import ManifestRules.Yaml.Written
/-!
# YAML as the format of documents

`Yaml.codec` decodes and encodes single documents. A text that cannot be
decoded is shown in full behind the fault.
-/

namespace ManifestRules.Yaml

/-- Decode a document. -/
def decodeDocument (text : String) : Except Error Value :=
  match decode text with
  | .ok v => .ok v
  | .error f => .error (.parse (f.text ++ "\n" ++ text) none)

/-- Encode a document. -/
def encodeDocument (v : Value) : Except Error String :=
  if isWritable false v then .ok (write v)
  else .error (.serialization "a tag or a key has no written form here")

/-- YAML. -/
def codec : Codec := ⟨decodeDocument, encodeDocument⟩

end ManifestRules.Yaml
