import ManifestRules.Graph
/-!
# Document streams

A stream is a text that holds several documents, parted by lines of three
dashes. What a document looks like in text is the business of a `Codec`, the
parameter of everything here: a stream is split into fragments before any is
decoded, and joined from documents that are encoded one by one.
-/

namespace ManifestRules

/-- A text format for single documents. -/
structure Codec where
  /-- Decode one document. -/
  decode : String → Except Error Value
  /-- Encode one document. -/
  encode : Value → Except Error String

namespace Stream

/-- The text of a separator line. -/
def separator : String := "---"

/-- A separator line: three dashes, then nothing but white space and perhaps a
comment parted from the dashes. -/
def isSeparator (line : List Char) : Bool :=
  match Text.trimEnd line with
  | '-' :: '-' :: '-' :: rest =>
    match rest with
    | [] => true
    | c :: _ => Text.isBlank c && (Text.trimStart rest).head? == some '#'
  | _ => false

/-- A part of a text, by the bytes where it starts and where it ends. -/
structure Extent where
  /-- The byte where it starts. -/
  start : String.Pos.Raw
  /-- The byte before which it ends. -/
  stop : String.Pos.Raw
deriving DecidableEq, Repr, Inhabited

/-- What stands there. -/
def Extent.content (e : Extent) (text : String) : List Char :=
  (String.Pos.Raw.extract text e.start e.stop).toList

/-- The extents between separator lines. The present one starts at `start`, the next line
at `offset`, and the text ends at `stop`. -/
def extentsFrom (start offset stop : String.Pos.Raw) : List (List Char) → List Extent
  | [] => [⟨start, stop⟩]
  | line :: rest =>
    let next := offset + String.ofList line
    if isSeparator line then ⟨start, offset⟩ :: extentsFrom next next stop rest
    else extentsFrom start next stop rest

/-- The extents between the separator lines of a text, one more than there are such lines. -/
def extents (text : String) : List Extent :=
  extentsFrom 0 0 text.rawEndPos (Text.lines text.toList)

/-- The fragments of a stream: what stands between the separator lines, without the white
space around it, the empty ones left out. -/
def splitDocuments (text : String) : List String :=
  ((extents text).map fun e => Text.trim (e.content text)).filterMap fun piece =>
    if piece.isEmpty then none else some (String.ofList piece)

/-- Decode a fragment to a document. -/
def parseDocument (codec : Codec) (fragment : String) : Except Error Document := do
  let v ← codec.decode fragment
  Document.ofValue v fragment

/-- A fragment is no document because it cannot be decoded, or because its value is no mapping with
a kind. -/
theorem of_parseDocument_error {codec : Codec} {fragment : String} {f : Error} {P : Error → Prop}
    (hdecode : ∀ text k, codec.decode text = .error k → P k)
    (hparse : ∀ message hint, P (.parse message hint)) (hkind : ∀ source, P (.missingKind source))
    (hf : parseDocument codec fragment = .error f) : P f := by
  rw [parseDocument] at hf
  cases hv : codec.decode fragment with
  | error k =>
    rw [hv] at hf
    cases hf
    exact hdecode fragment _ hv
  | ok v =>
    rw [hv] at hf
    change Document.ofValue v fragment = .error f at hf
    unfold Document.ofValue Document.ofBody at hf
    repeat' split at hf
    all_goals cases hf
    · exact hkind fragment
    · exact hparse _ _

/-- Decode every document of a stream in order. -/
def parseDocuments (codec : Codec) (text : String) : Except Error (List Document) :=
  (splitDocuments text).mapM (parseDocument codec)

/-- Decode a single mapping; a blank text and a lack of value are the empty mapping. -/
def parseMapping (codec : Codec) (text : String) : Except Error Mapping :=
  if Text.isBlankString text then .ok []
  else
    match codec.decode text with
    | .error e => .error e
    | .ok (.mapping entries) => .ok entries
    | .ok .null => .ok []
    | .ok other =>
      .error (.parse ("expected a mapping but found " ++ other.typeName ++ ":\n" ++ text) none)

/-- A text is no mapping because it cannot be decoded, or because its value is of another type. -/
theorem of_parseMapping_error {codec : Codec} {text : String} {f : Error} {P : Error → Prop}
    (hdecode : ∀ text k, codec.decode text = .error k → P k)
    (hparse : ∀ message hint, P (.parse message hint))
    (hf : parseMapping codec text = .error f) : P f := by
  rw [parseMapping] at hf
  split at hf
  · cases hf
  · split at hf
    · cases hf
      exact hdecode text _ ‹_›
    · cases hf
    · cases hf
    · cases hf
      exact hparse _ _

/-- The text with a line feed at its end. -/
def endLine (text : String) : String :=
  if text.toList.getLast? = some '\n' then text else text ++ "\n"

/-- A document as it stands in a stream. -/
def writeDocument (codec : Codec) (d : Document) : Except Error String := do
  let encoded ← codec.encode (.mapping d.body)
  pure (separator ++ "\n" ++ endLine encoded)

/-- Encode every document of a graph in order. -/
def serializeDocuments (codec : Codec) (g : Graph) : Except Error String := do
  let parts ← g.toList.mapM (writeDocument codec)
  pure (String.join parts)

end Stream

end ManifestRules
