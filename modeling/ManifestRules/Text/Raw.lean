/-!
# Raw texts

Names and locations of files are bytes. Most of them are a text in UTF-8, but none has to be. A raw
text stands for any bytes, and a text for its own (`RawText.text?_ofText`). Bytes that are no text
can still be shown, with a mark for what is broken (`RawText.display`).
-/

namespace ManifestRules

/-- Bytes that may be a text. -/
structure RawText where
  /-- The bytes. -/
  bytes : List UInt8
deriving DecidableEq, Repr, Inhabited

namespace RawText

/-- The bytes of a text. -/
def ofText (text : String) : RawText := ⟨text.toByteArray.data.toList⟩

instance : Coe String RawText := ⟨ofText⟩

/-- The one text is written behind the other. -/
instance : Append RawText := ⟨fun a b => ⟨a.bytes ++ b.bytes⟩⟩

/-- Raw texts are compared byte by byte. -/
instance : LT RawText := ⟨fun a b => a.bytes < b.bytes⟩

instance : DecidableLT RawText := fun a b => inferInstanceAs (Decidable (a.bytes < b.bytes))

/-- The text, if the bytes are one. -/
def text? (r : RawText) : Option String := String.fromUTF8? r.bytes.toByteArray

/-- The character that bytes begin with. -/
def firstChar? (bytes : List UInt8) : Option Char := (bytes.take 4).toByteArray.utf8DecodeChar? 0

/-- Further bytes complete a character. -/
def opensChar (bytes : List UInt8) : Bool :=
  [[0x80], [0x80, 0x80]].any fun more => (firstChar? (bytes ++ more)).isSome

/-- How many bytes are broken where no character begins: as many as open one, or a single byte. -/
def brokenLength (bytes : List UInt8) : Nat :=
  ([3, 2].find? fun n => n ≤ bytes.length && opensChar (bytes.take n)).getD 1

/-- The characters of bytes, with a mark for every broken one. -/
def shown (bytes : List UInt8) : List Char :=
  match bytes with
  | [] => []
  | b :: rest =>
    match firstChar? (b :: rest) with
    | some c => c :: shown (rest.drop (c.utf8Size - 1))
    | none => '\uFFFD' :: shown (rest.drop (brokenLength (b :: rest) - 1))
termination_by bytes.length
decreasing_by
  · rw [List.length_drop, List.length_cons]
    omega
  · rw [List.length_drop, List.length_cons]
    omega

/-- How a raw text is shown. -/
def display (r : RawText) : String := String.ofList (shown r.bytes)

/-- The bytes of a text are that text. -/
@[simp] theorem text?_ofText (text : String) : (ofText text).text? = some text := by
  have hbytes : (ofText text).bytes.toByteArray = text.toByteArray := by
    rw [ofText, ByteArray.ext_iff, List.data_toByteArray, Array.toArray_toList]
  rw [text?, hbytes, String.fromUTF8?, dif_pos text.isValidUTF8]
  rfl

/-- A character that is written in front is shown in front. -/
theorem shown_append (c : Char) (rest : List UInt8) :
    shown (String.utf8EncodeChar c ++ rest) = c :: shown rest := by
  have hlength : (String.utf8EncodeChar c).length = c.utf8Size := String.length_utf8EncodeChar c
  have hfirst : firstChar? (String.utf8EncodeChar c ++ rest) = some c := by
    rw [firstChar?, List.take_append, List.take_of_length_le, List.toByteArray_append,
      ByteArray.utf8DecodeChar?_utf8EncodeChar_append]
    rw [hlength]
    exact c.utf8Size_le_four
  cases hbytes : String.utf8EncodeChar c with
  | nil => exact absurd hbytes String.utf8EncodeChar_ne_nil
  | cons b more =>
    rw [hbytes, List.cons_append] at hfirst
    rw [hbytes, List.length_cons] at hlength
    rw [List.cons_append, shown, hfirst]
    dsimp only
    rw [← hlength, Nat.add_sub_cancel, List.drop_left]

/-- A text is shown as it is. -/
@[simp] theorem display_ofText (text : String) : (ofText text).display = text := by
  have hshown : ∀ cs : List Char, shown (cs.flatMap String.utf8EncodeChar) = cs := by
    intro cs
    induction cs with
    | nil => rw [List.flatMap_nil, shown]
    | cons c cs ih => rw [List.flatMap_cons, shown_append, ih]
  have hbytes : (ofText text).bytes = text.toList.flatMap String.utf8EncodeChar := by
    rw [ofText, ← String.utf8Encode_toList, List.utf8Encode, List.toList_data_toByteArray]
  rw [display, hbytes, hshown, String.ofList_toList]

end RawText

end ManifestRules
