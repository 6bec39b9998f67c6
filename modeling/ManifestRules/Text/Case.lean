import ManifestRules.Text.Blank
import ManifestRules.Text.CaseTable
/-!
# Upper and lower case

Full Unicode case mapping of texts. One rule looks at the neighbours of a
character: a capital sigma at the end of a word becomes the final small sigma.
-/

namespace ManifestRules.Text

/-- Look a code point up in ranges with a common offset. -/
def shifted (ranges : List (Nat × Nat × Nat × Int)) (n : Nat) : Nat :=
  match ranges.find? fun (first, last, step, _) =>
      first ≤ n && n ≤ last && (n - first) % step == 0 with
  | some (_, _, _, offset) => ((n : Int) + offset).toNat
  | none => n

/-- Map a character by a table of special cases and ranges; ASCII is answered
without the tables. -/
def mapCase (special : List (Nat × List Nat)) (ranges : List (Nat × Nat × Nat × Int))
    (c : Char) : List Char :=
  match special.find? fun entry => entry.1 == c.toNat with
  | some (_, codes) => codes.map Char.ofNat
  | none => [Char.ofNat (shifted ranges c.toNat)]

/-- The upper case of a character. -/
def upperChar (c : Char) : List Char :=
  if c.toNat < 0x80 then [c.toUpper] else mapCase upperSpecial upperRanges c

/-- The lower case of a character, wherever it stands. -/
def lowerChar (c : Char) : List Char :=
  if c.toNat < 0x80 then [c.toLower] else mapCase lowerSpecial lowerRanges c

/-- The first character that is not passed over has case. -/
def meetsCased (s : List Char) : Bool :=
  match s.dropWhile fun c => inRanges caseIgnorableRanges c.toNat with
  | c :: _ => inRanges casedRanges c.toNat
  | [] => false

/-- Upper case of a text. -/
def toUpper (s : List Char) : List Char :=
  s.flatMap upperChar

/-- Lower case of the rest of a text, given what stands before it, reversed. -/
def lowerAfter (before : List Char) : List Char → List Char
  | [] => []
  | c :: rest =>
    let mapped :=
      if c = 'Σ' then
        if meetsCased before && !meetsCased rest then ['ς'] else ['σ']
      else lowerChar c
    mapped ++ lowerAfter (c :: before) rest

/-- Lower case of a text. -/
def toLower (s : List Char) : List Char :=
  lowerAfter [] s

/-- `toUpper` on strings. -/
def upperString (s : String) : String :=
  String.ofList (toUpper s.toList)

/-- `toLower` on strings. -/
def lowerString (s : String) : String :=
  String.ofList (toLower s.toList)

end ManifestRules.Text
