import ManifestRules.Value
import ManifestRules.Yaml.Scalar
/-!
# What a plain scalar means

A scalar without quotes is read as no value, a truth value, an integer or a
float if it has the form of one, in this order, and as a text otherwise. The
same rules tell the writer which texts need quotes.
-/

namespace ManifestRules.Yaml

/-- The meaning of a plain scalar. -/
inductive Plain where
  /-- No value. -/
  | null
  /-- A truth value. -/
  | bool (b : Bool)
  /-- An integer of 64 bits, with or without sign. -/
  | int (i : Int)
  /-- An integer that fits 128 bits only. -/
  | wide
  /-- A float. -/
  | float (x : Double)
  /-- A text. -/
  | text
deriving Repr, DecidableEq

namespace Plain

/-- The words for the lack of a value. -/
def isNullWord (s : String) : Bool :=
  s == "null" || s == "Null" || s == "NULL" || s == "~"

/-- Read a truth value. -/
def readBool? (s : String) : Option Bool :=
  if s == "true" || s == "True" || s == "TRUE" then some true
  else if s == "false" || s == "False" || s == "FALSE" then some false
  else none

/-- A sign and digits that start with a superfluous zero. -/
def isPaddedNumber (s : List Char) : Bool :=
  match (Double.takeSign s).2 with
  | '0' :: d :: rest => (d :: rest).all Double.isDigit
  | _ => false

/-- Read digits of a base, of which there has to be one. -/
def readDigits? (base : Nat) (ds : List Char) : Option Nat :=
  if ds.isEmpty then none
  else
    ds.foldl (fun n? d =>
      n?.bind fun n => (Scalar.hexValue? d).bind fun v =>
        if v < base then some (base * n + v) else none) (some 0)

/-- Read digits behind the mark of their base. -/
def readMarked? : List Char → Option Nat
  | '0' :: 'x' :: rest => readDigits? 16 rest
  | '0' :: 'o' :: rest => readDigits? 8 rest
  | '0' :: 'b' :: rest => readDigits? 2 rest
  | _ => none

/-- Read an integer of any size. Decimal digits must not be padded with zeros. -/
def readInt? (s : List Char) : Option Int :=
  let (negative, rest) := Double.takeSign s
  let magnitude :=
    (readMarked? rest).or (if isPaddedNumber s then none else readDigits? 10 rest)
  magnitude.map fun n => if negative then -(n : Int) else n

/-- An integer of 64 bits, with or without sign. -/
def fits64 (i : Int) : Bool := -0x8000000000000000 ≤ i && i < 0x10000000000000000

/-- An integer of 128 bits, with or without sign. -/
def fits128 (i : Int) : Bool :=
  -0x80000000000000000000000000000000 ≤ i && i < 0x100000000000000000000000000000000

/-- The words for an infinity. -/
def isInfinityWord (s : List Char) : Bool :=
  s == ".inf".toList || s == ".Inf".toList || s == ".INF".toList

/-- The words for a value that is no number. -/
def isNaNWord (s : List Char) : Bool :=
  s == ".nan".toList || s == ".NaN".toList || s == ".NAN".toList

/-- Read a float. Numbers too large for one are none. -/
def readFloat? (s : List Char) : Option Double :=
  let (negative, rest) := Double.takeSign s
  if isInfinityWord rest then some (Double.infinity negative)
  else if isNaNWord s then some Double.nan
  else
    match Double.read? s with
    | some x => if x.isFinite then some x else none
    | none => none

/-- Read an integer of at most 128 bits. -/
def ofInt? (s : List Char) : Option Plain :=
  match readInt? s with
  | some i => if fits64 i then some (.int i) else if fits128 i then some .wide else none
  | none => none

/-- The meaning of a plain scalar. -/
def ofText (s : String) : Plain :=
  let cs := s.toList
  if s.isEmpty || isNullWord s then .null
  else
    match readBool? s with
    | some b => .bool b
    | none =>
      match ofInt? cs with
      | some p => p
      | none =>
        match (if isPaddedNumber cs then none else readFloat? cs) with
        | some x => .float x
        | none => .text

end Plain

end ManifestRules.Yaml
