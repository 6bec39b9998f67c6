import ManifestRules.Json
import ManifestRules.Number.Scale
/-!
# JSON literals

Literals in templates are JSON. A number without fraction and exponent is an
integer if it fits 64 bits; of any other, as many digits count as fit 64 bits
without sign.
-/

namespace ManifestRules.Json

/-- White space between tokens. -/
def isSpace (c : Char) : Bool := c == ' ' || c == '\t' || c == '\n' || c == '\r'

/-- The text behind leading white space. -/
def skipSpaces (s : List Char) : List Char := s.dropWhile isSpace

/-- The value of a hexadecimal digit. -/
def hexValue? (c : Char) : Option Nat :=
  if '0' ≤ c ∧ c ≤ '9' then some (c.toNat - 48)
  else if 'a' ≤ c ∧ c ≤ 'f' then some (c.toNat - 87)
  else if 'A' ≤ c ∧ c ≤ 'F' then some (c.toNat - 55)
  else none

/-- Read four hexadecimal digits. -/
def readHex4? : List Char → Option (Nat × List Char)
  | a :: b :: c :: d :: rest => do
    let w ← hexValue? a
    let x ← hexValue? b
    let y ← hexValue? c
    let z ← hexValue? d
    pure (((w * 16 + x) * 16 + y) * 16 + z, rest)
  | _ => none

/-- Read a character given by its number, behind the letter of the escape. Two
surrogates form one character, and none stands alone. -/
def readCodePoint? (s : List Char) : Option (Char × List Char) := do
  let (n, rest) ← readHex4? s
  if 0xDC00 ≤ n ∧ n ≤ 0xDFFF then none
  else if 0xD800 ≤ n ∧ n ≤ 0xDBFF then
    match rest with
    | '\\' :: 'u' :: more =>
      let (m, rest) ← readHex4? more
      if 0xDC00 ≤ m ∧ m ≤ 0xDFFF then
        some (Char.ofNat (0x10000 + (n - 0xD800) * 1024 + (m - 0xDC00)), rest)
      else none
    | _ => none
  else some (Char.ofNat n, rest)

/-- The character that a letter behind a backslash stands for. -/
def escaped? (c : Char) : Option Char :=
  match c with
  | '"' => some '"'
  | '\\' => some '\\'
  | '/' => some '/'
  | 'b' => some '\x08'
  | 'f' => some '\x0c'
  | 'n' => some '\n'
  | 'r' => some '\r'
  | 't' => some '\t'
  | _ => none

/-- Read the rest of a text behind its opening quote. -/
def readQuoted? : Nat → List Char → List Char → Option (String × List Char)
  | 0, _, _ => none
  | fuel + 1, acc, s =>
    match s with
    | '"' :: rest => some (String.ofList acc.reverse, rest)
    | '\\' :: 'u' :: rest =>
      match readCodePoint? rest with
      | some (c, rest) => readQuoted? fuel (c :: acc) rest
      | none => none
    | '\\' :: c :: rest =>
      match escaped? c with
      | some e => readQuoted? fuel (e :: acc) rest
      | none => none
    | c :: rest => if c.toNat < 0x20 then none else readQuoted? fuel (c :: acc) rest
    | [] => none

/-- Append digits to a number as long as it fits 64 bits; the digits that are
left, and how many were taken. -/
def growDigits : Nat → List Char → Nat × Nat × List Char
  | n, [] => (n, 0, [])
  | n, d :: ds =>
    let next := 10 * n + (d.toNat - 48)
    if next < 0x10000000000000000 then
      let (m, count, rest) := growDigits next ds
      (m, count + 1, rest)
    else (n, 0, d :: ds)

/-- Read digits, of which there has to be one. -/
def readDigits? (s : List Char) : Option (List Char × List Char) :=
  let ds := s.takeWhile Double.isDigit
  if ds.isEmpty then none else some (ds, s.dropWhile Double.isDigit)

/-- Read a fraction, if there is one. -/
def readFraction? : List Char → Option (Option (List Char) × List Char)
  | '.' :: rest => (readDigits? rest).map fun (ds, rest) => (some ds, rest)
  | rest => some (none, rest)

/-- Read an exponent, if there is one. -/
def readExponent? : List Char → Option (Option Int × List Char)
  | c :: rest =>
    if c = 'e' ∨ c = 'E' then
      let (negative, rest) := Double.takeSign rest
      (readDigits? rest).map fun (ds, rest) =>
        let e : Int := Double.digitsValue ds
        (some (if negative then -e else e), rest)
    else some (none, c :: rest)
  | [] => some (none, [])

/-- The number of the given digits, fraction and exponent. -/
def numberOf? (negative : Bool) (whole : List Char) (fraction : Option (List Char))
    (exponent : Option Int) : Option Number :=
  let (n, _, dropped) := growDigits 0 whole
  if fraction.isNone && exponent.isNone && dropped.isEmpty &&
      (!negative || (n ≠ 0 && n ≤ 0x8000000000000000)) then
    some (.int (if negative then -(n : Int) else n))
  else
    let (n, used, _) := growDigits n (fraction.getD [])
    let e : Int := dropped.length - used + exponent.getD 0
    if n = 0 then some (.float (Double.zero negative))
    else
      (Double.scale 8 (Double.ofInt n) e).map fun x =>
        .float (if negative then ⟨x.bits + UInt64.ofNat Double.signWeight⟩ else x)

/-- Read a number. More than one leading zero is refused. -/
def readNumber? (s : List Char) : Option (Number × List Char) := do
  let (negative, s) :=
    match s with
    | '-' :: rest => (true, rest)
    | rest => (false, rest)
  let (whole, s) ← readDigits? s
  if 1 < whole.length ∧ whole.head? = some '0' then none
  else
    let (fraction, s) ← readFraction? s
    let (exponent, s) ← readExponent? s
    let n ← numberOf? negative whole fraction exponent
    pure (n, s)

/-- Move over the given characters. -/
def strip? : List Char → List Char → Option (List Char)
  | [], s => some s
  | c :: cs, d :: s => if c = d then strip? cs s else none
  | _ :: _, [] => none

mutual
/-- Read a value with at most the given count of steps. -/
def readValue? : Nat → List Char → Option (Json × List Char)
  | 0, _ => none
  | fuel + 1, s =>
    match skipSpaces s with
    | '"' :: rest => (readQuoted? (rest.length + 1) [] rest).map fun (t, rest) => (.string t, rest)
    | '[' :: rest =>
      match skipSpaces rest with
      | ']' :: rest => some (.array [], rest)
      | rest => (readItems? fuel rest).map fun (vs, rest) => (.array vs, rest)
    | '\x7b' :: rest =>
      match skipSpaces rest with
      | '\x7d' :: rest => some (.object [], rest)
      | rest => (readMembers? fuel rest).map fun (ms, rest) => (ofMembers ms, rest)
    | 'n' :: rest => (strip? "ull".toList rest).map fun rest => (.null, rest)
    | 't' :: rest => (strip? "rue".toList rest).map fun rest => (.bool true, rest)
    | 'f' :: rest => (strip? "alse".toList rest).map fun rest => (.bool false, rest)
    | rest => (readNumber? rest).map fun (n, rest) => (.number n, rest)
termination_by structural fuel => fuel
/-- Read items up to the closing bracket. -/
def readItems? : Nat → List Char → Option (List Json × List Char)
  | 0, _ => none
  | fuel + 1, s =>
    match readValue? fuel s with
    | none => none
    | some (v, rest) =>
      match skipSpaces rest with
      | ']' :: rest => some ([v], rest)
      | ',' :: rest => (readItems? fuel rest).map fun (vs, rest) => (v :: vs, rest)
      | _ => none
termination_by structural fuel => fuel
/-- Read members up to the closing brace. -/
def readMembers? : Nat → List Char → Option (List (String × Json) × List Char)
  | 0, _ => none
  | fuel + 1, s =>
    match skipSpaces s with
    | '"' :: rest =>
      match readQuoted? (rest.length + 1) [] rest with
      | none => none
      | some (name, rest) =>
        match skipSpaces rest with
        | ':' :: rest =>
          match readValue? fuel rest with
          | none => none
          | some (v, rest) =>
            match skipSpaces rest with
            | '\x7d' :: rest => some ([(name, v)], rest)
            | ',' :: rest => (readMembers? fuel rest).map fun (ms, rest) => ((name, v) :: ms, rest)
            | _ => none
        | _ => none
    | _ => none
termination_by structural fuel => fuel
end

/-- Read a text that is one JSON value. -/
def read? (s : List Char) : Option Json :=
  match readValue? (2 * s.length + 2) s with
  | some (v, rest) => if (skipSpaces rest).isEmpty then some v else none
  | none => none

end ManifestRules.Json
