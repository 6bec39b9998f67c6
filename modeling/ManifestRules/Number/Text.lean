import ManifestRules.Number.Shortest
/-!
# Numbers as text

`Double.text` lays the shortest digits of a number out: positionally when the
decimal point falls near the digits, otherwise with an exponent. The two
formats of this library differ in one decision only, the sign of a positive
exponent, which is the field of `DecimalStyle`. `Double.read?` reads the decimal
grammar back.
-/

namespace ManifestRules

/-- The decision in which the two float formats differ. -/
structure DecimalStyle where
  /-- A positive exponent carries a plus sign. -/
  exponentPlus : Bool

namespace DecimalStyle

/-- YAML text: `1e16`, `1e-6`. -/
def yaml : DecimalStyle := ⟨false⟩

/-- JSON text: `1e+16`, `1e-6`. -/
def json : DecimalStyle := ⟨true⟩

/-- The digits of a natural number, most significant first. -/
def natDigits (n : Nat) : List Char :=
  Nat.toDigits 10 n

/-- The text of an integer in decimal. -/
def intText (i : Int) : String :=
  String.ofList (if i < 0 then '-' :: natDigits i.natAbs else natDigits i.natAbs)

/-- A run of zeros. -/
def zeros (n : Nat) : List Char :=
  List.replicate n '0'

/-- Lay out a decimal without trailing zeros. The decimal point stands `point`
places behind the first digit; positions from minus four to sixteen are
written out, always with a digit on both sides of the point. -/
def layout (style : DecimalStyle) (d : Decimal) : List Char :=
  let digits := natDigits d.digits
  let count := digits.length
  let point : Int := count + d.exponent
  if 0 ≤ d.exponent ∧ point ≤ 16 then
    digits ++ zeros d.exponent.toNat ++ ['.', '0']
  else if 0 < point ∧ point ≤ 16 then
    digits.take point.toNat ++ '.' :: digits.drop point.toNat
  else if -5 < point ∧ point ≤ 0 then
    '0' :: '.' :: zeros (-point).toNat ++ digits
  else
    let e := point - 1
    let mantissa :=
      match digits with
      | [] => []
      | [first] => [first]
      | first :: more => first :: '.' :: more
    let sign := if e < 0 then ['-'] else if style.exponentPlus then ['+'] else []
    mantissa ++ 'e' :: sign ++ natDigits e.natAbs

end DecimalStyle

namespace Double

/-- The text of a finite number. -/
def finiteText (style : DecimalStyle) (x : Double) : List Char :=
  let sign := if x.isNegative then ['-'] else []
  if x.isZero then sign ++ ['0', '.', '0']
  else
    match x.shortest? with
    | some d => sign ++ style.layout d
    | none => sign ++ ['0', '.', '0']

/-- The text of a number in YAML, with `.inf`, `-.inf` and `.nan`. -/
def yamlText (x : Double) : String :=
  if x.isNaN then ".nan"
  else if x.isInfinite then (if x.isNegative then "-.inf" else ".inf")
  else String.ofList (x.finiteText .yaml)

/-- The text of a finite number in JSON. -/
def jsonText (x : Double) : String :=
  String.ofList (x.finiteText .json)

/-- An ASCII digit. -/
def isDigit (c : Char) : Bool :=
  '0' ≤ c && c ≤ '9'

/-- The value of a run of decimal digits. -/
def digitsValue (ds : List Char) : Nat :=
  ds.foldl (fun n c => 10 * n + (c.toNat - '0'.toNat)) 0

/-- An optional sign at the start of a text. -/
def takeSign : List Char → Bool × List Char
  | '-' :: rest => (true, rest)
  | '+' :: rest => (false, rest)
  | rest => (false, rest)

/-- The exponent part of a decimal, which must reach the end of the text. -/
def readExponent? : List Char → Option Int
  | [] => some 0
  | c :: rest =>
    if c = 'e' ∨ c = 'E' then
      let (negative, ds) := takeSign rest
      if !ds.isEmpty && ds.all isDigit then
        let e : Int := digitsValue ds
        some (if negative then -e else e)
      else none
    else none

/-- Read a decimal number: an optional sign, digits with an optional point
among, before or after them, and an optional exponent. The result is the
nearest double, infinity when it is too large. -/
def read? (s : List Char) : Option Double :=
  let (negative, rest) := takeSign s
  let whole := rest.takeWhile isDigit
  let rest := rest.dropWhile isDigit
  let (part, rest) :=
    match rest with
    | '.' :: more => (more.takeWhile isDigit, more.dropWhile isDigit)
    | _ => ([], rest)
  if whole.isEmpty && part.isEmpty then none
  else
    (readExponent? rest).map fun e =>
      ofDecimal negative (digitsValue (whole ++ part)) (e - part.length)

end Double

end ManifestRules
