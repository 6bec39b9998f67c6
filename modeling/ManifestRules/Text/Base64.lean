/-!
# Base64

The standard alphabet with padding: every three bytes become four letters.
-/

namespace ManifestRules.Text

/-- The letter for a value below sixty-four. -/
def base64Letter (n : Nat) : Char :=
  if n < 26 then Char.ofNat (n + 65)
  else if n < 52 then Char.ofNat (n + 71)
  else if n < 62 then Char.ofNat (n - 4)
  else if n = 62 then '+'
  else '/'

/-- Encode bytes, three at a time; a short last group is padded. -/
def base64Bytes : List UInt8 → List Char
  | [] => []
  | [a] =>
    let n := a.toNat * 16
    [base64Letter (n / 64), base64Letter (n % 64), '=', '=']
  | [a, b] =>
    let n := (a.toNat * 256 + b.toNat) * 4
    [base64Letter (n / 4096), base64Letter (n / 64 % 64), base64Letter (n % 64), '=']
  | a :: b :: c :: rest =>
    let n := (a.toNat * 256 + b.toNat) * 256 + c.toNat
    base64Letter (n / 262144) :: base64Letter (n / 4096 % 64) ::
      base64Letter (n / 64 % 64) :: base64Letter (n % 64) :: base64Bytes rest

/-- Base64 of a text's UTF-8 bytes. -/
def base64 (s : String) : String :=
  String.ofList (base64Bytes s.toUTF8.toList)

end ManifestRules.Text
