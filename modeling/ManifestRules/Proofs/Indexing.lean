import ManifestRules.Path
import Mathlib.Data.List.Basic
import Mathlib.Data.Nat.Digits.Defs
import Mathlib.Data.Set.List
/-!
# Indices and their numerals

The items of a sequence are addressed by decimal numerals (`Numeral`), which have no bound, while an
index has to fit a word of 64 bits. A numeral that fits is read as its value, and nothing else is
read (`Path.readIndex?_eq_some_iff`). It makes no difference whether the value is compared with the
bound at the end, or every step is checked while the digits go into a word one by one
(`Path.readIndex?_text_eq_word?`). As every item has an index that fits, a walk finds exactly the
items that numerals stand for, and takes no numeral for that of another item
(`Path.numeral_leads_to_item`).
-/

namespace ManifestRules

/-- A decimal numeral. -/
structure Numeral where
  /-- A single plus sign stands in front. -/
  signed : Bool
  /-- The digits, the most significant one first. Zeros may lead. -/
  digits : List (Fin 10)
  /-- There is at least one digit. -/
  digits_ne_nil : digits ≠ []

namespace Numeral

/-- The ASCII character of a digit. -/
def digitChar (d : Fin 10) : Char := Nat.digitChar d

/-- What stands in front of the digits. -/
def mark (a : Numeral) : List Char := if a.signed then ['+'] else []

/-- The text of a numeral. -/
def text (a : Numeral) : String := String.ofList (a.mark ++ a.digits.map digitChar)

/-- The number that a numeral stands for. -/
def value (a : Numeral) : Nat := Nat.ofDigits 10 (a.digits.map Fin.val).reverse

/-- The characters of a numeral. -/
theorem toList_text (a : Numeral) : a.text.toList = a.mark ++ a.digits.map digitChar :=
  String.toList_ofList

/-- The character of a digit is an ASCII digit. -/
theorem isDigit_digitChar : ∀ d : Fin 10, Double.isDigit (digitChar d) = true := by decide

/-- A digit is the distance of its character from that of zero. -/
theorem toNat_digitChar : ∀ d : Fin 10, (digitChar d).toNat - '0'.toNat = d := by decide

/-- Different digits have different characters. -/
theorem digitChar_injective : Function.Injective digitChar := by
  intro d e hchar
  rw [Fin.ext_iff, ← toNat_digitChar d, hchar, toNat_digitChar e]

/-- The plus sign is no digit. -/
theorem digitChar_ne_plus : ∀ d : Fin 10, digitChar d ≠ '+' := by decide

/-- An ASCII digit is the character of a digit. -/
theorem exists_digitChar_eq {c : Char} (hc : Double.isDigit c = true) : ∃ d, digitChar d = c := by
  rw [Double.isDigit, Bool.and_eq_true, decide_eq_true_eq, decide_eq_true_eq] at hc
  have hlow : 48 ≤ c.toNat := hc.1
  have hhigh : c.toNat ≤ 57 := hc.2
  have hdigit : c.toNat - 48 < 10 := by omega
  refine ⟨⟨c.toNat - 48, hdigit⟩, Char.toNat_inj.mp ?_⟩
  rw [digitChar, Nat.toNat_digitChar_of_lt_ten hdigit]
  omega

/-- A run of ASCII digits is written with the characters of digits. -/
theorem all_isDigit_iff {cs : List Char} :
    cs.all Double.isDigit = true ↔ ∃ digits : List (Fin 10), digits.map digitChar = cs := by
  rw [List.all_eq_true]
  constructor
  · intro h
    have hchars : cs ∈ { l | ∀ c ∈ l, c ∈ Set.range digitChar } := fun c hc =>
      exists_digitChar_eq (h c hc)
    rwa [← Set.range_list_map] at hchars
  · rintro ⟨digits, rfl⟩ c hc
    obtain ⟨d, -, rfl⟩ := List.mem_map.mp hc
    exact isDigit_digitChar d

/-- The characters of digits do not start with a plus sign. -/
theorem map_digitChar_ne_plus (digits : List (Fin 10)) (cs : List Char) :
    digits.map digitChar ≠ '+' :: cs := by
  intro h
  cases digits with
  | nil => cases h
  | cons d digits => exact digitChar_ne_plus d (List.cons.inj h).1

/-- A text is that of one numeral at most. -/
theorem text_injective : Function.Injective text := by
  rintro ⟨signed, digits, hdigits⟩ ⟨signed', digits', hdigits'⟩ htext
  have hchars := String.ofList_injective htext
  have hsame : signed = signed' ∧ digits.map digitChar = digits'.map digitChar := by
    cases signed <;> cases signed'
    · exact ⟨rfl, hchars⟩
    · exact absurd hchars (map_digitChar_ne_plus digits _)
    · exact absurd hchars.symm (map_digitChar_ne_plus digits' _)
    · exact ⟨rfl, (List.cons.inj hchars).2⟩
  obtain rfl := hsame.1
  obtain rfl := List.map_injective_iff.mpr digitChar_injective hsame.2
  rfl

/-- The value of a numeral grows digit by digit from the left. -/
theorem value_eq_foldl (a : Numeral) : a.value = a.digits.foldl (fun n d => 10 * n + d.val) 0 := by
  rw [value, Nat.ofDigits_eq_foldr, List.foldr_reverse, List.foldl_map]
  simp only [Nat.cast_id, Nat.add_comm]

/-- The digits of a numeral, read without a bound, give its value. -/
theorem digitsValue_digits (a : Numeral) :
    Double.digitsValue (a.digits.map digitChar) = a.value := by
  rw [value_eq_foldl, Double.digitsValue, List.foldl_map]
  simp only [toNat_digitChar]

end Numeral

namespace Word

/-- The product of two words, unless it would wrap. -/
def times? (x y : UInt64) : Option UInt64 :=
  if x.toBitVec.umulOverflow y.toBitVec then none else some (x * y)

/-- The sum of two words, unless it would wrap. -/
def plus? (x y : UInt64) : Option UInt64 :=
  if x.toBitVec.uaddOverflow y.toBitVec then none else some (x + y)

/-- A digit is put behind the number in a word, with a check of the product and of the sum. -/
def pushDigit? (word : UInt64) (d : Fin 10) : Option UInt64 :=
  (times? word 10).bind fun tens => plus? tens (UInt64.ofNat d)

/-- A result that is given up where it would wrap is the exact number. -/
theorem some_unless_wraps_iff {n : Nat} {result word : UInt64}
    (hresult : result.toNat = n % 2 ^ 64) :
    (if decide (2 ^ 64 ≤ n) then none else some result) = some word ↔ word.toNat = n := by
  by_cases hwraps : 2 ^ 64 ≤ n
  · have hword : word.toNat < 2 ^ 64 := word.toNat_lt
    rw [if_pos (decide_eq_true hwraps)]
    constructor
    · intro h
      cases h
    · intro h
      omega
  · rw [Nat.mod_eq_of_lt (not_le.mp hwraps)] at hresult
    rw [if_neg (by simpa using hwraps), Option.some_inj, ← UInt64.toNat_inj, hresult, eq_comm]

/-- A product of words is the exact one. -/
theorem times?_eq_some_iff {x y word : UInt64} :
    times? x y = some word ↔ word.toNat = x.toNat * y.toNat :=
  some_unless_wraps_iff (UInt64.toNat_mul x y)

/-- A sum of words is the exact one. -/
theorem plus?_eq_some_iff {x y word : UInt64} :
    plus? x y = some word ↔ word.toNat = x.toNat + y.toNat :=
  some_unless_wraps_iff (UInt64.toNat_add x y)

/-- A digit goes into a word exactly if the number with this digit behind it fits, and then it is
the number in the word. -/
theorem pushDigit?_eq_some_iff {word next : UInt64} {d : Fin 10} :
    pushDigit? word d = some next ↔ next.toNat = 10 * word.toNat + d := by
  have hd : (UInt64.ofNat d).toNat = d := UInt64.toNat_ofNat_of_lt' (d.isLt.trans (by decide))
  have hten : (10 : UInt64).toNat = 10 := rfl
  rw [pushDigit?, Option.bind_eq_some_iff]
  constructor
  · rintro ⟨tens, htens, hnext⟩
    rw [plus?_eq_some_iff.mp hnext, times?_eq_some_iff.mp htens, hd, hten, Nat.mul_comm]
  · intro h
    have htens : (word * 10).toNat = word.toNat * 10 := by
      rw [UInt64.toNat_mul, hten]
      have hnext : next.toNat < 2 ^ 64 := next.toNat_lt
      exact Nat.mod_eq_of_lt (by omega)
    refine ⟨word * 10, times?_eq_some_iff.mpr htens, plus?_eq_some_iff.mpr ?_⟩
    rw [h, htens, hd, Nat.mul_comm]

/-- Digits never make a number smaller. -/
theorem le_foldl_digits (digits : List (Fin 10)) (n : Nat) :
    n ≤ digits.foldl (fun n d => 10 * n + d.val) n := by
  induction digits generalizing n with
  | nil => exact Nat.le_refl n
  | cons d digits ih =>
    have hstep : n ≤ 10 * n + d.val := by omega
    exact hstep.trans (ih _)

/-- Digits go into a word exactly if the number with all of them behind it fits. A number that is
too large before its last digit is not made smaller by the digits to come. -/
theorem foldlM_pushDigit?_eq_some_iff {digits : List (Fin 10)} {word last : UInt64} :
    digits.foldlM pushDigit? word = some last ↔
      last.toNat = digits.foldl (fun n d => 10 * n + d.val) word.toNat := by
  induction digits generalizing word with
  | nil =>
    rw [List.foldlM_nil, List.foldl_nil, UInt64.toNat_inj, eq_comm]
    exact Option.some_inj
  | cons d digits ih =>
    rw [List.foldlM_cons, List.foldl_cons, Option.bind_eq_bind, Option.bind_eq_some_iff]
    constructor
    · rintro ⟨next, hnext, hlast⟩
      rw [ih.mp hlast, pushDigit?_eq_some_iff.mp hnext]
    · intro hlast
      -- The digits to come only make the number larger, so with the next one it fits as well.
      have hfits : 10 * word.toNat + d.val < 2 ^ 64 := by
        have hle := le_foldl_digits digits (10 * word.toNat + d.val)
        rw [← hlast] at hle
        exact hle.trans_lt last.toNat_lt
      have hnext : (UInt64.ofNat (10 * word.toNat + d.val)).toNat = 10 * word.toNat + d.val :=
        UInt64.toNat_ofNat_of_lt' hfits
      refine ⟨UInt64.ofNat (10 * word.toNat + d.val), pushDigit?_eq_some_iff.mpr hnext, ?_⟩
      rw [ih, hnext, hlast]

end Word

namespace Numeral

/-- The digits of a numeral go into a word, one after the other. -/
def word? (a : Numeral) : Option UInt64 := a.digits.foldlM Word.pushDigit? 0

/-- The digits of a numeral go into a word exactly if its value fits. -/
theorem word?_eq_some_iff {a : Numeral} {word : UInt64} :
    a.word? = some word ↔ word.toNat = a.value := by
  rw [word?, Word.foldlM_pushDigit?_eq_some_iff, value_eq_foldl, UInt64.toNat_zero]

end Numeral

namespace Path

/-- Read the digits of an index, behind the sign if there is one. -/
def digitsIndex? (cs : List Char) : Option Nat :=
  if !cs.isEmpty && cs.all Double.isDigit then
    if Double.digitsValue cs < 2 ^ 64 then some (Double.digitsValue cs) else none
  else none

/-- A plus sign in front is passed over. -/
theorem readIndex?_of_plus {segment : String} {cs : List Char} (h : segment.toList = '+' :: cs) :
    readIndex? segment = digitsIndex? cs := by
  rw [readIndex?, h]
  rfl

/-- Without a plus sign the digits are the whole segment. -/
theorem readIndex?_of_no_plus {segment : String} (h : ∀ cs, segment.toList ≠ '+' :: cs) :
    readIndex? segment = digitsIndex? segment.toList := by
  rw [readIndex?]
  split
  · exact absurd ‹_› (h _)
  · rfl

/-- The digits of a numeral are read as its value if that fits a word of 64 bits. -/
theorem digitsIndex?_digits (a : Numeral) :
    digitsIndex? (a.digits.map Numeral.digitChar) =
      if a.value < 2 ^ 64 then some a.value else none := by
  have hdigits : (a.digits.map Numeral.digitChar).all Double.isDigit = true :=
    Numeral.all_isDigit_iff.mpr ⟨a.digits, rfl⟩
  have hsome : (a.digits.map Numeral.digitChar).isEmpty = false := by
    rw [List.isEmpty_eq_false_iff, ne_eq, List.map_eq_nil_iff]
    exact a.digits_ne_nil
  rw [digitsIndex?, hsome, hdigits, a.digitsValue_digits]
  rfl

/-- What is read as the digits of an index are digits, one at least. -/
theorem exists_digits_of_digitsIndex? {cs : List Char} {n : Nat} (h : digitsIndex? cs = some n) :
    ∃ digits : List (Fin 10), digits ≠ [] ∧ digits.map Numeral.digitChar = cs := by
  rw [digitsIndex?, Option.ite_none_right_eq_some, Bool.and_eq_true, Bool.not_eq_true'] at h
  obtain ⟨⟨hsome, hdigits⟩, -⟩ := h
  obtain ⟨digits, rfl⟩ := Numeral.all_isDigit_iff.mp hdigits
  refine ⟨digits, ?_, rfl⟩
  rintro rfl
  cases hsome

/-- A numeral is read as its value if that fits a word of 64 bits. -/
theorem readIndex?_text (a : Numeral) :
    readIndex? a.text = if a.value < 2 ^ 64 then some a.value else none := by
  rw [← digitsIndex?_digits]
  have htext := a.toList_text
  cases hsigned : a.signed with
  | true =>
    rw [Numeral.mark, hsigned] at htext
    exact readIndex?_of_plus htext
  | false =>
    rw [Numeral.mark, hsigned] at htext
    have hplain : ∀ cs, a.text.toList ≠ '+' :: cs := by
      rw [htext]
      exact Numeral.map_digitChar_ne_plus a.digits
    rw [readIndex?_of_no_plus hplain, htext]
    rfl

/-- What is read as an index is a numeral. -/
theorem exists_text_eq_of_readIndex? {segment : String} {n : Nat}
    (h : readIndex? segment = some n) : ∃ a : Numeral, a.text = segment := by
  by_cases hplus : ∃ cs, segment.toList = '+' :: cs
  · obtain ⟨cs, hcs⟩ := hplus
    rw [readIndex?_of_plus hcs] at h
    obtain ⟨digits, hdigits, rfl⟩ := exists_digits_of_digitsIndex? h
    exact ⟨⟨true, digits, hdigits⟩, String.toList_inj.mp ((Numeral.toList_text _).trans hcs.symm)⟩
  · rw [readIndex?_of_no_plus (not_exists.mp hplus)] at h
    obtain ⟨digits, hdigits, hcs⟩ := exists_digits_of_digitsIndex? h
    exact ⟨⟨false, digits, hdigits⟩, String.toList_inj.mp ((Numeral.toList_text _).trans hcs)⟩

/-- What is read as an index are the numerals whose value fits a word of 64 bits. -/
theorem readIndex?_eq_some_iff {segment : String} {n : Nat} :
    readIndex? segment = some n ↔ (∃ a : Numeral, a.text = segment ∧ a.value = n) ∧ n < 2 ^ 64 := by
  constructor
  · intro h
    obtain ⟨a, rfl⟩ := exists_text_eq_of_readIndex? h
    rw [readIndex?_text, Option.ite_none_right_eq_some] at h
    obtain ⟨hfits, hn⟩ := h
    obtain rfl := Option.some_inj.mp hn
    exact ⟨⟨a, rfl, rfl⟩, hfits⟩
  · rintro ⟨⟨a, rfl, rfl⟩, hfits⟩
    rw [readIndex?_text, if_pos hfits]

/-- A numeral is read as its digits go into a word with a check of every step: what the word is too
small for is refused, and nothing wraps. -/
theorem readIndex?_text_eq_word? (a : Numeral) :
    readIndex? a.text = a.word?.map UInt64.toNat := by
  ext n
  rw [readIndex?_eq_some_iff, Option.map_eq_some_iff]
  constructor
  · rintro ⟨⟨b, hb, rfl⟩, hfits⟩
    obtain rfl := Numeral.text_injective hb
    have hword : (UInt64.ofNat b.value).toNat = b.value := UInt64.toNat_ofNat_of_lt' hfits
    exact ⟨UInt64.ofNat b.value, Numeral.word?_eq_some_iff.mpr hword, hword⟩
  · rintro ⟨word, hword, rfl⟩
    exact ⟨⟨a, rfl, (Numeral.word?_eq_some_iff.mp hword).symm⟩, word.toNat_lt⟩

variable {v w : Value} {items : List Value} {segment : String}

/-- A walk of one segment from a sequence takes the item whose index the segment is. -/
theorem walk_singleton_of_sequence (hv : v.untagged = .sequence items) (segment : String) :
    walk v [segment] =
      match (readIndex? segment).bind fun i => items[i]? with
      | some w => .found w
      | none => .invalidIndex segment := by
  rw [walk, hv]
  rfl

/-- A walk of one segment from a sequence finds an item exactly if the segment is its index. -/
theorem walk_eq_found_iff (hv : v.untagged = .sequence items) :
    walk v [segment] = .found w ↔ ((readIndex? segment).bind fun i => items[i]?) = some w := by
  rw [walk_singleton_of_sequence hv]
  cases (readIndex? segment).bind fun i => items[i]? <;> simp

/-- A walk of one segment from a sequence ends there exactly if the segment is the index of no
item. -/
theorem walk_eq_invalidIndex_iff (hv : v.untagged = .sequence items) :
    walk v [segment] = .invalidIndex segment ↔
      ((readIndex? segment).bind fun i => items[i]?) = none := by
  rw [walk_singleton_of_sequence hv]
  cases (readIndex? segment).bind fun i => items[i]? <;> simp

/-- A segment is the index of an item exactly if it is a numeral for the place of the item. Every
place in a sequence fits the word that an index is read into. -/
theorem item_eq_some_iff (hitems : items.length < 2 ^ 63) :
    ((readIndex? segment).bind fun i => items[i]?) = some w ↔
      ∃ (a : Numeral) (h : a.value < items.length), a.text = segment ∧ w = items[a.value] := by
  rw [Option.bind_eq_some_iff]
  constructor
  · rintro ⟨i, hi, hw⟩
    obtain ⟨⟨a, ha, rfl⟩, -⟩ := readIndex?_eq_some_iff.mp hi
    obtain ⟨h, rfl⟩ := List.getElem?_eq_some_iff.mp hw
    exact ⟨a, h, ha, rfl⟩
  · rintro ⟨a, h, rfl, rfl⟩
    have hfits : a.value < 2 ^ 64 := by omega
    exact ⟨a.value, readIndex?_eq_some_iff.mpr ⟨⟨a, rfl, rfl⟩, hfits⟩, List.getElem?_eq_getElem h⟩

/-- A segment is the index of no item exactly if it is a numeral for no place in the sequence. -/
theorem item_eq_none_iff (hitems : items.length < 2 ^ 63) :
    ((readIndex? segment).bind fun i => items[i]?) = none ↔
      ∀ a : Numeral, a.text = segment → items.length ≤ a.value := by
  rw [Option.eq_none_iff_forall_ne_some]
  constructor
  · intro hnone a ha
    by_contra h
    exact hnone _ ((item_eq_some_iff hitems).mpr ⟨a, not_le.mp h, ha, rfl⟩)
  · intro habsent w hw
    obtain ⟨a, h, ha, -⟩ := (item_eq_some_iff hitems).mp hw
    exact absurd h (not_lt.mpr (habsent a ha))

/-- From a sequence, a segment leads to the item at a place exactly if it is a numeral for this
place: one or more ASCII digits, which may stand behind a single plus sign, with this place as their
decimal value. With every other segment, also with a numeral for a number that is not below the
length, however large, the walk ends, and the outcome names the segment as it is. Nothing wraps on
the way: a numeral is read as its digits go into a word with a check of every step. -/
theorem numeral_leads_to_item {v : Value} {items : List Value} (hv : v.untagged = .sequence items)
    (hitems : items.length < 2 ^ 63) (segment : String) :
    (∀ w, walk v [segment] = .found w ↔
      ∃ (a : Numeral) (h : a.value < items.length), a.text = segment ∧ w = items[a.value]) ∧
    (walk v [segment] = .invalidIndex segment ↔
      ∀ a : Numeral, a.text = segment → items.length ≤ a.value) ∧
    ∀ a : Numeral, a.text = segment → readIndex? segment = a.word?.map UInt64.toNat := by
  refine ⟨fun w => ?_, ?_, ?_⟩
  · rw [← item_eq_some_iff hitems, walk_eq_found_iff hv]
  · rw [← item_eq_none_iff hitems, walk_eq_invalidIndex_iff hv]
  · rintro a rfl
    exact readIndex?_text_eq_word? a

/-- The ports of a service. -/
def servicePorts : List Value := [.number (.int 80), .null, .number (.int 443)]

/-- A numeral that comes to two if it is cut to 64 bits. -/
def pastTheWord : Numeral where
  signed := false
  digits := [1, 8, 4, 4, 6, 7, 4, 4, 0, 7, 3, 7, 0, 9, 5, 5, 1, 6, 1, 8]
  digits_ne_nil := by decide

/-- The third port is found by a numeral with a sign and leading zeros, and not by the numeral that
the word is too small for. -/
theorem servicePorts_third_found :
    (Value.tagged ⟨"Ports"⟩ (.sequence servicePorts)).untagged = .sequence servicePorts ∧
    servicePorts.length < 2 ^ 63 ∧ pastTheWord.value % 2 ^ 64 = 2 ∧
    walk (.tagged ⟨"Ports"⟩ (.sequence servicePorts)) ["+002"] = .found (.number (.int 443)) ∧
    walk (.tagged ⟨"Ports"⟩ (.sequence servicePorts)) ["18446744073709551618"] =
      .invalidIndex "18446744073709551618" := by
  have hv : (Value.tagged ⟨"Ports"⟩ (.sequence servicePorts)).untagged =
      .sequence servicePorts := rfl
  have hitems : servicePorts.length < 2 ^ 63 := by decide
  have htext : pastTheWord.text = "18446744073709551618" := by decide
  refine ⟨hv, hitems, by decide, ?_, ?_⟩
  · exact ((numeral_leads_to_item hv hitems "+002").1 _).mpr
      ⟨⟨true, [0, 0, 2], by decide⟩, by decide, by decide, rfl⟩
  · refine (numeral_leads_to_item hv hitems _).2.1.mpr fun a ha => ?_
    rw [Numeral.text_injective (ha.trans htext.symm)]
    decide

end Path

end ManifestRules
