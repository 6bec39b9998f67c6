import ManifestRules.Json
import ManifestRules.Proofs.Quoting.Plain
import ManifestRules.Yaml.Scalar
import Mathlib.Tactic.SplitIfs
/-!
# Characters in quotes

In the quotes of JSON a character stands as it is or as an escape, and a reader of YAML finds the
same character in either case (`Scalar.readQuotedRun_flatMap`). It finds white space where it is in
the text, and the marker of a document where the text has one (`Scalar.atDocumentMarker_iff`).
-/

namespace ManifestRules.Yaml

namespace Scalar

open Json (quotedChar)

/-- The value of the digits that a control character is written with. -/
theorem hexNumber?_quoted {n : Nat} (hn : n < 0x20) :
    hexNumber? ['0', '0', Json.hexDigit (n / 16), Json.hexDigit (n % 16)] = some n := by
  have hall : ∀ n < 0x20,
      hexNumber? ['0', '0', Json.hexDigit (n / 16), Json.hexDigit (n % 16)] = some n := by decide
  exact hall n hn

/-- An escape is read as the character that it stands for. -/
structure IsEscapeOf (e : List Char) (c : Char) : Prop where
  /-- It starts with a backslash, which a line break does not follow. -/
  lead : ∃ letter more, e = '\\' :: letter :: more ∧ isBreak letter = false
  /-- It is read in front of any text. -/
  read : ∀ (p : Cursor) (behind : List Char), p.rest = e ++ behind →
    readEscape p = .ok (c, p.skip e.length)

/-- A letter that stands for a character is an escape behind a backslash. -/
theorem isEscapeOf_letter {letter c : Char} (hletter : shortEscape? letter = some c)
    (hbreak : isBreak letter = false) : IsEscapeOf ['\\', letter] c where
  lead := ⟨letter, [], rfl, hbreak⟩
  read := by
    intro p behind hrest
    have hpeek : p.peekAt 1 = letter := by
      rw [Cursor.peekAt, hrest]
      rfl
    rw [readEscape, hpeek, hletter]
    rfl

/-- The number of a control character is an escape. -/
theorem isEscapeOf_number {c : Char} (hc : c.toNat < 0x20) :
    IsEscapeOf
      ['\\', 'u', '0', '0', Json.hexDigit (c.toNat / 16), Json.hexDigit (c.toNat % 16)] c where
  lead := ⟨'u', _, rfl, rfl⟩
  read := by
    intro p behind hrest
    have hpeek : p.peekAt 1 = 'u' := by
      rw [Cursor.peekAt, hrest]
      rfl
    have hdigits : (p.rest.drop 2).take 4 =
        ['0', '0', Json.hexDigit (c.toNat / 16), Json.hexDigit (c.toNat % 16)] := by
      rw [hrest]
      rfl
    have hscalar : ¬ ((0xD800 ≤ c.toNat ∧ c.toNat ≤ 0xDFFF) ∨ 0x10FFFF < c.toNat) := by omega
    rw [readEscape, hpeek, show shortEscape? 'u' = none from rfl,
      show escapeWidth? 'u' = some 4 from rfl]
    dsimp only
    rw [hdigits, if_pos (show List.length _ = 4 from rfl), hexNumber?_quoted hc]
    dsimp only
    rw [if_neg hscalar, Char.ofNat_toNat]
    rfl

/-- A character is written as it is or as an escape. -/
theorem quotedChar_cases (c : Char) :
    quotedChar c = [c] ∧ 0x20 ≤ c.toNat ∧ c ≠ '"' ∧ c ≠ '\\' ∨
      isBareGap c = false ∧ IsEscapeOf (quotedChar c) c := by
  unfold quotedChar
  split_ifs with hquote hslash hb ht hn hf hr hcontrol
  any_goals
    subst c
    exact .inr ⟨rfl, isEscapeOf_letter rfl rfl⟩
  · refine .inr ⟨?_, isEscapeOf_number hcontrol⟩
    rw [← Bool.not_eq_true]
    intro hgap
    simp only [isBareGap, isKeptBreak, Bool.or_eq_true, beq_iff_eq] at hgap
    obtain (rfl | rfl) | rfl | rfl := hgap <;> exact absurd hcontrol (by decide)
  · exact .inl ⟨rfl, by omega, hquote, hslash⟩

/-- White space in quotes is written as it is. -/
theorem quotedChar_of_isBareGap {c : Char} (hc : isBareGap c = true) : quotedChar c = [c] := by
  obtain ⟨hself, -⟩ | ⟨hgap, -⟩ := quotedChar_cases c
  · exact hself
  · rw [hgap] at hc
    cases hc

/-- The gaps in a text that is written as it is are spaces and line breaks outside ASCII. -/
theorem isGapOrEnd_eq_isBareGap {c : Char} (hc : 0x20 ≤ c.toNat) : isGapOrEnd c = isBareGap c := by
  have hne : ∀ d : Char, d.toNat < 0x20 → (c == d) = false := by
    intro d hd
    rw [beq_eq_false_iff_ne]
    rintro rfl
    omega
  simp only [isGapOrEnd, isSpace, isBreakOrEnd, isBreak, endMark, isBareGap, isKeptBreak,
    hne '\t' (by decide), hne '\n' (by decide), hne '\r' (by decide), hne '\x00' (by decide),
    Bool.or_false, Bool.false_or, Bool.or_assoc]

variable {acc : List Char} {c c' : Cursor} {fuel : Nat}

/-- A character outside gaps is read from what it is written as. -/
theorem readQuotedRun_quotedChar {ch : Char} {behind : List Char} (hch : isBareGap ch = false)
    (hrest : c.rest = quotedChar ch ++ behind) :
    readQuotedRun false (fuel + 1) acc c =
      readQuotedRun false fuel (ch :: acc) (c.skip (quotedChar ch).length) := by
  rw [readQuotedRun]
  obtain ⟨hself, hprintable, hquote, hslash⟩ | ⟨-, hescape⟩ := quotedChar_cases ch
  · have hpeek : c.peek = ch := by
      rw [Cursor.peek, Cursor.peekAt, hrest, hself]
      rfl
    rw [hpeek, isGapOrEnd_eq_isBareGap hprintable, hch, hself]
    simp [hquote, hslash]
  · obtain ⟨letter, more, hwritten, hbreak⟩ := hescape.lead
    have hpeek : c.peek = '\\' := by
      rw [Cursor.peek, Cursor.peekAt, hrest, hwritten]
      rfl
    have hnext : c.peekAt 1 = letter := by
      rw [Cursor.peekAt, hrest, hwritten]
      rfl
    rw [hpeek, hnext, hbreak, hescape.read c behind hrest]
    rfl

/-- Characters outside gaps are read up to the next gap or quote. -/
theorem readQuotedRun_flatMap {run behind : List Char} (acc : List Char)
    (hrun : ∀ ch ∈ run, isBareGap ch = false)
    (hrest : c.rest = run.flatMap quotedChar ++ behind)
    (hbehind : ∃ first tail, behind = first :: tail ∧ (isBareGap first = true ∨ first = '"'))
    (hfuel : run.length < fuel) :
    ∃ c', readQuotedRun false fuel acc c = .ok (run.reverse ++ acc, c', false) ∧
      c'.rest = behind := by
  induction run generalizing acc c fuel with
  | nil =>
    obtain ⟨fuel, rfl⟩ : ∃ n, fuel = n + 1 := ⟨fuel - 1, by omega⟩
    refine ⟨c, ?_, hrest⟩
    obtain ⟨first, tail, rfl, hstop⟩ := hbehind
    have hpeek := Cursor.peek_of_cons hrest
    rw [readQuotedRun, hpeek]
    obtain hgap | rfl := hstop
    · rw [isGapOrEnd_eq, isGap_of_isBareGap hgap]
      rfl
    · rfl
  | cons ch run ih =>
    obtain ⟨fuel, rfl⟩ : ∃ n, fuel = n + 1 := ⟨fuel - 1, by omega⟩
    rw [List.flatMap_cons, List.append_assoc] at hrest
    rw [readQuotedRun_quotedChar (hrun ch List.mem_cons_self) hrest, List.reverse_cons,
      List.append_assoc]
    refine ih _ (fun d hd => hrun d (List.mem_cons_of_mem _ hd)) ?_ (Nat.lt_of_succ_lt_succ hfuel)
    change c.rest.drop _ = _
    rw [hrest, List.drop_left]

/-- Text in quotes up to the closing one, and what is behind it. -/
def quotedRest (s behind : List Char) : List Char := s.flatMap quotedChar ++ '"' :: behind

variable {s behind : List Char}

/-- Text in quotes goes on with its next character. -/
theorem quotedRest_cons (ch : Char) :
    quotedRest (ch :: s) behind = quotedChar ch ++ quotedRest s behind := by
  rw [quotedRest, List.flatMap_cons, List.append_assoc]
  rfl

/-- A character in front of the reader, other than a quote or a backslash, is one of the text. -/
theorem exists_cons_of_quotedRest {p : Char → Bool} (hquote : p '"' = false) (hslash : p '\\' = false)
    (hp : p ((quotedRest s behind).getD 0 endMark) = true) :
    ∃ ch more, s = ch :: more ∧ 0x20 ≤ ch.toNat ∧ p ch = true ∧
      quotedRest s behind = ch :: quotedRest more behind := by
  cases s with
  | nil =>
    rw [show (quotedRest [] behind).getD 0 endMark = '"' from rfl, hquote] at hp
    cases hp
  | cons ch more =>
    rw [quotedRest_cons] at hp ⊢
    obtain ⟨hself, hprintable, -, -⟩ | ⟨-, hescape⟩ := quotedChar_cases ch
    · rw [hself] at hp ⊢
      exact ⟨ch, more, rfl, hprintable, hp, rfl⟩
    · obtain ⟨letter, tail, hwritten, -⟩ := hescape.lead
      rw [hwritten, List.cons_append, List.getD_cons_zero, hslash] at hp
      cases hp

/-- The end of a gap is not a gap. -/
theorem isGap_head?_quotedRest (hs : s.head?.any isBareGap = false) :
    (quotedRest s behind).head?.any isGap = false := by
  rw [← Bool.not_eq_true]
  intro hgap
  have hhead : isGap ((quotedRest s behind).getD 0 endMark) = true := by
    cases hrest : quotedRest s behind with
    | nil =>
      rw [hrest] at hgap
      cases hgap
    | cons ch tail => simpa [hrest] using hgap
  obtain ⟨ch, more, rfl, hprintable, hch, -⟩ := exists_cons_of_quotedRest rfl rfl hhead
  have hbare : isGapOrEnd ch = isBareGap ch := isGapOrEnd_eq_isBareGap hprintable
  rw [isGapOrEnd_eq, hch, Bool.true_or] at hbare
  rw [List.head?_cons, Option.any_some, ← hbare] at hs
  cases hs

/-- In quotes a marker of a document is one in the text. -/
theorem atMarker_iff {m : Char} (hm : m = '-' ∨ m = '.') (hrest : c.rest = quotedRest s behind) :
    c.atMarker m = true ↔
      c.column = 0 ∧ ∃ g rest, isBareGap g = true ∧ s = m :: m :: m :: g :: rest := by
  have hquote : ('"' == m) = false ∧ ('\\' == m) = false ∧ quotedChar m = [m] := by
    obtain rfl | rfl := hm <;> decide
  simp only [Cursor.atMarker, Cursor.peekAt, hrest, Bool.and_eq_true, beq_iff_eq]
  constructor
  · rintro ⟨⟨⟨⟨hcolumn, h0⟩, h1⟩, h2⟩, h3⟩
    have hnext : ∀ t : List Char, (quotedRest t behind).getD 0 endMark = m →
        ∃ more, t = m :: more ∧ quotedRest t behind = m :: quotedRest more behind := by
      intro t ht
      obtain ⟨ch, more, hcons, -, hch, hquoted⟩ :=
        exists_cons_of_quotedRest (p := (· == m)) hquote.1 hquote.2.1 (beq_iff_eq.mpr ht)
      rw [beq_iff_eq] at hch
      rw [hch] at hcons hquoted
      exact ⟨more, hcons, hquoted⟩
    obtain ⟨s₁, rfl, hs⟩ := hnext s h0
    rw [hs] at h1 h2 h3
    obtain ⟨s₂, rfl, hs⟩ := hnext s₁ h1
    rw [hs] at h2 h3
    obtain ⟨s₃, rfl, hs⟩ := hnext s₂ h2
    rw [hs] at h3
    obtain ⟨g, rest, rfl, hprintable, hg, -⟩ :=
      exists_cons_of_quotedRest (p := isGapOrEnd) rfl rfl h3
    rw [isGapOrEnd_eq_isBareGap hprintable] at hg
    exact ⟨hcolumn, g, rest, hg, rfl⟩
  · rintro ⟨hcolumn, g, rest, hg, rfl⟩
    have hend : isGapOrEnd g = true := by
      rw [isGapOrEnd_eq, isGap_of_isBareGap hg, Bool.true_or]
    simp [quotedRest_cons, hquote.2.2, quotedChar_of_isBareGap hg, hcolumn, hend]

/-- A reader in quotes is in front of a marker of a document if it is in front of one in the text. -/
theorem atDocumentMarker_iff (hrest : c.rest = quotedRest s behind) :
    c.atDocumentMarker = true ↔ c.column = 0 ∧ StartsMarker s := by
  rw [Cursor.atDocumentMarker, Bool.or_eq_true, atMarker_iff (.inl rfl) hrest,
    atMarker_iff (.inr rfl) hrest]
  constructor
  · rintro (⟨hcolumn, g, rest, hg, hs⟩ | ⟨hcolumn, g, rest, hg, hs⟩)
    · exact ⟨hcolumn, '-', g, rest, .inl rfl, hg, hs⟩
    · exact ⟨hcolumn, '.', g, rest, .inr rfl, hg, hs⟩
  · rintro ⟨hcolumn, m, g, rest, rfl | rfl, hg, hs⟩
    · exact .inl ⟨hcolumn, g, rest, hg, hs⟩
    · exact .inr ⟨hcolumn, g, rest, hg, hs⟩

end Scalar

end ManifestRules.Yaml
