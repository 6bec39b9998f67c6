import ManifestRules.Text.Blank
import Mathlib.Data.List.DropRight
import Mathlib.Data.List.TakeWhile
/-!
# Trimming

A text is what is left of it by trimming, with white space around. What is left neither begins nor
ends with white space, and this determines it (`Text.trim_eq_iff`).
-/

namespace ManifestRules.Text

/-- A text neither begins nor ends with white space. -/
structure IsTrimmed (s : List Char) : Prop where
  /-- It does not begin with white space. -/
  head : ∀ c, s.head? = some c → isBlank c = false
  /-- It does not end with white space. -/
  last : ∀ c, s.getLast? = some c → isBlank c = false

/-- A piece is a text with white space around it. -/
def Pads (piece s : List Char) : Prop :=
  ∃ before behind, piece = before ++ (s ++ behind) ∧ (∀ c ∈ before, isBlank c = true) ∧
    ∀ c ∈ behind, isBlank c = true

/-- Nothing is taken from the start of a text that does not begin with white space. -/
theorem dropWhile_isBlank_eq_self {s : List Char} (hs : ∀ c, s.head? = some c → isBlank c = false) :
    s.dropWhile isBlank = s := by
  cases s with
  | nil => rfl
  | cons c rest => rw [List.dropWhile_cons, hs c rfl, if_neg Bool.false_ne_true]

/-- What is left at the start of a text does not begin with white space. -/
theorem isBlank_of_head?_trimStart {s : List Char} {c : Char} (hc : (trimStart s).head? = some c) :
    isBlank c = false := by
  have hnot := List.head?_dropWhile_not isBlank s
  rw [trimStart] at hc
  rwa [hc] at hnot

/-- White space behind a text is trimmed together with what the text has at its end. -/
theorem trimEnd_append {s blank : List Char} (hblank : ∀ c ∈ blank, isBlank c = true) :
    trimEnd (s ++ blank) = trimEnd s := by
  have hreverse : ∀ c ∈ blank.reverse, isBlank c = true :=
    fun c hc => hblank c (List.mem_reverse.mp hc)
  rw [trimEnd, trimEnd, List.reverse_append, List.dropWhile_append_of_pos hreverse]

/-- White space behind a text is trimmed. -/
theorem trim_append {s blank : List Char} (hblank : ∀ c ∈ blank, isBlank c = true) :
    trim (s ++ blank) = trim s := by
  rw [trim, trim, trimStart, trimStart, List.dropWhile_append]
  by_cases hs : (List.dropWhile isBlank s).isEmpty
  · have hnone : List.dropWhile isBlank blank = [] := List.dropWhile_eq_nil_iff.mpr hblank
    rw [if_pos hs, List.isEmpty_iff.mp hs, hnone]
  · rw [if_neg hs, trimEnd_append hblank]

/-- A trimmed text does not end in white space. -/
theorem isBlank_of_getLast?_trimEnd {s : List Char} {c : Char}
    (hc : (trimEnd s).getLast? = some c) : isBlank c = false := by
  rw [trimEnd, List.getLast?_reverse] at hc
  exact isBlank_of_head?_trimStart hc

/-- The white space that is trimmed at the start stands before what is left. -/
theorem takeWhile_append_trimStart (s : List Char) : s.takeWhile isBlank ++ trimStart s = s :=
  List.takeWhile_append_dropWhile

/-- The white space that is trimmed at the end stands behind what is left. -/
theorem trimEnd_append_takeWhile (s : List Char) :
    trimEnd s ++ (s.reverse.takeWhile isBlank).reverse = s := by
  rw [trimEnd, ← List.reverse_append, List.takeWhile_append_dropWhile, List.reverse_reverse]

/-- White space before a text is trimmed. -/
theorem trim_blank_append {blank : List Char} (hblank : ∀ c ∈ blank, isBlank c = true)
    (s : List Char) : trim (blank ++ s) = trim s := by
  rw [trim, trim, trimStart, trimStart, List.dropWhile_append_of_pos hblank]

/-- A trimmed text is left as it is. -/
theorem IsTrimmed.trim_eq {s : List Char} (hs : IsTrimmed s) : trim s = s := by
  have hlast : ∀ c, s.reverse.head? = some c → isBlank c = false := by
    intro c hc
    exact hs.last c (List.head?_reverse ▸ hc)
  rw [trim, trimStart, dropWhile_isBlank_eq_self hs.head, trimEnd, dropWhile_isBlank_eq_self hlast,
    List.reverse_reverse]

/-- What is left of a text is trimmed. -/
theorem isTrimmed_trim (piece : List Char) : IsTrimmed (trim piece) := by
  refine ⟨?_, fun c hc => isBlank_of_getLast?_trimEnd hc⟩
  intro c hc
  refine isBlank_of_head?_trimStart (s := piece) ?_
  rw [← trimEnd_append_takeWhile (trimStart piece), List.head?_append, ← trim, hc, Option.some_or]

/-- A text is what is left of it with white space around. -/
theorem pads_trim (piece : List Char) : Pads piece (trim piece) := by
  refine ⟨piece.takeWhile isBlank, ((trimStart piece).reverse.takeWhile isBlank).reverse, ?_, ?_, ?_⟩
  · rw [trim, trimEnd_append_takeWhile, takeWhile_append_trimStart]
  · exact fun c hc => List.mem_takeWhile_imp hc
  · exact fun c hc => List.mem_takeWhile_imp (List.mem_reverse.mp hc)

/-- A piece is trimmed to a text if and only if the text is trimmed and the piece is it with white
space around. -/
theorem trim_eq_iff {piece s : List Char} : trim piece = s ↔ IsTrimmed s ∧ Pads piece s := by
  constructor
  · rintro rfl
    exact ⟨isTrimmed_trim piece, pads_trim piece⟩
  · rintro ⟨hs, before, behind, rfl, hbefore, hbehind⟩
    rw [trim_blank_append hbefore, trim_append hbehind, hs.trim_eq]

end ManifestRules.Text
