import ManifestRules.Proofs.Quoting.Plain
import ManifestRules.Yaml.Scalar
/-!
# Gaps in quotes

What a reader of YAML knows of a gap depends on the characters of the gap only (`Gap.ofChars`). Of
the gaps in the quotes of JSON those are read as they are that are made of spaces, or of line breaks
that are not read as line feeds (`Gap.folded_ofChars_eq_iff`).
-/

namespace ManifestRules.Yaml

namespace Gap

/-- What a line break is read as. -/
def asBreak (ch : Char) : Char := if isKeptBreak ch then ch else '\n'

/-- The line breaks of a gap as they are read. -/
def breaksOf (gap : List Char) : List Char := (gap.filter fun ch => ch ≠ ' ').map asBreak

/-- What is known of a gap when it has been read. -/
def ofChars (gap : List Char) : Gap :=
  ⟨gap.takeWhile fun ch => ch = ' ', (breaksOf gap).take 1, (breaksOf gap).drop 1,
    !(breaksOf gap).isEmpty⟩

variable {gap : List Char} {ch : Char}

/-- There are no line breaks among spaces. -/
theorem breaksOf_eq_nil_iff : breaksOf gap = [] ↔ ∀ ch ∈ gap, ch = ' ' := by
  simp [breaksOf]

/-- A space breaks no line. -/
theorem breaksOf_concat_space (gap : List Char) : breaksOf (gap ++ [' ']) = breaksOf gap := by
  simp [breaksOf]

/-- Line breaks are read one behind the other. -/
theorem breaksOf_concat_break (hch : ch ≠ ' ') (gap : List Char) :
    breaksOf (gap ++ [ch]) = breaksOf gap ++ [asBreak ch] := by
  simp [breaksOf, hch]

/-- A gap without line breaks is read as it is. -/
theorem ofChars_of_spaces (h : ∀ ch ∈ gap, ch = ' ') : ofChars gap = ⟨gap, [], [], false⟩ := by
  have hspaces : (gap.takeWhile fun ch => ch = ' ') = gap :=
    List.takeWhile_eq_self_iff.mpr fun ch hch => decide_eq_true (h ch hch)
  rw [ofChars, breaksOf_eq_nil_iff.mpr h, hspaces]
  rfl

/-- In a gap with a line break the spaces in front of it are known. -/
theorem takeWhile_concat (h : breaksOf gap ≠ []) (ch : Char) :
    ((gap ++ [ch]).takeWhile fun ch => ch = ' ') = gap.takeWhile fun ch => ch = ' ' := by
  rw [List.takeWhile_append, if_neg]
  intro hlength
  have hall := List.takeWhile_eq_self_iff.mp ((List.takeWhile_prefix _).eq_of_length hlength)
  exact h (breaksOf_eq_nil_iff.mpr fun d hd => of_decide_eq_true (hall d hd))

/-- Behind a line break a space does not count. -/
theorem ofChars_concat_space (gap : List Char) : ofChars (gap ++ [' ']) =
    if (ofChars gap).broken then ofChars gap
    else { ofChars gap with spaces := (ofChars gap).spaces ++ [' '] } := by
  by_cases hbreaks : breaksOf gap = []
  · have hall := breaksOf_eq_nil_iff.mp hbreaks
    have hmore : ∀ ch ∈ gap ++ [' '], ch = ' ' :=
      List.forall_mem_append.mpr ⟨hall, List.forall_mem_singleton.mpr rfl⟩
    rw [ofChars_of_spaces hall, ofChars_of_spaces hmore]
    rfl
  · have hbroken : (ofChars gap).broken = true := by simp [ofChars, hbreaks]
    rw [if_pos hbroken, ofChars, takeWhile_concat hbreaks, breaksOf_concat_space, ofChars]

/-- The first line break is kept apart from the others. -/
theorem ofChars_concat_break (hch : ch ≠ ' ') (gap : List Char) : ofChars (gap ++ [ch]) =
    if (ofChars gap).broken then { ofChars gap with more := (ofChars gap).more ++ [asBreak ch] }
    else { ofChars gap with first := [asBreak ch], broken := true } := by
  by_cases hbreaks : breaksOf gap = []
  · have hall := breaksOf_eq_nil_iff.mp hbreaks
    have hspaces : ((gap ++ [ch]).takeWhile fun ch => ch = ' ') = gap := by
      rw [List.takeWhile_append_of_pos fun d hd => decide_eq_true (hall d hd)]
      simp [hch]
    rw [ofChars_of_spaces hall, ofChars, breaksOf_concat_break hch, hbreaks, hspaces]
    rfl
  · have hbroken : (ofChars gap).broken = true := by simp [ofChars, hbreaks]
    obtain ⟨b, bs, hcons⟩ := List.exists_cons_of_ne_nil hbreaks
    rw [if_pos hbroken, ofChars, takeWhile_concat hbreaks, breaksOf_concat_break hch, ofChars, hcons]
    rfl

variable {c : Cursor} {before behind : List Char} {fuel : Nat}

/-- A line break in quotes leads to the start of the next line. -/
theorem readBreak_of_isBareGap {rest : List Char} (hch : isBareGap ch = true) (hne : ch ≠ ' ')
    (hrest : c.rest = ch :: rest) :
    isSpace ch = false ∧ isBreak ch = true ∧
      ∃ c', c.readBreak = ([asBreak ch], c') ∧ c'.rest = rest ∧ c'.column = 0 := by
  simp only [isBareGap, isKeptBreak, Bool.or_eq_true, beq_iff_eq] at hch
  obtain (rfl | rfl) | rfl | rfl := hch
  · exact absurd rfl hne
  all_goals
    rw [Cursor.readBreak, hrest]
    exact ⟨rfl, rfl, _, rfl, rfl, rfl⟩

/-- A gap in quotes is read up to its end, which is at the start of a line if a line break is the
last thing in it. -/
theorem exists_read_ofChars (before : List Char) (hgap : ∀ ch ∈ gap, isBareGap ch = true)
    (hrest : c.rest = gap ++ behind)
    (hbehind : behind.head?.any isGap = false) (hfuel : gap.length < fuel) :
    ∃ c', Gap.read 0 fuel (ofChars before) c = .ok (ofChars (before ++ gap), c') ∧
      c'.rest = behind ∧ (c'.column = 0 ↔ gap.getLast?.elim (c.column = 0) (· ≠ ' ')) := by
  induction gap generalizing before c fuel with
  | nil =>
    obtain ⟨fuel, rfl⟩ : ∃ n, fuel = n + 1 := ⟨fuel - 1, by omega⟩
    have hpeek : isSpace c.peek = false ∧ isBreak c.peek = false := by
      rw [List.nil_append] at hrest
      rw [Cursor.peek, Cursor.peekAt, hrest]
      cases behind with
      | nil => exact ⟨rfl, rfl⟩
      | cons ch rest => exact Bool.or_eq_false_iff.mp hbehind
    refine ⟨c, ?_, hrest, Iff.rfl⟩
    rw [Gap.read, hpeek.1, hpeek.2, List.append_nil]
    rfl
  | cons ch gap ih =>
    obtain ⟨fuel, rfl⟩ : ∃ n, fuel = n + 1 := ⟨fuel - 1, by omega⟩
    have hpeek := Cursor.peek_of_cons hrest
    have hnext : ∀ c₁ : Cursor, c₁.rest = gap ++ behind → (c₁.column = 0 ↔ ch ≠ ' ') →
        ∃ c', Gap.read 0 fuel (ofChars (before ++ [ch])) c₁ =
            .ok (ofChars (before ++ ch :: gap), c') ∧
          c'.rest = behind ∧
          (c'.column = 0 ↔ (ch :: gap).getLast?.elim (c.column = 0) (· ≠ ' ')) := by
      intro c₁ hrest₁ hcolumn₁
      obtain ⟨c', hread, hrest', hcolumn⟩ :=
        ih (before ++ [ch]) (fun d hd => hgap d (List.mem_cons_of_mem _ hd)) hrest₁
          (Nat.lt_of_succ_lt_succ hfuel)
      refine ⟨c', by rw [hread, List.append_assoc]; rfl, hrest', hcolumn.trans ?_⟩
      cases hlast : gap.getLast? with
      | none => simp [List.getLast?_cons, hlast, hcolumn₁]
      | some last => simp [List.getLast?_cons, hlast]
    by_cases hch : ch = ' '
    · subst hch
      rw [Gap.read, hpeek, show isSpace ' ' = true from rfl, if_pos rfl,
        show (' ' == '\t') = false from rfl, Bool.and_false, Bool.false_and,
        if_neg Bool.false_ne_true]
      have hskip : (c.skip 1).rest = gap ++ behind := by
        rw [Cursor.skip, hrest]
        rfl
      obtain ⟨c', hread, hbehind⟩ := hnext (c.skip 1) hskip (by simp [Cursor.skip])
      refine ⟨c', ?_, hbehind⟩
      rw [← hread, ofChars_concat_space]
      split <;> rfl
    · obtain ⟨hspace, hbreak, c₁, hread₁, hrest₁, hcolumn₁⟩ :=
        readBreak_of_isBareGap (hgap ch List.mem_cons_self) hch hrest
      obtain ⟨c', hread, hbehind⟩ := hnext c₁ hrest₁ (by simp [hcolumn₁, hch])
      refine ⟨c', ?_, hbehind⟩
      rw [Gap.read, hpeek, hspace, if_neg Bool.false_ne_true, if_pos hbreak, hread₁, ← hread,
        ofChars_concat_break hch]
      dsimp only
      split <;> rfl

/-- A line break that is read as a line feed is not kept. -/
theorem folded_ofChars (gap : List Char) :
    (ofChars gap).folded =
      match breaksOf gap with
      | [] => gap
      | ['\n'] => [' ']
      | '\n' :: more => more
      | breaks => breaks := by
  cases hbreaks : breaksOf gap with
  | nil => rw [ofChars_of_spaces (breaksOf_eq_nil_iff.mp hbreaks)]; rfl
  | cons b bs =>
    rw [ofChars, hbreaks]
    by_cases hb : b = '\n'
    · subst hb
      cases bs <;> rfl
    · have hfirst : [b] ≠ ['\n'] := by simpa using hb
      simp [folded, hfirst, hb]

/-- There are no more line breaks in a gap than characters. -/
theorem length_breaksOf_le (gap : List Char) : (breaksOf gap).length ≤ gap.length := by
  rw [breaksOf, List.length_map]
  exact List.length_filter_le _ _

/-- A gap is read as one that is not longer. -/
theorem length_folded_le (gap : List Char) : (ofChars gap).folded.length ≤ gap.length := by
  have hle := length_breaksOf_le gap
  rw [folded_ofChars]
  split
  · exact Nat.le_refl _
  · rename_i h
    rw [h] at hle
    exact hle
  · rename_i h
    rw [h, List.length_cons] at hle
    omega
  · exact hle

/-- A gap is read as it is exactly if it is kept. -/
theorem folded_ofChars_eq_iff (hgap : ∀ ch ∈ gap, isBareGap ch = true) :
    (ofChars gap).folded = gap ↔ IsKept gap := by
  have hfeed : '\n' ∉ gap := fun h => absurd (hgap _ h) (by decide)
  constructor
  · intro h
    have hle := length_breaksOf_le gap
    rw [folded_ofChars] at h
    split at h
    · rename_i hbreaks
      exact .inl (breaksOf_eq_nil_iff.mp hbreaks)
    · rename_i hbreaks
      rw [← h] at hbreaks
      cases hbreaks
    · rename_i hbreaks
      rw [hbreaks, List.length_cons, h] at hle
      omega
    · refine .inr fun ch hch => ?_
      rw [← h] at hch
      obtain ⟨d, -, hd⟩ := List.mem_map.mp hch
      rw [asBreak] at hd
      split at hd
      · rwa [← hd]
      · exact absurd (by rwa [hd, ← h]) hfeed
  · rintro (hspaces | hall)
    · rw [ofChars_of_spaces hspaces]
      rfl
    · have hbreaks : breaksOf gap = gap := by
        have hfilter : (gap.filter fun ch => ch ≠ ' ') = gap := by
          refine List.filter_eq_self.mpr fun ch hch => decide_eq_true ?_
          rintro rfl
          exact absurd (hall _ hch) (by decide)
        rw [breaksOf, hfilter]
        exact (List.map_congr_left fun ch hch => if_pos (hall ch hch)).trans (List.map_id gap)
      rw [folded_ofChars, hbreaks]
      split
      · rfl
      · exact absurd List.mem_cons_self hfeed
      · exact absurd List.mem_cons_self hfeed
      · rfl

end Gap

end ManifestRules.Yaml
