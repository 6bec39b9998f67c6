import ManifestRules.Proofs.Slack.Cursor
import ManifestRules.Yaml.Scalar
/-!
# Scalars in a text with white space around it

A quoted scalar ends in the text or not at all. A plain scalar ends before the white space behind
the text, which can only make a difference to the place where reading goes on. A block scalar may
take white space behind the text along, and then it ends in white space.
-/

namespace ManifestRules.Yaml

open Cursor (Padded)

variable {o : Frame} {n f k : Nat} {c b c' : Cursor}

namespace Gap

variable {limit : Nat} {g g' : Gap}

/-- The gap with a space or a tab behind it. -/
def addSpace (g : Gap) (ch : Char) : Gap :=
  if g.broken then g else { g with spaces := g.spaces ++ [ch] }

/-- The gap with a line break behind it. -/
def addBreak (g : Gap) (br : List Char) : Gap :=
  if g.broken then { g with more := g.more ++ br } else { g with first := br, broken := true }

/-- A space or a tab belongs to the gap, unless it is a tab in the indentation. -/
theorem read_of_isSpace (hc : isSpace c.peek = true) :
    read limit (f + 1) g c =
      if g.broken && c.peek == '\t' && c.column < limit then
        .error (c.fault "found a tab character that violates indentation")
      else read limit f (g.addSpace c.peek) (c.skip 1) := by
  rw [read, addSpace]
  simp only [hc, if_true]
  split
  · rfl
  · split <;> rfl

/-- A line break belongs to the gap. -/
theorem read_of_isBreak (hspace : isSpace c.peek = false) (hbreak : isBreak c.peek = true) :
    read limit (f + 1) g c = read limit f (g.addBreak c.readBreak.1) c.readBreak.2 := by
  rw [read, addBreak]
  simp only [hspace, hbreak, Bool.false_eq_true, if_false, if_true]
  split <;> rfl

/-- Another character ends the gap. -/
theorem read_of_not_isGap (hc : isGap c.peek = false) : read limit (f + 1) g c = .ok (g, c) := by
  obtain ⟨hspace, hbreak⟩ := Bool.or_eq_false_iff.mp hc
  rw [read]
  simp only [hspace, hbreak, Bool.false_eq_true, if_false]

/-- Behind the text all white space may be read. -/
theorem padded_of_read (h : c.Padded o n b) (hnil : b.rest = [])
    (hread : read limit f g c = .ok (g', c')) : c'.Padded o n b := by
  induction f generalizing g c with
  | zero =>
    cases hread
    exact h
  | succ f ih =>
    cases hspace : isSpace c.peek with
    | true =>
      rw [read_of_isSpace hspace] at hread
      split at hread
      · cases hread
      · exact ih (h.past_skip hnil 1) hread
    | false =>
      cases hbreak : isBreak c.peek with
      | true =>
        rw [read_of_isBreak hspace hbreak] at hread
        exact ih (h.past_readBreak hnil) hread
      | false =>
        rw [read_of_not_isGap (Bool.or_eq_false_iff.mpr ⟨hspace, hbreak⟩)] at hread
        cases hread
        exact h

/-- In the text a gap is read alike, and something comes behind it. -/
theorem exists_read (h : c.Padded o n b) (hne : b.rest ≠ []) (hk : n < k) (hkf : k ≤ f)
    (hread : read limit f g c = .ok (g', c')) :
    ∃ b', read limit k g b = .ok (g', b') ∧ c'.Padded o n b' ∧ b'.rest ≠ [] ∧
      (isGap b.peek = true → c'.Padded o (n - 1) b') := by
  induction k generalizing n f g c b with
  | zero => exact absurd hk (Nat.not_lt_zero n)
  | succ k ih =>
    obtain ⟨f, rfl⟩ : ∃ m, f = m + 1 := ⟨f - 1, by omega⟩
    have hn := h.pos hne
    have hpeek := h.peek_eq hne
    have hcolumn := (h.here hne).2.1
    cases hspace : isSpace b.peek with
    | true =>
      have hgap : isGap b.peek = true := by rw [isGap, hspace, Bool.true_or]
      have hmore := h.skip_lt hgap
      rw [read_of_isSpace (by rwa [hpeek]), hpeek, hcolumn] at hread
      rw [read_of_isSpace hspace]
      split at hread
      · cases hread
      · rename_i htab
        obtain ⟨b', hb, hpadded, hbne, -⟩ := ih (h.skip 1) hmore (by omega) (by omega) hread
        rw [if_neg htab]
        exact ⟨b', hb, hpadded.mono (hpadded.within.trans (Nat.sub_le n 1)), hbne, fun _ => hpadded⟩
    | false =>
      cases hbreak : isBreak b.peek with
      | true =>
        obtain ⟨hmore, hlater⟩ := h.readBreak_lt hbreak
        rw [read_of_isBreak (by rwa [hpeek]) (by rwa [hpeek]), (h.readBreak hne).1] at hread
        rw [read_of_isBreak hspace hbreak]
        obtain ⟨b', hb, hpadded, hbne, -⟩ := ih hlater hmore (by omega) (by omega) hread
        exact ⟨b', hb, hpadded.mono (hpadded.within.trans (Nat.sub_le n 1)), hbne, fun _ => hpadded⟩
      | false =>
        have hgap : isGap b.peek = false := Bool.or_eq_false_iff.mpr ⟨hspace, hbreak⟩
        rw [read_of_not_isGap (by rwa [hpeek])] at hread
        cases hread
        rw [read_of_not_isGap hgap]
        exact ⟨b, rfl, h, hne, by simp [hgap]⟩

end Gap

namespace Scalar

variable {single : Bool} {acc acc' : List Char}

/-- What is no hexadecimal digit has no value as one. -/
theorem blind_hexValue : Blind hexValue? := by decide

/-- Hexadecimal digits are no white space. -/
theorem isGap_of_hexNumber {ds : List Char} {number : Nat} (hds : hexNumber? ds = some number) :
    ∀ d ∈ ds, isGap d = false := by
  have hdigits : ∀ (ds : List Char) (start? : Option Nat), (ds.foldl (fun n? d =>
      n?.bind fun n => (hexValue? d).map fun v => 16 * n + v) start?).isSome →
      start?.isSome ∧ ∀ d ∈ ds, isGap d = false := by
    intro ds
    induction ds with
    | nil =>
      intro start? hstart
      exact ⟨hstart, by simp⟩
    | cons d ds ih =>
      intro start? hstart
      obtain ⟨hfirst, hrest⟩ := ih _ hstart
      cases start? with
      | none => cases hfirst
      | some start =>
        refine ⟨rfl, List.forall_mem_cons.mpr ⟨?_, hrest⟩⟩
        cases hgap : isGap d with
        | false => rfl
        | true =>
          simp only [blind_hexValue d hgap] at hfirst
          cases hfirst
  exact (hdigits ds (some 0) (by rw [← hexNumber?, hds]; rfl)).2

/-- An escape sequence is read alike if the character behind its backslash is in the text. -/
theorem exists_readEscape (h : c.Padded o n b) (hlong : 1 < b.rest.length) {ch : Char}
    (hread : readEscape c = .ok (ch, c')) :
    ∃ b', readEscape b = .ok (ch, b') ∧ c'.Padded o (n - 1) b' := by
  have hnext := h.peekAt_eq hlong
  have hless : ∀ j, c.skip (2 + j) |>.Padded o (n - 1) (b.skip (2 + j)) := by
    intro j
    have hskip := h.skip (2 + j)
    exact hskip.mono (hskip.within.trans (by omega))
  rw [readEscape, hnext] at hread
  rw [readEscape]
  cases hshort : shortEscape? (b.peekAt 1) with
  | some e =>
    rw [hshort] at hread
    cases hread
    exact ⟨_, rfl, hless 0⟩
  | none =>
    cases hwidth : escapeWidth? (b.peekAt 1) with
    | none =>
      rw [hshort, hwidth] at hread
      cases hread
    | some width =>
      simp only [hshort, hwidth] at hread ⊢
      cases hnumber : (if ((c.rest.drop 2).take width).length = width then
          hexNumber? ((c.rest.drop 2).take width) else none) with
      | none =>
        rw [hnumber] at hread
        cases hread
      | some number =>
        have hdigits : hexNumber? ((c.rest.drop 2).take width) = some number := by
          split at hnumber
          · exact hnumber
          · cases hnumber
        rw [h.take_drop_eq (isGap_of_hexNumber hdigits)] at hnumber
        rw [hnumber]
        rw [h.take_drop_eq (isGap_of_hexNumber hdigits), hnumber] at hread
        dsimp only at hread ⊢
        split at hread
        · cases hread
        · rename_i hcode
          cases hread
          rw [if_neg hcode]
          exact ⟨_, rfl, hless width⟩

/-- Reading an escape sequence moves over its backslash and more. -/
theorem exists_skip_of_readEscape {ch : Char} (hread : readEscape c = .ok (ch, c')) :
    ∃ j, c' = (c.skip 1).skip j := by
  have hskip : ∀ j, c.skip (2 + j) = (c.skip 1).skip (1 + j) := by
    intro j
    rw [Cursor.skip_skip, ← Nat.add_assoc]
  rw [readEscape] at hread
  split at hread
  · cases hread
    exact ⟨1, hskip 0⟩
  · split at hread
    · cases hread
    · dsimp only at hread
      split at hread
      · cases hread
      · split at hread
        · cases hread
        · cases hread
          exact ⟨_, hskip _⟩

/-- The end of a run is at the first gap. -/
theorem readQuotedRun_of_isGapOrEnd (hc : isGapOrEnd c.peek = true) :
    readQuotedRun single f acc c = .ok (acc, c, false) := by
  cases f with
  | zero => rfl
  | succ f => rw [readQuotedRun]; simp only [hc, if_true]

/-- The quote that ends a scalar. -/
def quote (single : Bool) : Char := if single then '\'' else '"'

/-- Inside a run there are doubled quotes, escapes and other characters. -/
theorem readQuotedRun_of_not_isGapOrEnd (hc : isGapOrEnd c.peek = false) :
    readQuotedRun single (f + 1) acc c =
      if single && c.peek == '\'' && c.peekAt 1 == '\'' then
        readQuotedRun single f ('\'' :: acc) (c.skip 2)
      else if c.peek == quote single then .ok (acc, c, false)
      else if !single && c.peek == '\\' then
        if isBreak (c.peekAt 1) then .ok (acc, (c.skip 1).skipBreak, true)
        else
          match readEscape c with
          | .ok (e, c') => readQuotedRun single f (e :: acc) c'
          | .error fault => .error fault
      else readQuotedRun single f (c.peek :: acc) (c.skip 1) := by
  rw [readQuotedRun]
  simp only [hc, Bool.false_eq_true, if_false]
  rfl

/-- If a backslash is the last character of the text, then a run that goes on behind it ends in the
white space there. -/
theorem exists_padded_of_escape (h : c.Padded o n b) (hlast : (b.skip 1).rest = [])
    {escaped : Bool}
    (hread : (if isBreak (c.peekAt 1) then .ok (acc, (c.skip 1).skipBreak, true)
      else
        match readEscape c with
        | .ok (e, c') => readQuotedRun single f (e :: acc) c'
        | .error fault => .error fault) = .ok (acc', c', escaped)) :
    ∃ b', b'.rest = [] ∧ c'.Padded o n b' := by
  have h₁ := h.skip_le 1
  split at hread
  · cases hread
    exact ⟨b.skip 1, hlast, h₁.past_readBreak hlast⟩
  · cases hescape : readEscape c with
    | error fault =>
      rw [hescape] at hread
      cases hread
    | ok p =>
      obtain ⟨e, c₂⟩ := p
      obtain ⟨j, rfl⟩ := exists_skip_of_readEscape hescape
      have h₂ := h₁.past_skip hlast j
      rw [hescape] at hread
      dsimp only at hread
      rw [readQuotedRun_of_isGapOrEnd (h₂.isGapOrEnd_peek hlast)] at hread
      cases hread
      exact ⟨b.skip 1, hlast, h₂⟩

/-- A run that was read up to a place in the text with white space is read in the text itself as
well. Nothing is read of it only where a gap or the quote comes next. Or the text ends in the run. -/
def ReadsRun (o : Frame) (n : Nat) (single : Bool) (b : Cursor)
    (r' : Except Fault (List Char × Cursor × Bool)) (acc' : List Char) (c' : Cursor)
    (escaped : Bool) : Prop :=
  (∃ b', r' = .ok (acc', b', escaped) ∧ c'.Padded o n b' ∧
    (b' = b ∧ (isGapOrEnd b.peek = true ∨ b.peek = quote single) ∨
      c'.Padded o (n - 1) b')) ∨
    ∃ b', b'.rest = [] ∧ c'.Padded o n b'

/-- What comes behind a character of a run is part of the run. -/
theorem ReadsRun.of_later {b₁ : Cursor} {r' : Except Fault (List Char × Cursor × Bool)}
    {escaped : Bool} (h : ReadsRun o (n - 1) single b₁ r' acc' c' escaped) :
    ReadsRun o n single b r' acc' c' escaped := by
  obtain ⟨b', hb, hpadded, -⟩ | ⟨b', hnil, hpadded⟩ := h
  · exact .inl ⟨b', hb, hpadded.mono (hpadded.within.trans (Nat.sub_le n 1)), .inr hpadded⟩
  · exact .inr ⟨b', hnil, hpadded.mono (hpadded.within.trans (Nat.sub_le n 1))⟩

/-- An escape is read alike, and so is what comes behind it. -/
theorem readsRun_of_escape (h : c.Padded o n b) {escaped : Bool}
    (hread : (if isBreak (c.peekAt 1) then .ok (acc, (c.skip 1).skipBreak, true)
      else
        match readEscape c with
        | .ok (e, c') => readQuotedRun single f (e :: acc) c'
        | .error fault => .error fault) = .ok (acc', c', escaped))
    (hlater : ∀ {acc₁ c₁ b₁}, c₁.Padded o (n - 1) b₁ →
      readQuotedRun single f acc₁ c₁ = .ok (acc', c', escaped) →
      ReadsRun o (n - 1) single b₁ (readQuotedRun single k acc₁ b₁) acc' c' escaped) :
    ReadsRun o n single b (if isBreak (b.peekAt 1) then .ok (acc, (b.skip 1).skipBreak, true)
      else
        match readEscape b with
        | .ok (e, b') => readQuotedRun single k (e :: acc) b'
        | .error fault => .error fault) acc' c' escaped := by
  by_cases hlast : (b.skip 1).rest = []
  · exact .inr (exists_padded_of_escape h hlast hread)
  have hlong : 1 < b.rest.length := by
    by_contra hshort
    exact hlast (List.drop_eq_nil_of_le (by omega))
  rw [h.peekAt_eq hlong] at hread
  split at hread
  · rename_i hbreak
    have hbehind := (h.skip 1).skipBreak
    rw [if_pos hbreak]
    cases hread
    exact .inl ⟨_, rfl, hbehind.mono (hbehind.within.trans (Nat.sub_le n 1)), .inr hbehind⟩
  · rename_i hbreak
    rw [if_neg hbreak]
    cases hescape : readEscape c with
    | error fault =>
      rw [hescape] at hread
      cases hread
    | ok p =>
      obtain ⟨e, c₂⟩ := p
      obtain ⟨b₂, hb₂, h₂⟩ := exists_readEscape h hlong hescape
      rw [hescape] at hread
      rw [hb₂]
      exact (hlater h₂ hread).of_later

/-- A run of a quoted scalar is read alike, unless the text ends in it. -/
theorem readsRun_readQuotedRun (h : c.Padded o n b) (hk : n < k) (hkf : k ≤ f)
    {escaped : Bool} (hread : readQuotedRun single f acc c = .ok (acc', c', escaped)) :
    ReadsRun o n single b (readQuotedRun single k acc b) acc' c' escaped := by
  induction k generalizing n f acc c b with
  | zero => exact absurd hk (Nat.not_lt_zero n)
  | succ k ih =>
    obtain ⟨f, rfl⟩ : ∃ m, f = m + 1 := ⟨f - 1, by omega⟩
    have hblind : isGapOrEnd c.peek = isGapOrEnd b.peek := h.peek_blind (by decide)
    cases hend : isGapOrEnd b.peek with
    | true =>
      rw [readQuotedRun_of_isGapOrEnd (hblind.trans hend)] at hread
      cases hread
      exact .inl ⟨b, readQuotedRun_of_isGapOrEnd hend, h, .inl ⟨rfl, .inl hend⟩⟩
    | false =>
      have hne := Cursor.Padded.rest_ne_nil_of_not_end hend
      have hn := h.pos hne
      have hnext : (c.peekAt 1 == '\'') = (b.peekAt 1 == '\'') :=
        h.peekAt_blind (p := (· == '\'')) (by decide) 1
      -- Behind every character that is read the bound is smaller.
      have hlater : ∀ {acc₁ : List Char} {c₁ b₁ : Cursor}, c₁.Padded o (n - 1) b₁ →
          readQuotedRun single f acc₁ c₁ = .ok (acc', c', escaped) →
          ReadsRun o (n - 1) single b₁ (readQuotedRun single k acc₁ b₁) acc' c' escaped :=
        fun h₁ hread₁ => ih h₁ (by omega) (by omega) hread₁
      rw [readQuotedRun_of_not_isGapOrEnd (hblind.trans hend), h.peek_eq hne, hnext] at hread
      rw [readQuotedRun_of_not_isGapOrEnd hend]
      split at hread
      · rename_i hpair
        rw [if_pos hpair]
        exact (hlater ((h.skip 2).mono ((h.skip 2).within.trans (by omega))) hread).of_later
      · rename_i hpair
        rw [if_neg hpair]
        split at hread
        · rename_i hquote
          rw [if_pos hquote]
          cases hread
          exact .inl ⟨b, rfl, h, .inl ⟨rfl, .inr (by simpa using hquote)⟩⟩
        · rename_i hquote
          rw [if_neg hquote]
          split at hread
          · rename_i hslash
            rw [if_pos hslash]
            exact readsRun_of_escape h hread hlater
          · rename_i hslash
            rw [if_neg hslash]
            exact (hlater (h.skip 1) hread).of_later

/-- What comes behind a run: the quote that ends the scalar, or a gap and the next run. -/
def readBehindRun (single : Bool) (f : Nat) :
    List Char × Cursor × Bool → Except Fault (List Char × Cursor) :=
  fun (acc, c, escaped) =>
    if c.peek == quote single then pure (acc, c.skip 1)
    else
      Gap.read 0 (f + 1) (if escaped then Gap.afterEscapedBreak else Gap.empty) c >>=
        fun (gap, c) => readQuotedRuns single f (gap.folded.reverse ++ acc) c

/-- A quoted scalar is read run by run and gap by gap. -/
theorem readQuotedRuns_succ :
    readQuotedRuns single (f + 1) acc c =
      if c.atDocumentMarker then .error (c.fault "found unexpected document indicator")
      else if c.atEnd then .error (c.fault "found unexpected end of stream")
      else readQuotedRun single (f + 1) acc c >>= readBehindRun single f :=
  rfl

/-- Neither white space nor the end is a quote. -/
theorem blind_quote (single : Bool) : Blind fun ch => ch == quote single := by
  cases single <;> decide

/-- Behind the text there is no quote to end a scalar, so it takes another run. -/
theorem readBehindRun_ne_ok (h : c.Padded o n b) (hnil : b.rest = []) {escaped : Bool}
    (hruns : ∀ {acc c}, c.Padded o n b → readQuotedRuns single f acc c ≠ .ok (acc', c')) :
    readBehindRun single f (acc, c, escaped) ≠ .ok (acc', c') := by
  have hquote : (c.peek == quote single) = false := by
    rw [h.peek_blind (blind_quote single), Cursor.peek, Cursor.peekAt, hnil]
    cases single <;> rfl
  rw [readBehindRun]
  dsimp only
  rw [hquote, if_neg Bool.false_ne_true]
  cases hgap : Gap.read 0 (f + 1) (if escaped then Gap.afterEscapedBreak else Gap.empty) c with
  | error fault => exact fun hread => by cases hread
  | ok p => exact hruns (Gap.padded_of_read h hnil hgap)

/-- Behind the text no quoted scalar ends. -/
theorem readQuotedRuns_ne_ok (h : c.Padded o n b) (hnil : b.rest = []) :
    readQuotedRuns single f acc c ≠ .ok (acc', c') := by
  induction f generalizing acc c with
  | zero => exact fun hread => by cases hread
  | succ f ih =>
    rw [readQuotedRuns_succ, readQuotedRun_of_isGapOrEnd (h.isGapOrEnd_peek hnil)]
    split
    · exact fun hread => by cases hread
    · split
      · exact fun hread => by cases hread
      · exact readBehindRun_ne_ok h hnil fun h => ih h

/-- What comes behind a run is read alike if it is in the text. The bound gets smaller in the run or
in the gap behind it. -/
theorem keeps_readBehindRun (h : c.Padded o n b) (hne : b.rest ≠ []) {escaped : Bool}
    (hkf : k ≤ f)
    (hless : n < k ∨ n - 1 < k ∧ (b.peek = quote single ∨ isGap b.peek = true))
    (hruns : ∀ {m acc c b}, c.Padded o m b → m < k →
      Keeps o m (readQuotedRuns single f acc c) (readQuotedRuns single k acc b)) :
    Keeps o n (readBehindRun single f (acc, c, escaped))
      (readBehindRun single k (acc, b, escaped)) := by
  have hn := h.pos hne
  refine Keeps.ite (h.peek_blind (blind_quote single)) (fun _ => .pure acc (h.skip_le 1)) ?_
  intro hquote acc' c' hread
  cases hgap : Gap.read 0 (f + 1) (if escaped then Gap.afterEscapedBreak else Gap.empty) c with
  | error fault =>
    rw [hgap] at hread
    cases hread
  | ok p =>
    obtain ⟨gap, c₁⟩ := p
    obtain ⟨b₁, hb₁, h₁, -, hshorter⟩ := Gap.exists_read (k := k + 1) h hne (by omega) (by omega) hgap
    rw [hgap] at hread
    rw [hb₁]
    obtain hk | ⟨hk, hstop⟩ := hless
    · exact hruns h₁ hk acc' c' hread
    · have hblank : isGap b.peek = true := by
        obtain hsame | hblank := hstop
        · rw [hsame, beq_self_eq_true] at hquote
          cases hquote
        · exact hblank
      exact (hruns (hshorter hblank) hk).mono (Nat.sub_le n 1) acc' c' hread

/-- A quoted scalar that ends is read alike: it ends in the text. -/
theorem keeps_readQuotedRuns (h : c.Padded o n b) (hk : n < k) (hkf : k ≤ f) :
    Keeps o n (readQuotedRuns single f acc c) (readQuotedRuns single k acc b) := by
  induction k generalizing n f acc c b with
  | zero => exact absurd hk (Nat.not_lt_zero n)
  | succ k ih =>
    obtain ⟨f, rfl⟩ : ∃ m, f = m + 1 := ⟨f - 1, by omega⟩
    intro acc' c' hread
    by_cases hnil : b.rest = []
    · exact absurd hread (readQuotedRuns_ne_ok h hnil)
    rw [readQuotedRuns_succ] at hread ⊢
    rw [h.atDocumentMarker_eq, h.atEnd_eq hnil] at hread
    split at hread
    · cases hread
    · rename_i hmarker
      rw [if_neg hmarker]
      split at hread
      · cases hread
      · rename_i hend
        rw [if_neg hend]
        cases hrun : readQuotedRun single (f + 1) acc c with
        | error fault =>
          rw [hrun] at hread
          cases hread
        | ok p =>
          obtain ⟨acc₁, c₁, escaped⟩ := p
          have hbehind : readBehindRun single f (acc₁, c₁, escaped) = .ok (acc', c') := by
            rwa [hrun] at hread
          have hpast : ∀ {b₁ : Cursor}, b₁.rest = [] → ¬ c₁.Padded o n b₁ :=
            fun hnil₁ h₁ => readBehindRun_ne_ok h₁ hnil₁ (fun h => readQuotedRuns_ne_ok h hnil₁) hbehind
          obtain ⟨b₁, hb₁, h₁, hprogress⟩ | ⟨b₁, hnil₁, h₁⟩ := readsRun_readQuotedRun h hk hkf hrun
          · rw [hb₁]
            by_cases hnil₁ : b₁.rest = []
            · exact absurd h₁ (hpast hnil₁)
            · have hn := h.pos hnil
              have hruns := fun {m : Nat} {acc : List Char} {c b : Cursor}
                (h : c.Padded o m b) (hk : m < k) =>
                (ih h hk (by omega) : Keeps o m (readQuotedRuns single f acc c) _)
              obtain ⟨rfl, hstop⟩ | h₁ := hprogress
              · have hgap : b₁.peek = quote single ∨ isGap b₁.peek = true := by
                  obtain hgap | hquote := hstop
                  · rw [isGapOrEnd_eq, Bool.or_eq_true] at hgap
                    exact .inr (hgap.resolve_right hend)
                  · exact .inl hquote
                exact keeps_readBehindRun h₁ hnil₁ (by omega) (.inr ⟨by omega, hgap⟩) hruns acc' c' hbehind
              · exact (keeps_readBehindRun h₁ hnil₁ (by omega) (.inl (by omega)) hruns).mono
                  (Nat.sub_le n 1) acc' c' hbehind
          · exact absurd h₁ (hpast hnil₁)

/-- A quoted scalar is read alike. -/
theorem keeps_readQuoted (h : c.Padded o n b) :
    Keeps o n (readQuoted single c) (readQuoted single b) := by
  have hleft := h.left_le
  have hlength := h.length_le_left
  have hruns : Keeps o b.rest.length (readQuotedRuns single (c.left + 2) [] c)
      (readQuotedRuns single (b.left + 2) [] b) :=
    keeps_readQuotedRuns (h.mono (Nat.le_refl _)) (by omega) (by omega)
  exact (hruns.mono h.within).bind fun acc c b h => .pure _ h

/-- A run of a plain scalar is read alike. -/
theorem keeps_readPlainRun (h : c.Padded o n b) (flow : Bool) (hk : n < k) (hkf : k ≤ f) :
    Keeps o n (readPlainRun flow f acc c) (readPlainRun flow k acc b) := by
  induction k generalizing n f acc c b with
  | zero => exact absurd hk (Nat.not_lt_zero n)
  | succ k ih =>
    obtain ⟨f, rfl⟩ : ∃ m, f = m + 1 := ⟨f - 1, by omega⟩
    rw [readPlainRun, readPlainRun]
    refine Keeps.ite (h.peek_blind (p := isGapOrEnd) (by decide)) (fun _ => .pure acc h) fun hend => ?_
    have hne := Cursor.Padded.rest_ne_nil_of_not_end hend
    have hn := h.pos hne
    have hflow : (isFlowIndicator (c.peekAt 1) || c.peekAt 1 == '?') =
        (isFlowIndicator (b.peekAt 1) || b.peekAt 1 == '?') :=
      h.peekAt_blind (p := fun ch => isFlowIndicator ch || ch == '?') (by decide) 1
    have hnext : isGapOrEnd (c.peekAt 1) = isGapOrEnd (b.peekAt 1) :=
      h.peekAt_blind (p := isGapOrEnd) (by decide) 1
    rw [h.peek_eq hne, hflow, hnext]
    refine Keeps.ite rfl (fun _ => .error _) fun _ => ?_
    refine Keeps.ite rfl (fun _ => .pure acc h) fun _ => ?_
    exact (ih (h.skip 1) (by omega) (by omega)).mono (Nat.sub_le n 1)

/-- A character that a plain scalar can start with, together with the next one. -/
structure IsPlainStart (flow : Bool) (c : Cursor) : Prop where
  /-- It is not in a gap. -/
  gap : isGapOrEnd c.peek = false
  /-- A colon in front of a gap is no start, and neither is any colon in a flow collection. -/
  colon : c.peek = ':' → flow = false ∧ isGapOrEnd (c.peekAt 1) = false
  /-- The indicators of flow collections are none inside of these. -/
  indicator : flow = true → isFlowIndicator c.peek = false
  /-- A comment is none. -/
  comment : c.peek ≠ '#'
  /-- The lines that part documents are none. -/
  marker : c.atDocumentMarker = false

/-- A run takes its first character along. -/
theorem keeps_readPlainRun_of_start (h : c.Padded o n b) {flow : Bool}
    (hstart : IsPlainStart flow b) (hk : n < k) (hkf : k ≤ f) :
    Keeps o (n - 1) (readPlainRun flow f acc c) (readPlainRun flow k acc b) := by
  obtain ⟨k, rfl⟩ : ∃ m, k = m + 1 := ⟨k - 1, by omega⟩
  obtain ⟨f, rfl⟩ : ∃ m, f = m + 1 := ⟨f - 1, by omega⟩
  have hne := Cursor.Padded.rest_ne_nil_of_not_end hstart.gap
  have hn := h.pos hne
  have hfirst : ∀ (f : Nat) (d : Cursor), d.peek = b.peek →
      isGapOrEnd (d.peekAt 1) = isGapOrEnd (b.peekAt 1) →
      readPlainRun flow (f + 1) acc d = readPlainRun flow f (d.peek :: acc) (d.skip 1) := by
    intro f d hpeek hnext
    have hcolon : (flow && b.peek == ':') = false := by
      cases hflow : flow with
      | false => rfl
      | true =>
        have hne : b.peek ≠ ':' := fun hpeek => by
          rw [hflow] at hstart
          cases (hstart.colon hpeek).1
        simp [hne]
    have hindicator : (flow && isFlowIndicator b.peek) = false := by
      cases hflow : flow with
      | false => rfl
      | true => exact hstart.indicator hflow
    have hkey : (b.peek == ':' && isGapOrEnd (b.peekAt 1)) = false := by
      rw [Bool.and_eq_false_imp]
      intro hpeek
      exact (hstart.colon (by simpa using hpeek)).2
    rw [readPlainRun, hpeek, hnext, hstart.gap, hcolon, hindicator, hkey]
    rfl
  rw [hfirst f c (h.peek_eq hne) (h.peekAt_blind (p := isGapOrEnd) (by decide) 1), hfirst k b rfl rfl,
    h.peek_eq hne]
  exact keeps_readPlainRun (h.skip 1) flow (by omega) (by omega)

/-- The end of a run is at the first gap. -/
theorem readPlainRun_of_isGapOrEnd {flow : Bool} (hc : isGapOrEnd c.peek = true) :
    readPlainRun flow (f + 1) acc c = .ok (acc, c) := by
  rw [readPlainRun]
  simp only [hc, if_true]

/-- A plain scalar is read in both texts, though the gap behind it may be cut off in one of them. -/
def KeepsPlain (o : Frame) (n : Nat) (r r' : Except Fault (Plain × Cursor)) : Prop :=
  ∀ p c, r = .ok (p, c) → ∃ q b, r' = .ok (q, b) ∧ q.acc = p.acc ∧ c.Padded o n b ∧
    (b.rest ≠ [] → q = p)

/-- What comes behind a run: the end of the scalar, or a gap that has to reach the indentation. -/
def readPlainGap (flow : Bool) (indent f : Nat) (acc : List Char) (gap : Gap) (c : Cursor) :
    Except Fault (Plain × Cursor) :=
  if isGap c.peek then
    Gap.read indent (f + 1) gap c >>= fun (gap, c) =>
      if !flow && c.column < indent then pure (⟨acc, gap.broken⟩, c)
      else readPlainRuns flow indent f acc gap c
  else pure (⟨acc, gap.broken⟩, c)

/-- A plain scalar is read run by run and gap by gap. -/
theorem readPlainRuns_succ {flow : Bool} {indent : Nat} {gap : Gap} :
    readPlainRuns flow indent (f + 1) acc gap c =
      if c.atDocumentMarker || c.peek == '#' then pure (⟨acc, gap.broken⟩, c)
      else
        readPlainRun flow (f + 1) [] c >>= fun (run, c) =>
          if run.isEmpty then readPlainGap flow indent f acc gap c
          else readPlainGap flow indent f (run ++ (gap.folded.reverse ++ acc)) Gap.empty c := by
  rw [readPlainRuns]
  split
  · rfl
  · cases readPlainRun flow (f + 1) [] c with
    | error fault => rfl
    | ok p =>
      obtain ⟨run, c₁⟩ := p
      cases run <;> rfl

/-- Behind the text a gap adds nothing to a plain scalar if nothing comes behind it. -/
theorem acc_eq_of_readPlainGap (h : c.Padded o n b) (hnil : b.rest = []) {flow : Bool}
    {indent : Nat} {gap : Gap} {p : Plain}
    (hruns : ∀ {gap c}, c.Padded o n b →
      readPlainRuns flow indent f acc gap c = .ok (p, c') → p.acc = acc ∧ c'.Padded o n b)
    (hread : readPlainGap flow indent f acc gap c = .ok (p, c')) :
    p.acc = acc ∧ c'.Padded o n b := by
  rw [readPlainGap] at hread
  split at hread
  · cases hread₁ : Gap.read indent (f + 1) gap c with
    | error fault =>
      rw [hread₁] at hread
      cases hread
    | ok q =>
      have h₁ := Gap.padded_of_read h hnil hread₁
      rw [hread₁] at hread
      simp only [bind, Except.bind] at hread
      split at hread
      · cases hread
        exact ⟨rfl, h₁⟩
      · exact hruns h₁ hread
  · cases hread
    exact ⟨rfl, h⟩

/-- Behind the text nothing is added to a plain scalar. -/
theorem acc_eq_of_readPlainRuns (h : c.Padded o n b) (hnil : b.rest = []) {flow : Bool}
    {indent : Nat} {gap : Gap} {p : Plain}
    (hread : readPlainRuns flow indent f acc gap c = .ok (p, c')) :
    p.acc = acc ∧ c'.Padded o n b := by
  induction f generalizing gap c with
  | zero =>
    cases hread
    exact ⟨rfl, h⟩
  | succ f ih =>
    rw [readPlainRuns_succ, readPlainRun_of_isGapOrEnd (h.isGapOrEnd_peek hnil)] at hread
    split at hread
    · cases hread
      exact ⟨rfl, h⟩
    · exact acc_eq_of_readPlainGap h hnil (fun h => ih h) hread

/-- A plain scalar ends in the text. -/
theorem keepsPlain_readPlainGap (h : c.Padded o n b) {flow : Bool} {indent : Nat}
    {gap : Gap} (hk : n < k + 1) (hkf : k ≤ f)
    (hruns : ∀ {m acc gap c b}, c.Padded o m b → m < k →
      KeepsPlain o m (readPlainRuns flow indent f acc gap c)
        (readPlainRuns flow indent k acc gap b)) :
    KeepsPlain o n (readPlainGap flow indent f acc gap c)
      (readPlainGap flow indent k acc gap b) := by
  intro p c' hread
  by_cases hnil : b.rest = []
  · obtain ⟨hacc, hpadded⟩ :=
      acc_eq_of_readPlainGap h hnil (fun h => acc_eq_of_readPlainRuns h hnil) hread
    have hend : isGap b.peek = false := by
      rw [Cursor.peek_of_nil hnil]
      rfl
    rw [readPlainGap, if_neg (by rw [hend]; exact Bool.false_ne_true)]
    exact ⟨_, b, rfl, hacc.symm, hpadded, fun hne => absurd hnil hne⟩
  · rw [readPlainGap] at hread ⊢
    rw [h.peek_eq hnil] at hread
    split at hread
    · rename_i hgap
      rw [if_pos hgap]
      cases hread₁ : Gap.read indent (f + 1) gap c with
      | error fault =>
        rw [hread₁] at hread
        cases hread
      | ok q =>
        obtain ⟨gap₁, c₁⟩ := q
        obtain ⟨b₁, hb₁, h₁, hne₁, hless⟩ :=
          Gap.exists_read (k := k + 1) h hnil hk (by omega) hread₁
        have h₁ := hless hgap
        have hcolumn := (h₁.here hne₁).2.1
        have hn := h.pos hnil
        rw [hread₁] at hread
        rw [hb₁]
        simp only [bind, Except.bind] at hread ⊢
        rw [hcolumn] at hread
        split at hread
        · rename_i hshort
          rw [if_pos hshort]
          cases hread
          exact ⟨_, b₁, rfl, rfl, h₁.mono (h₁.within.trans (Nat.sub_le n 1)), fun _ => rfl⟩
        · rename_i hshort
          rw [if_neg hshort]
          obtain ⟨q, b', hb, hacc, hpadded, hq⟩ := hruns h₁ (by omega) p c' hread
          exact ⟨q, b', hb, hacc, hpadded.mono (hpadded.within.trans (Nat.sub_le n 1)), hq⟩
    · rename_i hgap
      rw [if_neg hgap]
      cases hread
      exact ⟨_, b, rfl, rfl, h, fun _ => rfl⟩

/-- A run is followed by what comes behind it in both texts. -/
theorem keepsPlain_bind_readPlainGap {r r' : Except Fault (List Char × Cursor)}
    (hr : Keeps o n r r') {flow : Bool} {indent : Nat} {gap : Gap} (hk : n < k + 1)
    (hkf : k ≤ f)
    (hruns : ∀ {m acc gap c b}, c.Padded o m b → m < k →
      KeepsPlain o m (readPlainRuns flow indent f acc gap c)
        (readPlainRuns flow indent k acc gap b)) :
    KeepsPlain o n
      (r >>= fun (run, c) =>
        if run.isEmpty then readPlainGap flow indent f acc gap c
        else readPlainGap flow indent f (run ++ (gap.folded.reverse ++ acc)) Gap.empty c)
      (r' >>= fun (run, b) =>
        if run.isEmpty then readPlainGap flow indent k acc gap b
        else readPlainGap flow indent k (run ++ (gap.folded.reverse ++ acc)) Gap.empty b) := by
  intro p c' hread
  cases hrun : r with
  | error fault =>
    rw [hrun] at hread
    cases hread
  | ok q =>
    obtain ⟨run, c₁⟩ := q
    obtain ⟨b₁, hb₁, h₁⟩ := hr run c₁ hrun
    rw [hrun] at hread
    rw [hb₁]
    simp only [bind, Except.bind] at hread ⊢
    split at hread
    · rename_i hempty
      rw [if_pos hempty]
      exact keepsPlain_readPlainGap h₁ hk hkf hruns p c' hread
    · rename_i hempty
      rw [if_neg hempty]
      exact keepsPlain_readPlainGap h₁ hk hkf hruns p c' hread

/-- A plain scalar is read run by run in both texts. -/
theorem keepsPlain_readPlainRuns (h : c.Padded o n b) {flow : Bool} {indent : Nat}
    {gap : Gap} (hk : n < k) (hkf : k ≤ f) :
    KeepsPlain o n (readPlainRuns flow indent f acc gap c)
      (readPlainRuns flow indent k acc gap b) := by
  induction k generalizing n f acc gap c b with
  | zero => exact absurd hk (Nat.not_lt_zero n)
  | succ k ih =>
    obtain ⟨f, rfl⟩ : ∃ m, f = m + 1 := ⟨f - 1, by omega⟩
    have hsharp : (c.peek == '#') = (b.peek == '#') := h.peek_blind (p := (· == '#')) (by decide)
    have hbehind := fun {m : Nat} {acc : List Char} {gap : Gap} {c b : Cursor}
      (h : c.Padded o m b) (hm : m < k) =>
      (ih h hm (by omega) : KeepsPlain o m (readPlainRuns flow indent f acc gap c) _)
    intro p c' hread
    rw [readPlainRuns_succ] at hread ⊢
    rw [h.atDocumentMarker_eq, hsharp] at hread
    split at hread
    · rename_i hstop
      rw [if_pos hstop]
      cases hread
      exact ⟨_, b, rfl, rfl, h, fun _ => rfl⟩
    · rename_i hstop
      rw [if_neg hstop]
      exact keepsPlain_bind_readPlainGap (keeps_readPlainRun h flow hk hkf) hk (by omega) hbehind p c' hread

/-- A plain scalar takes its first character along. -/
theorem keepsPlain_readPlainRuns_of_start (h : c.Padded o n b) {flow : Bool}
    (hstart : IsPlainStart flow b) {indent : Nat} {gap : Gap} (hk : n < k) (hkf : k ≤ f) :
    KeepsPlain o (n - 1) (readPlainRuns flow indent f acc gap c)
      (readPlainRuns flow indent k acc gap b) := by
  obtain ⟨k, rfl⟩ : ∃ m, k = m + 1 := ⟨k - 1, by omega⟩
  obtain ⟨f, rfl⟩ : ∃ m, f = m + 1 := ⟨f - 1, by omega⟩
  have hsharp : (c.peek == '#') = (b.peek == '#') := h.peek_blind (p := (· == '#')) (by decide)
  have hstop : ¬ (b.atDocumentMarker || b.peek == '#') = true := by
    simp [hstart.marker, hstart.comment]
  have hbehind := fun {m : Nat} {acc : List Char} {gap : Gap} {c b : Cursor}
    (h : c.Padded o m b) (hm : m < k) =>
    (keepsPlain_readPlainRuns h hm (by omega) :
      KeepsPlain o m (readPlainRuns flow indent f acc gap c) _)
  rw [readPlainRuns_succ, readPlainRuns_succ, h.atDocumentMarker_eq, hsharp, if_neg hstop, if_neg hstop]
  exact keepsPlain_bind_readPlainGap (keeps_readPlainRun_of_start h hstart hk hkf) (by omega)
    (by omega) hbehind

/-- A plain scalar is read alike, but for the gap behind it at the end of the text. -/
theorem exists_readPlain (h : c.Padded o n b) {flow broken : Bool}
    (hstart : IsPlainStart flow b) {indent : Nat} {text : String}
    (hread : readPlain flow indent c = .ok (text, broken, c')) :
    ∃ broken' b', readPlain flow indent b = .ok (text, broken', b') ∧
      c'.Padded o (n - 1) b' ∧ (b'.rest ≠ [] → broken' = broken) := by
  have hleft := h.left_le
  have hlength := h.length_le_left
  have hwithin := h.within
  have hruns : KeepsPlain o (b.rest.length - 1)
      (readPlainRuns flow indent (c.left + 2) [] Gap.empty c)
      (readPlainRuns flow indent (b.left + 2) [] Gap.empty b) :=
    keepsPlain_readPlainRuns_of_start (h.mono (Nat.le_refl _)) hstart (by omega) (by omega)
  rw [readPlain] at hread ⊢
  cases hplain : readPlainRuns flow indent (c.left + 2) [] Gap.empty c with
  | error fault =>
    rw [hplain] at hread
    cases hread
  | ok p =>
    obtain ⟨q, b', hb, hacc, hpadded, hq⟩ := hruns p.1 p.2 hplain
    rw [hplain] at hread
    cases hread
    rw [hb]
    refine ⟨q.broken, b', ?_, hpadded.mono (hpadded.within.trans (by omega)), fun hne => by rw [hq hne]⟩
    simp only [bind, Except.bind, hacc]
    rfl

end Scalar

end ManifestRules.Yaml
