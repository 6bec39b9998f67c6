import ManifestRules.Proofs.Slack.Scalar
/-!
# Block scalars in a text with white space around it

A block scalar has no mark at its end. The last one of a text takes the white space behind the text
along, but it is the same up to that (`Scalar.exists_readBlock`).
-/

namespace ManifestRules.Yaml

open Cursor (Padded)

namespace Scalar

variable {o : Frame} {n f k indent : Nat} {c b c' : Cursor} {literal : Bool}

/-- An indentation digit is read alike. -/
theorem keeps_readIncrement (h : c.Padded o n b) :
    Keeps o n (readIncrement c) (readIncrement b) := by
  have hzero : (c.peek == '0') = (b.peek == '0') := h.peek_blind (p := (· == '0')) (by decide)
  have hdigit : decide ('1' ≤ c.peek ∧ c.peek ≤ '9') = decide ('1' ≤ b.peek ∧ b.peek ≤ '9') :=
    h.peek_blind (p := fun ch => decide ('1' ≤ ch ∧ ch ≤ '9')) (by decide)
  rw [readIncrement, readIncrement]
  refine Keeps.ite hzero (fun _ => .error _) fun _ => ?_
  by_cases hb : '1' ≤ b.peek ∧ b.peek ≤ '9'
  · have hne : b.rest ≠ [] :=
      Padded.rest_ne_nil (p := fun ch => decide ('1' ≤ ch ∧ ch ≤ '9')) (by decide) (by simpa using hb)
    rw [h.peek_eq hne, if_pos hb, if_pos hb]
    exact .pure _ (h.skip_le 1)
  · have hc : ¬ ('1' ≤ c.peek ∧ c.peek ≤ '9') := by
      rw [decide_eq_false hb] at hdigit
      exact of_decide_eq_false hdigit
    rw [if_neg hc, if_neg hb]
    exact .pure none h

/-- The indicators of a block are read alike. -/
theorem exists_readIndicators (h : c.Padded o n b) {chomping : Chomping}
    {increment : Option Nat} (hread : readIndicators c = .ok (chomping, increment, c')) :
    ∃ b', readIndicators b = .ok (chomping, increment, b') ∧ c'.Padded o n b' := by
  have hblind : Blind chomping? := by decide
  rw [readIndicators] at hread ⊢
  rw [h.peek_blind hblind] at hread
  cases hfirst : chomping? b.peek with
  | some first =>
    rw [hfirst] at hread
    dsimp only at hread ⊢
    cases hdigit : readIncrement (c.skip 1) with
    | error fault =>
      rw [hdigit] at hread
      cases hread
    | ok p =>
      obtain ⟨b₁, hb₁, h₁⟩ := keeps_readIncrement (h.skip_le 1) p.1 p.2 hdigit
      rw [hdigit] at hread
      cases hread
      rw [hb₁]
      exact ⟨b₁, rfl, h₁⟩
  | none =>
    rw [hfirst] at hread
    dsimp only at hread ⊢
    cases hdigit : readIncrement c with
    | error fault =>
      rw [hdigit] at hread
      cases hread
    | ok p =>
      obtain ⟨b₁, hb₁, h₁⟩ := keeps_readIncrement h p.1 p.2 hdigit
      rw [hdigit] at hread
      rw [hb₁]
      simp only [bind, Except.bind, h₁.peek_blind hblind] at hread ⊢
      split at hread
      · cases hread
        exact ⟨_, rfl, h₁.skip_le 1⟩
      · cases hread
        exact ⟨_, rfl, h₁⟩

/-- The cursor behind the indentation of a line. -/
def indented (indent? : Option Nat) (c : Cursor) : Cursor :=
  let spaces := (c.rest.takeWhile (· == ' ')).length
  match indent? with
  | some n => c.skip (min spaces (n - c.column))
  | none => c.skip spaces

/-- Blank lines are read one by one. -/
theorem readBlankLines_succ {indent? : Option Nat} {x : BlankLines} :
    readBlankLines indent? (f + 1) x c =
      let c := indented indent? c
      let x := { x with widest := max x.widest c.column }
      if indent?.all (fun n => c.column < n) && c.peek == '\t' then
        .error (c.fault "found a tab character where an indentation space is expected")
      else if isBreak c.peek then
        readBlankLines indent? f { x with breaks := x.breaks ++ c.readBreak.1 } c.readBreak.2
      else .ok (x, c) := by
  cases indent? <;> rfl

/-- The indentation of a line in the text is the same, and something comes behind it. -/
theorem padded_indented (h : c.Padded o n b) (hne : b.rest ≠ []) (indent? : Option Nat) :
    (indented indent? c).Padded o n (indented indent? b) ∧
      (indented indent? b).rest ≠ [] := by
  obtain ⟨hspaces, hlt⟩ := h.takeWhile_lt hne (p := (· == ' ')) (by simp [isGap, isSpace])
  have hmore : ∀ j ≤ (b.rest.takeWhile (· == ' ')).length, (b.skip j).rest ≠ [] := by
    intro j hj hnil
    have hlength : b.rest.length ≤ j := List.drop_eq_nil_iff.mp hnil
    omega
  cases indent? with
  | none =>
    rw [indented, indented, hspaces]
    exact ⟨h.skip_le _, hmore _ (Nat.le_refl _)⟩
  | some width =>
    rw [indented, indented, hspaces, (h.here hne).2.1]
    exact ⟨h.skip_le _, hmore _ (Nat.min_le_left _ _)⟩

/-- In the text blank lines are read alike, and something comes behind them. -/
theorem exists_readBlankLines (h : c.Padded o n b) (hne : b.rest ≠ []) (hk : n < k)
    (hkf : k ≤ f) {indent? : Option Nat} {x y : BlankLines}
    (hread : readBlankLines indent? f x c = .ok (y, c')) :
    ∃ b', readBlankLines indent? k x b = .ok (y, b') ∧ c'.Padded o n b' ∧
      b'.rest ≠ [] := by
  induction k generalizing n f x c b with
  | zero => exact absurd hk (Nat.not_lt_zero n)
  | succ k ih =>
    obtain ⟨f, rfl⟩ : ∃ m, f = m + 1 := ⟨f - 1, by omega⟩
    obtain ⟨h₁, hne₁⟩ := padded_indented h hne indent?
    rw [readBlankLines_succ] at hread ⊢
    dsimp only at hread ⊢
    rw [h₁.peek_eq hne₁, (h₁.here hne₁).2.1] at hread
    split at hread
    · cases hread
    · rename_i htab
      rw [if_neg htab]
      split at hread
      · rename_i hbreak
        obtain ⟨hne₂, h₂⟩ := h₁.readBreak_lt hbreak
        have hn := h₁.pos hne₁
        rw [(h₁.readBreak hne₁).1] at hread
        rw [if_pos hbreak]
        obtain ⟨b', hb, hpadded, hne'⟩ := ih h₂ hne₂ (by omega) (by omega) hread
        exact ⟨b', hb, hpadded.mono (hpadded.within.trans (Nat.sub_le n 1)), hne'⟩
      · rename_i hbreak
        rw [if_neg hbreak]
        cases hread
        exact ⟨_, rfl, h₁, hne₁⟩

/-- Behind the text all blank lines may be read. -/
theorem padded_of_readBlankLines (h : c.Padded o n b) (hnil : b.rest = [])
    {indent? : Option Nat} {x y : BlankLines} (hx : ∀ ch ∈ x.breaks, isGap ch = true)
    (hread : readBlankLines indent? f x c = .ok (y, c')) :
    c'.Padded o n b ∧ ∀ ch ∈ y.breaks, isGap ch = true := by
  induction f generalizing x c with
  | zero =>
    cases hread
    exact ⟨h, hx⟩
  | succ f ih =>
    have h₁ : (indented indent? c).Padded o n b := by
      cases indent? <;> exact h.past_skip hnil _
    rw [readBlankLines_succ] at hread
    dsimp only at hread
    split at hread
    · cases hread
    · split at hread
      · refine ih (h₁.past_readBreak hnil) ?_ hread
        intro ch hch
        rw [Cursor.readBreak_eq] at hch
        obtain hch | hch := List.mem_append.mp hch
        · exact hx ch hch
        · rw [isGap, Cursor.isBreak_of_mem_breakText ch hch, Bool.or_true]
      · cases hread
        exact ⟨h₁, hx⟩

/-- At the end there are no blank lines. -/
theorem exists_readBlankLines_of_end (hend : b.peek = endMark) (indent? : Option Nat)
    (x : BlankLines) :
    ∃ y, readBlankLines indent? k x b = .ok (y, b) ∧ y.breaks = x.breaks := by
  have hnone : b.rest.takeWhile (· == ' ') = [] := by
    cases hrest : b.rest with
    | nil => rfl
    | cons ch rest =>
      rw [Cursor.peek_of_cons hrest] at hend
      exact List.takeWhile_cons_of_neg (by rw [hend]; decide)
  have hindented : indented indent? b = b := by
    cases indent? with
    | none =>
      rw [indented, hnone]
      rfl
    | some width =>
      rw [indented, hnone, List.length_nil, Nat.zero_min]
      rfl
  cases k with
  | zero => exact ⟨x, rfl, rfl⟩
  | succ k =>
    rw [readBlankLines_succ, hindented]
    dsimp only
    rw [hend]
    have htab : (indent?.all (fun n => b.column < n) && endMark == '\t') = false :=
      Bool.and_eq_false_imp.mpr fun _ => rfl
    have hbreak : isBreak endMark = false := rfl
    rw [htab, hbreak, if_neg Bool.false_ne_true, if_neg Bool.false_ne_true]
    exact ⟨_, rfl, rfl⟩

/-- Behind a text only white space has been read. -/
structure BlockLines.OnlyGaps (x : BlockLines) (acc : List Char) : Prop where
  /-- In lines of their own or at the end of the last line. -/
  lines : ∃ gap, x.acc = gap ++ acc ∧ ∀ ch ∈ gap, isGap ch = true
  /-- The break behind these lines. -/
  pending : ∀ ch ∈ x.pending, isGap ch = true
  /-- The breaks behind that. -/
  blank : ∀ ch ∈ x.blank, isGap ch = true

/-- What joins two lines is white space. -/
theorem BlockLines.OnlyGaps.exists_joined {x : BlockLines} {acc : List Char} (hx : x.OnlyGaps acc)
    (literal spaced : Bool) :
    ∃ gap, x.joined literal spaced = gap ++ acc ∧ ∀ ch ∈ gap, isGap ch = true := by
  obtain ⟨gap, hacc, hgap⟩ := hx.lines
  rw [BlockLines.joined, hacc]
  split
  · split
    · refine ⟨' ' :: gap, rfl, ?_⟩
      exact List.forall_mem_cons.mpr ⟨rfl, hgap⟩
    · refine ⟨x.blank.reverse ++ gap, by rw [List.append_assoc], ?_⟩
      simpa [or_imp, forall_and] using And.intro hx.blank hgap
  · refine ⟨x.blank.reverse ++ (x.pending.reverse ++ gap), by simp only [List.append_assoc], ?_⟩
    simpa [or_imp, forall_and] using And.intro hx.blank (And.intro hx.pending hgap)

/-- The lines of a block are read one by one with the blank lines behind each. -/
theorem readBlockLines_succ {x : BlockLines} :
    readBlockLines literal indent (f + 1) x c =
      if c.column == indent && !c.atEnd then
        let line := c.takeWhile fun ch => !isBreak ch
        readBlankLines (some indent) (f + 1) ⟨[], 0⟩ line.2.readBreak.2 >>= fun (blank, d) =>
          readBlockLines literal indent f
            ⟨line.1.reverse ++ x.joined literal (isSpace c.peek), line.2.readBreak.1, blank.breaks,
              isSpace c.peek⟩ d
      else pure (x, c) :=
  rfl

/-- At the end there are no lines. -/
theorem readBlockLines_of_end (hend : b.peek = endMark) (x : BlockLines) :
    readBlockLines literal indent k x b = .ok (x, b) := by
  have hend : b.atEnd = true := beq_iff_eq.mpr hend
  cases k with
  | zero => rfl
  | succ k =>
    rw [readBlockLines_succ, hend, Bool.not_true, Bool.and_false, if_neg Bool.false_ne_true]
    rfl

/-- A line break that is read is white space. -/
theorem isGap_of_mem_readBreak (c : Cursor) : ∀ ch ∈ c.readBreak.1, isGap ch = true := by
  intro ch hch
  rw [Cursor.readBreak_eq] at hch
  rw [isGap, Cursor.isBreak_of_mem_breakText ch hch, Bool.or_true]

/-- Behind the text only white space is added to a block. -/
theorem onlyGaps_of_readBlockLines (h : c.Padded o n b) (hnil : b.rest = [])
    {x y : BlockLines} {acc : List Char} (hx : x.OnlyGaps acc)
    (hread : readBlockLines literal indent f x c = .ok (y, c')) :
    y.OnlyGaps acc ∧ c'.Padded o n b := by
  induction f generalizing x c with
  | zero =>
    cases hread
    exact ⟨hx, h⟩
  | succ f ih =>
    rw [readBlockLines_succ] at hread
    split at hread
    · dsimp only at hread
      have h₁ : (c.takeWhile fun ch => !isBreak ch).2.Padded o n b := h.past_skip hnil _
      have h₂ := h₁.past_readBreak hnil
      cases hblank : readBlankLines (some indent) (f + 1) ⟨[], 0⟩
          (c.takeWhile fun ch => !isBreak ch).2.readBreak.2 with
      | error fault =>
        rw [hblank] at hread
        cases hread
      | ok p =>
        obtain ⟨h₃, hgap⟩ := padded_of_readBlankLines h₂ hnil (by simp) hblank
        obtain ⟨gap, hjoined, hjoin⟩ := hx.exists_joined literal (isSpace c.peek)
        rw [hblank] at hread
        refine ih h₃ ⟨?_, isGap_of_mem_readBreak _, hgap⟩ hread
        refine ⟨(c.takeWhile fun ch => !isBreak ch).1.reverse ++ gap, ?_, ?_⟩
        · rw [hjoined, List.append_assoc]
        · intro ch hch
          obtain hch | hch := List.mem_append.mp hch
          · exact h.isGap_of_nil hnil ch (List.takeWhile_subset _ (List.mem_reverse.mp hch))
          · exact hjoin ch hch
    · cases hread
      exact ⟨hx, h⟩

/-- The lines of a block end with the text, behind which white space may be read. -/
structure BlockStop (o : Frame) (y z : BlockLines) : Prop where
  /-- No line break comes behind the last line. -/
  pending : z.pending = []
  /-- There are no blank lines there. -/
  blank : z.blank = []
  /-- What is read behind the text is white space. -/
  gaps : y.OnlyGaps z.acc
  /-- If that is a line feed, then it is the line break behind the last line. -/
  feed : o.tail = ['\n'] → y.acc = z.acc ∧ (y.pending = [] ∨ y.pending = ['\n']) ∧ y.blank = []

/-- Where the lines of a block end: before the end of the text, or with it. -/
def BlockEnd (o : Frame) (b : Cursor) (y z : BlockLines) : Prop :=
  b.rest ≠ [] ∧ z = y ∨ b.rest = [] ∧ BlockStop o y z

/-- The last line of a block: what is read behind it is white space. -/
theorem exists_lastLine (h : c.Padded o n b)
    (hlast : (b.takeWhile fun ch => !isBreak ch).2.rest = []) {x y : BlockLines} {blank : BlankLines}
    {d : Cursor}
    (hblank : readBlankLines (some indent) (f + 1) ⟨[], 0⟩
      (c.takeWhile fun ch => !isBreak ch).2.readBreak.2 = .ok (blank, d))
    (hread : readBlockLines literal indent f ⟨(c.takeWhile fun ch => !isBreak ch).1.reverse ++
      x.joined literal (isSpace b.peek), (c.takeWhile fun ch => !isBreak ch).2.readBreak.1,
      blank.breaks, isSpace b.peek⟩ d = .ok (y, c')) :
    ∃ z b', (readBlankLines (some indent) (k + 1) ⟨[], 0⟩
        (b.takeWhile fun ch => !isBreak ch).2.readBreak.2 >>= fun (blank, d) =>
          readBlockLines literal indent k ⟨(b.takeWhile fun ch => !isBreak ch).1.reverse ++
            x.joined literal (isSpace b.peek), (b.takeWhile fun ch => !isBreak ch).2.readBreak.1,
            blank.breaks, isSpace b.peek⟩ d) = .ok (z, b') ∧
      c'.Padded o n b' ∧ BlockEnd o b' y z := by
  have h₁ : (c.takeWhile fun ch => !isBreak ch).2.Padded o n
      (b.takeWhile fun ch => !isBreak ch).2 := h.skipWhile _
  obtain ⟨gap, hline, hgap⟩ := h.exists_takeWhile hlast
  obtain ⟨h₂, hbreaks⟩ := padded_of_readBlankLines (h₁.past_readBreak hlast) hlast (by simp) hblank
  have hx : BlockLines.OnlyGaps ⟨(c.takeWhile fun ch => !isBreak ch).1.reverse ++
      x.joined literal (isSpace b.peek), (c.takeWhile fun ch => !isBreak ch).2.readBreak.1,
      blank.breaks, isSpace b.peek⟩ ((b.takeWhile fun ch => !isBreak ch).1.reverse ++
      x.joined literal (isSpace b.peek)) := by
    refine ⟨⟨gap.reverse, ?_, by simpa using hgap⟩, isGap_of_mem_readBreak _, hbreaks⟩
    rw [hline, List.reverse_append, List.append_assoc]
  obtain ⟨hy, hpadded⟩ := onlyGaps_of_readBlockLines h₂ hlast hx hread
  have hend := Cursor.peek_of_nil hlast
  obtain ⟨later, hb, hnone⟩ :=
    exists_readBlankLines_of_end (k := k + 1) hend (some indent) ⟨[], 0⟩
  rw [Cursor.readBreak_of_nil hlast, hb]
  refine ⟨_, _, readBlockLines_of_end hend _, hpadded, .inr ⟨hlast, rfl, hnone, hy, fun htail => ?_⟩⟩
  obtain ⟨hpending, hrest⟩ := h₁.readBreak_of_lineFeed hlast htail
  have hend := Cursor.peek_of_nil hrest
  obtain ⟨x₁, hx₁, hx₁none⟩ :=
    exists_readBlankLines_of_end (k := f + 1) hend (some indent) ⟨[], 0⟩
  cases hx₁.symm.trans hblank
  rw [readBlockLines_of_end hend] at hread
  cases hread
  exact ⟨by rw [h.takeWhile_of_lineFeed htail rfl], hpending, hx₁none⟩

/-- The lines of a block are read in both texts. -/
theorem exists_readBlockLines (h : c.Padded o n b) (hne : b.rest ≠ []) (hk : n < k)
    (hkf : k ≤ f) {x y : BlockLines} (hread : readBlockLines literal indent f x c = .ok (y, c')) :
    ∃ z b', readBlockLines literal indent k x b = .ok (z, b') ∧ c'.Padded o n b' ∧
      BlockEnd o b' y z := by
  induction k generalizing n f x c b with
  | zero => exact absurd hk (Nat.not_lt_zero n)
  | succ k ih =>
    obtain ⟨f, rfl⟩ : ∃ m, f = m + 1 := ⟨f - 1, by omega⟩
    rw [readBlockLines_succ] at hread ⊢
    rw [(h.here hne).2.1, h.atEnd_eq hne, h.peek_eq hne] at hread
    split at hread
    · rename_i hline
      rw [if_pos hline]
      dsimp only at hread ⊢
      cases hblank : readBlankLines (some indent) (f + 1) ⟨[], 0⟩
          (c.takeWhile fun ch => !isBreak ch).2.readBreak.2 with
      | error fault =>
        rw [hblank] at hread
        cases hread
      | ok p =>
        rw [hblank] at hread
        by_cases hlast : (b.takeWhile fun ch => !isBreak ch).2.rest = []
        · exact exists_lastLine h hlast hblank hread
        · have h₁ : (c.takeWhile fun ch => !isBreak ch).2.Padded o n
              (b.takeWhile fun ch => !isBreak ch).2 := h.skipWhile _
          have hbreak : isBreak (b.takeWhile fun ch => !isBreak ch).2.peek = true := by
            simpa using Cursor.peek_takeWhile hlast
          obtain ⟨hne₂, h₂⟩ := h₁.readBreak_lt hbreak
          have hn := h.pos hne
          obtain ⟨b₃, hb₃, h₃, hne₃⟩ :=
            exists_readBlankLines (k := k + 1) h₂ hne₂ (by omega) (by omega) hblank
          rw [(h₁.readBreak hlast).1, h.takeWhile_eq hlast] at hread
          obtain ⟨z, b', hb, hpadded, hend⟩ := ih h₃ hne₃ (by omega) (by omega) hread
          rw [hb₃]
          exact ⟨z, b', hb, hpadded.mono (hpadded.within.trans (Nat.sub_le n 1)), hend⟩
    · rename_i hline
      rw [if_neg hline]
      cases hread
      exact ⟨y, b, rfl, h, .inl ⟨hne, rfl⟩⟩

/-- The text of a block. -/
def chomped (chomping : Chomping) (x : BlockLines) : String :=
  let acc := if chomping = .strip then x.acc else x.pending.reverse ++ x.acc
  let acc := if chomping = .keep then x.blank.reverse ++ acc else acc
  String.ofList acc.reverse

/-- Read a block behind its header. -/
def readBlockBody (literal : Bool) (parent : Int) (chomping : Chomping) (increment : Option Nat)
    (c : Cursor) : Except Fault (String × Cursor) :=
  let fuel := c.left + 2
  let known := increment.map fun n => parent.toNat + n
  readBlankLines known fuel ⟨[], 0⟩ c >>= fun (blank, c) =>
    let indent := known.getD (max blank.widest (max (parent + 1).toNat 1))
    readBlockLines literal indent fuel ⟨[], [], blank.breaks, false⟩ c >>= fun (x, c) =>
      pure (chomped chomping x, c)

/-- A block is read as its indicators, the rest of its first line and its body. -/
theorem readBlock_eq (literal : Bool) (parent : Int) (c : Cursor) :
    readBlock literal parent c =
      readIndicators c >>= fun (chomping, increment, c) =>
        let c := c.skipComment
        if !isBreakOrEnd c.peek then .error (c.fault "did not find expected comment or line break")
        else readBlockBody literal parent chomping increment c.skipBreak :=
  rfl

/-- What a block has more at its end if there is white space behind the text. -/
structure Surplus (tail gap : List Char) : Prop where
  /-- This is white space. -/
  blank : ∀ ch ∈ gap, isGap ch = true
  /-- If there is a line feed behind the text, then it is that. -/
  feed : tail = ['\n'] → gap = [] ∨ gap = ['\n']

/-- There may be nothing more. -/
theorem Surplus.nil (tail : List Char) : Surplus tail [] := ⟨by simp, fun _ => .inl rfl⟩

/-- A scalar is read in both texts, where at the end of the text it may have taken white space
along. -/
def KeepsBlock (o : Frame) (n : Nat) (r r' : Except Fault (String × Cursor)) : Prop :=
  ∀ text c, r = .ok (text, c) → ∃ text' b gap, r' = .ok (text', b) ∧ c.Padded o n b ∧
    text.toList = text'.toList ++ gap ∧ Surplus o.tail gap ∧ (b.rest ≠ [] → gap = [])

/-- White space that is read behind the lines of a block is all that chomping can keep. -/
theorem BlockStop.exists_chomped {y z : BlockLines} (h : BlockStop o y z) (chomping : Chomping) :
    ∃ gap, (chomped chomping y).toList = (chomped chomping z).toList ++ gap ∧ Surplus o.tail gap := by
  obtain ⟨gap, hacc, hgap⟩ := h.gaps.lines
  have hreverse : ∀ ch ∈ gap.reverse, isGap ch = true := by simpa using hgap
  have hz : (chomped chomping z).toList = z.acc.reverse := by
    simp [chomped, h.pending, h.blank]
  have hnone : o.tail = ['\n'] → gap = [] := by
    intro htail
    rw [(h.feed htail).1] at hacc
    exact List.self_eq_append_left.mp hacc
  rw [hz]
  cases chomping with
  | strip =>
    refine ⟨gap.reverse, ?_, hreverse, fun htail => ?_⟩
    · simp [chomped, hacc]
    · rw [hnone htail]
      exact .inl rfl
  | clip =>
    refine ⟨gap.reverse ++ y.pending, ?_, List.forall_mem_append.mpr ⟨hreverse, h.gaps.pending⟩,
      fun htail => ?_⟩
    · simp [chomped, hacc]
    · rw [hnone htail]
      exact (h.feed htail).2.1
  | keep =>
    refine ⟨gap.reverse ++ (y.pending ++ y.blank), ?_, ?_, fun htail => ?_⟩
    · simp [chomped, hacc]
    · exact List.forall_mem_append.mpr
        ⟨hreverse, List.forall_mem_append.mpr ⟨h.gaps.pending, h.gaps.blank⟩⟩
    · rw [hnone htail, (h.feed htail).2.2, List.append_nil]
      exact (h.feed htail).2.1

/-- At the end a block has no body. -/
theorem readBlockBody_of_end (hend : b.peek = endMark) (parent : Int) (chomping : Chomping)
    (increment : Option Nat) : readBlockBody literal parent chomping increment b = .ok ("", b) := by
  have hnone : chomped chomping ⟨[], [], [], false⟩ = "" := by cases chomping <;> rfl
  obtain ⟨blank, hblank, hbreaks⟩ := exists_readBlankLines_of_end (k := b.left + 2) hend
    (increment.map fun n => parent.toNat + n) ⟨[], 0⟩
  simp only [readBlockBody, hblank, hbreaks, readBlockLines_of_end hend, bind, Except.bind, pure,
    Except.pure, hnone]

/-- Behind the text a block has nothing but white space in its body. -/
theorem surplus_of_readBlockBody (h : c.Padded o n b) (hnil : b.rest = [])
    (hfeed : o.tail = ['\n'] → c.rest = []) {parent : Int} {chomping : Chomping}
    {increment : Option Nat} {text : String}
    (hread : readBlockBody literal parent chomping increment c = .ok (text, c')) :
    c'.Padded o n b ∧ Surplus o.tail text.toList := by
  rw [readBlockBody] at hread
  dsimp only at hread
  cases hblank : readBlankLines (increment.map fun n => parent.toNat + n) (c.left + 2) ⟨[], 0⟩ c with
  | error fault =>
    rw [hblank] at hread
    cases hread
  | ok p =>
    obtain ⟨h₁, hbreaks⟩ := padded_of_readBlankLines h hnil (by simp) hblank
    rw [hblank] at hread
    simp only [bind, Except.bind] at hread
    split at hread
    · cases hread
    · rename_i q hlines
      have hx : BlockLines.OnlyGaps ⟨[], [], p.1.breaks, false⟩ [] :=
        ⟨⟨[], rfl, by simp⟩, by simp, hbreaks⟩
      obtain ⟨hy, h₂⟩ := onlyGaps_of_readBlockLines h₁ hnil hx hlines
      have hstop : BlockStop o q.1 ⟨[], [], [], false⟩ := by
        refine ⟨rfl, rfl, hy, fun htail => ?_⟩
        have hend := Cursor.peek_of_nil (hfeed htail)
        obtain ⟨x, hx, hxnone⟩ := exists_readBlankLines_of_end (k := c.left + 2) hend
          (increment.map fun n => parent.toNat + n) ⟨[], 0⟩
        cases hx.symm.trans hblank
        rw [readBlockLines_of_end hend] at hlines
        cases hlines
        exact ⟨rfl, .inl rfl, hxnone⟩
      obtain ⟨gap, htext, hgap⟩ := hstop.exists_chomped chomping
      have hnone : (chomped chomping ⟨[], [], [], false⟩).toList = [] := by cases chomping <;> rfl
      cases hread
      rw [htext, hnone]
      exact ⟨h₂, hgap⟩

/-- The body of a block is read in both texts. -/
theorem keepsBlock_readBlockBody (h : c.Padded o n b)
    (hfeed : b.rest = [] → o.tail = ['\n'] → c.rest = []) (parent : Int) (chomping : Chomping)
    (increment : Option Nat) :
    KeepsBlock o n (readBlockBody literal parent chomping increment c)
      (readBlockBody literal parent chomping increment b) := by
  intro text c' hread
  by_cases hne : b.rest = []
  · obtain ⟨hpadded, hgap⟩ := surplus_of_readBlockBody h hne (hfeed hne) hread
    exact ⟨"", b, text.toList,
      readBlockBody_of_end (Cursor.peek_of_nil hne) parent chomping increment, hpadded, rfl, hgap,
      fun hmore => absurd hne hmore⟩
  · have hleft := h.left_le
    have hlength := h.length_le_left
    have h₀ := h.mono (Nat.le_refl b.rest.length)
    rw [readBlockBody] at hread ⊢
    dsimp only at hread ⊢
    cases hblank : readBlankLines (increment.map fun n => parent.toNat + n) (c.left + 2) ⟨[], 0⟩ c with
    | error fault =>
      rw [hblank] at hread
      cases hread
    | ok p =>
      obtain ⟨b₁, hb₁, h₁, hne₁⟩ :=
        exists_readBlankLines (k := b.left + 2) h₀ hne (by omega) (by omega) hblank
      rw [hblank] at hread
      rw [hb₁]
      simp only [bind, Except.bind] at hread ⊢
      split at hread
      · cases hread
      · rename_i q hlines
        obtain ⟨z, b₂, hb₂, h₂, hend⟩ :=
          exists_readBlockLines (k := b.left + 2) h₁ hne₁ (by omega) (by omega) hlines
        have hpadded := h₂.mono (h₂.within.trans h.within)
        rw [hb₂]
        cases hread
        obtain ⟨hmore, rfl⟩ | ⟨hnil, hstop⟩ := hend
        · exact ⟨_, b₂, [], rfl, hpadded, (List.append_nil _).symm, .nil _, fun _ => rfl⟩
        · obtain ⟨gap, htext, hgap⟩ := hstop.exists_chomped chomping
          exact ⟨_, b₂, gap, rfl, hpadded, htext, hgap, fun hmore => absurd hnil hmore⟩

/-- A block is read in both texts. -/
theorem keepsBlock_readBlock (h : c.Padded o n b) (parent : Int) :
    KeepsBlock o n (readBlock literal parent c) (readBlock literal parent b) := by
  intro text c' hread
  rw [readBlock_eq] at hread ⊢
  cases hindicators : readIndicators c with
  | error fault =>
    rw [hindicators] at hread
    cases hread
  | ok p =>
    obtain ⟨chomping, increment, c₁⟩ := p
    obtain ⟨b₁, hb₁, h₁⟩ := exists_readIndicators h hindicators
    have hcomment := h₁.skipComment
    rw [hindicators] at hread
    rw [hb₁]
    simp only [bind, Except.bind] at hread ⊢
    cases hbreak : isBreakOrEnd c₁.skipComment.peek with
    | false =>
      rw [hbreak] at hread
      cases hread
    | true =>
      rw [hbreak] at hread
      rw [hcomment.isBreakOrEnd_peek hbreak]
      exact keepsBlock_readBlockBody hcomment.skipBreak hcomment.skipBreak_of_lineFeed parent chomping
        increment text c' hread

end Scalar

end ManifestRules.Yaml
