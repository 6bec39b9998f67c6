import ManifestRules.Proofs.Slack.Block
import ManifestRules.Yaml.ScalarStyle
/-!
# The rows of a block scalar

A block scalar takes whole rows of a text: it keeps their lines and has something else for the line
breaks and spaces in front of these (`BlockRow`). So both have the same characters that are no white
space (`BlockRow.solids_read`), and the block needs no escapes if its rows do without
(`BlockRow.needsEscapes_read`). If the block ends where the text does, then it has taken all of the
text behind its header (`Scalar.reachesBack_readBlock`).
-/

namespace ManifestRules.Yaml

/-- The characters of a text that are no white space. -/
def solids (s : List Char) : List Char := s.filter fun c => !isGap c

/-- Those of two texts come one after the other. -/
theorem solids_append (s r : List Char) : solids (s ++ r) = solids s ++ solids r :=
  List.filter_append s r

/-- White space has none. -/
theorem solids_eq_nil {s : List Char} (hs : ∀ c ∈ s, isGap c = true) : solids s = [] := by
  rw [solids, List.filter_eq_nil_iff]
  intro c hc
  simp [hs c hc]

/-- The end of a text has at most as many of them. -/
theorem length_solids_le {s r : List Char} (hs : s <:+ r) : (solids s).length ≤ (solids r).length :=
  (hs.sublist.filter _).length_le

namespace ScalarStyle

/-- Characters stand side by side in one of two texts, or where these meet. -/
theorem adjacent_append (p q : Char → Bool) (s r : List Char) :
    adjacent p q (s ++ r) =
      (adjacent p q s || (s.getLast?.any p && r.head?.any q) || adjacent p q r) := by
  induction s with
  | nil => rfl
  | cons c s ih =>
    cases s with
    | nil => cases r <;> simp [adjacent]
    | cons d s =>
      have hlast : (c :: d :: s).getLast? = (d :: s).getLast? := List.getLast?_cons_cons
      rw [List.cons_append, List.cons_append, adjacent, adjacent, ← List.cons_append, ih, hlast]
      simp only [Bool.or_assoc]

/-- Two texts together need no escapes if neither does and no space comes before a line break where
they meet. -/
theorem needsEscapes_append (s r : List Char) :
    needsEscapes (s ++ r) = false ↔ needsEscapes s = false ∧ needsEscapes r = false ∧
      (s.getLast?.any isBlankSpace && r.head?.any isBreak) = false := by
  simp only [needsEscapes, adjacent_append, List.any_append, Bool.or_eq_false_iff]
  constructor
  · rintro ⟨⟨⟨hs, hmeet⟩, hr⟩, hs', hr'⟩
    exact ⟨⟨hs, hs'⟩, ⟨hr, hr'⟩, hmeet⟩
  · rintro ⟨⟨hs, hs'⟩, ⟨hr, hr'⟩, hmeet⟩
    exact ⟨⟨⟨hs, hmeet⟩, hr⟩, hs', hr'⟩

/-- A text without spaces needs no escapes if each of its characters can be written. -/
theorem needsEscapes_of_notMem {s : List Char} (hspace : ' ' ∉ s)
    (hs : ∀ c ∈ s, isPrintable c = true) : needsEscapes s = false := by
  have hadjacent : adjacent isBlankSpace isBreak s = false := by
    clear hs
    induction s with
    | nil => rfl
    | cons c s ih =>
      rw [List.mem_cons, not_or] at hspace
      cases s with
      | nil => rfl
      | cons d s =>
        have hc : isBlankSpace c = false := beq_false_of_ne (Ne.symm hspace.1)
        rw [adjacent, hc, Bool.false_and, Bool.false_or]
        exact ih hspace.2
  rw [needsEscapes, hadjacent, Bool.false_or, List.any_eq_false]
  intro c hc
  rw [hs c hc]
  decide

end ScalarStyle

/-- There are only line breaks, of those that need no escape. -/
def AreFeeds (s : List Char) : Prop := ∀ c ∈ s, isBreak c = true ∧ ScalarStyle.isPrintable c = true

/-- What may stand between two lines of a block: a line break, and behind it spaces and more. -/
structure PartsLines (gap : List Char) : Prop where
  /-- It starts with a line break. -/
  starts : gap.head?.any isBreak = true
  /-- There is nothing else in it. -/
  blank : ∀ c ∈ gap, c = ' ' ∨ isBreak c = true

/-- There is something between two lines. -/
theorem PartsLines.ne_nil {gap : List Char} (h : PartsLines gap) : gap ≠ [] := by
  rintro rfl
  cases h.starts

/-- It is white space. -/
theorem PartsLines.isGap {gap : List Char} (h : PartsLines gap) : ∀ c ∈ gap, isGap c = true := by
  intro c hc
  obtain rfl | hbreak := h.blank c hc
  · rfl
  · rw [Yaml.isGap, hbreak, Bool.or_true]

/-- A row of a block scalar. -/
structure BlockRow where
  /-- The line breaks and spaces in front of the line. -/
  gap : List Char
  /-- What the block has for them. -/
  joint : List Char
  /-- The line. -/
  line : List Char
  /-- They part the line from what comes before. -/
  parts : PartsLines gap
  /-- The block has line breaks for them, or a space. -/
  joins : joint = [' '] ∨ AreFeeds joint
  /-- There is something in the line. -/
  filled : line ≠ []
  /-- The line has no line breaks. -/
  whole : ∀ c ∈ line, isBreak c = false

namespace BlockRow

/-- Rows as they stand in the text. -/
def written (rows : List BlockRow) : List Char := rows.flatMap fun r => r.gap ++ r.line

/-- Rows as they stand in the block. -/
def read (rows : List BlockRow) : List Char := rows.flatMap fun r => r.joint ++ r.line

/-- The first row stands in front of the others. -/
theorem written_cons (r : BlockRow) (rows : List BlockRow) :
    written (r :: rows) = r.gap ++ r.line ++ written rows :=
  List.flatMap_cons

/-- A block starts with what it has of the first row. -/
theorem read_cons (r : BlockRow) (rows : List BlockRow) :
    read (r :: rows) = r.joint ++ r.line ++ read rows :=
  List.flatMap_cons

/-- Rows start with a line break, and so does what comes behind them. -/
theorem starts_written (rows : List BlockRow) :
    ((written rows ++ ['\n']).head?.any isBreak) = true := by
  cases rows with
  | nil => rfl
  | cons r rows =>
    have hstarts := r.parts.starts
    obtain ⟨c, gap, hgap⟩ := List.exists_cons_of_ne_nil r.parts.ne_nil
    rw [hgap] at hstarts
    rw [written_cons, hgap]
    exact hstarts

/-- A block has the characters of its rows that are no white space. -/
theorem solids_read (rows : List BlockRow) : solids (read rows) = solids (written rows) := by
  induction rows with
  | nil => rfl
  | cons r rows ih =>
    have hgap : solids r.gap = [] := solids_eq_nil r.parts.isGap
    have hjoint : solids r.joint = [] := by
      refine solids_eq_nil fun c hc => ?_
      obtain hjoint | hjoint := r.joins
      · rw [hjoint, List.mem_singleton] at hc
        rw [hc]
        rfl
      · rw [isGap, (hjoint c hc).1, Bool.or_true]
    rw [read_cons, written_cons, solids_append, solids_append, solids_append, solids_append, hgap,
      hjoint, ih]

/-- What the block has in front of a line needs no escapes, also not together with the line. -/
theorem needsEscapes_joint (r : BlockRow) (hline : ScalarStyle.needsEscapes r.line = false) :
    ScalarStyle.needsEscapes (r.joint ++ r.line) = false := by
  rw [ScalarStyle.needsEscapes_append]
  obtain hjoint | hjoint := r.joins
  · refine ⟨by rw [hjoint]; rfl, hline, Bool.and_eq_false_imp.mpr fun _ => ?_⟩
    cases hhead : r.line.head? with
    | none => rfl
    | some c => exact r.whole c (List.mem_of_head? hhead)
  · have hspace : ' ' ∉ r.joint := fun h => Bool.false_ne_true (hjoint ' ' h).1
    refine ⟨ScalarStyle.needsEscapes_of_notMem hspace fun c hc => (hjoint c hc).2, hline, ?_⟩
    cases hlast : r.joint.getLast? with
    | none => rfl
    | some c =>
      have hc : ScalarStyle.isBlankSpace c = false :=
        beq_false_of_ne fun h => hspace (h ▸ List.mem_of_getLast? hlast)
      rw [Option.any_some, hc, Bool.false_and]

/-- If rows need no escapes in front of a line feed, then neither does the block. -/
theorem needsEscapes_read {rows : List BlockRow}
    (hrows : ScalarStyle.needsEscapes (written rows ++ ['\n']) = false) :
    ScalarStyle.needsEscapes (read rows ++ ['\n']) = false := by
  induction rows with
  | nil => exact hrows
  | cons r rows ih =>
    rw [written_cons, List.append_assoc, List.append_assoc, ScalarStyle.needsEscapes_append,
      ScalarStyle.needsEscapes_append, starts_written, Bool.and_true] at hrows
    obtain ⟨-, ⟨hline, hmore, hmeet⟩, -⟩ := hrows
    have hlast : (r.joint ++ r.line).getLast? = r.line.getLast? := by
      rw [List.getLast?_append, List.getLast?_eq_some_getLast r.filled, Option.some_or]
    rw [read_cons, List.append_assoc, ScalarStyle.needsEscapes_append, hlast, hmeet]
    exact ⟨needsEscapes_joint r hline, ih hmore, rfl⟩

end BlockRow

namespace Cursor

variable {b c d : Cursor}

/-- A line break is read as line breaks that need no escape. -/
theorem isPrintable_of_mem_breakText {s : List Char} :
    ∀ ch ∈ breakText s, ScalarStyle.isPrintable ch = true := by
  rw [breakText]
  split
  · exact List.all_eq_true.mp (by decide)
  · intro ch hch
    obtain ⟨d, -, rfl⟩ := List.mem_map.mp hch
    split
    · rename_i hd
      obtain rfl | rfl := hd <;> rfl
    · rfl

/-- The second cursor is in the same line as the first and not in front of it. -/
def InRow (b c : Cursor) : Prop := ∃ k, c = b.skip k ∧ ∀ ch ∈ b.rest.take k, isBreak ch = false

/-- A cursor is in its own line. -/
theorem InRow.refl (b : Cursor) : b.InRow b := by
  refine ⟨0, ?_, by simp⟩
  cases b
  rfl

/-- What is behind something in a line is in that line. -/
theorem InRow.trans (hc : b.InRow c) (hd : c.InRow d) : b.InRow d := by
  obtain ⟨j, rfl, hj⟩ := hc
  obtain ⟨k, rfl, hk⟩ := hd
  refine ⟨j + k, skip_skip b j k, fun ch hch => ?_⟩
  rw [List.take_add] at hch
  exact (List.mem_append.mp hch).elim (hj ch) (hk ch)

/-- Moving over a character that is no line break stays in the line. -/
theorem inRow_skip_one (hb : isBreak b.peek = false) : b.InRow (b.skip 1) := by
  refine ⟨1, rfl, fun ch hch => ?_⟩
  cases hrest : b.rest with
  | nil => simp [hrest] at hch
  | cons d rest =>
    rw [hrest, List.take_succ_cons, List.take_zero, List.mem_singleton] at hch
    rw [hch, ← peek_of_cons hrest, hb]

/-- Moving over characters that are no line breaks stays in the line. -/
theorem inRow_skipWhile (b : Cursor) {p : Char → Bool} (hp : ∀ ch, p ch = true → isBreak ch = false) :
    b.InRow (b.skipWhile p) := by
  refine ⟨(b.rest.takeWhile p).length, rfl, fun ch hch => ?_⟩
  rw [← List.prefix_iff_eq_take.mp (List.takeWhile_prefix p)] at hch
  exact hp ch (List.mem_takeWhile_imp hch)

/-- A comment is in the line. -/
theorem inRow_skipComment (b : Cursor) : b.InRow b.skipComment := by
  have hspaces : b.InRow (b.skipWhile isSpace) := b.inRow_skipWhile (by
    intro ch hch
    obtain h | h := Bool.or_eq_true_iff.mp hch <;> rw [beq_iff_eq.mp h] <;> rfl)
  rw [skipComment]
  split
  · exact hspaces.trans (inRow_skipWhile _ fun ch hch => by simpa using hch)
  · exact hspaces

/-- What is behind a cursor in its line. -/
theorem InRow.exists_eq (h : b.InRow c) :
    ∃ header, b.rest = header ++ c.rest ∧ ∀ ch ∈ header, isBreak ch = false := by
  obtain ⟨k, rfl, hk⟩ := h
  exact ⟨b.rest.take k, (List.take_append_drop k b.rest).symm, hk⟩

/-- In a line bytes are counted on. -/
theorem InRow.isSound (h : b.InRow c) (hb : b.IsSound) : c.IsSound := by
  obtain ⟨k, rfl, -⟩ := h
  exact hb.skip k

/-- A line break stands in front of what is behind it. -/
theorem exists_readBreak (hb : isBreak b.peek = true) :
    ∃ feed, b.rest = feed ++ b.readBreak.2.rest ∧ PartsLines feed := by
  refine ⟨b.rest.take (breakSize b.rest), ?_, ?_, fun ch hch => .inr (isBreak_of_mem_take ch hch)⟩
  · rw [rest_readBreak, List.take_append_drop]
  · obtain ⟨k, hk⟩ := Nat.exists_eq_succ_of_ne_zero (breakSize_ne_zero hb)
    cases hrest : b.rest with
    | nil =>
      rw [peek_of_nil hrest] at hb
      cases hb
    | cons ch rest =>
      rw [← hrest, hk, hrest]
      rwa [peek_of_cons hrest] at hb

end Cursor

namespace Scalar

open Cursor (InRow)

variable {text rest : List Char} {b b' : Cursor} {k indent : Nat} {literal : Bool}

/-- Behind what parts lines there is more of a text that does not end in white space. -/
theorem ne_nil_of_firm {gap : List Char}
    (hfirm : ∀ ch, (gap ++ rest).getLast? = some ch → isGap ch = false) (hgap : PartsLines gap) :
    rest ≠ [] := by
  rintro rfl
  have hlast := hfirm (gap.getLast hgap.ne_nil)
    (by rw [List.append_nil, List.getLast?_eq_some_getLast hgap.ne_nil])
  rw [hgap.isGap _ (List.getLast_mem hgap.ne_nil)] at hlast
  cases hlast

/-- The end of a text that does not end in white space does not do so either. -/
theorem firm_of_suffix {front : List Char}
    (hfirm : ∀ ch, (front ++ rest).getLast? = some ch → isGap ch = false) :
    ∀ ch, rest.getLast? = some ch → isGap ch = false := by
  intro ch hch
  refine hfirm ch ?_
  rw [List.getLast?_append, hch, Option.some_or]

/-- The indentation of a line is made of spaces. -/
theorem exists_indented (indent? : Option Nat) (b : Cursor) :
    ∃ spaces, b.rest = spaces ++ (indented indent? b).rest ∧ ∀ ch ∈ spaces, ch = ' ' := by
  have hskip : ∀ j ≤ (b.rest.takeWhile (· == ' ')).length, ∃ spaces,
      b.rest = spaces ++ (b.skip j).rest ∧ ∀ ch ∈ spaces, ch = ' ' := by
    intro j hj
    refine ⟨b.rest.take j, (List.take_append_drop j b.rest).symm, fun ch hch => ?_⟩
    have htake : b.rest.take j <+: b.rest.takeWhile (· == ' ') :=
      List.prefix_of_prefix_length_le (List.take_prefix j _) (List.takeWhile_prefix _)
        ((List.length_take_le j _).trans hj)
    simpa using List.mem_takeWhile_imp (htake.subset hch)
  cases indent? with
  | none => exact hskip _ (Nat.le_refl _)
  | some width => exact hskip _ (Nat.min_le_left _ _)

/-- A line break is read as one that needs no escape. -/
theorem areFeeds_readBreak (b : Cursor) : AreFeeds b.readBreak.1 := by
  intro ch hch
  rw [Cursor.readBreak_eq] at hch
  exact ⟨Cursor.isBreak_of_mem_breakText ch hch, Cursor.isPrintable_of_mem_breakText ch hch⟩

/-- Behind blank lines and an indentation there is no line break. -/
theorem exists_gap_of_readBlankLines (hk : b.rest.length < k) {indent? : Option Nat}
    {x y : BlankLines} (hx : AreFeeds x.breaks)
    (hread : readBlankLines indent? k x b = .ok (y, b')) :
    ∃ gap, b.rest = gap ++ b'.rest ∧ (∀ ch ∈ gap, ch = ' ' ∨ isBreak ch = true) ∧
      isBreak b'.peek = false ∧ AreFeeds y.breaks := by
  induction k generalizing x b with
  | zero => exact absurd hk (Nat.not_lt_zero _)
  | succ k ih =>
    obtain ⟨spaces, hspaces, hspace⟩ := exists_indented indent? b
    have hblank : ∀ ch ∈ spaces, ch = ' ' ∨ isBreak ch = true := fun ch hch => .inl (hspace ch hch)
    rw [readBlankLines_succ] at hread
    dsimp only at hread
    split at hread
    · cases hread
    · split at hread
      · rename_i hbreak
        obtain ⟨feed, hfeed, hparts⟩ := Cursor.exists_readBreak hbreak
        have hpos := List.length_pos_iff.mpr hparts.ne_nil
        have hlength := congrArg List.length hspaces
        rw [hfeed, List.length_append, List.length_append] at hlength
        have hbreaks : AreFeeds (x.breaks ++ (indented indent? b).readBreak.1) :=
          List.forall_mem_append.mpr ⟨hx, areFeeds_readBreak _⟩
        obtain ⟨gap, hgap, hmore, hpeek, hy⟩ := ih (by omega) hbreaks hread
        refine ⟨spaces ++ (feed ++ gap), ?_, ?_, hpeek, hy⟩
        · rw [hspaces, hfeed, hgap, List.append_assoc, List.append_assoc]
        · exact List.forall_mem_append.mpr
            ⟨hblank, List.forall_mem_append.mpr ⟨hparts.blank, hmore⟩⟩
      · rename_i hbreak
        cases hread
        exact ⟨spaces, hspaces, hblank, by simpa using hbreak, hx⟩

/-- A line break, blank lines and an indentation part two lines. -/
theorem exists_partsLines (hbreak : isBreak b.peek = true) (hk : b.readBreak.2.rest.length < k)
    {indent? : Option Nat} {y : BlankLines}
    (hread : readBlankLines indent? k ⟨[], 0⟩ b.readBreak.2 = .ok (y, b')) :
    ∃ gap, b.rest = gap ++ b'.rest ∧ PartsLines gap ∧ isBreak b'.peek = false ∧
      AreFeeds y.breaks := by
  obtain ⟨feed, hfeed, hparts⟩ := Cursor.exists_readBreak hbreak
  obtain ⟨more, hmore, hblank, hpeek, hy⟩ :=
    exists_gap_of_readBlankLines hk (by simp [AreFeeds]) hread
  refine ⟨feed ++ more, by rw [hfeed, hmore, List.append_assoc], ⟨?_, ?_⟩, hpeek, hy⟩
  · obtain ⟨ch, rest, rfl⟩ := List.exists_cons_of_ne_nil hparts.ne_nil
    exact hparts.starts
  · exact List.forall_mem_append.mpr ⟨hparts.blank, hblank⟩

/-- Two lines of a block are joined by line breaks or a space. -/
theorem BlockLines.exists_joint {x : BlockLines} (hpending : AreFeeds x.pending)
    (hblank : AreFeeds x.blank) (literal spaced : Bool) :
    ∃ joint, x.joined literal spaced = joint.reverse ++ x.acc ∧ (joint = [' '] ∨ AreFeeds joint) := by
  rw [BlockLines.joined]
  split
  · split
    · exact ⟨[' '], rfl, .inl rfl⟩
    · exact ⟨x.blank, rfl, .inr hblank⟩
  · refine ⟨x.pending ++ x.blank, by simp, .inr (List.forall_mem_append.mpr ⟨hpending, hblank⟩)⟩

/-- A line that is read is the line of a row. -/
theorem exists_row (hne : b.rest ≠ []) (hbreak : isBreak b.peek = false) {gap : List Char}
    (hgap : PartsLines gap) {x : BlockLines} (hpending : AreFeeds x.pending)
    (hblank : AreFeeds x.blank) (literal spaced : Bool) :
    ∃ row : BlockRow, row.gap = gap ∧ x.joined literal spaced = row.joint.reverse ++ x.acc ∧
      (b.takeWhile fun ch => !isBreak ch).1 = row.line ∧
      b.rest = row.line ++ (b.takeWhile fun ch => !isBreak ch).2.rest := by
  obtain ⟨joint, hjoined, hjoint⟩ := BlockLines.exists_joint hpending hblank literal spaced
  have hfilled : b.rest.takeWhile (fun ch => !isBreak ch) ≠ [] := by
    rw [Cursor.rest_eq_cons hne]
    simp [hbreak]
  have hwhole : ∀ ch ∈ b.rest.takeWhile (fun ch => !isBreak ch), isBreak ch = false := by
    intro ch hch
    simpa using List.mem_takeWhile_imp hch
  have hrest := (List.prefix_iff_eq_append.mp
    (List.takeWhile_prefix (l := b.rest) fun ch => !isBreak ch)).symm
  exact ⟨⟨gap, joint, _, hgap, hjoint, hfilled, hwhole⟩, rfl, hjoined, rfl, hrest⟩

/-- The lines of a block that ends where the text does are those of rows that are all there is. -/
theorem exists_rows_of_readBlockLines (hk : b.rest.length < k) {gap : List Char}
    (hgap : PartsLines gap) (hfirm : ∀ ch, (gap ++ b.rest).getLast? = some ch → isGap ch = false)
    (hbreak : isBreak b.peek = false) {x z : BlockLines} (hpending : AreFeeds x.pending)
    (hblank : AreFeeds x.blank) (hread : readBlockLines literal indent k x b = .ok (z, b'))
    (hnil : b'.rest = []) :
    ∃ rows, gap ++ b.rest = BlockRow.written rows ∧
      z.acc.reverse = x.acc.reverse ++ BlockRow.read rows ∧ z.pending = [] ∧ z.blank = [] := by
  induction k generalizing x b gap with
  | zero => exact absurd hk (Nat.not_lt_zero _)
  | succ k ih =>
    have hne := ne_nil_of_firm hfirm hgap
    rw [readBlockLines_succ] at hread
    split at hread
    · obtain ⟨row, rfl, hjoined, hline, hrest⟩ :=
        exists_row hne hbreak hgap hpending hblank literal (isSpace b.peek)
      dsimp only at hread
      rw [hjoined, hline] at hread
      by_cases hlast : (b.takeWhile fun ch => !isBreak ch).2.rest = []
      · obtain ⟨blank, hend, hnone⟩ :=
          exists_readBlankLines_of_end (k := k + 1) (Cursor.peek_of_nil hlast) (some indent) ⟨[], 0⟩
        rw [Cursor.readBreak_of_nil hlast, hend] at hread
        cases (readBlockLines_of_end (Cursor.peek_of_nil hlast) _).symm.trans hread
        refine ⟨[row], ?_, ?_, rfl, hnone⟩
        · rw [hrest, hlast, BlockRow.written_cons, List.append_assoc]
          rfl
        · simp [BlockRow.read]
      · have hfeed : isBreak (b.takeWhile fun ch => !isBreak ch).2.peek = true := by
          simpa using Cursor.peek_takeWhile hlast
        cases hskip : readBlankLines (some indent) (k + 1) ⟨[], 0⟩
            (b.takeWhile fun ch => !isBreak ch).2.readBreak.2 with
        | error fault =>
          rw [hskip] at hread
          cases hread
        | ok p =>
          rw [hskip] at hread
          have hshort : (b.takeWhile fun ch => !isBreak ch).2.readBreak.2.rest.length ≤
              (b.takeWhile fun ch => !isBreak ch).2.rest.length := by
            rw [Cursor.rest_readBreak]
            exact (List.drop_sublist _ _).length_le
          have hlength := congrArg List.length hrest
          have hpos := List.length_pos_iff.mpr row.filled
          rw [List.length_append] at hlength
          obtain ⟨more, hmore, hparts, hpeek, hfeeds⟩ := exists_partsLines hfeed (by omega) hskip
          rw [hmore] at hrest
          rw [hmore, List.length_append] at hlength
          have hfirm' : ∀ ch, (more ++ p.2.rest).getLast? = some ch → isGap ch = false := by
            rw [hrest, ← List.append_assoc] at hfirm
            exact firm_of_suffix hfirm
          obtain ⟨rows, hrows, hacc, hz⟩ :=
            ih (by omega) hparts hfirm' hpeek (areFeeds_readBreak _) hfeeds hread
          refine ⟨row :: rows, ?_, ?_, hz⟩
          · rw [BlockRow.written_cons, ← hrows, hrest, List.append_assoc]
          · rw [hacc, BlockRow.read_cons]
            simp
    · cases hread
      exact absurd hnil hne

/-- The body of a block that ends where the text does is made of rows. -/
theorem exists_rows_of_readBlockBody (hsound : b.IsSound) (hbreak : isBreak b.peek = true)
    (hfirm : ∀ ch, b.rest.getLast? = some ch → isGap ch = false) {parent : Int}
    {chomping : Chomping} {increment : Option Nat} {s : String}
    (hread : readBlockBody literal parent chomping increment b.skipBreak = .ok (s, b'))
    (hnil : b'.rest = []) :
    ∃ rows, b.rest = BlockRow.written rows ∧ s.toList = BlockRow.read rows := by
  have hleft : b.readBreak.2.rest.length ≤ b.readBreak.2.left :=
    hsound.readBreak.left_eq ▸ Cursor.length_le_bytesIn _
  rw [Cursor.skipBreak, readBlockBody] at hread
  dsimp only at hread
  cases hskip : readBlankLines (increment.map fun n => parent.toNat + n) (b.readBreak.2.left + 2)
      ⟨[], 0⟩ b.readBreak.2 with
  | error fault =>
    rw [hskip] at hread
    cases hread
  | ok p =>
    rw [hskip] at hread
    simp only [bind, Except.bind] at hread
    split at hread
    · cases hread
    · rename_i q hlines
      cases hread
      obtain ⟨gap, hgap, hparts, hpeek, hfeeds⟩ := exists_partsLines hbreak (by omega) hskip
      have hlength : p.2.rest.length ≤ b.readBreak.2.rest.length := by
        obtain ⟨more, hmore, -⟩ :=
          exists_gap_of_readBlankLines (by omega) (by simp [AreFeeds]) hskip
        rw [hmore, List.length_append]
        omega
      rw [hgap] at hfirm ⊢
      obtain ⟨rows, hrows, hacc, hpending, hblank⟩ := exists_rows_of_readBlockLines (by omega)
        hparts hfirm hpeek (by simp [AreFeeds]) hfeeds hlines hnil
      refine ⟨rows, hrows, ?_⟩
      rw [← List.nil_append (BlockRow.read rows), ← List.reverse_nil, ← hacc]
      cases chomping <;> simp [chomped, hpending, hblank]

/-- An indentation digit is in the line. -/
theorem inRow_readIncrement {increment : Option Nat}
    (hread : readIncrement b = .ok (increment, b')) : b.InRow b' := by
  rw [readIncrement] at hread
  split at hread
  · cases hread
  · split at hread
    · rename_i hdigit
      cases hread
      refine Cursor.inRow_skip_one ?_
      rw [← Bool.not_eq_true]
      intro hbreak
      have hgap : isGap b.peek = true := by rw [isGap, hbreak, Bool.or_true]
      exact forall_gap (P := fun ch => ¬ ('1' ≤ ch ∧ ch ≤ '9')) (by decide) hgap hdigit
    · cases hread
      exact .refl b

/-- The indicators of a block are in the line. -/
theorem inRow_readIndicators {chomping : Chomping} {increment : Option Nat}
    (hread : readIndicators b = .ok (chomping, increment, b')) : b.InRow b' := by
  have hchomping : ∀ {c : Cursor} {found}, chomping? c.peek = some found → c.InRow (c.skip 1) := by
    intro c found hc
    refine Cursor.inRow_skip_one ?_
    rw [← Bool.not_eq_true]
    intro hbreak
    have hgap : isGap c.peek = true := by rw [isGap, hbreak, Bool.or_true]
    have hnone := forall_gap (P := fun ch => chomping? ch = none) (by decide) hgap
    rw [hnone] at hc
    cases hc
  rw [readIndicators] at hread
  split at hread
  · rename_i hfirst
    cases hdigit : readIncrement (b.skip 1) with
    | error fault =>
      rw [hdigit] at hread
      cases hread
    | ok p =>
      rw [hdigit] at hread
      cases hread
      exact (hchomping hfirst).trans (inRow_readIncrement hdigit)
  · cases hdigit : readIncrement b with
    | error fault =>
      rw [hdigit] at hread
      cases hread
    | ok p =>
      rw [hdigit] at hread
      simp only [bind, Except.bind] at hread
      have hfirst := inRow_readIncrement hdigit
      split at hread
      · rename_i hsecond
        cases hread
        split at hsecond
        · exact hfirst.trans (hchomping hsecond)
        · cases hsecond
      · cases hread
        exact hfirst

/-- A block that has taken all of a text behind its header. -/
def ReachesBack (text block : List Char) : Prop :=
  ∃ before mark header rows, text = before ++ mark :: (header ++ BlockRow.written rows) ∧
    (mark = '|' ∨ mark = '>') ∧ (∀ ch ∈ header, isBreak ch = false) ∧ block = BlockRow.read rows

/-- A block that ends where the text does reaches back to its header. -/
theorem reachesBack_readBlock {mark : Char} (hmark : mark = '|' ∨ mark = '>')
    (hb : mark :: b.rest <:+ text) (hsound : b.IsSound)
    (hfirm : ∀ ch, b.rest.getLast? = some ch → isGap ch = false) {parent : Int} {s : String}
    (hread : readBlock literal parent b = .ok (s, b')) (hnil : b'.rest = []) :
    ReachesBack text s.toList := by
  obtain ⟨before, rfl⟩ := hb
  rw [readBlock_eq] at hread
  cases hindicators : readIndicators b with
  | error fault =>
    rw [hindicators] at hread
    cases hread
  | ok p =>
    rw [hindicators] at hread
    simp only [bind, Except.bind] at hread
    split at hread
    · cases hread
    · rename_i hend
      have hrow := (inRow_readIndicators hindicators).trans (Cursor.inRow_skipComment p.2.2)
      obtain ⟨header, hheader, hline⟩ := hrow.exists_eq
      rw [Bool.not_eq_true, Bool.not_eq_false', isBreakOrEnd, Bool.or_eq_true] at hend
      obtain hbreak | hend := hend
      · rw [hheader] at hfirm
        obtain ⟨rows, hrows, hs⟩ := exists_rows_of_readBlockBody (hrow.isSound hsound) hbreak
          (firm_of_suffix hfirm) hread hnil
        exact ⟨before, mark, header, rows, by rw [hheader, hrows], hmark, hline, hs⟩
      · have hend := beq_iff_eq.mp hend
        rw [Cursor.skipBreak_of_end hend, readBlockBody_of_end hend] at hread
        cases hread
        exact ⟨before, mark, header, [], by rw [hheader, hnil]; rfl, hmark, hline, rfl⟩

end Scalar

end ManifestRules.Yaml
