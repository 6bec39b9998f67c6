import ManifestRules.Yaml.Cursor
import Mathlib.Data.List.TakeWhile
/-!
# Places in a text with white space around it

A text is read once as it is and once without the blank lines before it and the white space behind
it. Two cursors are at the same place if they have the same text in front of them, up to that white
space (`Cursor.Padded`). What is asked of the next characters mostly does not tell white space from
the end (`Blind`), so a reader does the same at both cursors and leaves them at the same place
(`Keeps`).
-/

namespace ManifestRules.Yaml

/-- The characters that part tokens without being one. -/
def gapChars : List Char := [' ', '\t', '\n', '\r', '\u0085', '\u2028', '\u2029']

/-- A space, a tab or a line break. -/
def isGap (c : Char) : Bool := isSpace c || isBreak c

/-- Gaps are made of seven characters. -/
theorem isGap_iff {c : Char} : isGap c = true ↔ c ∈ gapChars := by
  simp [isGap, isSpace, isBreak, gapChars, or_assoc]

/-- Gaps and the end are told from all other characters in the same way. -/
theorem isGapOrEnd_eq (c : Char) : isGapOrEnd c = (isGap c || c == endMark) := by
  rw [isGapOrEnd, isBreakOrEnd, isGap, Bool.or_assoc]

/-- What is asked of a character has the same answer in every gap as at the end. -/
def Blind {α : Type} (p : Char → α) : Prop := ∀ g, isGap g = true → p g = p endMark

/-- What holds of the seven characters holds of every gap. -/
theorem forall_gap {P : Char → Prop} [DecidablePred P] (h : gapChars.all (fun g => decide (P g)) = true)
    {g : Char} (hg : isGap g = true) : P g :=
  of_decide_eq_true (List.all_eq_true.mp h g (isGap_iff.mp hg))

/-- It can be tried out whether a question tells gaps from the end. -/
instance {α : Type} [DecidableEq α] (p : Char → α) : Decidable (Blind p) :=
  decidable_of_iff (gapChars.all (fun g => decide (p g = p endMark)) = true)
    ⟨fun h _ hg => forall_gap h hg, fun h => List.all_eq_true.mpr fun g hg =>
      decide_eq_true (h g (isGap_iff.mpr hg))⟩

namespace Cursor

/-- Characters are counted one behind the other. -/
theorem bytesIn_cons (c : Char) (cs : List Char) : bytesIn (c :: cs) = c.utf8Size + bytesIn cs := by
  have hshift : ∀ (cs : List Char) (n : Nat),
      cs.foldl (fun n c => n + c.utf8Size) n = n + bytesIn cs := by
    intro cs
    induction cs with
    | nil => intro n; rfl
    | cons d cs ih =>
      intro n
      rw [bytesIn, List.foldl_cons, List.foldl_cons, ih, ih (0 + d.utf8Size)]
      omega
  rw [bytesIn, List.foldl_cons, hshift, Nat.zero_add]

/-- The bytes of two texts add up. -/
theorem bytesIn_append (s t : List Char) : bytesIn (s ++ t) = bytesIn s + bytesIn t := by
  induction s with
  | nil => rw [List.nil_append, show bytesIn [] = 0 from rfl, Nat.zero_add]
  | cons c s ih => rw [List.cons_append, bytesIn_cons, bytesIn_cons, ih, Nat.add_assoc]

/-- Every character takes a byte at least. -/
theorem length_le_bytesIn (s : List Char) : s.length ≤ bytesIn s := by
  induction s with
  | nil => exact Nat.le_refl 0
  | cons c s ih =>
    have hc : 0 < c.utf8Size := c.utf8Size_pos
    rw [List.length_cons, bytesIn_cons]
    omega

/-- The bytes behind the cursor and the ones in front of it are those of the text. -/
def IsSound (c : Cursor) : Prop := c.index + bytesIn c.rest = c.size

/-- The bytes still to be read are those of the rest. -/
theorem IsSound.left_eq {c : Cursor} (hc : c.IsSound) : c.left = bytesIn c.rest := by
  rw [IsSound] at hc
  rw [left]
  omega

/-- A cursor keeps count of what it moves over. -/
theorem IsSound.skip {c : Cursor} (hc : c.IsSound) (k : Nat) : (c.skip k).IsSound := by
  have hparts := bytesIn_append (c.rest.take k) (c.rest.drop k)
  rw [List.take_append_drop] at hparts
  rw [IsSound] at hc ⊢
  simp only [Cursor.skip]
  omega

/-- Moving twice is moving once by the sum. -/
theorem skip_skip (c : Cursor) (j k : Nat) : (c.skip j).skip k = c.skip (j + k) := by
  simp only [skip, List.drop_drop, List.take_add, bytesIn_append, Nat.add_assoc]

/-- Move over spaces and a comment behind them. -/
def skipComment (c : Cursor) : Cursor :=
  let c := c.skipWhile isSpace
  if c.peek == '#' then c.skipLine else c

/-- Move over a byte order mark at the start of a line. -/
def skipMark (c : Cursor) : Cursor :=
  if c.column == 0 && c.peek == byteOrderMark then c.skip 1 else c

/-- Move over a byte order mark, spaces, perhaps tabs, and a comment. -/
def skipRow (tabs : Bool) (c : Cursor) : Cursor :=
  let c := c.skipMark.skipWhile fun ch => ch == ' ' || (tabs && ch == '\t')
  if c.peek == '#' then c.skipLine else c

/-- How many characters the line break at the start of a text has. -/
def breakSize (s : List Char) : Nat :=
  if s.take 2 = ['\r', '\n'] then 2 else if s.head?.any isBreak then 1 else 0

/-- What the line break at the start of a text is read as. -/
def breakText (s : List Char) : List Char :=
  if s.take 2 = ['\r', '\n'] then ['\n']
  else (s.take (breakSize s)).map fun ch => if ch = '\u2028' ∨ ch = '\u2029' then ch else '\n'

/-- A line break is read by moving over its characters and on to the next line. -/
theorem readBreak_eq (c : Cursor) :
    c.readBreak = (breakText c.rest,
      if breakSize c.rest = 0 then c
      else { c.skip (breakSize c.rest) with line := c.line + 1, column := 0 }) := by
  rw [readBreak]
  split
  · rename_i rest hrest
    have hindex : bytesIn ['\r', '\n'] = 2 := rfl
    simp [hrest, breakText, breakSize, Cursor.skip, hindex]
  · rename_i ch rest hpair hrest
    have hne : ¬ (ch :: rest).take 2 = ['\r', '\n'] := by
      intro htake
      cases rest with
      | nil => cases htake
      | cons d more =>
        obtain ⟨hr, hn⟩ : ch = '\r' ∧ d = '\n' := by simpa using htake
        exact hpair more hr (by rw [hn])
    have hone : bytesIn [ch] = ch.utf8Size := bytesIn_cons ch []
    rw [hrest, breakText, breakSize, if_neg hne, if_neg hne]
    split
    · rename_i hch
      simp [hch, Cursor.skip, hrest, hone]
    · rename_i hch
      simp [hch]
  · rename_i hrest
    simp [hrest, breakText, breakSize]

/-- A line break is read in the same way whatever white space comes behind the text. -/
theorem break_append {s : List Char} (hs : s ≠ [])
    (hfirm : ∀ ch, s.getLast? = some ch → isGap ch = false) (gap : List Char) :
    breakSize (s ++ gap) = breakSize s ∧ breakText (s ++ gap) = breakText s := by
  match s with
  | [ch] =>
    have hgap : isGap ch = false := hfirm ch rfl
    have hch : isBreak ch = false := (Bool.or_eq_false_iff.mp hgap).2
    have hr : ch ≠ '\r' := by
      rintro rfl
      cases hch
    simp [breakSize, breakText, hch, hr]
  | ch :: d :: more =>
    have hsize : breakSize (ch :: d :: more ++ gap) = breakSize (ch :: d :: more) := rfl
    have htake : (ch :: d :: more ++ gap).take (breakSize (ch :: d :: more)) =
        (ch :: d :: more).take (breakSize (ch :: d :: more)) := by
      refine List.take_append_of_le_length ?_
      rw [breakSize]
      split
      · simp
      · split <;> simp
    refine ⟨hsize, ?_⟩
    rw [breakText, hsize, htake]
    rfl

/-- What a line break is made of. -/
theorem isBreak_of_mem_take {s : List Char} : ∀ ch ∈ s.take (breakSize s), isBreak ch = true := by
  rw [breakSize]
  split
  · rename_i hpair
    rw [hpair]
    exact List.all_eq_true.mp (by decide)
  · split
    · rename_i hhead
      cases s with
      | nil => simp
      | cons ch rest => simpa using hhead
    · simp

/-- The characters that a line break is read as break lines too. -/
theorem isBreak_of_mem_breakText {s : List Char} : ∀ ch ∈ breakText s, isBreak ch = true := by
  rw [breakText]
  split
  · exact List.all_eq_true.mp (by decide)
  · intro ch hch
    obtain ⟨d, hd, rfl⟩ := List.mem_map.mp hch
    split
    · exact isBreak_of_mem_take d hd
    · rfl

/-- At the end there is no character. -/
theorem peek_of_nil {c : Cursor} (hc : c.rest = []) : c.peek = endMark := by
  rw [peek, peekAt, hc]
  rfl

/-- The next character is the first one that is left. -/
theorem peek_of_cons {c : Cursor} {ch : Char} {rest : List Char} (hc : c.rest = ch :: rest) :
    c.peek = ch := by
  rw [peek, peekAt, hc]
  rfl

/-- The next character stands in front of what is behind it. -/
theorem rest_eq_cons {c : Cursor} (hc : c.rest ≠ []) : c.rest = c.peek :: (c.skip 1).rest := by
  obtain ⟨ch, rest, hrest⟩ := List.exists_cons_of_ne_nil hc
  rw [peek_of_cons hrest, skip, hrest]
  rfl

/-- Reading a line break moves over its characters. -/
theorem rest_readBreak (c : Cursor) : c.readBreak.2.rest = c.rest.drop (breakSize c.rest) := by
  rw [readBreak_eq]
  dsimp only
  split
  · rename_i hsize
    rw [hsize, List.drop_zero]
  · rfl

/-- A line break has characters. -/
theorem breakSize_ne_zero {c : Cursor} (hc : isBreak c.peek = true) : breakSize c.rest ≠ 0 := by
  cases hrest : c.rest with
  | nil =>
    rw [peek_of_nil hrest] at hc
    cases hc
  | cons ch rest =>
    rw [peek_of_cons hrest] at hc
    rw [breakSize]
    split
    · decide
    · simp [hc]

/-- At the end no line break is read. -/
theorem readBreak_of_nil {c : Cursor} (hc : c.rest = []) : c.readBreak = ([], c) := by
  rw [readBreak_eq, hc]
  rfl

/-- At the end there is no line break to move over. -/
theorem skipBreak_of_end {c : Cursor} (hc : c.peek = endMark) : c.skipBreak = c := by
  have hsize : breakSize c.rest = 0 := by
    cases hrest : c.rest with
    | nil => rfl
    | cons ch rest =>
      rw [peek_of_cons hrest] at hc
      rw [hc, breakSize, if_neg (by simp [endMark])]
      rfl
  rw [skipBreak, readBreak_eq, if_pos hsize]

/-- What is read while a property holds ends where it does not. -/
theorem peek_takeWhile {c : Cursor} {p : Char → Bool} (hmore : (c.takeWhile p).2.rest ≠ []) :
    p (c.takeWhile p).2.peek = false := by
  have hdrop : (c.takeWhile p).2.rest = c.rest.dropWhile p := by
    have hparts : c.rest.takeWhile p ++ c.rest.dropWhile p = c.rest := List.takeWhile_append_dropWhile
    calc (c.takeWhile p).2.rest = c.rest.drop (c.rest.takeWhile p).length := rfl
      _ = (c.rest.takeWhile p ++ c.rest.dropWhile p).drop (c.rest.takeWhile p).length := by rw [hparts]
      _ = c.rest.dropWhile p := List.drop_left
  rw [hdrop] at hmore
  have hhead := List.head_dropWhile_not p hmore
  rw [peek, peekAt, hdrop, List.getD_eq_getElem?_getD, ← List.head?_eq_getElem?,
    List.head?_eq_some_head hmore]
  exact hhead

/-- A cursor keeps count of the line breaks that it moves over. -/
theorem IsSound.readBreak {c : Cursor} (hc : c.IsSound) : c.readBreak.2.IsSound := by
  rw [readBreak_eq]
  dsimp only
  split
  · exact hc
  · exact hc.skip (breakSize c.rest)

end Cursor

/-- A text and what stands around it. -/
structure Frame where
  /-- How many lines come before the text. -/
  lines : Nat
  /-- How many bytes come before it. -/
  bytes : Nat
  /-- The text itself. -/
  text : List Char
  /-- The white space behind it. -/
  tail : List Char

namespace Cursor

/-- The cursor `c` is at the same place of a text with white space around it as `b` is of the text
itself, of which at most `n` characters are left. -/
structure Padded (o : Frame) (n : Nat) (c b : Cursor) : Prop where
  /-- Only white space comes behind the text. -/
  rest : ∃ gap, c.rest = b.rest ++ gap ∧ ∀ ch ∈ gap, isGap ch = true
  /-- The text itself has none at its end. -/
  firm : ∀ ch, b.rest.getLast? = some ch → isGap ch = false
  /-- What is left is the end of the text. -/
  inside : b.rest <:+ o.text
  /-- Behind it there is the end of the white space. -/
  behind : c.rest.drop b.rest.length <:+ o.tail
  /-- In the text the places agree. -/
  here : b.rest ≠ [] → c.line = b.line + o.lines ∧ c.column = b.column ∧ c.index = b.index + o.bytes
  /-- The line is never too small. -/
  line_le : b.line + o.lines ≤ c.line
  /-- The index is never too small. -/
  index_le : b.index + o.bytes ≤ c.index
  /-- The cursor with white space counts bytes. -/
  sound : c.IsSound
  /-- So does the other one. -/
  bareSound : b.IsSound
  /-- There is not more than that in front of it. -/
  within : b.rest.length ≤ n

namespace Padded

variable {o : Frame} {n m : Nat} {c b : Cursor}

/-- The bound may be larger. -/
theorem mono (h : Padded o n c b) (hm : b.rest.length ≤ m) : Padded o m c b :=
  { h with within := hm }

/-- The bytes that are left bound the characters that are. -/
theorem length_le_left (h : Padded o n c b) : b.rest.length ≤ b.left := by
  rw [h.bareSound.left_eq]
  exact length_le_bytesIn b.rest

/-- White space behind the text adds to the bytes that are left. -/
theorem left_le (h : Padded o n c b) : b.left ≤ c.left := by
  obtain ⟨gap, hrest, -⟩ := h.rest
  rw [h.sound.left_eq, h.bareSound.left_eq, hrest, bytesIn_append]
  exact Nat.le_add_right _ _

/-- Every character of the text is the same. -/
theorem peekAt_eq (h : Padded o n c b) {k : Nat} (hk : k < b.rest.length) :
    c.peekAt k = b.peekAt k := by
  obtain ⟨gap, hrest, -⟩ := h.rest
  simp only [peekAt, hrest, List.getD_eq_getElem?_getD, List.getElem?_append_left hk]

/-- The next character is the same as long as there is one. -/
theorem peek_eq (h : Padded o n c b) (hne : b.rest ≠ []) : c.peek = b.peek :=
  h.peekAt_eq (List.length_pos_iff.mpr hne)

/-- Behind the text one cursor finds white space or the end and the other one the end. -/
theorem peekAt_blind (h : Padded o n c b) {α : Type} {p : Char → α} (hp : Blind p)
    (k : Nat) : p (c.peekAt k) = p (b.peekAt k) := by
  by_cases hk : k < b.rest.length
  · rw [h.peekAt_eq hk]
  · obtain ⟨gap, hrest, hgap⟩ := h.rest
    have hend : b.peekAt k = endMark := by
      rw [peekAt, List.getD_eq_getElem?_getD, List.getElem?_eq_none (by omega)]
      rfl
    rw [hend, peekAt, hrest, List.getD_eq_getElem?_getD, List.getElem?_append_right (by omega)]
    cases hg : gap[k - b.rest.length]? with
    | none => rfl
    | some g => exact hp g (hgap g (List.mem_of_getElem? hg))

/-- The same for the next character. -/
theorem peek_blind (h : Padded o n c b) {α : Type} {p : Char → α} (hp : Blind p) :
    p c.peek = p b.peek :=
  h.peekAt_blind hp 0

/-- A character other than the end is in front of the cursor. -/
theorem rest_ne_nil {p : Char → Bool} (hp : p endMark = false) (hb : p b.peek = true) :
    b.rest ≠ [] := by
  intro hnil
  rw [peek_of_nil hnil, hp] at hb
  cases hb

/-- Nothing but the end comes behind the text. -/
theorem rest_ne_nil_of_not_end (hb : isGapOrEnd b.peek = false) : b.rest ≠ [] :=
  rest_ne_nil (p := fun ch => !isGapOrEnd ch) rfl (by simp [hb])

/-- White space or the end comes behind the text. -/
theorem isGapOrEnd_peek (h : Padded o n c b) (hnil : b.rest = []) :
    isGapOrEnd c.peek = true := by
  have hend : isGapOrEnd b.peek = true := by
    rw [peek_of_nil hnil]
    rfl
  rw [h.peek_blind (p := isGapOrEnd) (by decide), hend]

/-- As long as there are characters the end is not reached, or it is for both. -/
theorem atEnd_eq (h : Padded o n c b) (hne : b.rest ≠ []) : c.atEnd = b.atEnd := by
  rw [atEnd, atEnd, h.peek_eq hne]

/-- Markers of documents are found in the text only. -/
theorem atMarker_eq (h : Padded o n c b) {ch : Char} (hch : ch = '-' ∨ ch = '.') :
    c.atMarker ch = b.atMarker ch := by
  have hblind : Blind fun d => d == ch := by obtain rfl | rfl := hch <;> decide
  have hend : (endMark == ch) = false := by obtain rfl | rfl := hch <;> rfl
  have hgap : Blind isGapOrEnd := by decide
  rw [atMarker, atMarker]
  have h0 := h.peekAt_blind hblind 0
  have h1 := h.peekAt_blind hblind 1
  have h2 := h.peekAt_blind hblind 2
  have h3 := h.peekAt_blind hgap 3
  rw [h0, h1, h2, h3]
  by_cases hne : b.rest = []
  · have hpeek : (b.peekAt 0 == ch) = false := by
      rw [peekAt, hne]
      exact hend
    simp only [hpeek, Bool.and_false, Bool.false_and]
  · rw [(h.here hne).2.1]

/-- The lines that part documents are found in the text only. -/
theorem atDocumentMarker_eq (h : Padded o n c b) :
    c.atDocumentMarker = b.atDocumentMarker := by
  rw [atDocumentMarker, atDocumentMarker, h.atMarker_eq (.inl rfl), h.atMarker_eq (.inr rfl)]

/-- As long as there are characters the bound is positive. -/
theorem pos (h : Padded o n c b) (hne : b.rest ≠ []) : 0 < n :=
  Nat.lt_of_lt_of_le (List.length_pos_iff.mpr hne) h.within

/-- Behind the text there is only white space. -/
theorem isGap_of_nil (h : Padded o n c b) (hnil : b.rest = []) :
    ∀ ch ∈ c.rest, isGap ch = true := by
  obtain ⟨gap, hrest, hgap⟩ := h.rest
  rw [hrest, hnil]
  exact hgap

/-- Moving over characters leads to the same place. -/
theorem skip (h : Padded o n c b) (k : Nat) :
    Padded o (n - k) (c.skip k) (b.skip k) := by
  obtain ⟨gap, hrest, hgap⟩ := h.rest
  have htake : bytesIn (b.rest.take k) ≤ bytesIn (c.rest.take k) := by
    rw [hrest, List.take_append, bytesIn_append]
    omega
  refine
    { rest := ⟨gap.drop (k - b.rest.length), ?_, fun ch hch => hgap ch (List.mem_of_mem_drop hch)⟩
      firm := ?_
      inside := (List.drop_suffix k _).trans h.inside
      behind := ?_
      here := ?_
      line_le := h.line_le
      index_le := ?_
      sound := h.sound.skip k
      bareSound := h.bareSound.skip k
      within := ?_ }
  · simp only [Cursor.skip, hrest, List.drop_append]
  · intro ch hch
    simp only [Cursor.skip, List.getLast?_drop] at hch
    split at hch
    · cases hch
    · exact h.firm ch hch
  · have hdrop : (c.rest.drop k).drop (b.rest.drop k).length =
        (c.rest.drop b.rest.length).drop (k - b.rest.length) := by
      rw [List.drop_drop, List.drop_drop, List.length_drop]
      congr 1
      omega
    simp only [Cursor.skip, hdrop]
    exact (List.drop_suffix _ _).trans h.behind
  · intro hne
    have hk : k < b.rest.length := by
      by_contra hlong
      exact hne (List.drop_eq_nil_of_le (by omega))
    obtain ⟨hline, hcolumn, hindex⟩ := h.here (List.ne_nil_of_length_pos (by omega))
    have hsame : c.rest.take k = b.rest.take k := by
      rw [hrest, List.take_append_of_le_length (by omega)]
    refine ⟨hline, ?_, ?_⟩
    · simp only [Cursor.skip, hcolumn]
    · simp only [Cursor.skip, hsame, hindex]
      omega
  · have hindex := h.index_le
    simp only [Cursor.skip]
    omega
  · have hwithin := h.within
    simp only [Cursor.skip, List.length_drop]
    omega

/-- Moving over characters does not lead back. -/
theorem skip_le (h : Padded o n c b) (k : Nat) :
    Padded o n (c.skip k) (b.skip k) :=
  (h.skip k).mono ((h.skip k).within.trans (Nat.sub_le n k))

/-- Behind the text one cursor may go on through white space. -/
theorem past (h : Padded o n c b) (hnil : b.rest = []) {d : Cursor}
    (hrest : d.rest <:+ c.rest) (hline : c.line ≤ d.line) (hindex : c.index ≤ d.index)
    (hd : d.IsSound) : Padded o n d b :=
  { h with
    rest := ⟨d.rest, by rw [hnil]; rfl, fun ch hch => h.isGap_of_nil hnil ch (hrest.subset hch)⟩
    behind := by
      have hbehind := h.behind
      rw [hnil] at hbehind ⊢
      exact hrest.trans hbehind
    here := fun hne => absurd hnil hne
    line_le := h.line_le.trans hline
    index_le := h.index_le.trans hindex
    sound := hd }

/-- Moving to the end of the text leads to the same place, however far it is. -/
theorem skip_to_end (h : Padded o n c b) (hk : (b.skip m).rest = []) (k : Nat) :
    Padded o n (c.skip (m + k)) (b.skip m) := by
  refine (h.skip_le m).past hk ?_ (Nat.le_refl _) ?_ (h.sound.skip _)
  · rw [← skip_skip]
    exact List.drop_suffix k _
  · rw [← skip_skip]
    exact Nat.le_add_right _ _

/-- Behind the text one cursor may be moved over white space. -/
theorem past_skip (h : Padded o n c b) (hnil : b.rest = []) (k : Nat) :
    Padded o n (c.skip k) b :=
  h.past hnil (List.drop_suffix k _) (Nat.le_refl _) (Nat.le_add_right _ _) (h.sound.skip k)

/-- Behind the text one cursor may be moved over a line break. -/
theorem past_readBreak (h : Padded o n c b) (hnil : b.rest = []) :
    Padded o n c.readBreak.2 b := by
  refine h.past hnil ?_ ?_ ?_ h.sound.readBreak
  all_goals
    rw [readBreak_eq]
    dsimp only
    split
  · exact List.suffix_refl _
  · exact List.drop_suffix _ _
  · exact Nat.le_refl _
  · exact Nat.le_succ _
  · exact Nat.le_refl _
  · exact Nat.le_add_right _ _

/-- Characters that are not white space are read up to the same place. -/
theorem takeWhile (h : Padded o n c b) {p : Char → Bool}
    (hp : ∀ g, isGap g = true → p g = false) :
    (c.takeWhile p).1 = (b.takeWhile p).1 ∧
      Padded o n (c.takeWhile p).2 (b.takeWhile p).2 := by
  obtain ⟨gap, hrest, hgap⟩ := h.rest
  have hnone : gap.takeWhile p = [] := by
    cases gap with
    | nil => rfl
    | cons g gap => simp [hp g (hgap g List.mem_cons_self)]
  have hsame : c.rest.takeWhile p = b.rest.takeWhile p := by
    rw [hrest, List.takeWhile_append]
    split
    · rename_i hall
      rw [hnone, List.append_nil, (List.takeWhile_prefix p).eq_of_length hall]
    · rfl
  refine ⟨hsame, ?_⟩
  simp only [Cursor.takeWhile, hsame]
  exact h.skip_le _

/-- Moving over the characters with a property leads to the same place, also if white space has
it. -/
theorem skipWhile (h : Padded o n c b) (p : Char → Bool) :
    Padded o n (c.skipWhile p) (b.skipWhile p) := by
  obtain ⟨gap, hrest, -⟩ := h.rest
  simp only [Cursor.skipWhile, Cursor.takeWhile, hrest, List.takeWhile_append]
  split
  · rename_i hall
    rw [hall]
    rw [List.length_append]
    exact h.skip_to_end (List.drop_eq_nil_of_le (Nat.le_refl _)) _
  · exact h.skip_le _

/-- Characters that end in the text are the same. -/
theorem takeWhile_eq (h : Padded o n c b) {p : Char → Bool}
    (hmore : (b.takeWhile p).2.rest ≠ []) : (c.takeWhile p).1 = (b.takeWhile p).1 := by
  obtain ⟨gap, hrest, -⟩ := h.rest
  have hne : (b.rest.takeWhile p).length ≠ b.rest.length := by
    intro hlength
    refine hmore (List.drop_eq_nil_of_le ?_)
    rw [hlength]
  simp only [Cursor.takeWhile, hrest, List.takeWhile_append, if_neg hne]

/-- Characters that do not end in the text may be followed by white space. -/
theorem exists_takeWhile (h : Padded o n c b) {p : Char → Bool}
    (hlast : (b.takeWhile p).2.rest = []) :
    ∃ gap, (c.takeWhile p).1 = (b.takeWhile p).1 ++ gap ∧ ∀ ch ∈ gap, isGap ch = true := by
  obtain ⟨gap, hrest, hgap⟩ := h.rest
  have hall : (b.rest.takeWhile p).length = b.rest.length :=
    Nat.le_antisymm (List.takeWhile_prefix p).length_le (List.drop_eq_nil_iff.mp hlast)
  refine ⟨gap.takeWhile p, ?_, fun ch hch => hgap ch (List.takeWhile_subset p hch)⟩
  simp only [Cursor.takeWhile, hrest, List.takeWhile_append, if_pos hall]
  rw [(List.takeWhile_prefix p).eq_of_length hall]

/-- Behind the text there is at most a line feed, if that is all the white space. -/
theorem rest_of_lineFeed (h : Padded o n c b) (hnil : b.rest = []) (htail : o.tail = ['\n']) :
    c.rest = [] ∨ c.rest = ['\n'] := by
  have hbehind := h.behind
  rw [hnil, htail, List.length_nil, List.drop_zero] at hbehind
  obtain hfeed | hnone := List.suffix_cons_iff.mp hbehind
  · exact .inr hfeed
  · exact .inl (List.suffix_nil.mp hnone)

/-- Behind the text at most a line feed is read as a line break, if that is all the white space. -/
theorem readBreak_of_lineFeed (h : Padded o n c b) (hnil : b.rest = []) (htail : o.tail = ['\n']) :
    (c.readBreak.1 = [] ∨ c.readBreak.1 = ['\n']) ∧ c.readBreak.2.rest = [] := by
  rw [readBreak_eq]
  obtain hrest | hrest := h.rest_of_lineFeed hnil htail
  · rw [hrest]
    exact ⟨.inl rfl, hrest⟩
  · rw [hrest]
    exact ⟨.inr rfl, congrArg (List.drop 1) hrest⟩

/-- A line is the same if a line feed is all the white space behind the text. -/
theorem takeWhile_of_lineFeed (h : Padded o n c b) (htail : o.tail = ['\n']) {p : Char → Bool}
    (hp : p '\n' = false) : (c.takeWhile p).1 = (b.takeWhile p).1 := by
  obtain ⟨gap, hrest, -⟩ := h.rest
  have hbehind := h.behind
  rw [hrest, htail, List.drop_left] at hbehind
  have hnone : gap.takeWhile p = [] := by
    obtain rfl | hnone := List.suffix_cons_iff.mp hbehind
    · rw [List.takeWhile_cons, hp, if_neg Bool.false_ne_true]
    · rw [List.suffix_nil.mp hnone, List.takeWhile_nil]
  simp only [Cursor.takeWhile, hrest, List.takeWhile_append, hnone, List.append_nil]
  split
  · rename_i hall
    exact ((List.takeWhile_prefix p).eq_of_length hall).symm
  · rfl

/-- Moving to the end of the line leads to the same place. -/
theorem skipLine (h : Padded o n c b) : Padded o n c.skipLine b.skipLine :=
  h.skipWhile _

/-- Moving over spaces and a comment leads to the same place. -/
theorem skipComment (h : Padded o n c b) :
    Padded o n c.skipComment b.skipComment := by
  have hspaces := h.skipWhile isSpace
  rw [Cursor.skipComment, Cursor.skipComment, hspaces.peek_blind (p := (· == '#')) (by decide)]
  split
  · exact hspaces.skipLine
  · exact hspaces

/-- Moving over a byte order mark leads to the same place. -/
theorem skipMark (h : Padded o n c b) :
    Padded o n c.skipMark b.skipMark := by
  have hmark : (c.column == 0 && c.peek == byteOrderMark) =
      (b.column == 0 && b.peek == byteOrderMark) := by
    by_cases hne : b.rest = []
    · have hpeek : (b.peek == byteOrderMark) = false := by
        rw [peek_of_nil hne]
        rfl
      rw [h.peek_blind (p := (· == byteOrderMark)) (by decide), hpeek, Bool.and_false, Bool.and_false]
    · rw [h.peek_eq hne, (h.here hne).2.1]
  rw [Cursor.skipMark, Cursor.skipMark, hmark]
  split
  · exact h.skip_le 1
  · exact h

/-- Moving over the gap in a line leads to the same place. -/
theorem skipRow (h : Padded o n c b) (tabs : Bool) :
    Padded o n (c.skipRow tabs) (b.skipRow tabs) := by
  have hspaces := h.skipMark.skipWhile fun ch => ch == ' ' || (tabs && ch == '\t')
  rw [Cursor.skipRow, Cursor.skipRow, hspaces.peek_blind (p := (· == '#')) (by decide)]
  split
  · exact hspaces.skipLine
  · exact hspaces

/-- At the end there is no gap. -/
theorem skipRow_of_nil (hnil : b.rest = []) (tabs : Bool) : b.skipRow tabs = b := by
  have hpeek := peek_of_nil hnil
  have hstay : ∀ p, b.skipWhile p = b := by
    intro p
    rw [Cursor.skipWhile, Cursor.takeWhile, hnil]
    rfl
  have hmark : b.skipMark = b := by
    rw [Cursor.skipMark, hpeek, if_neg]
    rw [Bool.and_eq_true]
    exact fun hboth => by cases hboth.2
  rw [Cursor.skipRow, hmark, hstay, hpeek]
  rfl

/-- If one cursor is at the end of a line, then so is the other one. -/
theorem isBreakOrEnd_peek (h : Padded o n c b) (hc : isBreakOrEnd c.peek = true) :
    isBreakOrEnd b.peek = true := by
  by_cases hne : b.rest = []
  · rw [peek_of_nil hne]
    rfl
  · rwa [← h.peek_eq hne]

/-- A line break in the text is read in the same way. -/
theorem readBreak (h : Padded o n c b) (hne : b.rest ≠ []) :
    c.readBreak.1 = b.readBreak.1 ∧ Padded o n c.readBreak.2 b.readBreak.2 := by
  obtain ⟨gap, hrest, hgap⟩ := h.rest
  obtain ⟨hsize, htext⟩ := break_append hne h.firm gap
  obtain ⟨hline, -, -⟩ := h.here hne
  rw [readBreak_eq, readBreak_eq, hrest, hsize, htext]
  refine ⟨rfl, ?_⟩
  dsimp only
  split
  · exact h
  · have hskip := h.skip_le (breakSize b.rest)
    refine
      { hskip with
        here := ?_
        line_le := ?_ }
    · intro hmore
      exact ⟨by simp only [hline]; omega, rfl, (hskip.here hmore).2.2⟩
    · simp only [hline]
      omega

/-- Moving over a line break leads to the same place, also if it belongs to the white space behind
the text. -/
theorem skipBreak (h : Padded o n c b) :
    Padded o n c.skipBreak b.skipBreak := by
  by_cases hne : b.rest = []
  · rw [skipBreak_of_end (peek_of_nil hne)]
    exact h.past_readBreak hne
  · exact (h.readBreak hne).2

/-- What comes at the end of the text is no white space, so not all of it is. -/
theorem length_lt_of_gap (h : Padded o n c b) (hne : b.rest ≠ []) {s : List Char}
    (hs : s <+: b.rest) (hgap : ∀ ch ∈ s, isGap ch = true) : s.length < b.rest.length := by
  refine Nat.lt_of_le_of_ne hs.length_le ?_
  intro hlength
  have hall : s = b.rest := hs.eq_of_length hlength
  have hlast := h.firm _ (List.getLast?_eq_some_getLast hne)
  rw [hgap _ (by rw [hall]; exact List.getLast_mem hne)] at hlast
  cases hlast

/-- A line break is not the end of the text, and a line feed behind the text is one. -/
theorem skipBreak_of_lineFeed (h : Padded o n c b) (hnil : b.skipBreak.rest = [])
    (htail : o.tail = ['\n']) : c.skipBreak.rest = [] := by
  by_cases hne : b.rest = []
  · exact (h.readBreak_of_lineFeed hne htail).2
  · have hgap : ∀ ch ∈ b.rest.take (breakSize b.rest), isGap ch = true := by
      intro ch hch
      rw [isGap, isBreak_of_mem_take ch hch, Bool.or_true]
    have hlt := h.length_lt_of_gap hne (List.take_prefix _ _) hgap
    rw [Cursor.skipBreak, rest_readBreak, List.drop_eq_nil_iff] at hnil
    rw [List.length_take] at hlt
    omega

/-- White space in the text is not its end, so the cursor is still in the text behind it. -/
theorem takeWhile_lt (h : Padded o n c b) (hne : b.rest ≠ []) {p : Char → Bool}
    (hp : ∀ ch, p ch = true → isGap ch = true) :
    c.rest.takeWhile p = b.rest.takeWhile p ∧ (b.rest.takeWhile p).length < b.rest.length := by
  obtain ⟨gap, hrest, -⟩ := h.rest
  have hlt := h.length_lt_of_gap hne (List.takeWhile_prefix p)
    fun ch hch => hp ch (List.mem_takeWhile_imp hch)
  refine ⟨?_, hlt⟩
  rw [hrest, List.takeWhile_append, if_neg (by omega)]

/-- A space or tab in the text is not its end. -/
theorem skip_lt (h : Padded o n c b) (hgap : isGap b.peek = true) :
    (b.skip 1).rest ≠ [] := by
  have hne : b.rest ≠ [] := rest_ne_nil (by decide) hgap
  obtain ⟨ch, rest, hrest⟩ := List.exists_cons_of_ne_nil hne
  have hch : isGap ch = true := by rwa [peek, peekAt, hrest] at hgap
  have hlt := h.length_lt_of_gap hne (s := [ch]) (by rw [hrest]; exact ⟨rest, rfl⟩) (by simpa using hch)
  simp only [Cursor.skip]
  rw [Ne, List.drop_eq_nil_iff]
  rw [List.length_singleton] at hlt
  omega

/-- Characters ahead among which there is no white space are all in the text. -/
theorem take_drop_eq (h : Padded o n c b) {k w : Nat}
    (hno : ∀ ch ∈ (c.rest.drop k).take w, isGap ch = false) :
    (c.rest.drop k).take w = (b.rest.drop k).take w := by
  obtain ⟨gap, hrest, hgap⟩ := h.rest
  rw [hrest, List.drop_append, List.take_append] at hno ⊢
  have hnone : (gap.drop (k - b.rest.length)).take (w - (b.rest.drop k).length) = [] := by
    rw [List.eq_nil_iff_forall_not_mem]
    intro ch hch
    have hblank := hgap ch (List.mem_of_mem_drop (List.mem_of_mem_take hch))
    rw [hno ch (List.mem_append_right _ hch)] at hblank
    cases hblank
  rw [hnone, List.append_nil]

/-- A line break in the text is not its end, so the cursor is still in the text behind it. -/
theorem readBreak_lt (h : Padded o n c b) (hbreak : isBreak b.peek = true) :
    b.readBreak.2.rest ≠ [] ∧ Padded o (n - 1) c.readBreak.2 b.readBreak.2 := by
  have hne : b.rest ≠ [] := rest_ne_nil (by decide) hbreak
  have hgap : ∀ ch ∈ b.rest.take (breakSize b.rest), isGap ch = true := by
    intro ch hch
    rw [isGap, isBreak_of_mem_take ch hch, Bool.or_true]
  have hlt := h.length_lt_of_gap hne (List.take_prefix _ _) hgap
  have hsize := breakSize_ne_zero hbreak
  have hlength : b.readBreak.2.rest.length = b.rest.length - breakSize b.rest := by
    rw [rest_readBreak, List.length_drop]
  have hwithin := h.within
  rw [List.length_take] at hlt
  refine ⟨List.ne_nil_of_length_pos (by omega), (h.readBreak hne).2.mono (by omega)⟩

end Padded

end Cursor

/-- Lines that hold nothing but spaces, each with its line break. -/
structure IsBlankLines (lead : List Char) : Prop where
  /-- Spaces and line breaks. -/
  blank : ∀ ch ∈ lead, ch = ' ' ∨ isBreak ch = true
  /-- The last line ends as well. -/
  ended : ∀ ch, lead.getLast? = some ch → isBreak ch = true

namespace IsBlankLines

/-- Blank lines can be told by their characters. -/
theorem iff_all (lead : List Char) : lead.all (fun ch => ch == ' ' || isBreak ch) = true ∧
    lead.getLast?.all isBreak = true ↔ IsBlankLines lead := by
  constructor
  · rintro ⟨hblank, hended⟩
    refine ⟨fun ch hch => ?_, fun ch hch => ?_⟩
    · simpa using List.all_eq_true.mp hblank ch hch
    · rwa [hch] at hended
  · intro h
    refine ⟨List.all_eq_true.mpr fun ch hch => by simpa using h.blank ch hch, ?_⟩
    cases hlast : lead.getLast? with
    | none => rfl
    | some ch => exact h.ended ch hlast

/-- It can be tried out whether there are only blank lines. -/
instance (lead : List Char) : Decidable (IsBlankLines lead) := decidable_of_iff _ (iff_all lead)

/-- What comes behind some of the characters of blank lines are blank lines. -/
theorem of_append {s more : List Char} (h : IsBlankLines (s ++ more)) : IsBlankLines more := by
  refine ⟨fun ch hch => h.blank ch (List.mem_append_right s hch), fun ch hch => h.ended ch ?_⟩
  rw [List.getLast?_append, hch]
  rfl

/-- The first of several blank lines. -/
theorem exists_row {lead : List Char} (h : IsBlankLines lead) (hne : lead ≠ []) :
    ∃ spaces ch more, lead = spaces ++ ch :: more ∧ (∀ d ∈ spaces, d = ' ') ∧ isBreak ch = true := by
  induction lead with
  | nil => exact absurd rfl hne
  | cons d lead ih =>
    obtain rfl | hd := h.blank d List.mem_cons_self
    · have hmore : lead ≠ [] := by
        rintro rfl
        exact absurd (h.ended ' ' rfl) (by decide)
      obtain ⟨spaces, ch, more, rfl, hspaces, hch⟩ := ih (h.of_append (s := [' '])) hmore
      exact ⟨' ' :: spaces, ch, more, rfl, List.forall_mem_cons.mpr ⟨rfl, hspaces⟩, hch⟩
    · exact ⟨[], d, lead, rfl, by simp, hd⟩

end IsBlankLines

/-- What a line break leaves of blank lines are blank lines, as long as the text behind them does
not start with the line feed of a pair. -/
theorem IsBlankLines.exists_drop {ch : Char} {more rest : List Char} (hmore : IsBlankLines more)
    (hch : isBreak ch = true) (hrest : rest.head? ≠ some '\n') :
    ∃ later, (ch :: (more ++ rest)).drop (Cursor.breakSize (ch :: (more ++ rest))) = later ++ rest ∧
      IsBlankLines later ∧ later.length ≤ more.length := by
  rw [Cursor.breakSize]
  split
  · rename_i hpair
    cases more with
    | nil =>
      cases rest with
      | nil => cases hpair
      | cons d rest => exact absurd (by simpa using (List.cons.inj hpair).2) hrest
    | cons d more => exact ⟨more, rfl, hmore.of_append (s := [d]), Nat.le_succ _⟩
  · rw [List.head?_cons, Option.any_some, if_pos hch]
    exact ⟨more, rfl, hmore, Nat.le_refl _⟩

/-- A row of spaces is moved over up to its line break. -/
theorem Cursor.skipRow_spaces {c : Cursor} {spaces rest : List Char} {ch : Char}
    (hspaces : ∀ d ∈ spaces, d = ' ') (hch : isBreak ch = true) (hc : c.rest = spaces ++ ch :: rest)
    (tabs : Bool) :
    c.skipRow tabs = c.skip spaces.length ∧ (c.skip spaces.length).rest = ch :: rest := by
  have hother : ∀ d, isBreak d = false → ch ≠ d := by
    rintro d hd rfl
    rw [hch] at hd
    cases hd
  have hmark : c.skipMark = c := by
    rw [skipMark, if_neg]
    rw [Bool.and_eq_true, beq_iff_eq, beq_iff_eq, peek, peekAt, hc]
    rintro ⟨-, hpeek⟩
    cases spaces with
    | nil => exact hother byteOrderMark rfl hpeek
    | cons d spaces =>
      have hspace : d = byteOrderMark := hpeek
      rw [hspaces d List.mem_cons_self] at hspace
      exact absurd hspace (by decide)
  have htake : c.rest.takeWhile (fun ch => ch == ' ' || (tabs && ch == '\t')) = spaces := by
    rw [hc, List.takeWhile_append_of_pos, List.takeWhile_cons_of_neg, List.append_nil]
    · simp [hother ' ' rfl, hother '\t' rfl]
    · intro d hd
      rw [hspaces d hd]
      rfl
  have hskip : (c.skip spaces.length).rest = ch :: rest := by
    rw [skip, hc]
    exact List.drop_left
  refine ⟨?_, hskip⟩
  rw [skipRow, hmark, skipWhile, takeWhile, htake]
  dsimp only
  rw [peek, peekAt, hskip, if_neg]
  rw [beq_iff_eq]
  exact hother '#' rfl

/-- The first of several blank lines is moved over. -/
theorem Cursor.exists_skipRow {c : Cursor} {lead rest : List Char} (hlead : IsBlankLines lead)
    (hne : lead ≠ []) (hc : c.rest = lead ++ rest) (hsound : c.IsSound)
    (hrest : rest.head? ≠ some '\n') (tabs : Bool) :
    isBreak (c.skipRow tabs).peek = true ∧
      ∃ more, (c.skipRow tabs).skipBreak.rest = more ++ rest ∧ IsBlankLines more ∧
        more.length < lead.length ∧ (c.skipRow tabs).skipBreak.column = 0 ∧
        (c.skipRow tabs).skipBreak.IsSound := by
  obtain ⟨spaces, ch, more, rfl, hspaces, hch⟩ := hlead.exists_row hne
  rw [List.append_assoc, List.cons_append] at hc
  have hmore : IsBlankLines more := (hlead.of_append (s := spaces)).of_append (s := [ch])
  obtain ⟨hrow, hskip⟩ := skipRow_spaces hspaces hch hc tabs
  obtain ⟨later, hdrop, hlater, hlength⟩ := hmore.exists_drop hch hrest
  have hpeek := peek_of_cons hskip
  have hsize : breakSize (ch :: (more ++ rest)) ≠ 0 := by
    rw [breakSize]
    split
    · decide
    · simp [hch]
  have hbreaks := hskip ▸ readBreak_eq (c.skip spaces.length)
  rw [if_neg hsize] at hbreaks
  rw [hrow, hpeek]
  refine ⟨hch, later, ?_, hlater, ?_, ?_, (hsound.skip _).readBreak⟩
  · rw [skipBreak, hbreaks]
    exact (congrArg (List.drop _) hskip).trans hdrop
  · rw [List.length_append, List.length_cons]
    omega
  · rw [skipBreak, hbreaks]

/-- What is read at a cursor in the text with white space is read in the text itself as well, up to
the same place. -/
def Keeps {α : Type} (o : Frame) (n : Nat) (r r' : Except Fault (α × Cursor)) : Prop :=
  ∀ a c, r = .ok (a, c) → ∃ b, r' = .ok (a, b) ∧ Cursor.Padded o n c b

namespace Keeps

variable {α β : Type} {o : Frame} {n m : Nat} {r r' s s' : Except Fault (α × Cursor)}

/-- Something is given without reading. -/
theorem pure {c b : Cursor} (a : α) (h : c.Padded o n b) :
    Keeps o n (Pure.pure (a, c)) (Pure.pure (a, b)) := by
  intro a' c' hc
  cases hc
  exact ⟨b, rfl, h⟩

/-- Where reading fails in the text with white space, nothing is asked of the text itself. -/
theorem error (f : Fault) : Keeps o n (.error f) r' := by
  intro a c hc
  cases hc

/-- A fault ends the reading, whatever would come next. -/
theorem throw {γ : Type} (f : Fault) (next : γ → Except Fault (α × Cursor)) :
    Keeps o n (MonadExcept.throw f >>= next) r' := by
  intro a c hc
  cases hc

/-- Readers may follow each other. -/
theorem bind {next next' : α × Cursor → Except Fault (β × Cursor)}
    (hr : Keeps o n r r')
    (hnext : ∀ a c b, c.Padded o n b → Keeps o m (next (a, c)) (next' (a, b))) :
    Keeps o m (r >>= next) (r' >>= next') := by
  intro a c hc
  cases hfirst : r with
  | error f =>
    rw [hfirst] at hc
    cases hc
  | ok p =>
    rw [hfirst] at hc
    obtain ⟨b, hb, hpadded⟩ := hr p.1 p.2 hfirst
    rw [hb]
    exact hnext p.1 p.2 b hpadded a c hc

/-- A question with the same answer chooses the reader. -/
theorem ite {p q : Bool} (hpq : p = q) (hr : q = true → Keeps o n r r')
    (hs : q = false → Keeps o n s s') :
    Keeps o n (if p then r else s) (if q then r' else s') := by
  subst hpq
  cases p with
  | true => exact hr rfl
  | false => exact hs rfl

/-- The bound may be larger. -/
theorem mono (hr : Keeps o n r r') (hnm : n ≤ m) : Keeps o m r r' := by
  intro a c hc
  obtain ⟨b, hb, h⟩ := hr a c hc
  exact ⟨b, hb, h.mono (h.within.trans hnm)⟩

end Keeps

end ManifestRules.Yaml
