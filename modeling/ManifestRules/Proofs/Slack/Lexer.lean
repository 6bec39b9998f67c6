import ManifestRules.Proofs.Slack.BlockRows
import ManifestRules.Proofs.Slack.Token
import ManifestRules.Yaml.Lexer
/-!
# The lexer in a text with white space around it

Between two tokens the state of the lexer is the same, but for where it is in the text
(`Lexer.Padded`). A token leads to the same state again, unless it is a block scalar at the end of
the text, which may be shorter without the white space (`Lexer.Padded.step`).
-/

namespace ManifestRules.Yaml

/-- A place in the text, in front of which there are more lines and bytes. -/
def KeyPlace.shift (o : Frame) (p : KeyPlace) : KeyPlace :=
  { p with line := p.line + o.lines, index := p.index + o.bytes }

namespace Lexer

/-- A place is given up unless a key has to start there. -/
theorem dropPlace_eq (s : Lexer) :
    s.dropPlace =
      if s.place.any (·.required) then .error (s.fault "could not find expected ':'")
      else .ok { s with place := none } := by
  rw [dropPlace]
  cases hplace : s.place with
  | none =>
    have hsame : s = { s with place := none } := by rw [← hplace]
    exact congrArg Except.ok hsame
  | some p => rfl

/-- Giving up a place does not move. -/
theorem cursor_of_dropPlace {s s' : Lexer} (h : s.dropPlace = .ok s') : s'.cursor = s.cursor := by
  rw [dropPlace_eq] at h
  split at h
  · cases h
  · cases h
    rfl

/-- The place where the lexer is. -/
def here (s : Lexer) : KeyPlace :=
  ⟨!s.inFlow && s.indent == (s.cursor.column : Int), s.count, s.cursor.line, s.cursor.column,
    s.cursor.index⟩

/-- A place is kept instead of the one before. -/
theorem savePlace_eq (s : Lexer) :
    s.savePlace =
      if s.keyAllowed then
        if s.place.any (·.required) then .error (s.fault "could not find expected ':'")
        else .ok { s with place := some s.here }
      else .ok s := by
  rw [savePlace, dropPlace_eq]
  cases s.keyAllowed with
  | false => rfl
  | true => cases hplace : s.place.any (·.required) <;> rfl

/-- Gaps are left line by line. -/
theorem skipGaps_succ {f : Nat} {s : Lexer} :
    skipGaps (f + 1) s =
      let c := s.cursor.skipRow (s.inFlow || !s.keyAllowed)
      if isBreak c.peek then
        skipGaps f { s with cursor := c.skipBreak, keyAllowed := s.keyAllowed || !s.inFlow }
      else { s with cursor := c } :=
  rfl

/-- The state `s` in a text with white space around it is the same as the state `t` in the text
itself. At the end of the text it does not matter whether a key could start. -/
structure Padded (o : Frame) (n : Nat) (s t : Lexer) : Prop where
  /-- The cursors are at the same place. -/
  cursor : s.cursor.Padded o n t.cursor
  /-- The same tokens have been read. -/
  tokens : s.tokens = t.tokens
  /-- There are as many of them. -/
  count : s.count = t.count
  /-- The indentation is the same. -/
  indent : s.indent = t.indent
  /-- So are the ones around it. -/
  indents : s.indents = t.indents
  /-- A key may start here or not. -/
  keyAllowed : t.cursor.rest ≠ [] → s.keyAllowed = t.keyAllowed
  /-- A key may have started at the same place. -/
  place : s.place = t.place.map (·.shift o)
  /-- The same holds further out. -/
  places : s.places = t.places.map (Option.map (·.shift o))

/-- A step in the text with white space is one in the text itself. -/
def Keeps (o : Frame) (n : Nat) (r r' : Except Fault Lexer) : Prop :=
  ∀ s, r = .ok s → ∃ t, r' = .ok t ∧ s.Padded o n t

variable {o : Frame} {n m f k : Nat} {s t : Lexer}

/-- Steps may follow each other. -/
theorem Keeps.bind {r r' : Except Fault Lexer} {next next' : Lexer → Except Fault Lexer}
    (hr : Keeps o n r r')
    (hnext : ∀ s t, s.Padded o n t → Keeps o m (next s) (next' t)) :
    Keeps o m (r >>= next) (r' >>= next') := by
  intro s hs
  cases hfirst : r with
  | error fault =>
    rw [hfirst] at hs
    cases hs
  | ok s₁ =>
    rw [hfirst] at hs
    obtain ⟨t₁, ht₁, h₁⟩ := hr s₁ hfirst
    rw [ht₁]
    exact hnext s₁ t₁ h₁ s hs

/-- A state is given without a step. -/
theorem Keeps.pure (h : s.Padded o n t) :
    Keeps o n (Pure.pure s) (Pure.pure t) := by
  intro s' hs
  cases hs
  exact ⟨t, rfl, h⟩

/-- Where a step fails in the text with white space, nothing is asked of the text itself. -/
theorem Keeps.error (fault : Fault) (r' : Except Fault Lexer) : Keeps o n (.error fault) r' := by
  intro s hs
  cases hs

namespace Padded

/-- The lexer is in a flow collection of both texts. -/
theorem inFlow_eq (h : s.Padded o n t) : s.inFlow = t.inFlow := by
  rw [inFlow, inFlow, h.places]
  cases t.places <;> rfl

/-- The same token comes next. -/
theorem push (h : s.Padded o n t) (token : Token) :
    (s.push token).Padded o n (t.push token) :=
  { h with
    tokens := congrArg (token :: ·) h.tokens
    count := congrArg (· + 1) h.count }

/-- The same token is put in front of others. -/
theorem insert (h : s.Padded o n t) (number : Nat) (token : Token) :
    (s.insert number token).Padded o n (t.insert number token) := by
  refine { h with tokens := ?_, count := congrArg (· + 1) h.count }
  simp only [Lexer.insert, h.tokens, h.count]

/-- Tokens may be the same by assumption. -/
theorem withTokens (h : s.Padded o n t) :
    { s with tokens := t.tokens }.Padded o n t :=
  { h with tokens := rfl }

/-- The bound may be larger. -/
theorem mono (h : s.Padded o n t) (hnm : n ≤ m) : s.Padded o m t :=
  { h with cursor := h.cursor.mono (h.cursor.within.trans hnm) }

/-- Another cursor at the same place. -/
theorem withCursor (h : s.Padded o n t) {c b : Cursor} (hc : c.Padded o m b)
    (hallowed : b.rest ≠ [] → s.keyAllowed = t.keyAllowed) :
    { s with cursor := c }.Padded o m { t with cursor := b } :=
  { h with
    cursor := hc
    keyAllowed := hallowed }

/-- Moving over characters. -/
theorem skip (h : s.Padded o n t) (j : Nat) :
    (s.skip j).Padded o (n - j) (t.skip j) := by
  refine h.withCursor (h.cursor.skip j) fun hmore => h.keyAllowed ?_
  intro hnil
  exact hmore (by simp only [Cursor.skip, hnil, List.drop_nil])

/-- A key may start here or not. -/
theorem allowKey (h : s.Padded o n t) (allowed : Bool) :
    (s.allowKey allowed).Padded o n (t.allowKey allowed) :=
  { h with keyAllowed := fun _ => rfl }

/-- Keeping a place does not move the cursor. -/
theorem same_of_savePlace {s s' : Lexer} (hs : s.savePlace = .ok s') :
    s'.cursor = s.cursor ∧ s'.inFlow = s.inFlow := by
  rw [savePlace_eq] at hs
  split at hs
  · split at hs
    · cases hs
    · cases hs
      exact ⟨rfl, rfl⟩
  · cases hs
    exact ⟨rfl, rfl⟩

/-- A key has to start at a place or not. -/
theorem any_required (h : s.Padded o n t) :
    s.place.any (·.required) = t.place.any (·.required) := by
  rw [h.place]
  cases t.place <;> rfl

/-- The place of a key is given up. -/
theorem dropPlace (h : s.Padded o n t) :
    Keeps o n s.dropPlace t.dropPlace := by
  rw [dropPlace_eq, dropPlace_eq, h.any_required]
  split
  · exact .error _ _
  · exact .pure { h with place := rfl }

/-- The place of the lexer is the same in the text. -/
theorem here_eq (h : s.Padded o n t) (hne : t.cursor.rest ≠ []) :
    s.here = t.here.shift o := by
  obtain ⟨hline, hcolumn, hindex⟩ := h.cursor.here hne
  rw [here, here, h.inFlow_eq, h.indent, h.count, hline, hcolumn, hindex]
  rfl

/-- A place is kept in both texts. -/
theorem savePlace (h : s.Padded o n t) (hne : t.cursor.rest ≠ []) :
    Keeps o n s.savePlace t.savePlace := by
  rw [savePlace_eq, savePlace_eq, h.keyAllowed hne, h.any_required]
  split
  · split
    · exact .error _ _
    · exact .pure { h with
        keyAllowed := fun _ => rfl
        place := congrArg some (h.here_eq hne) }
  · exact .pure h

/-- Block collections are closed up to the same column. -/
theorem unrollFrom (h : s.Padded o n t) (indents : List Int) (column : Int) :
    (unrollFrom indents s column).Padded o n (unrollFrom indents t column) := by
  induction indents generalizing s t with
  | nil => exact h
  | cons outer more ih =>
    rw [Lexer.unrollFrom, Lexer.unrollFrom, h.indent]
    split
    · exact ih { h.push .blockEnd with
        indent := rfl
        indents := rfl }
    · exact h

/-- Outside of flow collections block collections are closed. -/
theorem unroll (h : s.Padded o n t) (column : Int) :
    (s.unroll column).Padded o n (t.unroll column) := by
  rw [Lexer.unroll, Lexer.unroll, h.inFlow_eq, h.indents]
  split
  · exact h
  · exact h.unrollFrom t.indents column

/-- A block collection is opened at the same column. -/
theorem roll (h : s.Padded o n t) (column number : Nat) (token : Token) :
    (s.roll column number token).Padded o n (t.roll column number token) := by
  rw [Lexer.roll, Lexer.roll, h.inFlow_eq, h.indent]
  split
  · exact { h.insert number token with
      indent := rfl
      indents := by rw [h.indents] }
  · exact h

/-- A block collection is opened here. -/
theorem rollHere (h : s.Padded o n t) (hne : t.cursor.rest ≠ []) (token : Token) :
    (s.rollHere token).Padded o n (t.rollHere token) := by
  rw [Lexer.rollHere, Lexer.rollHere, (h.cursor.here hne).2.1, h.count]
  exact h.roll _ _ token

/-- All block collections are closed. -/
theorem closeAll (h : s.Padded o n t) : Keeps o n s.closeAll t.closeAll :=
  (h.unroll (-1)).dropPlace.bind fun _ _ h => .pure (h.allowKey false)

/-- A flow collection is opened. -/
theorem openFlow (h : s.Padded o n t) (hne : t.cursor.rest ≠ []) (token : Token) :
    Keeps o (n - 1) (s.openFlow token) (t.openFlow token) := by
  refine (h.savePlace hne).bind fun s t h => .pure ?_
  exact { (h.push token).skip 1 with
    keyAllowed := fun _ => rfl
    place := rfl
    places := by rw [h.place, h.places]; rfl }

/-- A flow collection is closed. -/
theorem closeFlow (h : s.Padded o n t) (token : Token) :
    Keeps o (n - 1) (s.closeFlow token) (t.closeFlow token) := by
  refine h.dropPlace.bind fun s t h => ?_
  have hpush := (h.push token).skip 1
  generalize (s.push token).skip 1 = s at hpush
  generalize (t.push token).skip 1 = t at hpush
  dsimp only
  have hplaces := hpush.places
  cases hstack : t.places with
  | nil =>
    rw [hstack, List.map_nil] at hplaces
    rw [hplaces]
    exact .pure { hpush with
      keyAllowed := fun _ => rfl
      places := rfl }
  | cons place places =>
    rw [hstack, List.map_cons] at hplaces
    rw [hplaces]
    exact .pure { hpush with
      keyAllowed := fun _ => rfl
      place := rfl
      places := rfl }

/-- A comma. -/
theorem comma (h : s.Padded o n t) : Keeps o (n - 1) s.comma t.comma :=
  h.dropPlace.bind fun _ _ h => .pure (((h.push .comma).skip 1).allowKey true)

/-- A dash. -/
theorem item (h : s.Padded o n t) (hne : t.cursor.rest ≠ []) :
    Keeps o (n - 1) s.item t.item := by
  rw [Lexer.item, Lexer.item, h.inFlow_eq, h.keyAllowed hne]
  dsimp only
  split
  · exact .error _ _
  · refine (h.rollHere hne .blockSequence).dropPlace.bind fun s t h => .pure ?_
    exact ((h.push .item).skip 1).allowKey true

/-- A question mark. -/
theorem key (h : s.Padded o n t) (hne : t.cursor.rest ≠ []) :
    Keeps o (n - 1) s.key t.key := by
  rw [Lexer.key, Lexer.key, h.inFlow_eq, h.keyAllowed hne]
  dsimp only
  split
  · exact .error _ _
  · refine (h.rollHere hne .blockMapping).dropPlace.bind fun s t h => .pure ?_
    rw [h.inFlow_eq]
    exact ((h.push .key).skip 1).allowKey _

/-- A colon. -/
theorem value (h : s.Padded o n t) (hne : t.cursor.rest ≠ []) :
    Keeps o (n - 1) s.value t.value := by
  have hplace := h.place
  rw [Lexer.value, Lexer.value]
  cases ht : t.place with
  | some p =>
    rw [ht, Option.map_some] at hplace
    rw [hplace]
    have hroll := ((h.insert p.number .key).roll p.column p.number .blockMapping).push .value
    exact .pure { hroll.skip 1 with
      keyAllowed := fun _ => rfl
      place := rfl }
  | none =>
    rw [ht, Option.map_none] at hplace
    rw [hplace, h.inFlow_eq, h.keyAllowed hne]
    dsimp only
    split
    · exact .error _ _
    · exact .pure ((((h.rollHere hne .blockMapping).push .value).skip 1).allowKey _)

/-- A token that may start a key. -/
theorem word (h : s.Padded o n t) (hne : t.cursor.rest ≠ [])
    {read : Cursor → Except Fault (Token × Cursor)}
    (hread : ∀ c b, c.Padded o n b → Yaml.Keeps o (n - 1) (read c) (read b)) :
    Keeps o (n - 1) (s.word read) (t.word read) := by
  refine (h.savePlace hne).bind fun s t h => ?_
  intro s' hs
  dsimp only at hs ⊢
  cases htoken : read s.cursor with
  | error fault =>
    rw [htoken] at hs
    cases hs
  | ok p =>
    obtain ⟨b, hb, hpadded⟩ := hread _ _ h.cursor p.1 p.2 htoken
    rw [htoken] at hs
    rw [hb]
    cases hs
    exact ⟨_, rfl, { h.push p.1 with
      cursor := hpadded
      keyAllowed := fun _ => rfl }⟩

/-- Behind the text the lexer may move on over white space. -/
theorem past (h : s.Padded o n t) (hnil : t.cursor.rest = []) {c : Cursor}
    (hc : c.Padded o n t.cursor) (allowed : Bool) :
    { s with cursor := c, keyAllowed := allowed }.Padded o n t :=
  { h with
    cursor := hc
    keyAllowed := fun hne => absurd hnil hne }

/-- Behind the text gaps are white space. -/
theorem skipGaps_past (h : s.Padded o n t) (hnil : t.cursor.rest = []) :
    (Lexer.skipGaps f s).Padded o n t := by
  induction f generalizing s with
  | zero => exact h
  | succ f ih =>
    have hrow := h.cursor.skipRow (s.inFlow || !s.keyAllowed)
    rw [Cursor.Padded.skipRow_of_nil hnil] at hrow
    rw [skipGaps_succ]
    dsimp only
    split
    · exact ih (h.past hnil (hrow.past_readBreak hnil) _)
    · exact h.past hnil hrow s.keyAllowed

/-- At the end there are no gaps. -/
theorem skipGaps_of_nil (hnil : t.cursor.rest = []) : Lexer.skipGaps k t = t := by
  cases k with
  | zero => rfl
  | succ k =>
    have hpeek : isBreak t.cursor.peek = false := by
      rw [Cursor.peek_of_nil hnil]
      rfl
    rw [skipGaps_succ, Cursor.Padded.skipRow_of_nil hnil]
    dsimp only
    rw [hpeek]
    rfl

/-- Gaps are left in both texts. -/
theorem skipGaps (h : s.Padded o n t) (hk : n < k) (hkf : k ≤ f) :
    (Lexer.skipGaps f s).Padded o n (Lexer.skipGaps k t) := by
  induction k generalizing n f s t with
  | zero => exact absurd hk (Nat.not_lt_zero n)
  | succ k ih =>
    obtain ⟨f, rfl⟩ : ∃ m, f = m + 1 := ⟨f - 1, by omega⟩
    by_cases hnil : t.cursor.rest = []
    · rw [skipGaps_of_nil hnil]
      exact h.skipGaps_past hnil
    have hrow := h.cursor.skipRow (t.inFlow || !t.keyAllowed)
    have hn := h.cursor.pos hnil
    have hallowed := h.keyAllowed hnil
    rw [skipGaps_succ, skipGaps_succ, h.inFlow_eq, hallowed]
    dsimp only
    by_cases hbreak : isBreak (t.cursor.skipRow (t.inFlow || !t.keyAllowed)).peek = true
    · have hne := Cursor.Padded.rest_ne_nil (p := isBreak) (by decide) hbreak
      obtain ⟨-, h₁⟩ := hrow.readBreak_lt hbreak
      rw [hrow.peek_eq hne, if_pos hbreak, if_pos hbreak]
      refine (ih (n := n - 1) ?_ (by omega) (by omega)).mono (Nat.sub_le n 1)
      exact { h with
        cursor := h₁
        keyAllowed := fun _ => rfl }
    · have h₁ : { s with
            cursor := s.cursor.skipRow (t.inFlow || !t.keyAllowed)
            keyAllowed := t.keyAllowed }.Padded o n
          { t with cursor := t.cursor.skipRow (t.inFlow || !t.keyAllowed) } :=
        { h with
          cursor := hrow
          keyAllowed := fun _ => rfl }
      rw [if_neg hbreak]
      split
      · rename_i hmore
        have hnil₁ : (t.cursor.skipRow (t.inFlow || !t.keyAllowed)).rest = [] := by
          by_contra hne
          rw [hrow.peek_eq hne] at hmore
          exact hbreak hmore
        exact (h₁.past hnil₁ (hrow.past_readBreak hnil₁) _).skipGaps_past hnil₁
      · exact h₁

end Padded

/-- An alias is read alike. -/
theorem keeps_readAlias {c b : Cursor} (h : c.Padded o n b) :
    Yaml.Keeps o (n - 1) (readAlias c) (readAlias b) :=
  (Token.keeps_readAnchorName h).bind fun _ _ _ h => .pure _ h

/-- An anchor is read alike. -/
theorem keeps_readAnchor {c b : Cursor} (h : c.Padded o n b) :
    Yaml.Keeps o (n - 1) (readAnchor c) (readAnchor b) :=
  (Token.keeps_readAnchorName h).bind fun _ _ _ h => .pure _ h

/-- A quoted scalar is read alike. -/
theorem keeps_readQuotedToken (single : Bool) {c b : Cursor} (h : c.Padded o n b) :
    Yaml.Keeps o (n - 1) (readQuotedToken single c) (readQuotedToken single b) :=
  (Scalar.keeps_readQuoted (h.skip 1)).bind fun _ _ _ h => .pure _ h

/-- A plain scalar starts in both texts, if the place is not at the dash of an item. -/
theorem startsPlain_eq {c b : Cursor} (h : c.Padded o n b) (hne : b.rest ≠ [])
    (flow : Bool) (hdash : (b.peek == '-' && isGapOrEnd (b.peekAt 1)) = false) :
    startsPlain flow c = startsPlain flow b := by
  have hspace : (b.peek == '-' && !isSpace (c.peekAt 1)) = (b.peek == '-' && !isSpace (b.peekAt 1)) := by
    cases hd : b.peek == '-' with
    | false => rfl
    | true =>
      have hlong : 1 < b.rest.length := by
        by_contra hshort
        have hend : b.peekAt 1 = endMark := by
          rw [Cursor.peekAt, List.getD_eq_getElem?_getD, List.getElem?_eq_none (by omega)]
          rfl
        rw [hd, hend] at hdash
        cases hdash
      rw [h.peekAt_eq hlong]
  rw [startsPlain, startsPlain, h.peek_eq hne, hspace, h.peekAt_blind (p := isGapOrEnd) (by decide)]

/-- Where a plain scalar starts, its first character belongs to it. -/
theorem isPlainStart_of_startsPlain {flow : Bool} {b : Cursor} (hb : startsPlain flow b = true)
    (hmarker : b.atDocumentMarker = false) : Scalar.IsPlainStart flow b := by
  rw [startsPlain] at hb
  simp only [Bool.or_eq_true, Bool.and_eq_true, Bool.not_eq_true', beq_iff_eq] at hb
  obtain (⟨hgap, hindicator⟩ | ⟨hdash, -⟩) | ⟨⟨hflow, hmark⟩, hnext⟩ := hb
  · have hother : ∀ d, isIndicator d = true → b.peek ≠ d := by
      rintro d hd rfl
      rw [hindicator] at hd
      cases hd
    refine ⟨hgap, fun hcolon => absurd hcolon (hother ':' rfl), fun _ => ?_, hother '#' rfl, hmarker⟩
    simp [Scalar.isFlowIndicator, hother ',' rfl, hother '[' rfl, hother ']' rfl, hother '\x7b' rfl,
      hother '\x7d' rfl]
  · refine ⟨by rw [hdash]; rfl, fun hcolon => ?_, fun _ => by rw [hdash]; rfl, ?_, hmarker⟩
    · rw [hdash] at hcolon
      exact absurd hcolon (by decide)
    · rw [hdash]
      decide
  · refine ⟨?_, fun _ => ⟨hflow, hnext⟩, fun htrue => ?_, ?_, hmarker⟩
    · obtain hmark | hmark := hmark <;> rw [hmark] <;> rfl
    · rw [hflow] at htrue
      cases htrue
    · obtain hmark | hmark := hmark <;> rw [hmark] <;> decide

/-- The last of the tokens, which come in reverse order, is a block scalar at the end of a text,
which may have taken some of the white space behind the text along. -/
def EndAlike (base tail : List Char) (us vs : List Token) : Prop :=
  ∃ text text' gap ts, us = .scalar text false :: ts ∧ vs = .scalar text' false :: ts ∧
    text.toList = text'.toList ++ gap ∧ Scalar.Surplus tail gap ∧
    Scalar.ReachesBack base text'.toList

/-- The states after a token: they are the same, or the text ends in a block scalar. -/
def After (o : Frame) (n : Nat) (s t : Lexer) : Prop :=
  s.Padded o n t ∨
    t.cursor.rest = [] ∧ { s with tokens := t.tokens }.Padded o n t ∧
      EndAlike o.text o.tail s.tokens t.tokens

/-- A token is read in both texts. -/
def Steps (o : Frame) (n : Nat) (r r' : Except Fault Lexer) : Prop :=
  ∀ s, r = .ok s → ∃ t, r' = .ok t ∧ After o n s t

/-- Most tokens are read alike. -/
theorem Keeps.steps {r r' : Except Fault Lexer} (hr : Keeps o n r r') :
    Steps o n r r' := by
  intro s hs
  obtain ⟨t, ht, h⟩ := hr s hs
  exact ⟨t, ht, .inl h⟩

/-- A question with the same answer chooses the token. -/
theorem Steps.ite {p : Bool} {r r' q q' : Except Fault Lexer}
    (hr : p = true → Steps o n r r') (hq : p = false → Steps o n q q') :
    Steps o n (if p then r else q) (if p then r' else q') := by
  cases p with
  | true => exact hr rfl
  | false => exact hq rfl

namespace Padded

/-- A block scalar, beginning with its mark. -/
theorem block (h : s.Padded o n t) (hmark : t.cursor.peek = '|' ∨ t.cursor.peek = '>')
    (literal : Bool) : Steps o (n - 1) (s.block literal) (t.block literal) := by
  intro s' hs
  rw [Lexer.block] at hs ⊢
  cases hdrop : s.dropPlace with
  | error fault =>
    rw [hdrop] at hs
    cases hs
  | ok s₁ =>
    obtain ⟨t₁, ht₁, h₁⟩ := h.dropPlace s₁ hdrop
    rw [hdrop] at hs
    rw [ht₁]
    simp only [bind, Except.bind] at hs ⊢
    rw [h₁.indent] at hs
    cases hblock : Scalar.readBlock literal t₁.indent (s₁.cursor.skip 1) with
    | error fault =>
      rw [hblock] at hs
      cases hs
    | ok p =>
      obtain ⟨text, b, gap, hb, hpadded, htext, hgap, hmore⟩ :=
        Scalar.keepsBlock_readBlock (h₁.cursor.skip 1) t₁.indent p.1 p.2 hblock
      rw [hblock] at hs
      rw [hb]
      cases hs
      refine ⟨_, rfl, ?_⟩
      by_cases hnil : b.rest = []
      · have hskip := h₁.cursor.skip 1
        rw [← cursor_of_dropPlace ht₁] at hmark
        have hne : t₁.cursor.rest ≠ [] := by
          intro hnone
          rw [Cursor.peek_of_nil hnone] at hmark
          exact absurd hmark (by decide)
        have hback := Scalar.reachesBack_readBlock hmark
          (Cursor.rest_eq_cons hne ▸ h₁.cursor.inside) hskip.bareSound hskip.firm hb hnil
        refine .inr ⟨hnil, ?_, ⟨p.1, text, gap, t₁.tokens, ?_, rfl, htext, hgap, hback⟩⟩
        · exact { h₁.push (.scalar text false) with
            cursor := hpadded
            tokens := rfl
            indent := rfl
            keyAllowed := fun _ => rfl }
        · exact congrArg (Token.scalar p.1 false :: ·) h₁.tokens
      · have hsame : p.1 = text := by
          rw [← String.toList_inj, htext, hmore hnil, List.append_nil]
        rw [hsame]
        exact .inl { h₁.push (.scalar text false) with
          cursor := hpadded
          indent := rfl
          keyAllowed := fun _ => rfl }

/-- A plain scalar. -/
theorem plain (h : s.Padded o n t) (hne : t.cursor.rest ≠ [])
    (hstart : Scalar.IsPlainStart t.inFlow t.cursor) :
    Keeps o (n - 1) s.plain t.plain := by
  intro s' hs
  rw [Lexer.plain] at hs ⊢
  cases hsave : s.savePlace with
  | error fault =>
    rw [hsave] at hs
    cases hs
  | ok s₁ =>
    obtain ⟨t₁, ht₁, h₁⟩ := h.savePlace hne s₁ hsave
    obtain ⟨hcursor, hflow⟩ := same_of_savePlace ht₁
    rw [hsave] at hs
    rw [ht₁]
    simp only [bind, Except.bind] at hs ⊢
    rw [h₁.inFlow_eq, h₁.indent] at hs
    cases hplain : Scalar.readPlain t₁.inFlow (t₁.indent + 1).toNat s₁.cursor with
    | error fault =>
      rw [hplain] at hs
      cases hs
    | ok p =>
      obtain ⟨broken, b, hb, hpadded, hbroken⟩ :=
        Scalar.exists_readPlain h₁.cursor (by rwa [hcursor, hflow]) hplain
      rw [hplain] at hs
      rw [hb]
      cases hs
      refine ⟨_, rfl, ?_⟩
      exact { h₁.push (.scalar p.1 true) with
        cursor := hpadded
        indent := rfl
        keyAllowed := fun hmore => (hbroken hmore).symm }

/-- A directive. -/
theorem directive (h : s.Padded o n t) :
    Keeps o (n - 1)
      (do
        let s ← s.closeAll
        let (token, c) ← Token.readDirective s.cursor
        Pure.pure ({ s with cursor := c }.push token))
      (do
        let t ← t.closeAll
        let (token, b) ← Token.readDirective t.cursor
        Pure.pure ({ t with cursor := b }.push token)) := by
  refine h.closeAll.bind fun s t h => ?_
  intro s' hs
  cases hread : Token.readDirective s.cursor with
  | error fault =>
    rw [hread] at hs
    cases hs
  | ok p =>
    obtain ⟨b, hb, hpadded⟩ :=
      Token.keeps_readDirective (h.cursor.mono (Nat.le_refl _)) p.1 p.2 hread
    have hwithin := hpadded.within
    have hall := h.cursor.within
    have hnone : t.cursor.rest = [] → b.rest = [] := by
      intro hnil
      rw [hnil, List.length_nil] at hwithin
      exact List.length_eq_zero_iff.mp (by omega)
    rw [hread] at hs
    rw [hb]
    cases hs
    refine ⟨_, rfl, ?_⟩
    exact { h.push p.1 with
      cursor := hpadded.mono (by omega)
      keyAllowed := fun hmore => h.keyAllowed fun hnil => hmore (hnone hnil) }

/-- A line that parts documents. -/
theorem marker (h : s.Padded o n t) (token : Token) :
    Keeps o (n - 1)
      (do
        let s ← s.closeAll
        Pure.pure ((s.push token).skip 3))
      (do
        let t ← t.closeAll
        Pure.pure ((t.push token).skip 3)) :=
  h.closeAll.bind fun _ _ h => .pure (((h.push token).skip 3).mono (by omega))

/-- A token is read in both texts. -/
theorem step (h : s.Padded o n t) (hne : t.cursor.rest ≠ []) :
    Steps o (n - 1) s.step t.step := by
  rw [Lexer.step, Lexer.step]
  have hgap : Blind isGapOrEnd := by decide
  dsimp only
  rw [h.cursor.peek_eq hne, (h.cursor.here hne).2.1, h.cursor.peekAt_blind hgap,
    h.cursor.atMarker_eq (.inl rfl), h.cursor.atMarker_eq (.inr rfl), h.inFlow_eq]
  refine Steps.ite (fun _ => h.directive.steps) fun _ => ?_
  refine Steps.ite (fun _ => (h.marker .documentStart).steps) fun hstart => ?_
  refine Steps.ite (fun _ => (h.marker .documentEnd).steps) fun hend => ?_
  refine Steps.ite (fun _ => (h.openFlow hne .openSequence).steps) fun _ => ?_
  refine Steps.ite (fun _ => (h.openFlow hne .openMapping).steps) fun _ => ?_
  refine Steps.ite (fun _ => (h.closeFlow .closeSequence).steps) fun _ => ?_
  refine Steps.ite (fun _ => (h.closeFlow .closeMapping).steps) fun _ => ?_
  refine Steps.ite (fun _ => h.comma.steps) fun _ => ?_
  refine Steps.ite (fun _ => (h.item hne).steps) fun hdash => ?_
  refine Steps.ite (fun _ => (h.key hne).steps) fun _ => ?_
  refine Steps.ite (fun _ => (h.value hne).steps) fun _ => ?_
  refine Steps.ite (fun _ => (h.word hne fun c b => keeps_readAlias).steps) fun _ => ?_
  refine Steps.ite (fun _ => (h.word hne fun c b => keeps_readAnchor).steps) fun _ => ?_
  refine Steps.ite (fun _ => (h.word hne fun c b h => Token.keeps_readTag h t.inFlow).steps) fun _ => ?_
  refine Steps.ite (fun hbar => h.block (.inl ?_) true) fun _ => ?_
  · exact beq_iff_eq.mp (Bool.and_eq_true_iff.mp hbar).1
  refine Steps.ite (fun hangle => h.block (.inr ?_) false) fun _ => ?_
  · exact beq_iff_eq.mp (Bool.and_eq_true_iff.mp hangle).1
  refine Steps.ite (fun _ => (h.word hne fun c b => keeps_readQuotedToken true).steps) fun _ => ?_
  refine Steps.ite (fun _ => (h.word hne fun c b => keeps_readQuotedToken false).steps) fun _ => ?_
  have hplain := startsPlain_eq h.cursor hne t.inFlow hdash
  rw [hplain]
  refine Steps.ite (fun hplain => (h.plain hne ?_).steps) fun _ => (Keeps.error _ _).steps
  exact isPlainStart_of_startsPlain hplain (Bool.or_eq_false_iff.mpr ⟨hstart, hend⟩)

end Padded

/-- No token starts in a gap. -/
theorem step_ne_ok {s' : Lexer} (hs : isGap s.cursor.peek = true) : s.step ≠ .ok s' := by
  have hother : ∀ d, isGap d = false → (s.cursor.peek == d) = false := by
    intro d hd
    rw [beq_eq_false_iff_ne]
    rintro rfl
    rw [hd] at hs
    cases hs
  have hmarker : ∀ d, isGap d = false → s.cursor.atMarker d = false := by
    intro d hd
    have hpeek : (s.cursor.peekAt 0 == d) = false := hother d hd
    simp only [Cursor.atMarker, hpeek, Bool.and_false, Bool.false_and]
  have hgap : isGapOrEnd s.cursor.peek = true := by rw [isGapOrEnd_eq, hs, Bool.true_or]
  have hplain : startsPlain s.inFlow s.cursor = false := by
    simp only [startsPlain, hgap, hother '-' rfl, hother '?' rfl, hother ':' rfl, Bool.not_true,
      Bool.false_and, Bool.or_self, Bool.and_false]
  rw [step]
  simp only [hother _ (show isGap '%' = false from rfl), hmarker '-' rfl, hmarker '.' rfl,
    hother '[' rfl, hother '\x7b' rfl, hother ']' rfl, hother '\x7d' rfl, hother ',' rfl,
    hother '-' rfl, hother '?' rfl, hother ':' rfl, hother '*' rfl, hother '&' rfl, hother '!' rfl,
    hother '|' rfl, hother '>' rfl, hother '\'' rfl, hother '"' rfl, hplain, Bool.and_false,
    Bool.false_and, Bool.false_eq_true, if_false]
  exact fun h => by cases h

end Lexer

end ManifestRules.Yaml
