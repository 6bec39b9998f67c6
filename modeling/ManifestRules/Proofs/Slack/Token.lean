import ManifestRules.Proofs.Slack.Scalar
import ManifestRules.Yaml.Token
/-!
# Names in a text with white space around it

Anchors, aliases, tags and directives end before white space, so they are read alike whether there
is white space behind the text or not.
-/

namespace ManifestRules.Yaml.Token

open Cursor (Padded)

variable {o : Frame} {n f k : Nat} {c b c' : Cursor}

/-- An escaped byte is read alike and takes three characters. -/
theorem keeps_readEscapedByte (h : c.Padded o n b) :
    Keeps o (n - 3) (readEscapedByte c) (readEscapedByte b) := by
  intro byte c' hread
  have hpercent : (c.peek == '%') = (b.peek == '%') := h.peek_blind (p := (· == '%')) (by decide)
  rw [readEscapedByte, hpercent] at hread
  rw [readEscapedByte]
  cases hnumber : (if b.peek == '%' then Scalar.hexNumber? ((c.rest.drop 1).take 2) else none) with
  | none =>
    rw [hnumber] at hread
    cases hread
  | some number =>
    have hdigits : Scalar.hexNumber? ((c.rest.drop 1).take 2) = some number := by
      split at hnumber
      · exact hnumber
      · cases hnumber
    have hsame := h.take_drop_eq (Scalar.isGap_of_hexNumber hdigits)
    rw [hnumber, hsame] at hread
    rw [hsame] at hnumber
    rw [hnumber]
    dsimp only at hread ⊢
    split at hread
    · cases hread
    · rename_i hlength
      cases hread
      rw [if_neg hlength]
      exact ⟨_, rfl, h.skip 3⟩

/-- The trailing bytes of an escaped character are read alike. -/
theorem keeps_readTrailing (h : c.Padded o n b) :
    Keeps o n (readTrailing k c) (readTrailing k b) := by
  induction k generalizing n c b with
  | zero => exact .pure [] h
  | succ k ih =>
    rw [readTrailing, readTrailing]
    refine ((keeps_readEscapedByte h).mono (Nat.sub_le n 3)).bind fun byte c b h => ?_
    dsimp only
    split
    · exact .throw _ _
    · exact (ih h).bind fun more c b h => .pure _ h

/-- An escaped character is read alike. -/
theorem keeps_readEscapedChar (h : c.Padded o n b) :
    Keeps o (n - 3) (readEscapedChar c) (readEscapedChar b) := by
  rw [readEscapedChar, readEscapedChar]
  refine (keeps_readEscapedByte h).bind fun byte c b h => ?_
  dsimp only
  split
  · exact .error _
  · exact (keeps_readTrailing h).bind fun more c b h => .pure _ h

/-- Neither white space nor the end stands in a tag. -/
theorem blind_isTagChar (wide : Bool) : Blind (isTagChar wide) := by
  cases wide <;> decide

/-- The characters of a tag are read alike. -/
theorem keeps_readTagBytes (h : c.Padded o n b) (wide : Bool) (hk : n < k) (hkf : k ≤ f) :
    Keeps o n (readTagBytes wide f c) (readTagBytes wide k b) := by
  induction k generalizing n f c b with
  | zero => exact absurd hk (Nat.not_lt_zero n)
  | succ k ih =>
    obtain ⟨f, rfl⟩ : ∃ m, f = m + 1 := ⟨f - 1, by omega⟩
    rw [readTagBytes, readTagBytes]
    dsimp only
    rw [h.peek_blind (blind_isTagChar wide)]
    refine Keeps.ite rfl (fun _ => .pure [] h) fun htag => ?_
    have hne : b.rest ≠ [] := by
      refine Padded.rest_ne_nil (p := isTagChar wide) (by cases wide <;> rfl) ?_
      simpa using htag
    have hn := h.pos hne
    rw [h.peek_eq hne]
    refine Keeps.ite rfl (fun _ => ?_) fun _ => ?_
    · refine (keeps_readEscapedChar h).bind fun bytes c b h => ?_
      refine Keeps.bind (ih (h.mono (m := n - 1) (h.within.trans (by omega))) (by omega) (by omega)) ?_
      exact fun more c b h => .pure _ (h.mono (h.within.trans (Nat.sub_le n 1)))
    · exact (ih (h.skip 1) (by omega) (by omega)).bind fun more c b h =>
        .pure _ (h.mono (h.within.trans (Nat.sub_le n 1)))

/-- A tag has to have a character. -/
theorem keeps_readTagText (h : c.Padded o n b) (wide : Bool) :
    Keeps o n (readTagText wide c) (readTagText wide b) := by
  have hleft := h.left_le
  have hlength := h.length_le_left
  have hbytes := keeps_readTagBytes (h.mono (Nat.le_refl _)) wide (k := b.left + 1) (f := c.left + 1)
    (by omega) (by omega)
  rw [readTagText, readTagText]
  refine (hbytes.mono h.within).bind fun bytes c b h => ?_
  dsimp only
  split
  · exact .throw _ _
  · exact .pure _ h

/-- White space does not stand in a word. -/
theorem isWordChar_of_isGap (g : Char) (hg : isGap g = true) : isWordChar g = false := by
  have hblind : Blind isWordChar := by decide
  exact (hblind g hg).trans rfl

/-- A handle is read alike, beginning with its mark. -/
theorem keeps_readHandle (h : c.Padded o n b) :
    Keeps o (n - 1) (readHandle c) (readHandle b) := by
  obtain ⟨hsame, h₁⟩ := (h.skip 1).takeWhile isWordChar_of_isGap
  rw [readHandle, readHandle]
  refine Keeps.ite (h.peek_blind (p := (· != '!')) (by decide)) (fun _ => .error _) fun _ => ?_
  dsimp only
  rw [hsame]
  refine Keeps.ite (h₁.peek_blind (p := (· == '!')) (by decide)) (fun _ => ?_) fun _ => ?_
  · exact .pure _ (h₁.skip_le 1)
  · exact .pure _ h₁

/-- A tag is read alike, beginning with its mark. -/
theorem keeps_readTag (h : c.Padded o n b) (flow : Bool) :
    Keeps o (n - 1) (readTag flow c) (readTag flow b) := by
  have hend : ∀ {token : Token} {c b : Cursor}, c.Padded o (n - 1) b →
      Keeps o (n - 1)
        (if isGapOrEnd c.peek || flow && c.peek == ',' then Pure.pure (token, c)
          else throw (c.fault "did not find expected whitespace or line break"))
        (if isGapOrEnd b.peek || flow && b.peek == ',' then Pure.pure (token, b)
          else throw (b.fault "did not find expected whitespace or line break")) := by
    intro token c b h
    refine Keeps.ite ?_ (fun _ => .pure token h) fun _ => .error _
    exact h.peek_blind (p := fun ch => isGapOrEnd ch || flow && ch == ',') (by cases flow <;> decide)
  rw [readTag, readTag]
  dsimp only
  refine Keeps.ite (h.peekAt_blind (p := (· == '<')) (by decide) 1) (fun _ => ?_) fun _ => ?_
  · have hskip := (h.skip 2).mono (m := n - 1) ((h.skip 2).within.trans (by omega))
    refine (keeps_readTagText hskip true).bind fun bytes c b h => ?_
    dsimp only
    refine Keeps.ite (h.peek_blind (p := (· != '>')) (by decide)) (fun _ => .throw _ _) fun _ => ?_
    exact hend (h.skip_le 1)
  · refine (keeps_readHandle h).bind fun handle c b h => ?_
    dsimp only
    refine Keeps.ite rfl (fun _ => ?_) fun _ => ?_
    · exact (keeps_readTagText h false).bind fun bytes c b h => hend h
    · have hleft := h.left_le
      have hlength := h.length_le_left
      have hbytes := keeps_readTagBytes (h.mono (Nat.le_refl _)) false (k := b.left + 1)
        (f := c.left + 1) (by omega) (by omega)
      exact (hbytes.mono h.within).bind fun more c b h => hend h

/-- The name of an anchor or alias is read alike, beginning with its mark. -/
theorem keeps_readAnchorName (h : c.Padded o n b) :
    Keeps o (n - 1) (readAnchorName c) (readAnchorName b) := by
  obtain ⟨hsame, h₁⟩ := (h.skip 1).takeWhile isWordChar_of_isGap
  have hblind : Blind fun ch => isGapOrEnd ch || "?:,]\x7d%@\x60".toList.contains ch := by decide
  rw [readAnchorName, readAnchorName]
  dsimp only
  rw [hsame]
  refine Keeps.ite ?_ (fun _ => .pure _ h₁) fun _ => .error _
  exact congrArg (_ && ·) (h₁.peek_blind hblind)

/-- The number of a version is read alike. -/
theorem keeps_readVersionNumber (h : c.Padded o n b) :
    Keeps o n (readVersionNumber c) (readVersionNumber b) := by
  have hdigit : ∀ g, isGap g = true → ('0' ≤ g && g ≤ '9') = false := by
    intro g hg
    have hblind : Blind fun ch => '0' ≤ ch && ch ≤ '9' := by decide
    exact (hblind g hg).trans rfl
  obtain ⟨hsame, h₁⟩ := h.takeWhile hdigit
  rw [readVersionNumber, readVersionNumber]
  dsimp only
  rw [hsame]
  split
  · exact .error _
  · split
    · exact .error _
    · exact .pure _ h₁

/-- The value of a version directive is read alike. -/
theorem keeps_readVersion (h : c.Padded o n b) :
    Keeps o n (readVersion c) (readVersion b) := by
  rw [readVersion, readVersion]
  refine (keeps_readVersionNumber (h.skipWhile isSpace)).bind fun major c b h => ?_
  dsimp only
  refine Keeps.ite (h.peek_blind (p := (· != '.')) (by decide)) (fun _ => .throw _ _) fun _ => ?_
  exact (keeps_readVersionNumber (h.skip_le 1)).bind fun minor c b h => .pure _ h

/-- Behind the text there is no tag to read. -/
theorem readTagText_ne_ok (h : c.Padded o n b) (hnil : b.rest = []) (wide : Bool)
    (found : List UInt8) : readTagText wide c ≠ .ok (found, c') := by
  have hnone : isTagChar wide c.peek = false := by
    rw [h.peek_blind (blind_isTagChar wide), Cursor.peek, Cursor.peekAt, hnil]
    cases wide <;> rfl
  have hbytes : readTagBytes wide (c.left + 1) c = .ok ([], c) := by
    rw [readTagBytes]
    simp only [hnone, Bool.not_false, if_true]
    rfl
  rw [readTagText, hbytes]
  exact fun hread => by cases hread

/-- The value of a tag directive is read alike. -/
theorem keeps_readTagDirective (h : c.Padded o n b) :
    Keeps o n (readTagDirective c) (readTagDirective b) := by
  rw [readTagDirective, readTagDirective]
  refine ((keeps_readHandle (h.skipWhile isSpace)).mono (Nat.sub_le n 1)).bind fun handle c b h => ?_
  dsimp only
  refine Keeps.ite rfl (fun _ => .throw _ _) fun _ => ?_
  by_cases hnil : b.rest = []
  · intro token c' hread
    split at hread
    · cases hread
    · cases htext : readTagText true (c.skipWhile isSpace) with
      | error fault =>
        rw [htext] at hread
        cases hread
      | ok p => exact absurd htext (readTagText_ne_ok (h.past_skip hnil _) hnil true p.1)
  · refine Keeps.ite (by rw [h.peek_eq hnil]) (fun _ => .throw _ _) fun _ => ?_
    refine (keeps_readTagText (h.skipWhile isSpace) true).bind fun found c b h => ?_
    dsimp only
    refine Keeps.ite (congrArg _ (h.peek_blind (p := isGapOrEnd) (by decide))) (fun _ => .throw _ _)
      fun _ => ?_
    exact .pure _ h

/-- A directive is read alike, beginning with its mark. -/
theorem keeps_readDirective (h : c.Padded o n b) :
    Keeps o (n - 1) (readDirective c) (readDirective b) := by
  obtain ⟨hsame, h₁⟩ := (h.skip 1).takeWhile isWordChar_of_isGap
  rw [readDirective, readDirective]
  dsimp only
  rw [hsame]
  refine Keeps.ite rfl (fun _ => .throw _ _) fun _ => ?_
  refine Keeps.ite (congrArg _ (h₁.peek_blind (p := isGapOrEnd) (by decide))) (fun _ => .throw _ _)
    fun _ => ?_
  have hend : ∀ {token : Token} {c b : Cursor}, c.Padded o (n - 1) b →
      Keeps o (n - 1)
        (if !isBreakOrEnd c.skipComment.peek then
          throw (c.skipComment.fault "did not find expected comment or line break")
        else Pure.pure (token, c.skipComment.skipBreak))
        (if !isBreakOrEnd b.skipComment.peek then
          throw (b.skipComment.fault "did not find expected comment or line break")
        else Pure.pure (token, b.skipComment.skipBreak)) := by
    intro token c b h token' c' hread
    cases hbreak : isBreakOrEnd c.skipComment.peek with
    | false =>
      rw [hbreak] at hread
      cases hread
    | true =>
      rw [hbreak] at hread
      rw [h.skipComment.isBreakOrEnd_peek hbreak]
      cases hread
      exact ⟨_, rfl, h.skipComment.skipBreak⟩
  refine Keeps.ite rfl (fun _ => (keeps_readVersion h₁).bind fun token c b h => hend h) fun _ => ?_
  refine Keeps.ite rfl (fun _ => (keeps_readTagDirective h₁).bind fun token c b h => hend h) fun _ => ?_
  exact .throw _ _

end ManifestRules.Yaml.Token
