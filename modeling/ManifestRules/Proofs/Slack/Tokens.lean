import ManifestRules.Proofs.Slack.Lexer
/-!
# The tokens of a text with white space around it

The lexer alternates between gaps and tokens (`Lexer.settle`). So a text has the same tokens without
the white space around it, unless it ends in a block scalar, whose text may be shorter then
(`Token.exists_ofText`).
-/

namespace ManifestRules.Yaml

namespace Lexer

variable {o : Frame} {n m f k : Nat} {s t : Lexer}

/-- A key had to start at a place that is too far back. -/
def overdue (s : Lexer) (p? : Option KeyPlace) : Bool := p?.any fun p => s.isStale p && p.required

/-- The place, unless it is too far back. -/
def fresh (s : Lexer) (p? : Option KeyPlace) : Option KeyPlace := p?.filter fun p => !s.isStale p

/-- A place that is too far back is given up unless a key had to start there. -/
theorem refresh_eq (s : Lexer) (p? : Option KeyPlace) :
    s.refresh p? =
      if s.overdue p? then .error (s.fault "could not find expected ':'") else .ok (s.fresh p?) := by
  cases p? with
  | none => rfl
  | some p => cases hstale : s.isStale p <;> cases hrequired : p.required <;>
      simp [refresh, overdue, fresh, Option.filter, hstale, hrequired]

/-- All places that are too far back are given up unless a key had to start at one of them. -/
theorem dropStale_eq (s : Lexer) :
    s.dropStale =
      if (s.place :: s.places).any s.overdue then .error (s.fault "could not find expected ':'")
      else .ok { s with place := s.fresh s.place, places := s.places.map s.fresh } := by
  have hall : ∀ l : List (Option KeyPlace), l.mapM s.refresh =
      if l.any s.overdue then .error (s.fault "could not find expected ':'")
      else .ok (l.map s.fresh) := by
    intro l
    induction l with
    | nil => rfl
    | cons p? l ih =>
      rw [List.mapM_cons, ih, refresh_eq, List.any_cons]
      cases s.overdue p? <;> cases l.any s.overdue <;> rfl
  rw [dropStale, hall, refresh_eq, List.any_cons]
  cases s.overdue s.place <;> cases s.places.any s.overdue <;> rfl

/-- How many block collections are open. -/
def depth : List Int → Int → Nat
  | [], _ => 0
  | outer :: more, indent => if -1 < indent then depth more outer + 1 else 0

/-- How many tokens are missing at the end to close all block collections. -/
def closings (s : Lexer) : Nat := if s.inFlow then 0 else depth s.indents s.indent

/-- Closing collections changes only tokens and indentations. -/
theorem unrollFrom_same (l : List Int) (s : Lexer) (column : Int) :
    (unrollFrom l s column).cursor = s.cursor ∧ (unrollFrom l s column).place = s.place ∧
      (unrollFrom l s column).places = s.places := by
  induction l generalizing s with
  | nil => exact ⟨rfl, rfl, rfl⟩
  | cons outer more ih =>
    rw [unrollFrom]
    split
    · exact ih _
    · exact ⟨rfl, rfl, rfl⟩

/-- Closing some collections first makes no difference if all are closed in the end. -/
theorem unrollFrom_unrollFrom {l : List Int} {s : Lexer} (hs : s.indents = l) {column : Int}
    (hcolumn : -1 ≤ column) :
    unrollFrom (unrollFrom l s column).indents (unrollFrom l s column) (-1) =
      unrollFrom l s (-1) := by
  induction l generalizing s with
  | nil =>
    rw [unrollFrom, hs]
  | cons outer more ih =>
    by_cases hinner : column < s.indent
    · have houter : -1 < s.indent := by omega
      rw [unrollFrom, if_pos hinner, ih rfl]
      conv => rhs; rw [unrollFrom, if_pos houter]
    · rw [unrollFrom, if_neg hinner, hs]

/-- Every collection is closed by a token. -/
theorem tokens_unrollFrom (l : List Int) (s : Lexer) :
    (unrollFrom l s (-1)).tokens = List.replicate (depth l s.indent) .blockEnd ++ s.tokens := by
  induction l generalizing s with
  | nil => rfl
  | cons outer more ih =>
    rw [unrollFrom, depth]
    split
    · rw [ih, List.replicate_succ', List.append_assoc]
      rfl
    · rfl

/-- Collections are closed by tokens, whether some of them have been closed before or not. -/
theorem unroll_unroll (s : Lexer) {column : Int} (hcolumn : -1 ≤ column) :
    (s.unroll column).unroll (-1) = s.unroll (-1) := by
  have hflow : (s.unroll column).inFlow = s.inFlow := by
    rw [unroll]
    split
    · rfl
    · rw [inFlow, (unrollFrom_same _ _ _).2.2]
      rfl
  rw [unroll, hflow, unroll, unroll]
  split
  · rfl
  · exact unrollFrom_unrollFrom rfl hcolumn

/-- The tokens that close all collections. -/
theorem tokens_unroll (s : Lexer) :
    (s.unroll (-1)).tokens = List.replicate s.closings .blockEnd ++ s.tokens := by
  rw [unroll, closings]
  split
  · rfl
  · exact tokens_unrollFrom _ _

/-- Closing collections changes no place. -/
theorem place_unroll (s : Lexer) (column : Int) : (s.unroll column).place = s.place := by
  rw [unroll]
  split
  · rfl
  · exact (unrollFrom_same _ _ _).2.1

/-- Closing collections does not move the cursor. -/
theorem cursor_unroll (s : Lexer) (column : Int) : (s.unroll column).cursor = s.cursor := by
  rw [unroll]
  split
  · rfl
  · exact (unrollFrom_same _ _ _).1

/-- What is done behind a gap: the end or the next token, and then all the others. -/
def settle (f : Nat) (s : Lexer) : Except Fault (List Token) := do
  let s ← s.dropStale
  let s := s.unroll s.cursor.column
  if s.cursor.atEnd then
    let s ← s.closeAll
    pure s.tokens.reverse
  else
    let s ← s.step
    run f s

/-- Tokens are read with the gaps in front of them. -/
theorem run_succ (f : Nat) (s : Lexer) : run (f + 1) s = settle f (skipGaps (f + 1) s) := rfl

/-- The state after a step is handed on. -/
theorem ok_bind (s : Lexer) (next : Lexer → Except Fault (List Token)) :
    (Except.ok s >>= next) = next s := rfl

/-- No key is missing: neither here nor at a place that is too far back. -/
def isComplete (s : Lexer) : Bool := !(s.place.any (·.required) || s.places.any s.overdue)

/-- Where the text ends, all collections are closed unless a key is missing. -/
theorem close_of_atEnd {f : Nat} {s : Lexer} (hs : s.cursor.atEnd = true) :
    (do
      let s := s.unroll s.cursor.column
      if s.cursor.atEnd then
        let s ← s.closeAll
        pure s.tokens.reverse
      else
        let s ← s.step
        run f s) =
      if s.place.any (·.required) then .error (s.fault "could not find expected ':'")
      else .ok (s.tokens.reverse ++ List.replicate s.closings .blockEnd) := by
  have hcolumn : (-1 : Int) ≤ s.cursor.column := by omega
  have hend : (s.unroll s.cursor.column).cursor.atEnd = true := by rw [cursor_unroll, hs]
  have hfault : (s.unroll (-1)).fault = s.fault := by
    funext problem
    rw [fault, fault, cursor_unroll]
  dsimp only
  rw [if_pos hend, closeAll, unroll_unroll _ hcolumn, dropPlace_eq, place_unroll, hfault]
  cases s.place.any (·.required) with
  | true => rfl
  | false =>
    have htokens : (s.unroll (-1)).tokens.reverse =
        s.tokens.reverse ++ List.replicate s.closings .blockEnd := by
      rw [tokens_unroll, List.reverse_append, List.reverse_replicate]
    exact congrArg Except.ok htokens

/-- A key that has to start at a place is missing there or further back. -/
theorem overdue_or_required (s : Lexer) (p? : Option KeyPlace) :
    (s.overdue p? || (s.fresh p?).any (·.required)) = p?.any (·.required) := by
  cases p? with
  | none => rfl
  | some p =>
    cases hstale : s.isStale p <;> cases hrequired : p.required <;>
      simp [overdue, fresh, Option.filter, hstale, hrequired]

/-- At the end of a text all collections are closed, if no key is missing. -/
theorem settle_of_atEnd {f : Nat} {s : Lexer} (hs : s.cursor.atEnd = true) :
    settle f s =
      if s.isComplete then .ok (s.tokens.reverse ++ List.replicate s.closings .blockEnd)
      else .error (s.fault "could not find expected ':'") := by
  rw [settle, dropStale_eq, List.any_cons, isComplete, ← s.overdue_or_required]
  cases s.overdue s.place with
  | true => rfl
  | false =>
    cases s.places.any s.overdue with
    | true => cases (s.fresh s.place).any (·.required) <;> rfl
    | false =>
      have hclosings : closings { s with place := s.fresh s.place, places := s.places.map s.fresh } =
          s.closings := by
        rw [closings, closings, inFlow, inFlow]
        cases s.places <;> rfl
      refine (close_of_atEnd
        (s := { s with place := s.fresh s.place, places := s.places.map s.fresh }) hs).trans ?_
      rw [hclosings]
      cases (s.fresh s.place).any (·.required) <;> rfl

/-- The state at the start of a token: what is behind is settled. -/
def ready (s : Lexer) : Lexer :=
  { s with place := s.fresh s.place, places := s.places.map s.fresh }.unroll s.cursor.column

/-- In front of the end of a text there is a token, if no key is missing. -/
theorem settle_of_not_atEnd {f : Nat} {s : Lexer} (hs : s.cursor.atEnd = false) :
    settle f s =
      if (s.place :: s.places).any s.overdue then .error (s.fault "could not find expected ':'")
      else s.ready.step >>= run f := by
  rw [settle, dropStale_eq]
  split
  · rfl
  · have hend : s.ready.cursor.atEnd = false := by
      rw [ready, cursor_unroll]
      exact hs
    have hgoal : (if s.ready.cursor.atEnd then s.ready.closeAll >>= fun s => pure s.tokens.reverse
        else s.ready.step >>= run f) = s.ready.step >>= run f := by
      rw [hend, if_neg Bool.false_ne_true]
    exact hgoal

/-- The same tokens, or a block scalar at their end, of which one has more white space. -/
def SameButEnd (base tail : List Char) (ts us : List Token) : Prop :=
  ts = us ∨ ∃ vs ws m, EndAlike base tail vs ws ∧ ts = vs.reverse ++ List.replicate m .blockEnd ∧
    us = ws.reverse ++ List.replicate m .blockEnd

namespace Padded

/-- A place that is too far back is so behind the white space. -/
theorem isStale_shift (h : s.Padded o n t) {p : KeyPlace} (hp : t.isStale p = true) :
    s.isStale (p.shift o) = true := by
  have hline := h.cursor.line_le
  have hindex := h.cursor.index_le
  simp only [isStale, Bool.or_eq_true, decide_eq_true_eq] at hp ⊢
  dsimp only [KeyPlace.shift]
  omega

/-- In the text places are too far back in the same way. -/
theorem isStale_eq (h : s.Padded o n t) (hne : t.cursor.rest ≠ []) (p : KeyPlace) :
    s.isStale (p.shift o) = t.isStale p := by
  obtain ⟨hline, -, hindex⟩ := h.cursor.here hne
  rw [Bool.eq_iff_iff]
  simp only [isStale, Bool.or_eq_true, decide_eq_true_eq]
  dsimp only [KeyPlace.shift]
  omega

/-- A key that is missing in the text is missing behind the white space. -/
theorem overdue_map (h : s.Padded o n t) {p? : Option KeyPlace}
    (hp : t.overdue p? = true) : s.overdue (p?.map (·.shift o)) = true := by
  cases p? with
  | none => cases hp
  | some p =>
    obtain ⟨hstale, hrequired⟩ := Bool.and_eq_true_iff.mp hp
    exact Bool.and_eq_true_iff.mpr ⟨h.isStale_shift hstale, hrequired⟩

/-- In the text keys are missing in the same way. -/
theorem overdue_eq (h : s.Padded o n t) (hne : t.cursor.rest ≠ [])
    (p? : Option KeyPlace) : s.overdue (p?.map (·.shift o)) = t.overdue p? := by
  cases p? with
  | none => rfl
  | some p =>
    have hstale := h.isStale_eq hne p
    exact congrArg (· && p.required) hstale

/-- In the text the same places are kept. -/
theorem fresh_eq (h : s.Padded o n t) (hne : t.cursor.rest ≠ []) (p? : Option KeyPlace) :
    s.fresh (p?.map (·.shift o)) = (t.fresh p?).map (·.shift o) := by
  cases p? with
  | none => rfl
  | some p =>
    have hstale := h.isStale_eq hne p
    cases ht : t.isStale p <;> simp [fresh, Option.filter, hstale, ht]

/-- In the text as many keys are missing. -/
theorem any_overdue (h : s.Padded o n t) (hne : t.cursor.rest ≠ []) :
    (s.place :: s.places).any s.overdue = (t.place :: t.places).any t.overdue := by
  rw [h.place, h.places, ← List.map_cons, List.any_map]
  exact congrArg (fun q => List.any _ q) (funext fun p? => h.overdue_eq hne p?)

/-- In the text what is behind is settled in the same way. -/
theorem ready (h : s.Padded o n t) (hne : t.cursor.rest ≠ []) :
    s.ready.Padded o n t.ready := by
  have hfresh : { s with place := s.fresh s.place, places := s.places.map s.fresh }.Padded o n
      { t with place := t.fresh t.place, places := t.places.map t.fresh } := by
    refine { h with place := ?_, places := ?_ }
    · rw [h.place]
      exact h.fresh_eq hne t.place
    · rw [h.places, List.map_map, List.map_map]
      exact List.map_congr_left fun p? _ => h.fresh_eq hne p?
  rw [Lexer.ready, Lexer.ready, (h.cursor.here hne).2.1]
  exact hfresh.unroll _

/-- As many collections are open in both texts. -/
theorem closings_eq (h : s.Padded o n t) : s.closings = t.closings := by
  rw [closings, closings, h.inFlow_eq, h.indent, h.indents]

/-- If no key is missing behind the white space, then none is missing in the text. -/
theorem isComplete (h : s.Padded o n t) (hs : s.isComplete = true) :
    t.isComplete = true := by
  rw [Lexer.isComplete, Bool.not_eq_true', Bool.or_eq_false_iff] at hs ⊢
  refine ⟨h.any_required ▸ hs.1, ?_⟩
  rw [List.any_eq_false]
  intro p? hp hover
  refine List.any_eq_false.mp hs.2 (p?.map (·.shift o)) ?_ (h.overdue_map hover)
  rw [h.places]
  exact List.mem_map_of_mem hp

end Padded

/-- The tokens of a gap make no difference to it. -/
theorem skipGaps_withTokens (f : Nat) (s : Lexer) (ts : List Token) :
    skipGaps f { s with tokens := ts } = { skipGaps f s with tokens := ts } := by
  induction f generalizing s with
  | zero => rfl
  | succ f ih =>
    have hrow : skipGaps (f + 1) { s with tokens := ts } =
        if isBreak (s.cursor.skipRow (s.inFlow || !s.keyAllowed)).peek then
          skipGaps f { s with
            cursor := (s.cursor.skipRow (s.inFlow || !s.keyAllowed)).skipBreak
            tokens := ts
            keyAllowed := s.keyAllowed || !s.inFlow }
        else { s with
          cursor := s.cursor.skipRow (s.inFlow || !s.keyAllowed)
          tokens := ts } :=
      rfl
    rw [hrow, skipGaps_succ]
    dsimp only
    split
    · exact ih { s with
        cursor := (s.cursor.skipRow (s.inFlow || !s.keyAllowed)).skipBreak
        keyAllowed := s.keyAllowed || !s.inFlow }
    · rfl

/-- A gap does not change the tokens. -/
theorem tokens_skipGaps (f : Nat) (s : Lexer) : (skipGaps f s).tokens = s.tokens := by
  have hsame := skipGaps_withTokens f s s.tokens
  rw [show { s with tokens := s.tokens } = s from rfl] at hsame
  rw [hsame]

/-- At the end of both texts the same tokens are added. -/
theorem exists_settle_of_atEnd (h : { s with tokens := t.tokens }.Padded o n t)
    (hsend : s.cursor.atEnd = true) (htend : t.cursor.atEnd = true) {ts : List Token}
    (hs : settle f s = .ok ts) :
    ∃ m, settle k t = .ok (t.tokens.reverse ++ List.replicate m .blockEnd) ∧
      ts = s.tokens.reverse ++ List.replicate m .blockEnd := by
  rw [settle_of_atEnd hsend] at hs
  split at hs
  · rename_i hcomplete
    have hclosings : s.closings = t.closings := h.closings_eq
    cases hs
    refine ⟨t.closings, ?_, by rw [hclosings]⟩
    rw [settle_of_atEnd htend, if_pos (h.isComplete hcomplete)]
  · cases hs

/-- Behind the text there is nothing but white space, so both texts end. -/
theorem exists_settle_of_nil (h : { s with tokens := t.tokens }.Padded o n t)
    (hnil : t.cursor.rest = []) {ts : List Token} (hs : settle f s = .ok ts) :
    ∃ m, settle k t = .ok (t.tokens.reverse ++ List.replicate m .blockEnd) ∧
      ts = s.tokens.reverse ++ List.replicate m .blockEnd := by
  have htend : t.cursor.atEnd = true := by
    rw [Cursor.atEnd, Cursor.peek_of_nil hnil]
    rfl
  cases hsend : s.cursor.atEnd with
  | true => exact exists_settle_of_atEnd h hsend htend hs
  | false =>
    -- White space that was left by the gap would have to be a token.
    have hgap : isGap s.cursor.peek = true := by
      have hpeek := h.cursor.isGapOrEnd_peek hnil
      rw [isGapOrEnd_eq, Bool.or_eq_true] at hpeek
      refine hpeek.resolve_right fun hpeek => ?_
      rw [Cursor.atEnd, hpeek] at hsend
      cases hsend
    rw [settle_of_not_atEnd hsend] at hs
    split at hs
    · cases hs
    · cases hstep : s.ready.step with
      | error fault =>
        rw [hstep] at hs
        cases hs
      | ok s₁ =>
        refine absurd hstep (step_ne_ok ?_)
        rw [ready, cursor_unroll]
        exact hgap

/-- A text has the same tokens without the white space behind it, up to a block scalar at its
end. -/
theorem exists_settle (h : s.Padded o n t) (hk : n ≤ k) (hkf : k ≤ f) {ts : List Token}
    (hs : settle f s = .ok ts) : ∃ us, settle k t = .ok us ∧ SameButEnd o.text o.tail ts us := by
  induction k generalizing n f s t with
  | zero =>
    have hlength := h.cursor.within
    have hnil : t.cursor.rest = [] := List.length_eq_zero_iff.mp (by omega)
    obtain ⟨m, ht, hts⟩ := exists_settle_of_nil (k := 0) h.withTokens hnil hs
    exact ⟨_, ht, .inl (by rw [hts, h.tokens])⟩
  | succ k ih =>
    obtain ⟨f, rfl⟩ : ∃ m, f = m + 1 := ⟨f - 1, by omega⟩
    by_cases hnil : t.cursor.rest = []
    · obtain ⟨m, ht, hts⟩ := exists_settle_of_nil (k := k + 1) h.withTokens hnil hs
      exact ⟨_, ht, .inl (by rw [hts, h.tokens])⟩
    have hn := h.cursor.pos hnil
    have hend := h.cursor.atEnd_eq hnil
    cases htend : t.cursor.atEnd with
    | true =>
      obtain ⟨m, ht, hts⟩ := exists_settle_of_atEnd (k := k + 1) h.withTokens (hend.trans htend) htend hs
      exact ⟨_, ht, .inl (by rw [hts, h.tokens])⟩
    | false =>
      rw [settle_of_not_atEnd (hend.trans htend), h.any_overdue hnil] at hs
      rw [settle_of_not_atEnd htend]
      split at hs
      · cases hs
      · rename_i hoverdue
        rw [if_neg hoverdue]
        cases hstep : s.ready.step with
        | error fault =>
          rw [hstep] at hs
          cases hs
        | ok s₁ =>
          have hready : t.ready.cursor.rest ≠ [] := by
            rw [ready, cursor_unroll]
            exact hnil
          obtain ⟨t₁, ht₁, hafter⟩ := (h.ready hnil).step hready s₁ hstep
          rw [hstep, ok_bind, run_succ] at hs
          rw [ht₁, ok_bind, run_succ]
          obtain h₁ | ⟨hnil₁, h₁, halike⟩ := hafter
          · have h₂ := h₁.skipGaps (k := k + 1) (f := f + 1) (by omega) (by omega)
            exact ih h₂ (by omega) (by omega) hs
          · have h₂ := h₁.skipGaps_past (f := f + 1) hnil₁
            rw [skipGaps_withTokens] at h₂
            obtain ⟨m, ht, hts⟩ := exists_settle_of_nil (k := k) h₂ hnil₁ hs
            rw [Padded.skipGaps_of_nil hnil₁]
            exact ⟨_, ht, .inr ⟨_, _, m, halike, by rw [hts, tokens_skipGaps], rfl⟩⟩

/-- Blank lines in front of a text are a gap. -/
theorem exists_skipGaps_lead {lead rest : List Char} (hlead : IsBlankLines lead)
    (hs : s.cursor.rest = lead ++ rest) (hsound : s.cursor.IsSound) (hcolumn : s.cursor.column = 0)
    (hallowed : s.keyAllowed = true) (hrest : rest.head? ≠ some '\n') (hf : lead.length ≤ f) :
    ∃ g c, f ≤ g + lead.length ∧ skipGaps f s = skipGaps g { s with cursor := c } ∧
      c.rest = rest ∧ c.column = 0 ∧ c.IsSound := by
  induction f generalizing s lead with
  | zero =>
    have hnil : lead = [] := List.length_eq_zero_iff.mp (by omega)
    subst hnil
    exact ⟨0, s.cursor, by omega, rfl, hs, hcolumn, hsound⟩
  | succ f ih =>
    by_cases hnil : lead = []
    · subst hnil
      exact ⟨f + 1, s.cursor, by omega, rfl, hs, hcolumn, hsound⟩
    obtain ⟨hbreak, more, hmore, hblank, hlength, hstart, hcount⟩ :=
      Cursor.exists_skipRow hlead hnil hs hsound hrest (s.inFlow || !s.keyAllowed)
    have hrow : skipGaps (f + 1) s =
        skipGaps f { s with cursor := (s.cursor.skipRow (s.inFlow || !s.keyAllowed)).skipBreak } := by
      rw [skipGaps_succ]
      dsimp only
      rw [if_pos hbreak, hallowed]
      rfl
    obtain ⟨g, c, hg, hskip, hc⟩ := ih (s := { s with
      cursor := (s.cursor.skipRow (s.inFlow || !s.keyAllowed)).skipBreak })
      hblank hmore hcount hstart hallowed (by omega)
    exact ⟨g, c, by omega, hrow.trans hskip, hc⟩

end Lexer

/-- A text has the same tokens without the blank lines in front of it and the white space behind it,
up to a block scalar at its end. -/
theorem Token.exists_ofText {lead base tail : List Char} (hlead : IsBlankLines lead)
    (hhead : (base ++ tail).head? ≠ some '\n')
    (hfirm : ∀ ch, base.getLast? = some ch → isGap ch = false) (htail : ∀ ch ∈ tail, isGap ch = true)
    {ts : List Token} (hts : ofText (lead ++ (base ++ tail)) = .ok ts) :
    ∃ us, ofText base = .ok us ∧ Lexer.SameButEnd base tail ts us := by
  rw [ofText] at hts
  split at hts
  · rename_i hall
    have hbase : base.all isAllowed = true := by
      rw [List.all_append, List.all_append, Bool.and_eq_true, Bool.and_eq_true] at hall
      exact hall.2.1
    have hsound : ∀ text, (Cursor.ofText text).IsSound := fun text => Nat.zero_add _
    obtain ⟨g, c, hg, hskip, hrest, hcolumn, hc⟩ :=
      Lexer.exists_skipGaps_lead (s := Lexer.ofText (lead ++ (base ++ tail)))
        (f := (lead ++ (base ++ tail)).length + 2) hlead rfl (hsound _) rfl rfl hhead
        (by rw [List.length_append]; omega)
    have hdrop : c.rest.drop (Cursor.ofText base).rest.length = tail := by
      rw [hrest]
      exact List.drop_left
    have hpadded : c.Padded ⟨c.line, c.index, base, tail⟩ base.length (Cursor.ofText base) :=
      { rest := ⟨tail, hrest, htail⟩
        firm := hfirm
        inside := List.suffix_refl base
        behind := ⟨[], hdrop⟩
        here := fun _ => ⟨(Nat.zero_add _).symm, hcolumn, (Nat.zero_add _).symm⟩
        line_le := (Nat.zero_add _).le
        index_le := (Nat.zero_add _).le
        sound := hc
        bareSound := hsound base
        within := Nat.le_refl _ }
    have hstart : { Lexer.ofText (lead ++ (base ++ tail)) with cursor := c }.Padded
        ⟨c.line, c.index, base, tail⟩ base.length (Lexer.ofText base) :=
      { cursor := hpadded
        tokens := rfl
        count := rfl
        indent := rfl
        indents := rfl
        keyAllowed := fun _ => rfl
        place := rfl
        places := rfl }
    simp only [List.length_append] at hts hg hskip
    rw [Lexer.run_succ, hskip] at hts
    rw [ofText, if_pos hbase, Lexer.run_succ]
    have hgaps := hstart.skipGaps (k := base.length + 2) (f := g) (by omega) (by omega)
    exact Lexer.exists_settle hgaps (by omega) (by omega) hts
  · cases hts

end ManifestRules.Yaml
