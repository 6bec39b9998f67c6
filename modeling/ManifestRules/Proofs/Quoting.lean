import ManifestRules.Proofs.Quoting.Escape
import ManifestRules.Proofs.Quoting.Gap
import ManifestRules.Proofs.RoundTrip
import ManifestRules.Template.Helper
/-!
# Texts in quotes as documents

The quotes of JSON are read as YAML when a document is decoded. Escapes mean the same to both, but
what JSON writes without an escape is read differently in three cases: characters that YAML does not
allow, line breaks outside ASCII, which are folded with the spaces around them, and lines that start
like the marker of a document. The texts without these are the ones that can be put into a document
in quotes (`Template.decode_quote_iff`).
-/

namespace ManifestRules

namespace Yaml

namespace Scalar

open Json (quotedChar)

variable {acc s run gap more behind : List Char} {c : Cursor} {fuel : Nat}

/-- In quotes there is more to read. -/
theorem atEnd_of_quotedRest (hrest : c.rest = quotedRest s behind) : c.atEnd = false := by
  rw [← Bool.not_eq_true]
  intro hend
  rw [Cursor.atEnd, Cursor.peek, Cursor.peekAt, hrest] at hend
  obtain ⟨ch, more, -, hprintable, hch, -⟩ :=
    exists_cons_of_quotedRest (p := (· == endMark)) rfl rfl hend
  rw [beq_iff_eq.mp hch] at hprintable
  exact absurd hprintable (by decide)

/-- Where there is no gap, a text in quotes is read as it is. -/
theorem exists_readQuotedRuns_of_run (acc : List Char) (hrun : ∀ ch ∈ s, isBareGap ch = false)
    (hrest : c.rest = quotedRest s behind) (hmarker : c.atDocumentMarker = false)
    (hfuel : s.length < fuel) :
    ∃ c', readQuotedRuns false fuel acc c = .ok (s.reverse ++ acc, c') ∧ c'.rest = behind := by
  obtain ⟨fuel, rfl⟩ : ∃ n, fuel = n + 1 := ⟨fuel - 1, by omega⟩
  obtain ⟨c₁, hread, hrest₁⟩ :=
    readQuotedRun_flatMap acc hrun hrest ⟨'"', behind, rfl, .inr rfl⟩ hfuel
  have hpeek : c₁.peek = '"' := by
    rw [Cursor.peek, Cursor.peekAt, hrest₁]
    rfl
  refine ⟨c₁.skip 1, ?_, ?_⟩
  · rw [readQuotedRuns, hmarker, atEnd_of_quotedRest hrest, hread]
    simp [hpeek, bind, Except.bind, pure, Except.pure]
  · rw [Cursor.skip, hrest₁]
    rfl

/-- A text in quotes is read up to the end of its first gap, and then goes on. -/
theorem exists_readQuotedRuns_of_gap (acc : List Char) (h : FirstPart s run gap more) (hne : gap ≠ [])
    (hrest : c.rest = quotedRest s behind) (hmarker : c.atDocumentMarker = false)
    (hfuel : s.length < fuel + 1) :
    ∃ c', readQuotedRuns false (fuel + 1) acc c =
        readQuotedRuns false fuel ((Gap.ofChars gap).folded.reverse ++ (run.reverse ++ acc)) c' ∧
      c'.rest = quotedRest more behind ∧ (c'.column = 0 ↔ gap.getLast? ≠ some ' ') := by
  obtain ⟨hs, hrun, hgap, hmore, -⟩ := h
  rw [hs, List.length_append, List.length_append] at hfuel
  have hwritten : c.rest = run.flatMap quotedChar ++ (gap ++ quotedRest more behind) := by
    have hself : gap.flatMap quotedChar = gap := by
      rw [List.flatMap_congr fun ch hch => quotedChar_of_isBareGap (hgap ch hch)]
      exact List.flatMap_singleton' gap
    rw [hrest, hs, quotedRest, List.flatMap_append, List.flatMap_append, hself, List.append_assoc,
      List.append_assoc]
    rfl
  have hrunFuel : run.length < fuel + 1 := by omega
  have hgapFuel : gap.length < fuel + 1 := by omega
  obtain ⟨first, tail, rfl⟩ := List.exists_cons_of_ne_nil hne
  obtain ⟨c₁, hread₁, hrest₁⟩ := readQuotedRun_flatMap acc hrun hwritten
    ⟨first, _, rfl, .inl (hgap first List.mem_cons_self)⟩ hrunFuel
  obtain ⟨c₂, hread₂, hrest₂, hcolumn⟩ := Gap.exists_read_ofChars [] hgap hrest₁
    (isGap_head?_quotedRest hmore) hgapFuel
  have hempty : Gap.read 0 (fuel + 1) Gap.empty c₁ = .ok (Gap.ofChars (first :: tail), c₂) := hread₂
  have hpeek : c₁.peek ≠ '"' := by
    rw [Cursor.peek, Cursor.peekAt, hrest₁]
    rintro rfl
    cases hgap _ List.mem_cons_self
  refine ⟨c₂, ?_, hrest₂, ?_⟩
  · rw [readQuotedRuns, hmarker, atEnd_of_quotedRest hrest, hread₁]
    simp [hpeek, hempty, bind, Except.bind]
  · rw [hcolumn, List.getLast?_eq_some_getLast hne]
    simp

/-- However a text in quotes is read, it is read up to its end, and as one that is not longer. -/
theorem exists_of_readQuotedRuns {acc' : List Char} {c' : Cursor}
    (hrest : c.rest = quotedRest s behind) (hfuel : s.length < fuel)
    (hread : readQuotedRuns false fuel acc c = .ok (acc', c')) :
    ∃ result : List Char,
      acc' = result.reverse ++ acc ∧ result.length ≤ s.length ∧ c'.rest = behind := by
  induction fuel generalizing s acc c with
  | zero => cases hread
  | succ fuel ih =>
    have hmarker : c.atDocumentMarker = false := by
      rw [← Bool.not_eq_true]
      intro hmarker
      rw [readQuotedRuns, hmarker] at hread
      cases hread
    obtain ⟨run, gap, more, h⟩ := exists_firstPart s
    by_cases hne : gap = []
    · obtain ⟨c₁, hok, hrest₁⟩ :=
        exists_readQuotedRuns_of_run acc (h.all_outside hne) hrest hmarker hfuel
      cases hread.symm.trans hok
      exact ⟨s, rfl, Nat.le_refl _, hrest₁⟩
    · obtain ⟨c₁, hgoes, hrest₁, -⟩ :=
        exists_readQuotedRuns_of_gap acc h hne hrest hmarker hfuel
      have hless := h.length_lt hne
      rw [hgoes] at hread
      obtain ⟨result, rfl, hle, hbehind⟩ := ih hrest₁ (by omega) hread
      refine ⟨run ++ ((Gap.ofChars gap).folded ++ result), by simp, ?_, hbehind⟩
      have hfolded := Gap.length_folded_le gap
      rw [h.eq]
      simp only [List.length_append]
      omega

/-- A text in quotes is read back exactly if it is read plainly and does not part documents where it
starts. -/
theorem readQuotedRuns_iff (acc : List Char) (hrest : c.rest = quotedRest s behind)
    (hfuel : s.length < fuel) :
    (∃ c', readQuotedRuns false fuel acc c = .ok (s.reverse ++ acc, c')) ↔
      (c.column = 0 → ¬ StartsMarker s) ∧ ReadsPlainly s := by
  induction fuel generalizing s acc c with
  | zero => omega
  | succ fuel ih =>
    cases hmarker : c.atDocumentMarker with
    | true =>
      obtain ⟨hcolumn, hstart⟩ := (atDocumentMarker_iff hrest).mp hmarker
      constructor
      · rintro ⟨c', hread⟩
        rw [readQuotedRuns, hmarker] at hread
        cases hread
      · exact fun h => absurd hstart (h.1 hcolumn)
    | false =>
      have hstart : c.column = 0 → ¬ StartsMarker s := by
        intro hcolumn hstart
        rw [(atDocumentMarker_iff hrest).mpr ⟨hcolumn, hstart⟩] at hmarker
        cases hmarker
      obtain ⟨run, gap, more, h⟩ := exists_firstPart s
      by_cases hne : gap = []
      · have houtside := h.all_outside hne
        have hplain := (readsPlainly_run_append_iff (s := []) houtside).mpr readsPlainly_nil
        rw [List.append_nil] at hplain
        obtain ⟨c₁, hok, -⟩ :=
          exists_readQuotedRuns_of_run acc houtside hrest hmarker hfuel
        exact iff_of_true ⟨c₁, hok⟩ ⟨hstart, hplain⟩
      · obtain ⟨c₁, hgoes, hrest₁, hcolumn⟩ :=
          exists_readQuotedRuns_of_gap acc h hne hrest hmarker hfuel
        have hless := h.length_lt hne
        have hfolded := Gap.folded_ofChars_eq_iff h.inside
        rw [hgoes, and_iff_right hstart, h.readsPlainly_iff hne, ← hfolded, ← hcolumn]
        have hmore := ih (gap.reverse ++ (run.reverse ++ acc)) hrest₁ (by omega)
        have hs : s.reverse ++ acc = more.reverse ++ (gap.reverse ++ (run.reverse ++ acc)) := by
          simp [h.eq]
        constructor
        · rintro ⟨c', hread⟩
          obtain ⟨result, hresult, hle, -⟩ := exists_of_readQuotedRuns hrest₁ (by omega) hread
          have hwhole : gap ++ more = (Gap.ofChars gap).folded ++ result := by
            rw [hs] at hresult
            have hreversed : (gap ++ more).reverse ++ (run.reverse ++ acc) =
                ((Gap.ofChars gap).folded ++ result).reverse ++ (run.reverse ++ acc) := by
              simpa only [List.reverse_append, List.append_assoc] using hresult
            exact List.reverse_inj.mp (List.append_cancel_right hreversed)
          have hkept : (Gap.ofChars gap).folded = gap := by
            have hlength := congrArg List.length hwhole
            have hle' := Gap.length_folded_le gap
            rw [List.length_append, List.length_append] at hlength
            exact (List.append_inj_left hwhole (by omega)).symm
          rw [hkept, hs] at hread
          exact ⟨hkept, hmore.mp ⟨c', hread⟩⟩
        · rintro ⟨hkept, hplain⟩
          rw [hkept, hs]
          exact hmore.mpr hplain

/-- Every character of a text takes one at least in quotes. -/
theorem length_le_left {t : List Char} (hrest : c.rest = quotedRest t behind) (hsound : c.IsSound) :
    t.length ≤ c.left := by
  have hquoted : ∀ ch, quotedChar ch ≠ [] := by
    intro ch
    obtain ⟨hself, -⟩ | ⟨-, hescape⟩ := quotedChar_cases ch
    · rw [hself]
      exact List.cons_ne_nil ch []
    · obtain ⟨letter, more, hwritten, -⟩ := hescape.lead
      rw [hwritten]
      exact List.cons_ne_nil _ _
  have hlength := Text.length_le_flatMap hquoted t
  have hbytes := Cursor.length_le_bytesIn c.rest
  rw [hsound.left_eq]
  rw [hrest, quotedRest, List.length_append] at hbytes
  rw [hrest, quotedRest]
  omega

/-- A text in quotes is read back behind the first quote exactly if it is read plainly. -/
theorem readQuoted_iff {t : String} (hrest : c.rest = quotedRest t.toList behind) (hsound : c.IsSound)
    (hcolumn : c.column ≠ 0) :
    (∃ c', readQuoted false c = .ok (t, c')) ↔ ReadsPlainly t.toList := by
  have hfuel := length_le_left hrest hsound
  have hless : t.toList.length < c.left + 2 := by omega
  have hruns := readQuotedRuns_iff [] hrest hless
  rw [and_iff_right fun h => absurd h hcolumn, List.append_nil] at hruns
  rw [← hruns, readQuoted]
  cases readQuotedRuns false (c.left + 2) [] c with
  | error fault => simp [bind, Except.bind]
  | ok r =>
    have hsame : String.ofList r.1.reverse = t ↔ r.1 = t.toList.reverse := by
      rw [← String.toList_inj, String.toList_ofList, List.reverse_eq_iff]
    simp [bind, Except.bind, pure, Except.pure, Prod.ext_iff, hsame]

/-- However a text in quotes is read, the reader is behind the last quote then. -/
theorem rest_of_readQuoted {t t' : String} {c' : Cursor} (hrest : c.rest = quotedRest t.toList behind)
    (hsound : c.IsSound) (hread : readQuoted false c = .ok (t', c')) : c'.rest = behind := by
  have hfuel := length_le_left hrest hsound
  rw [readQuoted] at hread
  cases hruns : readQuotedRuns false (c.left + 2) [] c with
  | error fault =>
    rw [hruns] at hread
    cases hread
  | ok r =>
    obtain ⟨_, -, -, hbehind⟩ := exists_of_readQuotedRuns hrest (by omega) hruns
    rw [hruns] at hread
    cases hread
    exact hbehind

end Scalar

namespace Lexer

variable {s : Lexer} {rest : List Char} {f : Nat}

/-- In front of a quote there is no gap. -/
theorem skipGaps_of_quote (hs : s.cursor.rest = '"' :: rest) : skipGaps f s = s := by
  have hpeek := Cursor.peek_of_cons hs
  cases f with
  | zero => rfl
  | succ f =>
    have hmark : s.cursor.skipMark = s.cursor := by simp [Cursor.skipMark, hpeek, byteOrderMark]
    have hskip : ∀ p : Char → Bool, p '"' = false → s.cursor.skipWhile p = s.cursor := by
      intro p hp
      rw [Cursor.skipWhile, Cursor.takeWhile, hs, List.takeWhile_cons, hp]
      rfl
    have hrow : s.cursor.skipRow (s.inFlow || !s.keyAllowed) = s.cursor := by
      rw [Cursor.skipRow, hmark, hskip _ (by simp), hpeek]
      rfl
    rw [skipGaps_succ, hrow]
    dsimp only
    rw [hpeek]
    rfl

/-- A quote starts a scalar. -/
theorem step_of_quote (hs : s.cursor.rest = '"' :: rest) :
    s.step = s.word (readQuotedToken false) := by
  have hpeek := Cursor.peek_of_cons hs
  have hmarker : ∀ m : Char, m ≠ '"' → s.cursor.atMarker m = false := by
    intro m hm
    have hfirst : (s.cursor.peekAt 0 == m) = false := by
      rw [show s.cursor.peekAt 0 = '"' from hpeek]
      exact beq_eq_false_iff_ne.mpr hm.symm
    simp [Cursor.atMarker, hfirst]
  simp [step, hpeek, hmarker]

/-- A text in quotes is a single token. -/
theorem settle_ofText {text : List Char} (hquote : text = '"' :: rest)
    (hrest : ∀ t c, Scalar.readQuoted false ((Cursor.ofText text).skip 1) = .ok (t, c) →
      c.rest = []) :
    settle (f + 1) (ofText text) =
      (Scalar.readQuoted false ((Cursor.ofText text).skip 1)).map fun r => [.scalar r.1 false] := by
  have hstart : (ofText text).cursor.rest = '"' :: rest := hquote
  have hend : (ofText text).cursor.atEnd = false := by
    rw [Cursor.atEnd, Cursor.peek_of_cons hstart]
    rfl
  have hready : (ofText text).ready = ofText text := rfl
  have hoverdue : ¬ ((ofText text).place :: (ofText text).places).any (ofText text).overdue = true :=
    Bool.false_ne_true
  have hplace : (ofText text).savePlace =
      .ok { ofText text with place := some (ofText text).here } := by
    rw [savePlace_eq]
    rfl
  have hword : (ofText text).word (readQuotedToken false) =
      (Scalar.readQuoted false ((Cursor.ofText text).skip 1)).map fun r =>
        { ofText text with
          cursor := r.2
          tokens := [.scalar r.1 false]
          count := 1
          keyAllowed := false
          place := some (ofText text).here } := by
    rw [word, hplace]
    change (Scalar.readQuoted false ((Cursor.ofText text).skip 1) >>= _) >>= _ = _
    cases Scalar.readQuoted false ((Cursor.ofText text).skip 1) <;> rfl
  rw [settle_of_not_atEnd hend, hready, step_of_quote hstart, if_neg hoverdue, hword]
  cases hread : Scalar.readQuoted false ((Cursor.ofText text).skip 1) with
  | error fault => rfl
  | ok r =>
    have hnil := hrest r.1 r.2 hread
    simp only [Except.map, bind, Except.bind]
    rw [run_succ, Padded.skipGaps_of_nil hnil, settle_of_atEnd]
    · rfl
    · change (Cursor.peek r.2 == endMark) = true
      rw [Cursor.peek_of_nil hnil]
      rfl

end Lexer

/-- In quotes there are only characters that YAML allows, unless they are in the text. -/
theorem all_isAllowed_quotedChar (c : Char) :
    (Json.quotedChar c).all isAllowed = true ↔ c.toNat < 0x20 ∨ isAllowed c = true := by
  have hdigit : ∀ n < 16, isAllowed (Json.hexDigit n) = true := by decide
  unfold Json.quotedChar
  split_ifs with hquote hslash hb ht hn hf hr hcontrol
  any_goals
    subst c
    decide
  · refine iff_of_true ?_ (.inl hcontrol)
    simp only [List.all_cons, hdigit (c.toNat / 16) (by omega), hdigit (c.toNat % 16) (by omega)]
    rfl
  · simp [hcontrol]

/-- All of a text in quotes is allowed if the text in it is, apart from what is written in escapes. -/
theorem all_isAllowed_quoteChars (s : List Char) :
    (Json.quoteChars s).all isAllowed = true ↔ ∀ c ∈ s, c.toNat < 0x20 ∨ isAllowed c = true := by
  have hquote : isAllowed '"' = true := rfl
  simp only [Json.quoteChars, List.all_cons, List.all_append, List.all_flatMap, List.all_nil, hquote,
    Bool.true_and, Bool.and_true]
  rw [List.all_eq_true]
  exact forall₂_congr fun c _ => all_isAllowed_quotedChar c

/-- The reader of a text in quotes has the text and the last quote in front of it. -/
theorem rest_behindQuote (s : String) :
    ((Cursor.ofText (Json.quoteChars s.toList)).skip 1).rest = Scalar.quotedRest s.toList [] := rfl

/-- The reader of a text in quotes keeps count of what it has read. -/
theorem isSound_behindQuote (s : String) :
    ((Cursor.ofText (Json.quoteChars s.toList)).skip 1).IsSound := by
  have hstart : (Cursor.ofText (Json.quoteChars s.toList)).IsSound := Nat.zero_add _
  exact hstart.skip 1

/-- The document that is a text in quotes is the text that is read from the quotes. -/
theorem decode_quote {s : String} (hallowed : (Json.quoteChars s.toList).all isAllowed = true) :
    decode (Json.quote s) =
      (Scalar.readQuoted false ((Cursor.ofText (Json.quoteChars s.toList)).skip 1)).map fun r =>
        .string r.1 := by
  have htokens : Token.ofText (Json.quote s).toList =
      (Scalar.readQuoted false ((Cursor.ofText (Json.quoteChars s.toList)).skip 1)).map fun r =>
        [.scalar r.1 false] := by
    rw [Json.quote, String.toList_ofList, Token.ofText, if_pos hallowed, Lexer.run_succ,
      Lexer.skipGaps_of_quote rfl]
    exact Lexer.settle_ofText rfl fun t c hread =>
      Scalar.rest_of_readQuoted (rest_behindQuote s) (isSound_behindQuote s) hread
  rw [decode, Node.ofText, htokens]
  cases Scalar.readQuoted false ((Cursor.ofText (Json.quoteChars s.toList)).skip 1) <;> rfl

/-- A text in quotes is decoded as the text exactly if it can be embedded. -/
theorem decode_quote_eq_iff (s : String) :
    decode (Json.quote s) = .ok (.string s) ↔ IsEmbeddable s.toList := by
  have hiff : IsEmbeddable s.toList ↔
      (Json.quoteChars s.toList).all isAllowed = true ∧ ReadsPlainly s.toList := by
    rw [all_isAllowed_quoteChars]
    exact ⟨fun h => ⟨h.allowed, h.plain⟩, fun h => ⟨h.1, h.2⟩⟩
  rw [hiff]
  by_cases hallowed : (Json.quoteChars s.toList).all isAllowed = true
  · rw [and_iff_right hallowed, decode_quote hallowed,
      ← Scalar.readQuoted_iff (rest_behindQuote s) (isSound_behindQuote s) (by simp [Cursor.skip])]
    cases Scalar.readQuoted false ((Cursor.ofText (Json.quoteChars s.toList)).skip 1) with
    | error fault => simp [Except.map]
    | ok r => simp [Except.map, Prod.ext_iff]
  · refine iff_of_false ?_ fun h => hallowed h.1
    rw [decode, Node.ofText, Json.quote, String.toList_ofList, Token.ofText, if_neg hallowed]
    exact fun h => by cases h

end Yaml

namespace Template

open Yaml (IsEmbeddable)

/-- Putting a text in quotes yields YAML that is decoded as the text again exactly if all characters
that JSON does not escape are allowed in YAML and none of them folds or parts lines. -/
theorem decode_quote_iff (env : Env) {f : Found} {s : String} (hf : f.json = .string s)
    (more : List Found) :
    ∃ text, ValueHelper.quote.apply env (f :: more) = pure (.string text) ∧
      (Yaml.codec.decode text = .ok (.string s) ↔ IsEmbeddable s.toList) := by
  have harg : env.arg (f :: more) 0 = pure (.string s) := by
    cases f with
    | missing => cases hf
    | «at» path v => simp [Env.arg, Found.isMissing, hf]
    | value v => simp [Env.arg, Found.isMissing, hf]
  refine ⟨Json.quote s, ?_, ?_⟩
  · rw [ValueHelper.apply, harg]
    rfl
  · rw [Yaml.codec_decode_eq_ok_iff, Yaml.decode_quote_eq_iff]

/-- Quotes, backslashes, line feeds, tabs and lines like markers of documents can be embedded. -/
theorem script_embedded :
    (Found.value (.string "# \"a\": \\\n---\n\tb \r\n ")).json =
      .string "# \"a\": \\\n---\n\tb \r\n " ∧
    ∃ text, ValueHelper.quote.apply ⟨true, .null, none⟩
        [.value (.string "# \"a\": \\\n---\n\tb \r\n ")] = pure (.string text) ∧
      Yaml.codec.decode text = .ok (.string "# \"a\": \\\n---\n\tb \r\n ") := by
  obtain ⟨text, htext, hiff⟩ := decode_quote_iff ⟨true, .null, none⟩
    (f := .value (.string "# \"a\": \\\n---\n\tb \r\n ")) rfl []
  refine ⟨rfl, text, htext, hiff.mpr (Yaml.isEmbeddable_of_ordinary ?_)⟩
  decide +kernel

/-- Of the characters that JSON leaves as they are some are not allowed in YAML, and some are line
breaks there: these are folded, take spaces along and part documents. What the writer of YAML puts
in quotes is read back. -/
theorem characters_lost_in_quotes :
    ValueHelper.quote.apply ⟨true, .null, none⟩ [.value (.string "\x7f")] =
      pure (.string "\"\x7f\"") ∧
    Yaml.codec.decode "\"\x7f\"" ≠ .ok (.string "\x7f") ∧
    Yaml.codec.decode (Json.quote "a\u0085b") = .ok (.string "a b") ∧
    Yaml.codec.decode (Json.quote "a \u2028b") = .ok (.string "a\u2028b") ∧
    Yaml.codec.decode (Json.quote "a\u2028--- b") ≠ .ok (.string "a\u2028--- b") ∧
    (["\x7f", "a\u0085b", "a \u2028b", "a\u2028--- b"].all fun s =>
      Yaml.codec.decode (Yaml.write (.string s)) == .ok (.string s)) = true := by
  refine ⟨rfl, ?_⟩
  decide +kernel

end Template

end ManifestRules
