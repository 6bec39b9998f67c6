import ManifestRules.Proofs.Framing
import ManifestRules.Yaml.Codec
/-!
# The rows of a written mapping

A separator line starts with three dashes. Nothing that is written for a mapping has such a line,
whatever texts are in it: a dash at the start of a row is followed by a space, a key that starts
with three dashes is quoted, and the lines of a block are indented (`Yaml.isFramable_write`).
-/

namespace ManifestRules

open ManifestRules.Stream (separator isSeparator IsWhole IsFramable)

namespace Yaml

/-- The text starts with three dashes. -/
def startsRule (s : List Char) : Bool := s.take 3 == ['-', '-', '-']

/-- No line feed in the text has three dashes behind it. -/
def isCalm : List Char → Bool
  | [] => true
  | c :: rest => (c != '\n' || !startsRule rest) && isCalm rest

/-- No line of the text starts with three dashes, if the text itself starts a line. -/
structure IsQuiet (s : List Char) : Prop where
  /-- The first line does not. -/
  start : startsRule s = false
  /-- The lines behind line feeds do not. -/
  calm : isCalm s = true

variable {s r : List Char}

/-- A line feed starts a line. -/
theorem isCalm_lineFeed (r : List Char) : isCalm ('\n' :: r) = true ↔ IsQuiet r := by
  have hunfold : isCalm ('\n' :: r) = (!startsRule r && isCalm r) := rfl
  rw [hunfold, Bool.and_eq_true, Bool.not_eq_true']
  exact ⟨fun h => ⟨h.1, h.2⟩, fun h => ⟨h.start, h.calm⟩⟩

/-- Other characters start no line. -/
theorem isCalm_cons {c : Char} (hc : c ≠ '\n') (r : List Char) : isCalm (c :: r) = isCalm r := by
  simp [isCalm, hc]

/-- A text without line feeds starts no line. -/
theorem isCalm_append (hs : '\n' ∉ s) (r : List Char) : isCalm (s ++ r) = isCalm r := by
  induction s with
  | nil => rfl
  | cons c s ih =>
    have hc : c ≠ '\n' := fun hc => hs (by rw [hc]; exact List.mem_cons_self)
    rw [List.cons_append, isCalm_cons hc, ih fun hmem => hs (List.mem_cons_of_mem c hmem)]

/-- Another character than a dash does not start three dashes. -/
theorem startsRule_cons {c : Char} (hc : c ≠ '-') (r : List Char) : startsRule (c :: r) = false := by
  simp [startsRule, hc]

/-- A dash that is followed by a space does not start three of them. -/
theorem startsRule_item (r : List Char) : startsRule ('-' :: ' ' :: r) = false := by
  simp [startsRule]

/-- A text before another character than a dash starts with three dashes only by itself. -/
theorem startsRule_append {c : Char} (hc : c ≠ '-') (s r : List Char) :
    startsRule (s ++ c :: r) = startsRule s := by
  match s with
  | [] => exact startsRule_cons hc r
  | [a] => simp [startsRule, hc]
  | [a, b] => simp [startsRule, hc]
  | a :: b :: d :: more => simp [startsRule]

/-- A line feed behind quiet rows, or at their start, does not matter. -/
theorem IsQuiet.lineFeed (hr : IsQuiet r) : IsQuiet ('\n' :: r) :=
  ⟨startsRule_cons (by decide) r, (isCalm_lineFeed r).mpr hr⟩

/-- The first line of a text is what the text starts with. -/
theorem startsWith_head_lines {line : List Char} {more : List (List Char)}
    (hs : Text.lines s = line :: more) : line <+: s := by
  have hjoin := Text.flatten_lines s
  rw [hs, List.flatten_cons] at hjoin
  exact ⟨more.flatten, hjoin⟩

/-- What starts with a text that starts with three dashes starts with them too. -/
theorem startsRule_of_start {line : List Char} (hline : line <+: s) (hs : startsRule s = false) :
    startsRule line = false := by
  obtain ⟨rest, rfl⟩ := hline
  match line with
  | [] | [_] | [_, _] => simp [startsRule]
  | a :: b :: d :: more => simpa [startsRule] using hs

/-- The lines of a text behind the first start behind its line feeds. -/
theorem startsRule_of_mem_tail (hs : isCalm s = true) :
    ∀ line ∈ (Text.lines s).tail, startsRule line = false := by
  induction s with
  | nil => simp [Text.lines]
  | cons c s ih =>
    by_cases hc : c = '\n'
    · subst hc
      have hquiet := (isCalm_lineFeed s).mp hs
      rw [Text.lines, if_pos rfl, List.tail_cons]
      cases hl : Text.lines s with
      | nil => simp
      | cons line more =>
        have hmore := ih hquiet.calm
        rw [hl, List.tail_cons] at hmore
        have hline := startsRule_of_start (startsWith_head_lines hl) hquiet.start
        exact List.forall_mem_cons.mpr ⟨hline, hmore⟩
    · have hmore := ih (by rwa [isCalm_cons hc] at hs)
      rw [Text.lines, if_neg hc]
      cases hl : Text.lines s with
      | nil => simp
      | cons line more =>
        rw [hl] at hmore
        exact hmore

/-- A separator line starts with three dashes. -/
theorem startsRule_of_isSeparator {line : List Char} (hline : isSeparator line = true) :
    startsRule line = true := by
  rw [isSeparator] at hline
  split at hline
  · rename_i rest htrim
    have hprefix : Text.trimEnd line <+: line := List.rdropWhile_prefix ..
    rw [htrim] at hprefix
    obtain ⟨blank, rfl⟩ := hprefix
    rfl
  · cases hline

/-- A text in which no line starts with three dashes has no separators. -/
theorem IsQuiet.isWhole (hs : IsQuiet s) : IsWhole s := by
  intro line hline
  have hstart : startsRule line = false := by
    cases hl : Text.lines s with
    | nil =>
      rw [hl] at hline
      cases hline
    | cons first more =>
      have hmore := startsRule_of_mem_tail hs.calm
      rw [hl] at hline hmore
      obtain rfl | hline := List.mem_cons.mp hline
      · exact startsRule_of_start (startsWith_head_lines hl) hs.start
      · exact hmore line hline
  cases hseparator : isSeparator line with
  | false => rfl
  | true => exact absurd (startsRule_of_isSeparator hseparator) (by simp [hstart])

namespace Written

/-- Escaped bytes are written in digits and letters. -/
theorem isBreak_of_mem_hexDigits {ch : Char} {count n : Nat} (hch : ch ∈ hexDigits count n) :
    isBreak ch = false := by
  have hdigit : ∀ m < 16, isBreak (hexDigit m) = false := by decide
  induction count generalizing n with
  | zero => cases hch
  | succ count ih =>
    rw [hexDigits, List.mem_append, List.mem_singleton] at hch
    obtain hch | rfl := hch
    · exact ih hch
    · exact hdigit (n % 16) (Nat.mod_lt n (by decide))

/-- A tag is written without line feeds. -/
theorem lineFeed_notMem_tagChar (c : Char) : '\n' ∉ tagChar c := by
  rw [tagChar]
  split
  · rename_i hc
    rw [List.mem_singleton]
    rintro rfl
    exact absurd hc (by decide)
  · intro hmem
    obtain ⟨b, -, hb⟩ := List.mem_flatMap.mp hmem
    obtain hb | hb := List.mem_cons.mp hb
    · cases hb
    · cases isBreak_of_mem_hexDigits hb

/-- A tag is one word of its line. -/
theorem lineFeed_notMem_tag (t : Tag) : '\n' ∉ tag t := by
  have hrest : ∀ cs : List Char, '\n' ∉ cs.flatMap tagChar := by
    intro cs hmem
    obtain ⟨c, -, hc⟩ := List.mem_flatMap.mp hmem
    exact lineFeed_notMem_tagChar c hc
  rw [tag]
  split
  · exact fun hmem => (List.mem_cons.mp hmem).elim (by decide) (hrest _)
  · simp [lineFeed_notMem_tagChar]

/-- Line breaks in double quotes are escaped. -/
theorem isBreak_of_mem_doubleChar {ch c : Char} (hch : ch ∈ doubleChar c) : isBreak ch = false := by
  rw [doubleChar] at hch
  cases hletter : escapeLetter? c with
  | some letter =>
    have hbreak : isBreak letter = false := by
      unfold escapeLetter? at hletter
      split at hletter <;> cases hletter <;> decide
    simp only [hletter, List.mem_cons, List.not_mem_nil, or_false] at hch
    obtain rfl | rfl := hch
    · rfl
    · exact hbreak
  | none =>
    have hplain : isBreak c = false := by
      rw [← Bool.not_eq_true]
      intro hbreak
      simp only [isBreak, Bool.or_eq_true, beq_iff_eq] at hbreak
      obtain (((rfl | rfl) | rfl) | rfl) | rfl := hbreak <;> cases hletter
    have hescape : ∀ {letter count n}, isBreak letter = false →
        ch ∈ '\\' :: letter :: hexDigits count n → isBreak ch = false := by
      intro letter count n hbreak hmem
      obtain rfl | hmem := List.mem_cons.mp hmem
      · rfl
      · obtain rfl | hmem := List.mem_cons.mp hmem
        · exact hbreak
        · exact isBreak_of_mem_hexDigits hmem
    simp only [hletter] at hch
    split at hch
    · rwa [List.mem_singleton.mp hch]
    · split at hch
      · exact hescape rfl hch
      · split at hch <;> exact hescape rfl hch

/-- Padding does not add line feeds. -/
theorem lineFeed_notMem_padLines {s : List Char} (hs : '\n' ∉ s) (indent : Nat) (start : Bool) :
    '\n' ∉ padLines indent start s := by
  induction s generalizing start with
  | nil => simp [padLines]
  | cons c s ih =>
    obtain ⟨hc, hrest⟩ := not_or.mp (mt List.mem_cons.mpr hs)
    rw [padLines]
    split
    · simp [hc, ih hrest]
    · split <;> simp [hc, ih hrest, pad]

/-- A text in double quotes stands in one line. -/
theorem isBreak_of_mem_double {ch : Char} {s : List Char} (hch : ch ∈ double s) :
    isBreak ch = false := by
  rw [double, List.mem_cons, List.mem_append, List.mem_singleton] at hch
  obtain rfl | hch | rfl := hch
  · rfl
  · obtain ⟨c, -, hc⟩ := List.mem_flatMap.mp hch
    exact isBreak_of_mem_doubleChar hc
  · rfl

/-- A text in double quotes has no line feed. -/
theorem lineFeed_notMem_double (s : List Char) : '\n' ∉ double s := by
  intro hmem
  cases isBreak_of_mem_double hmem

/-- A text with line feeds becomes a block or is put in double quotes. -/
theorem style_of_lineFeed {s : String} (hs : '\n' ∈ s.toList) :
    ScalarStyle.ofText s = .literal ∨ ScalarStyle.ofText s = .double := by
  have hcontains : s.toList.contains '\n' = true := by simpa using hs
  simp only [ScalarStyle.ofText, hcontains, if_true]
  split
  · exact .inl rfl
  · exact .inr rfl

/-- A text without line feeds does not become a block. -/
theorem style_ne_literal {s : String} (hs : '\n' ∉ s.toList) :
    ScalarStyle.ofText s ≠ .literal := by
  have hcontains : s.toList.contains '\n' = false := by simpa using hs
  simp only [ScalarStyle.ofText, hcontains, Bool.false_eq_true, if_false]
  split
  · decide
  · split <;> decide

/-- A text that has no line feed is written without one, in whatever style. -/
theorem lineFeed_notMem_text {indent : Nat} {s : String} (hs : '\n' ∉ s.toList) :
    '\n' ∉ text indent s := by
  rw [text]
  cases hstyle : ScalarStyle.ofText s with
  | plain => exact hs
  | single =>
    have hdoubled : '\n' ∉ s.toList.flatMap fun c => if c = '\'' then ['\'', '\''] else [c] := by
      intro hmem
      obtain ⟨c, hc, hline⟩ := List.mem_flatMap.mp hmem
      split at hline
      · simp at hline
      · rw [List.mem_singleton] at hline
        exact hs (by rwa [hline])
    have hpadded := lineFeed_notMem_padLines hdoubled indent false
    dsimp only
    rw [single]
    split <;> simp [hpadded, pad]
  | double => exact lineFeed_notMem_double s.toList
  | literal => exact absurd hstyle (style_ne_literal hs)

/-- A text that is written plain does not start with three dashes. -/
theorem startsRule_text (indent : Nat) (s : String) : startsRule (text indent s) = false := by
  rw [text]
  cases hstyle : ScalarStyle.ofText s with
  | plain =>
    have hplain : ScalarStyle.plainAllowed s.toList = true := by
      simp only [ScalarStyle.ofText] at hstyle
      split at hstyle
      · split at hstyle <;> cases hstyle
      · split at hstyle
        · simp_all
        · split at hstyle <;> cases hstyle
    cases hrule : startsRule s.toList with
    | false => rfl
    | true =>
      have hmarker : ScalarStyle.startsMarker s.toList = true := by
        rw [ScalarStyle.startsMarker, Bool.or_eq_true]
        exact .inl hrule
      simp [ScalarStyle.plainAllowed, ScalarStyle.hasBlockIndicator, hmarker] at hplain
  | single => exact startsRule_cons (by decide) _
  | double => exact startsRule_cons (by decide) _
  | literal => exact startsRule_cons (by decide) _

/-- The lines of a block are indented. -/
theorem isCalm_padLines {indent : Nat} (hindent : 0 < indent) (s : List Char) (hr : IsQuiet r) :
    IsQuiet (padLines indent true s ++ r) ∧ isCalm (padLines indent false s ++ r) = true := by
  induction s with
  | nil => exact ⟨hr, hr.calm⟩
  | cons c s ih =>
    obtain ⟨hstart, hinside⟩ := ih
    obtain ⟨n, rfl⟩ : ∃ n, indent = n + 1 := ⟨indent - 1, by omega⟩
    by_cases hc : isBreak c
    · have hdash : c ≠ '-' := by
        rintro rfl
        cases hc
      have hcalm : isCalm (c :: (padLines (n + 1) true s ++ r)) = true := by
        by_cases hline : c = '\n'
        · rw [hline]
          exact (isCalm_lineFeed _).mpr hstart
        · rw [isCalm_cons hline]
          exact hstart.calm
      simp only [padLines, hc, if_true, List.cons_append]
      exact ⟨⟨startsRule_cons hdash _, hcalm⟩, hcalm⟩
    · have hline : c ≠ '\n' := by
        rintro rfl
        exact hc rfl
      have hspaces : '\n' ∉ pad (n + 1) := by simp [pad]
      have hcalm : isCalm (c :: (padLines (n + 1) false s ++ r)) = true := by
        rw [isCalm_cons hline]
        exact hinside
      simp only [padLines, hc, if_true, if_false, List.cons_append, List.append_assoc,
        Bool.false_eq_true]
      refine ⟨⟨startsRule_cons (by decide) _, ?_⟩, hcalm⟩
      rw [isCalm_append hspaces]
      exact hcalm

/-- The header of a block is one line. -/
theorem lineFeed_notMem_literalHeader (s : List Char) : '\n' ∉ literalHeader s := by
  have hdigit : ∀ b : Bool, '\n' ∉ if b then ['2'] else [] := by decide
  rw [literalHeader]
  simp only [List.cons_append, List.mem_cons, List.mem_append, not_or]
  refine ⟨by decide, hdigit _, ?_⟩
  split
  · decide
  · split
    · decide
    · split
      · decide
      · split <;> decide

/-- A text as a value is calm in whatever style it is written. -/
theorem isCalm_text {indent : Nat} (hindent : 0 < indent) (s : String) (hr : IsQuiet r) :
    isCalm (text indent s ++ r) = true := by
  by_cases hs : '\n' ∈ s.toList
  · obtain hstyle | hstyle := style_of_lineFeed hs
    · have hlines := (isCalm_padLines hindent s.toList hr).1
      rw [text, hstyle]
      simp only [literal, List.append_assoc, List.cons_append]
      rw [isCalm_append (lineFeed_notMem_literalHeader s.toList), isCalm_lineFeed]
      exact hlines
    · rw [text, hstyle]
      dsimp only
      rw [isCalm_append (lineFeed_notMem_double s.toList)]
      exact hr.calm
  · rw [isCalm_append (lineFeed_notMem_text hs)]
    exact hr.calm

/-- A scalar is calm as the rest of its row if it is so before quiet rows. -/
theorem isCalm_scalarRow (hs : ∀ r, IsQuiet r → isCalm (s ++ r) = true) (hr : IsQuiet r) :
    isCalm (scalarRow s ++ r) = true := by
  rw [scalarRow, endRow, List.cons_append, isCalm_cons (by decide)]
  split
  · exact hs r hr
  · rw [List.append_assoc]
    exact hs _ hr.lineFeed

/-- A text that stands in one line and does not start with three dashes. -/
structure IsWord (s : List Char) : Prop where
  /-- It has no line feed. -/
  lineFeed : '\n' ∉ s
  /-- It does not start with three dashes. -/
  start : startsRule s = false

/-- A word is calm as the rest of its row. -/
theorem IsWord.isCalm_scalarRow (hs : IsWord s) (hr : IsQuiet r) :
    isCalm (scalarRow s ++ r) = true :=
  Written.isCalm_scalarRow (fun r hr => by rw [isCalm_append hs.lineFeed]; exact hr.calm) hr

/-- A word may stand at the start of a line, before a colon. -/
theorem IsWord.isQuiet_colon (hs : IsWord s) (hr : isCalm r = true) : IsQuiet (s ++ ':' :: r) := by
  refine ⟨?_, ?_⟩
  · rw [startsRule_append (by decide)]
    exact hs.start
  · rw [isCalm_append hs.lineFeed, isCalm_cons (by decide)]
    exact hr

end Written

end Yaml

namespace DecimalStyle

/-- The digits of a number are digits. -/
theorem isDigit_natDigits {n : Nat} {c : Char} (hc : c ∈ natDigits n) : c.isDigit = true :=
  Nat.isDigit_of_mem_toDigits (by decide) (by decide) hc

/-- What is no digit is not among the digits of a number. -/
theorem notMem_natDigits {c : Char} (hc : c.isDigit = false) (n : Nat) : c ∉ natDigits n := by
  intro hmem
  rw [isDigit_natDigits hmem] at hc
  cases hc

/-- What is no digit is not among zeros. -/
theorem notMem_zeros {c : Char} (hc : c.isDigit = false) (n : Nat) : c ∉ zeros n := by
  intro hmem
  rw [List.eq_of_mem_replicate hmem] at hc
  cases hc

/-- The mantissa in front of an exponent has digits and perhaps a point. -/
theorem notMem_mantissa {c : Char} {digits : List Char} (hc : c ∉ digits) (hpoint : c ≠ '.') :
    c ∉ (match digits with
      | [] => []
      | [first] => [first]
      | first :: more => first :: '.' :: more) := by
  split
  · exact hc
  · exact hc
  · simp only [List.mem_cons, not_or] at hc ⊢
    exact ⟨hc.1, hpoint, hc.2⟩

/-- A number is laid out with digits, a point, an exponent and its sign. -/
theorem notMem_layout {c : Char} (hc : c.isDigit = false) (hmarks : c ∉ ['.', 'e', '-', '+'])
    (style : DecimalStyle) (d : Decimal) : c ∉ layout style d := by
  simp only [List.mem_cons, List.not_mem_nil, or_false, not_or] at hmarks
  obtain ⟨hpoint, hexponent, hminus, hplus⟩ := hmarks
  have hzero : c ≠ '0' := by
    rintro rfl
    cases hc
  have hdigits (n : Nat) : c ∉ natDigits n := notMem_natDigits hc n
  have hzeros (n : Nat) : c ∉ zeros n := notMem_zeros hc n
  rw [layout]
  dsimp only
  split
  · simp [hdigits, hzeros, hpoint, hzero]
  · split
    · simp only [List.mem_append, List.mem_cons, not_or]
      exact ⟨fun hmem => hdigits _ (List.mem_of_mem_take hmem), hpoint,
        fun hmem => hdigits _ (List.mem_of_mem_drop hmem)⟩
    · split
      · simp [hdigits, hzeros, hpoint, hzero]
      · simp only [List.mem_append, List.mem_cons, not_or]
        refine ⟨⟨notMem_mantissa (hdigits d.digits) hpoint, hexponent, ?_⟩, hdigits _⟩
        split
        · simp [hminus]
        · split <;> simp [hplus]

/-- The first character of a number that is laid out is no dash. -/
theorem head?_layout (style : DecimalStyle) (d : Decimal) : (layout style d).head? ≠ some '-' := by
  have hdigits (n : Nat) : '-' ∉ natDigits n := notMem_natDigits (by decide) n
  have hzeros (n : Nat) : '-' ∉ zeros n := notMem_zeros (by decide) n
  intro hhead
  rw [layout] at hhead
  dsimp only at hhead
  -- Without an exponent there is no dash at all.
  split at hhead
  · exact absurd (List.mem_of_head? hhead) (by simp [hdigits, hzeros])
  · split at hhead
    · refine absurd (List.mem_of_head? hhead) ?_
      simp only [List.mem_append, List.mem_cons, not_or]
      exact ⟨fun hmem => hdigits _ (List.mem_of_mem_take hmem), by decide,
        fun hmem => hdigits _ (List.mem_of_mem_drop hmem)⟩
    · split at hhead
      · exact absurd (List.mem_of_head? hhead) (by simp [hdigits, hzeros])
      · rw [List.append_assoc, List.head?_append] at hhead
        obtain hhead | ⟨-, hhead⟩ := Option.or_eq_some_iff.mp hhead
        · exact notMem_mantissa (hdigits d.digits) (by decide) (List.mem_of_head? hhead)
        · cases hhead

end DecimalStyle

namespace Yaml.Written

/-- A word with a dash in front of it does not start with three of them. -/
theorem isWord_dash {s : List Char} (hline : '\n' ∉ s) (hdash : s.head? ≠ some '-') :
    IsWord ('-' :: s) := by
  refine ⟨by simp [hline], ?_⟩
  match s with
  | [] | [_] => simp [startsRule]
  | c :: d :: rest =>
    have hc : c ≠ '-' := fun hc => hdash (by rw [hc]; rfl)
    simp [startsRule, hc]

/-- A word that does not start with a dash. -/
theorem isWord_of_head {s : List Char} (hline : '\n' ∉ s) (hdash : s.head? ≠ some '-') :
    IsWord s := by
  refine ⟨hline, ?_⟩
  cases s with
  | nil => rfl
  | cons c s => exact startsRule_cons (fun hc => hdash (by rw [hc]; rfl)) s

/-- A signed number is a word. -/
theorem isWord_signed {s : List Char} (hline : '\n' ∉ s) (hdash : s.head? ≠ some '-') (negative : Bool) :
    IsWord ((if negative then ['-'] else []) ++ s) := by
  cases negative with
  | true => exact isWord_dash hline hdash
  | false => exact isWord_of_head hline hdash

/-- The text of a number is a word. -/
theorem isWord_number (n : Number) : IsWord n.text.toList := by
  cases n with
  | int i =>
    have hline := DecimalStyle.notMem_natDigits (c := '\n') (by decide) i.natAbs
    have hdash := DecimalStyle.notMem_natDigits (c := '-') (by decide) i.natAbs
    rw [Number.text, DecimalStyle.intText, String.toList_ofList]
    split
    · exact isWord_dash hline fun hhead => hdash (List.mem_of_head? hhead)
    · exact isWord_of_head hline fun hhead => hdash (List.mem_of_head? hhead)
  | float x =>
    rw [Number.text, Double.yamlText]
    split
    · exact ⟨by decide, by decide⟩
    · split
      · split <;> exact ⟨by decide, by decide⟩
      · rw [String.toList_ofList, Double.finiteText]
        split
        · exact isWord_signed (by decide) (by decide) _
        · split
          · rename_i d hd
            exact isWord_signed (DecimalStyle.notMem_layout (by decide) (by decide) .yaml d)
              (DecimalStyle.head?_layout .yaml d) _
          · exact isWord_signed (by decide) (by decide) _

/-- A tag starts with its mark. -/
theorem exists_tag_eq (t : Tag) : ∃ rest, tag t = '!' :: rest := by
  rw [tag]
  split <;> exact ⟨_, rfl⟩

/-- A key in front of its colon is a word. -/
theorem isWord_simpleKey (k : Value) (hk : isSimpleKey k = true) : IsWord (simpleKey k) := by
  match k with
  | .null | .sequence [] | .mapping [] => exact ⟨by decide, by decide⟩
  | .bool b => cases b <;> exact ⟨by decide, by decide⟩
  | .number n => exact isWord_number n
  | .string s =>
    have hs : '\n' ∉ s.toList := by
      intro hmem
      have hbreak : ScalarStyle.isMultiline s.toList = true := List.any_eq_true.mpr ⟨_, hmem, rfl⟩
      simp [isSimpleKey, keySize?, hbreak] at hk
    exact ⟨lineFeed_notMem_text hs, startsRule_text 0 s⟩
  | .sequence (_ :: _) | .mapping (_ :: _) => cases hk
  | .tagged t inner =>
    have hinner : isSimpleKey inner = true := by
      rw [isSimpleKey, keySize?] at hk
      rw [isSimpleKey]
      cases hsize : keySize? inner with
      | none => simp [hsize] at hk
      | some size =>
        simp only [hsize, Option.map_some, Option.any_some, decide_eq_true_eq] at hk ⊢
        omega
    have hword := isWord_simpleKey inner hinner
    have hspace : '\n' ∉ ' ' :: simpleKey inner := by simp [hword.lineFeed]
    obtain ⟨rest, hrest⟩ := exists_tag_eq t
    refine ⟨?_, ?_⟩
    · rw [simpleKey, List.mem_append]
      exact not_or.mpr ⟨lineFeed_notMem_tag t, hspace⟩
    · rw [simpleKey, hrest]
      exact startsRule_cons (by decide) _

/-- Quiet rows may be indented. -/
theorem isQuiet_pad (n : Nat) (hr : IsQuiet r) : IsQuiet (pad n ++ r) := by
  cases n with
  | zero => exact hr
  | succ n =>
    have hspaces : '\n' ∉ pad (n + 1) := by simp [pad]
    refine ⟨startsRule_cons (by decide) _, ?_⟩
    rw [isCalm_append hspaces]
    exact hr.calm

/-- What comes before a collection lets its rows be quiet. -/
theorem isCalm_lead (p : Place) (n : Nat) (hr : IsQuiet r) : isCalm (p.lead n ++ r) = true := by
  rw [Place.lead]
  split
  · rw [isCalm_append (by decide)]
    exact hr.calm
  · exact (isCalm_lineFeed _).mpr (isQuiet_pad n hr)

/-- Where a collection may start in the same line, a space comes before the node. -/
theorem exists_node_eq {p : Place} (hp : p.sameLine = true) (v : Value) :
    ∃ rest, node p v = ' ' :: rest := by
  match v with
  | .sequence (_ :: _) | .mapping (_ :: _) =>
    rw [node, Place.lead, if_pos hp]
    exact ⟨_, rfl⟩
  | .null | .bool _ | .number _ | .string _ | .sequence [] | .mapping [] | .tagged _ _ =>
    exact ⟨_, rfl⟩

mutual
/-- A node is calm as the rest of its row, and so are the rows below it. -/
theorem isCalm_node {p : Place} (hp : 0 < p.scalarAt) (v : Value) {r : List Char} (hr : IsQuiet r) :
    isCalm (node p v ++ r) = true := by
  match v with
  | .null => exact IsWord.isCalm_scalarRow ⟨by decide, by decide⟩ hr
  | .bool b => cases b <;> exact IsWord.isCalm_scalarRow ⟨by decide, by decide⟩ hr
  | .number n => exact (isWord_number n).isCalm_scalarRow hr
  | .string s => exact isCalm_scalarRow (fun r hr => isCalm_text hp s hr) hr
  | .sequence [] => exact IsWord.isCalm_scalarRow ⟨by decide, by decide⟩ hr
  | .mapping [] => exact IsWord.isCalm_scalarRow ⟨by decide, by decide⟩ hr
  | .sequence (first :: more) =>
    have hrows := isQuiet_items p.sequenceAt (first :: more) hr
    rw [node, List.append_assoc]
    exact isCalm_lead p p.sequenceAt hrows
  | .mapping (first :: more) =>
    have hrows := isQuiet_entries p.mappingAt (first :: more) hr
    rw [node, List.append_assoc]
    exact isCalm_lead p p.mappingAt hrows
  | .tagged t inner =>
    have hinner := isCalm_node (p := p.tagged) hp inner hr
    rw [node, List.append_assoc, List.cons_append, isCalm_cons (by decide),
      isCalm_append (lineFeed_notMem_tag t)]
    exact hinner
/-- The rows of a sequence are quiet. -/
theorem isQuiet_items (n : Nat) (vs : List Value) {r : List Char} (hr : IsQuiet r) :
    IsQuiet (items n vs ++ r) := by
  match vs with
  | [] => exact hr
  | v :: rest =>
    have hbelow : IsQuiet ((if rest.isEmpty then [] else pad n ++ items n rest) ++ r) := by
      split
      · exact hr
      · rw [List.append_assoc]
        exact isQuiet_pad n (isQuiet_items n rest hr)
    have hnode := isCalm_node (p := Place.item n) (Nat.succ_pos _) v hbelow
    obtain ⟨row, hrow⟩ := exists_node_eq (p := Place.item n) rfl v
    rw [items, List.append_assoc, List.cons_append]
    refine ⟨?_, ?_⟩
    · rw [hrow]
      exact startsRule_item _
    · rw [isCalm_cons (by decide)]
      exact hnode
/-- The rows of a mapping are quiet. -/
theorem isQuiet_entries (n : Nat) (es : List (Value × Value)) {r : List Char} (hr : IsQuiet r) :
    IsQuiet (entries n es ++ r) := by
  match es with
  | [] => exact hr
  | (k, v) :: rest =>
    have hbelow : IsQuiet ((if rest.isEmpty then [] else pad n ++ entries n rest) ++ r) := by
      split
      · exact hr
      · rw [List.append_assoc]
        exact isQuiet_pad n (isQuiet_entries n rest hr)
    rw [entries, List.append_assoc]
    split
    · rename_i hk
      have hvalue := isCalm_node (p := Place.row n) (Nat.succ_pos _) v hbelow
      rw [List.append_assoc, List.cons_append]
      exact (isWord_simpleKey k hk).isQuiet_colon hvalue
    · have hvalue := isCalm_node (p := Place.entry n) (Nat.succ_pos _) v hbelow
      have hcolon : IsQuiet (':' :: (node (Place.entry n) v ++
          ((if rest.isEmpty then [] else pad n ++ entries n rest) ++ r))) := by
        refine ⟨startsRule_cons (by decide) _, ?_⟩
        rw [isCalm_cons (by decide)]
        exact hvalue
      have hkey := isCalm_node (p := Place.entry n) (Nat.succ_pos _) k (isQuiet_pad n hcolon)
      simp only [List.append_assoc, List.cons_append]
      refine ⟨startsRule_cons (by decide) _, ?_⟩
      rw [isCalm_cons (by decide)]
      exact hkey
end

end Yaml.Written

namespace Yaml

/-- A mapping is written as its rows, or as a pair of braces. -/
theorem toList_write_mapping (m : Mapping) :
    (write (.mapping m)).toList =
      if m.isEmpty then ['\x7b', '\x7d', '\n'] else Written.entries 0 m := by
  cases m with
  | nil => rfl
  | cons e es => exact String.toList_ofList

/-- There is a colon in what is written for an entry. -/
theorem colon_mem_entries (n : Nat) (e : Value × Value) (es : List (Value × Value)) :
    ':' ∈ Written.entries n (e :: es) := by
  obtain ⟨k, v⟩ := e
  rw [Written.entries]
  split <;> simp

/-- What is written for a mapping can be framed, whatever texts are in it. -/
theorem isFramable_write (m : Mapping) : IsFramable (write (.mapping m)) := by
  cases m with
  | nil => exact ⟨by decide, by decide⟩
  | cons e es =>
    have hrows := toList_write_mapping (e :: es)
    rw [List.isEmpty_cons, if_neg (by decide)] at hrows
    refine ⟨?_, ?_⟩
    · have hcolon := colon_mem_entries 0 e es
      rw [← hrows] at hcolon
      cases hblank : Text.isBlankString (write (.mapping (e :: es))) with
      | false => rfl
      | true => exact absurd (List.all_eq_true.mp hblank ':' hcolon) (by decide)
    · have hnil : IsQuiet [] := ⟨rfl, rfl⟩
      have hquiet := Written.isQuiet_entries 0 (e :: es) hnil
      rw [List.append_nil, ← hrows] at hquiet
      exact hquiet.isWhole

end Yaml

end ManifestRules
