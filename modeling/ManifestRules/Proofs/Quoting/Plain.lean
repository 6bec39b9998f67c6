import ManifestRules.Proofs.Slack.Cursor
/-!
# Texts that are read plainly

Inside quotes a reader of YAML folds line breaks, drops the spaces around them and stops at lines
that part documents. Of the white space that JSON writes as it is this concerns three line breaks
and the spaces next to them. A text is read plainly if none of this happens in it (`ReadsPlainly`),
which can be told part by part (`FirstPart.readsPlainly_iff`).
-/

namespace ManifestRules.Yaml

/-- A line break that is read as itself. -/
def isKeptBreak (c : Char) : Bool := c == '\u2028' || c == '\u2029'

/-- A space or a line break that stands in quotes without an escape. -/
def isBareGap (c : Char) : Bool := c == ' ' || c == '\u0085' || isKeptBreak c

/-- Such white space is a gap. -/
theorem isGap_of_isBareGap {c : Char} (hc : isBareGap c = true) : isGap c = true := by
  simp only [isBareGap, isKeptBreak, Bool.or_eq_true, beq_iff_eq] at hc
  obtain (rfl | rfl) | rfl | rfl := hc <;> rfl

/-- Such white space is a space, a line break that is read as a line feed, or another one. -/
theorem isBareGap_cases {c : Char} (hc : isBareGap c = true) :
    c = ' ' ∨ c = '\u0085' ∨ isKeptBreak c = true := by
  simpa [isBareGap, or_assoc] using hc

/-- A line that starts with this is one that parts documents. -/
def StartsMarker (s : List Char) : Prop :=
  ∃ m g rest, (m = '-' ∨ m = '.') ∧ isBareGap g = true ∧ s = m :: m :: m :: g :: rest

/-- A character is read as it is in front of a text. -/
structure Fits (c : Char) (after : List Char) : Prop where
  /-- It is not read as a line feed. -/
  nextLine : c ≠ '\u0085'
  /-- A space does not end a line. -/
  space : c = ' ' → after.head?.any isKeptBreak = false
  /-- A line does not start with a space. -/
  indent : isKeptBreak c = true → after.head? ≠ some ' '
  /-- A line does not part documents. -/
  marker : isKeptBreak c = true → ¬ StartsMarker after

/-- Every character of a text is read as it is. -/
def ReadsPlainly (s : List Char) : Prop := ∀ c after, c :: after <:+ s → Fits c after

/-- A text means the same in quotes to JSON and to YAML. -/
structure IsEmbeddable (s : List Char) : Prop where
  /-- Characters that need no escape in JSON are allowed in YAML. -/
  allowed : ∀ c ∈ s, c.toNat < 0x20 ∨ isAllowed c = true
  /-- They are read as they are. -/
  plain : ReadsPlainly s

/-- A text is read plainly if its first character and the others are. -/
theorem readsPlainly_cons {c : Char} {s : List Char} :
    ReadsPlainly (c :: s) ↔ Fits c s ∧ ReadsPlainly s := by
  constructor
  · intro h
    exact ⟨h c s (List.suffix_refl _), fun d after hd => h d after (hd.trans (List.suffix_cons c s))⟩
  · rintro ⟨hc, hs⟩ d after hd
    obtain heq | hsuffix := List.suffix_cons_iff.mp hd
    · obtain ⟨rfl, rfl⟩ := List.cons.inj heq
      exact hc
    · exact hs d after hsuffix

/-- The text without characters is read plainly. -/
theorem readsPlainly_nil : ReadsPlainly [] := by
  intro c after h
  cases List.suffix_nil.mp h

/-- No character of the marker of a document is in a gap. -/
theorem not_startsMarker_of_head? {s : List Char} (h : s.head?.any isBareGap = true) :
    ¬ StartsMarker s := by
  rintro ⟨m, g, rest, rfl | rfl, -, rfl⟩ <;> cases h

/-- A character that every text can be written with. -/
def isOrdinary (c : Char) : Bool :=
  c.toNat < 0x20 || (isAllowed c && c != '\u0085' && !isKeptBreak c)

/-- Ordinary characters are no line breaks of another kind than those of ASCII. -/
theorem isOrdinary_cases {c : Char} (hc : isOrdinary c = true) :
    (c.toNat < 0x20 ∨ isAllowed c = true) ∧ c ≠ '\u0085' ∧ isKeptBreak c = false := by
  rw [isOrdinary, Bool.or_eq_true, Bool.and_eq_true, Bool.and_eq_true, decide_eq_true_iff,
    bne_iff_ne, Bool.not_eq_true'] at hc
  obtain hc | ⟨⟨hallowed, hnext⟩, hbreak⟩ := hc
  · have hne : ∀ d : Char, 0x20 ≤ d.toNat → c ≠ d := by
      rintro d hd rfl
      omega
    refine ⟨.inl hc, hne _ (by decide), ?_⟩
    rw [isKeptBreak, Bool.or_eq_false_iff, beq_eq_false_iff_ne, beq_eq_false_iff_ne]
    exact ⟨hne _ (by decide), hne _ (by decide)⟩
  · exact ⟨.inr hallowed, hnext, hbreak⟩

/-- Texts of ordinary characters can be embedded. -/
theorem isEmbeddable_of_ordinary {s : List Char} (hs : s.all isOrdinary = true) : IsEmbeddable s := by
  have hall : ∀ c ∈ s, isOrdinary c = true := List.all_eq_true.mp hs
  refine ⟨fun c hc => (isOrdinary_cases (hall c hc)).1, fun c after hsuffix => ?_⟩
  have hmem := List.forall_mem_cons.mp fun d hd => isOrdinary_cases (hall d (hsuffix.subset hd))
  obtain ⟨⟨-, hnext, hbreak⟩, hafter⟩ := hmem
  refine ⟨hnext, fun _ => ?_, fun h => ?_, fun h => ?_⟩
  · cases after with
    | nil => rfl
    | cons d after => exact (hafter d List.mem_cons_self).2.2
  all_goals
    rw [hbreak] at h
    cases h

namespace Gap

variable {gap : List Char} {ch : Char}

/-- All of a gap is read as it is: it is made of spaces, or of line breaks that are kept. -/
def IsKept (gap : List Char) : Prop := (∀ ch ∈ gap, ch = ' ') ∨ ∀ ch ∈ gap, isKeptBreak ch = true

/-- Behind a space a gap goes on with spaces, and behind a line break with line breaks. -/
theorem isKept_cons_cons {d : Char} (hch : isBareGap ch = true) : IsKept (ch :: d :: gap) ↔
    ch ≠ '\u0085' ∧ (ch = ' ' → isKeptBreak d = false) ∧ (isKeptBreak ch = true → d ≠ ' ') ∧
      IsKept (d :: gap) := by
  have hspace : isKeptBreak ' ' = false := rfl
  simp only [IsKept, List.forall_mem_cons]
  obtain rfl | rfl | hch := isBareGap_cases hch
  · constructor
    · rintro (⟨-, rfl, hgap⟩ | ⟨h, -⟩)
      · exact ⟨by decide, fun _ => hspace, fun h => absurd h (by decide), .inl ⟨rfl, hgap⟩⟩
      · cases h
    · rintro ⟨-, hd, -, hgap | ⟨hbreak, -⟩⟩
      · exact .inl ⟨rfl, hgap⟩
      · rw [hd rfl] at hbreak
        cases hbreak
  · constructor
    · rintro (⟨h, -⟩ | ⟨h, -⟩) <;> exact absurd h (by decide)
    · exact fun h => absurd rfl h.1
  · constructor
    · rintro (⟨rfl, -⟩ | ⟨-, hd, hgap⟩)
      · cases hch
      · refine ⟨?_, ?_, ?_, .inr ⟨hd, hgap⟩⟩
        · rintro rfl
          cases hch
        · rintro rfl
          cases hch
        · rintro - rfl
          cases hd
    · rintro ⟨-, -, hd, ⟨hspace, -⟩ | hgap⟩
      · exact absurd hspace (hd hch)
      · exact .inr ⟨hch, hgap⟩

/-- In front of a gap only the next character counts. -/
theorem fits_cons_iff {d : Char} {rest : List Char} (hd : isBareGap d = true) : Fits ch (d :: rest) ↔
    ch ≠ '\u0085' ∧ (ch = ' ' → isKeptBreak d = false) ∧ (isKeptBreak ch = true → d ≠ ' ') := by
  constructor
  · intro h
    refine ⟨h.nextLine, h.space, fun hch heq => h.indent hch ?_⟩
    rw [heq, List.head?_cons]
  · rintro ⟨hnext, hspace, hindent⟩
    refine ⟨hnext, hspace, fun hch heq => hindent hch (Option.some.inj heq), fun _ => ?_⟩
    exact not_startsMarker_of_head? hd

/-- Behind a gap a line must not part documents. -/
theorem fits_iff_of_head? {more : List Char} (hch : isBareGap ch = true)
    (hmore : more.head?.any isBareGap = false) :
    Fits ch more ↔ IsKept [ch] ∧ (ch ≠ ' ' → ¬ StartsMarker more) := by
  have hhead : more.head?.any isKeptBreak = false ∧ more.head? ≠ some ' ' := by
    cases more with
    | nil => exact ⟨rfl, by simp⟩
    | cons d more =>
      rw [List.head?_cons, Option.any_some, isBareGap, Bool.or_eq_false_iff,
        Bool.or_eq_false_iff] at hmore
      refine ⟨hmore.2, fun h => ?_⟩
      rw [List.head?_cons, Option.some_inj] at h
      rw [h] at hmore
      cases hmore.1.1
  simp only [IsKept, List.forall_mem_singleton]
  constructor
  · intro h
    obtain rfl | rfl | hch := isBareGap_cases hch
    · exact ⟨.inl rfl, fun h => absurd rfl h⟩
    · exact absurd rfl h.nextLine
    · exact ⟨.inr hch, fun _ => h.marker hch⟩
  · rintro ⟨rfl | hbreak, hmarker⟩
    · exact ⟨by decide, fun _ => hhead.1, fun h => absurd h (by decide),
        fun h => absurd h (by decide)⟩
    · refine ⟨?_, fun _ => hhead.1, fun _ => hhead.2, fun _ => hmarker ?_⟩
      · rintro rfl
        cases hbreak
      · rintro rfl
        cases hbreak

/-- A text that starts with a gap is read plainly if the gap is kept and the text behind it is read
plainly and parts no documents. -/
theorem readsPlainly_append_iff (hne : gap ≠ []) (hgap : ∀ ch ∈ gap, isBareGap ch = true)
    {more : List Char} (hmore : more.head?.any isBareGap = false) :
    ReadsPlainly (gap ++ more) ↔
      IsKept gap ∧ (gap.getLast? ≠ some ' ' → ¬ StartsMarker more) ∧ ReadsPlainly more := by
  induction gap with
  | nil => exact absurd rfl hne
  | cons ch gap ih =>
    obtain ⟨hch, hgap⟩ := List.forall_mem_cons.mp hgap
    rw [List.cons_append, readsPlainly_cons]
    cases gap with
    | nil =>
      rw [List.nil_append, fits_iff_of_head? hch hmore, and_assoc, List.getLast?_singleton]
      simp
    | cons d gap =>
      have hd := hgap d List.mem_cons_self
      rw [ih (List.cons_ne_nil d gap) hgap, List.cons_append, fits_cons_iff hd, isKept_cons_cons hch,
        List.getLast?_cons_cons]
      simp only [and_assoc]

end Gap

/-- Characters outside gaps are read plainly. -/
theorem readsPlainly_run_append_iff {run s : List Char} (hrun : ∀ ch ∈ run, isBareGap ch = false) :
    ReadsPlainly (run ++ s) ↔ ReadsPlainly s := by
  induction run with
  | nil => rfl
  | cons ch run ih =>
    obtain ⟨hch, hrun⟩ := List.forall_mem_cons.mp hrun
    simp only [isBareGap, Bool.or_eq_false_iff, beq_eq_false_iff_ne] at hch
    obtain ⟨⟨hspace, hnext⟩, hbreak⟩ := hch
    rw [List.cons_append, readsPlainly_cons, ih hrun, and_iff_right]
    refine ⟨hnext, fun h => absurd h hspace, fun h => ?_, fun h => ?_⟩
    all_goals
      rw [hbreak] at h
      cases h

/-- The first part of a text: characters outside gaps and the gap behind them. -/
structure FirstPart (s run gap more : List Char) : Prop where
  /-- They come first in the text. -/
  eq : s = run ++ (gap ++ more)
  /-- Characters outside gaps come first. -/
  outside : ∀ ch ∈ run, isBareGap ch = false
  /-- A gap comes next. -/
  inside : ∀ ch ∈ gap, isBareGap ch = true
  /-- All of it belongs to the part. -/
  whole : more.head?.any isBareGap = false
  /-- Only at the end of the text there is none. -/
  last : gap = [] → more = []

/-- Every text has a first part. -/
theorem exists_firstPart (s : List Char) : ∃ run gap more, FirstPart s run gap more := by
  have hhead : ∀ (p : Char → Bool) (l : List Char), (l.dropWhile p).head?.any p = false := by
    intro p l
    have h := List.head?_dropWhile_not p l
    cases hl : (l.dropWhile p).head? with
    | none => rfl
    | some ch =>
      rw [hl] at h
      exact h
  have hrun := hhead (fun ch => !isBareGap ch) s
  have hsplit := List.takeWhile_append_dropWhile (p := fun ch => !isBareGap ch) (l := s)
  generalize s.dropWhile (fun ch => !isBareGap ch) = rest at hrun hsplit
  refine ⟨s.takeWhile fun ch => !isBareGap ch, rest.takeWhile isBareGap, rest.dropWhile isBareGap,
    ?_, ?_, ?_, hhead isBareGap rest, ?_⟩
  · rw [List.takeWhile_append_dropWhile, hsplit]
  · intro ch hch
    exact Bool.not_eq_true' _ ▸ List.all_eq_true.mp List.all_takeWhile ch hch
  · intro ch hch
    exact List.all_eq_true.mp List.all_takeWhile ch hch
  · intro hgap
    cases rest with
    | nil => rfl
    | cons ch rest =>
      have hch : isBareGap ch = true := by simpa using hrun
      rw [List.takeWhile_cons, hch] at hgap
      cases hgap

/-- Behind a gap there is less of a text. -/
theorem FirstPart.length_lt {s run gap more : List Char} (h : FirstPart s run gap more)
    (hne : gap ≠ []) : more.length < s.length := by
  have hlength := congrArg List.length h.eq
  have hpos := List.length_pos_iff.mpr hne
  rw [List.length_append, List.length_append] at hlength
  omega

/-- A text without a gap is all outside gaps. -/
theorem FirstPart.all_outside {s run gap more : List Char} (h : FirstPart s run gap more)
    (hgap : gap = []) : ∀ ch ∈ s, isBareGap ch = false := by
  have hs : s = run := by rw [h.eq, h.last hgap, hgap, List.append_nil, List.append_nil]
  rw [hs]
  exact h.outside

/-- A text is read plainly if its first gap is kept, what is behind that starts no line that parts
documents, and it is read plainly itself. -/
theorem FirstPart.readsPlainly_iff {s run gap more : List Char} (h : FirstPart s run gap more)
    (hne : gap ≠ []) : ReadsPlainly s ↔
      Gap.IsKept gap ∧ (gap.getLast? ≠ some ' ' → ¬ StartsMarker more) ∧ ReadsPlainly more := by
  rw [h.eq, readsPlainly_run_append_iff h.outside, Gap.readsPlainly_append_iff hne h.inside h.whole]

end ManifestRules.Yaml
