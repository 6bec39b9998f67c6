import ManifestRules.Proofs.Slack.Written
/-!
# What stands behind the last text

Behind the text that stands last in a value there may only be rows of a colon and the word for the
lack of a value, where the text is in a key (`Yaml.Written.endsInText_node`). If it has a line feed,
it is written as a block or in double quotes. Then a block with this text that ends where the rows
do must be the block that was written: one that starts further in front is too long
(`Yaml.Written.not_reachesBack_of_lines`), one that starts in the lines of the text lacks its own
mark, and a text that could be the block of what is behind it needs no quotes
(`Yaml.Written.not_reachesBack_of_double`).
-/

namespace ManifestRules.Yaml.Written

variable {s : String} {block base front : List Char} {columns : List Nat}

/-- The row of a value that is not there, behind a key in rows of its own. -/
def nullRow (n : Nat) : List Char := pad n ++ ':' :: scalarRow "null".toList

/-- Such rows at several columns. -/
def nullRows (columns : List Nat) : List Char := columns.flatMap nullRow

/-- Rows end in a text. Behind it there are only rows of values that are not there, and if there are
none, then it is the text that is written last. -/
def EndsInText (s : String) (closing? : Option String) (rows : List Char) : Prop :=
  ∃ front n columns, rows = front ++ (scalarRow (text n s) ++ nullRows columns) ∧
    (columns = [] → closing? = some s)

/-- What comes before rows does not change the text they end in. -/
theorem EndsInText.append {closing? : Option String} {rows : List Char}
    (h : EndsInText s closing? rows) (more : List Char) : EndsInText s closing? (more ++ rows) := by
  obtain ⟨front, n, columns, rfl, hclosing⟩ := h
  exact ⟨more ++ front, n, columns, (List.append_assoc more front _).symm, hclosing⟩

/-- A row of a value that is not there may come behind. -/
theorem EndsInText.nullRow {closing? : Option String} {rows : List Char}
    (h : EndsInText s closing? rows) (n : Nat) (other? : Option String) :
    EndsInText s other? (rows ++ nullRow n) := by
  obtain ⟨front, m, columns, rfl, -⟩ := h
  refine ⟨front, m, columns ++ [n], ?_, fun h => absurd h (by simp)⟩
  simp [nullRows]

/-- A key that ends in a text with a line feed is no word in front of its colon. -/
theorem keySize?_of_lastText? {k : Value} (hk : k.lastText? = some s) (hs : '\n' ∈ s.toList) :
    keySize? k = none := by
  match k with
  | .null | .bool _ | .number _ | .sequence [] | .mapping [] => cases hk
  | .string t =>
    obtain rfl := Option.some.inj hk
    have hbreak : ScalarStyle.isMultiline t.toList = true := List.any_eq_true.mpr ⟨'\n', hs, rfl⟩
    rw [keySize?, if_pos hbreak]
  | .sequence (_ :: _) | .mapping (_ :: _) => rfl
  | .tagged t inner =>
    have hinner : inner.lastText? = some s := hk
    rw [keySize?, keySize?_of_lastText? hinner hs]
    rfl

/-- So it is written in rows of its own. -/
theorem isSimpleKey_of_lastText? {k : Value} (hk : k.lastText? = some s) (hs : '\n' ∈ s.toList) :
    isSimpleKey k = false := by
  rw [isSimpleKey, keySize?_of_lastText? hk hs]
  rfl

mutual
/-- A node ends in the text that stands last in it, if there is a line feed in that. -/
theorem endsInText_node (p : Place) (v : Value) (hv : v.lastText? = some s)
    (hs : '\n' ∈ s.toList) : EndsInText s v.closing? (node p v) := by
  match v with
  | .null | .bool _ | .number _ | .sequence [] | .mapping [] => cases hv
  | .string t =>
    obtain rfl := Option.some.inj hv
    exact ⟨[], p.scalarAt, [], by simp [node, nullRows], fun _ => rfl⟩
  | .sequence (first :: more) =>
    rw [node]
    exact (endsInText_items p.sequenceAt (first :: more) hv hs).append _
  | .mapping (first :: more) =>
    rw [node]
    exact (endsInText_entries p.mappingAt (first :: more) hv hs).append _
  | .tagged t inner =>
    have hinner := endsInText_node p.tagged inner hv hs
    rw [node]
    exact hinner.append _
/-- The rows of a sequence end in the text that stands last in it. -/
theorem endsInText_items (n : Nat) (vs : List Value) (hvs : Value.lastItem? vs = some s)
    (hs : '\n' ∈ s.toList) : EndsInText s (Value.closingItem? vs) (items n vs) := by
  match vs with
  | [] => cases hvs
  | [v] =>
    have hnode := endsInText_node (Place.item n) v hvs hs
    rw [items, List.isEmpty_nil, if_pos rfl, List.append_nil]
    exact hnode.append ['-']
  | v :: w :: rest =>
    have hrest := endsInText_items n (w :: rest) hvs hs
    rw [items, List.isEmpty_cons, if_neg (by decide)]
    exact (hrest.append _).append _
/-- The rows of a mapping end in the text that stands last in it. -/
theorem endsInText_entries (n : Nat) (es : List (Value × Value))
    (hes : Value.lastEntry? es = some s) (hs : '\n' ∈ s.toList) :
    EndsInText s (Value.closingEntry? es) (entries n es) := by
  match es with
  | [] => cases hes
  | [(k, v)] =>
    rw [entries, List.isEmpty_nil, if_pos rfl, List.append_nil]
    rw [Value.lastEntry?, List.isEmpty_nil, if_pos rfl] at hes
    by_cases hnull : v.isNull = true
    · -- The text is in the key, and the word behind the colon is a row of its own.
      rw [if_pos hnull] at hes
      have hkey := endsInText_node (Place.entry n) k hes hs
      have hword : node (Place.entry n) v = scalarRow "null".toList := by
        cases v with
        | null => rw [node]
        | _ => cases hnull
      rw [isSimpleKey_of_lastText? hes hs, if_neg (by decide), hword]
      exact (hkey.append ['?']).nullRow n _
    · rw [if_neg hnull] at hes
      have hnode (p : Place) := endsInText_node p v hes hs
      split
      · exact ((hnode (Place.row n)).append [':']).append _
      · exact (((hnode (Place.entry n)).append [':']).append _).append _
  | (k, v) :: e :: rest =>
    have hrest := endsInText_entries n (e :: rest) hes hs
    rw [entries, List.isEmpty_cons, if_neg (c := false = true) (by decide)]
    exact (hrest.append _).append _
end

/-- In the rows of values that are not there no block can start. -/
theorem mark_notMem_nullRows {mark : Char} (hmark : mark = '|' ∨ mark = '>') (columns : List Nat) :
    mark ∉ nullRows columns := by
  intro hmem
  obtain ⟨n, -, hrow⟩ := List.mem_flatMap.mp hmem
  rw [nullRow, List.mem_append] at hrow
  obtain hpad | hword := hrow
  · rw [List.eq_of_mem_replicate hpad] at hmark
    exact absurd hmark (by decide)
  · obtain rfl | rfl := hmark
    · exact absurd hword (by decide)
    · exact absurd hword (by decide)

/-- If there are such rows, then there is more than white space in them. -/
theorem solids_nullRows (hcolumns : columns ≠ []) : solids (nullRows columns) ≠ [] := by
  obtain ⟨n, more, rfl⟩ := List.exists_cons_of_ne_nil hcolumns
  rw [nullRows, List.flatMap_cons, nullRow, solids_append, solids_append]
  simp [solids, isGap, isSpace, isBreak]

/-- These rows need no escapes. -/
theorem needsEscapes_nullRows (columns : List Nat) :
    ScalarStyle.needsEscapes ('\n' :: nullRows columns) = false := by
  have hspaces (n : Nat) : ScalarStyle.needsEscapes (pad n) = false := by
    induction n with
    | zero => rfl
    | succ n ih =>
      rw [pad, List.replicate_succ', ScalarStyle.needsEscapes_append]
      exact ⟨ih, rfl, Bool.and_false _⟩
  have hword : ScalarStyle.needsEscapes (':' :: scalarRow "null".toList) = false := by decide
  have hrow (n : Nat) : ScalarStyle.needsEscapes (nullRow n) = false :=
    (ScalarStyle.needsEscapes_append _ _).mpr ⟨hspaces n, hword, Bool.and_false _⟩
  have hrows : ScalarStyle.needsEscapes (nullRows columns) = false := by
    induction columns with
    | nil => rfl
    | cons n columns ih =>
      refine (ScalarStyle.needsEscapes_append _ _).mpr ⟨hrow n, ih, ?_⟩
      have hlast : (nullRow n).getLast? = some '\n' := by simp [nullRow, scalarRow, endRow, isBreak]
      rw [hlast]
      rfl
  exact (ScalarStyle.needsEscapes_append ['\n'] _).mpr ⟨rfl, hrows, rfl⟩

/-- Indenting lines adds white space only. -/
theorem solids_padLines (indent : Nat) (start : Bool) (s : List Char) :
    solids (padLines indent start s) = solids s := by
  have hpad : solids (pad indent) = [] := by
    refine solids_eq_nil fun c hc => ?_
    rw [List.eq_of_mem_replicate hc]
    rfl
  induction s generalizing start with
  | nil => rfl
  | cons c s ih =>
    have hcons : ∀ r, solids (c :: r) = solids [c] ++ solids r := fun r => solids_append [c] r
    rw [padLines, hcons s]
    split
    · rw [hcons, ih]
    · split
      · rw [solids_append, hpad, List.nil_append, hcons, ih]
      · rw [hcons, ih]

/-- In double quotes a text has more characters that are no white space than without. -/
theorem length_solids_lt_double (s : List Char) :
    (solids s).length < (solids (double s)).length := by
  have hchar : ∀ c, isGap c = false → 0 < (solids (doubleChar c)).length := by
    intro c hc
    have hslash : ∀ r, 0 < (solids ('\\' :: r)).length := fun r => by
      simp [solids, isGap, isSpace, isBreak]
    rw [doubleChar]
    split
    · exact hslash _
    · split
      · simp [solids, hc]
      · dsimp only
        split
        · exact hslash _
        · split <;> exact hslash _
  have hchars : (solids s).length ≤ (solids (s.flatMap doubleChar)).length := by
    induction s with
    | nil => exact Nat.zero_le _
    | cons c s ih =>
      rw [List.flatMap_cons, solids_append, List.length_append]
      cases hc : isGap c with
      | true =>
        have hdrop : solids (c :: s) = solids s := by simp [solids, hc]
        rw [hdrop]
        omega
      | false =>
        have hkeep : solids (c :: s) = c :: solids s := by simp [solids, hc]
        have hpos := hchar c hc
        rw [hkeep, List.length_cons]
        omega
  have hquotes : solids (double s) = ['"'] ++ (solids (s.flatMap doubleChar) ++ ['"']) := by
    have hquote : solids ['"'] = ['"'] := rfl
    calc solids (double s) = solids (['"'] ++ (s.flatMap doubleChar ++ ['"'])) := rfl
      _ = _ := by rw [solids_append, solids_append, hquote]
  rw [hquotes]
  simp only [List.length_append, List.length_singleton]
  omega

open Scalar (ReachesBack)

/-- Behind lines with the characters of a block there are rows of values that are not there. Then a
block that reaches back is another one. -/
theorem not_reachesBack_of_lines {lines : List Char} (hlines : solids lines = solids block)
    (hcolumns : columns ≠ [])
    (hbase : base ++ ['\n'] = front ++ '\n' :: (lines ++ nullRows columns)) :
    ¬ ReachesBack base block := by
  rintro ⟨before, mark, header, rows, rfl, hmark, hheader, rfl⟩
  have hsolids : solids lines = solids (BlockRow.written rows) := by
    rw [hlines, BlockRow.solids_read]
  have hback : mark :: (header ++ (BlockRow.written rows ++ ['\n'])) <:+
      front ++ '\n' :: (lines ++ nullRows columns) := ⟨before, by rw [← hbase]; simp⟩
  have hlong : ¬ '\n' :: (lines ++ nullRows columns) <:+ BlockRow.written rows ++ ['\n'] := by
    intro hsuffix
    have hle := length_solids_le hsuffix
    have hpos := List.length_pos_iff.mpr (solids_nullRows hcolumns)
    rw [← List.singleton_append, solids_append, solids_append, solids_append, hsolids] at hle
    simp only [List.length_append] at hle
    have hfeed : (solids ['\n']).length = 0 := rfl
    omega
  obtain hwithin | hbeyond := List.suffix_or_suffix_of_suffix (List.suffix_append front _) hback
  · -- The block starts in front of the lines, so it is too long.
    have hrows : BlockRow.written rows ++ ['\n'] <:+
        mark :: (header ++ (BlockRow.written rows ++ ['\n'])) := ⟨mark :: header, rfl⟩
    obtain hmore | ⟨pre, hpre⟩ := List.suffix_or_suffix_of_suffix hwithin hrows
    · exact hlong hmore
    obtain ⟨outer, houter⟩ := hwithin
    cases pre with
    | nil => exact hlong ⟨[], hpre.symm⟩
    | cons c pre =>
      obtain ⟨rfl, -⟩ := List.cons.inj hpre
      have hfront : outer ++ '\n' :: pre ++ (BlockRow.written rows ++ ['\n']) =
          mark :: header ++ (BlockRow.written rows ++ ['\n']) := by
        rw [List.append_assoc, hpre, houter, List.cons_append]
      have hmem : '\n' ∈ mark :: header := by
        rw [← List.append_cancel_right hfront]
        simp
      obtain rfl | hmem := List.mem_cons.mp hmem
      · exact absurd hmark (by decide)
      · exact absurd (hheader _ hmem) (by decide)
  · -- The block starts in the lines, so it lacks its own mark.
    have hinner : mark :: (header ++ (BlockRow.written rows ++ ['\n'])) <:+
        lines ++ nullRows columns := by
      obtain heq | hinner := List.suffix_cons_iff.mp hbeyond
      · rw [(List.cons.inj heq).1] at hmark
        exact absurd hmark (by decide)
      · exact hinner
    have hcount : ∀ l : List Char, (solids l).count mark = l.count mark := by
      intro l
      refine List.count_filter ?_
      obtain rfl | rfl := hmark <;> rfl
    have hle := hinner.sublist.count_le mark
    have hnone := List.count_eq_zero.mpr (mark_notMem_nullRows hmark columns)
    have hsame : lines.count mark = (BlockRow.written rows).count mark := by
      rw [← hcount, hsolids, hcount]
    simp only [List.count_append, List.count_cons_self] at hle
    omega

/-- In front of rows of values that are not there a text stands in double quotes. Then a block that
reaches back is another one. -/
theorem not_reachesBack_of_double (hs : s.toList = block ++ ['\n'])
    (hdouble : ScalarStyle.ofText s = .double)
    (hbase : base ++ ['\n'] = front ++ (double s.toList ++ '\n' :: nullRows columns)) :
    ¬ ReachesBack base block := by
  rintro ⟨before, mark, header, rows, rfl, -, -, rfl⟩
  have hback : BlockRow.written rows ++ ['\n'] <:+
      front ++ (double s.toList ++ '\n' :: nullRows columns) :=
    ⟨before ++ mark :: header, by rw [← hbase]; simp⟩
  have hsolids : solids s.toList = solids (BlockRow.written rows ++ ['\n']) := by
    rw [hs, solids_append, BlockRow.solids_read, ← solids_append]
  have hstyle : ¬ BlockRow.written rows ++ ['\n'] <:+ '\n' :: nullRows columns := by
    -- The rows need no escapes, so the text needs no quotes.
    rintro ⟨pre, hpre⟩
    have hrows := needsEscapes_nullRows columns
    rw [← hpre, ScalarStyle.needsEscapes_append] at hrows
    have hescapes := BlockRow.needsEscapes_read hrows.2.1
    have hallowed : ScalarStyle.blockAllowed s.toList = true := by
      rw [hs]
      simp [ScalarStyle.blockAllowed, hescapes, ScalarStyle.isBlankSpace]
    have hfeed : s.toList.contains '\n' = true := by rw [hs]; simp
    rw [ScalarStyle.ofText, if_pos hfeed, if_pos hallowed] at hdouble
    cases hdouble
  have hlonger := length_solids_lt_double s.toList
  obtain hwithin | ⟨pre, hpre⟩ := List.suffix_or_suffix_of_suffix (List.suffix_append front _) hback
  · -- The quotes are in the block, so it is too long.
    have hle := length_solids_le hwithin
    rw [← hsolids, solids_append, List.length_append] at hle
    omega
  · -- No row starts in the quotes.
    have hword : '\n' :: nullRows columns <:+ double s.toList ++ '\n' :: nullRows columns :=
      List.suffix_append _ _
    obtain hrows | ⟨more, hmore⟩ := List.suffix_or_suffix_of_suffix ⟨pre, hpre⟩ hword
    · exact hstyle hrows
    rw [← hmore, ← List.append_assoc] at hpre
    have hquotes := List.append_cancel_right hpre
    cases more with
    | nil => exact hstyle ⟨[], hmore.symm⟩
    | cons c more =>
      have hstarts := BlockRow.starts_written rows
      rw [← hmore] at hstarts
      have hmem : c ∈ double s.toList := by
        rw [← hquotes]
        simp
      rw [List.cons_append, List.head?_cons, Option.any_some, isBreak_of_mem_double hmem] at hstarts
      cases hstarts

end ManifestRules.Yaml.Written
