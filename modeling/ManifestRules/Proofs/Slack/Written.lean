import ManifestRules.Proofs.Rows
import ManifestRules.Proofs.Slack.Trim
/-!
# White space around what is written

What is written for a mapping stands free (`Yaml.standsFree_write`) if its first key does not start
with white space and the text that stands last in it does not end in some: all other scalars are
written without it at their ends, and every row has only a line feed behind them.
-/

namespace ManifestRules

/-- The character that the key at the start of a mapping starts with, if that is a text. -/
def Mapping.firstChar? : Mapping → Option Char
  | (.string s, _) :: _ => s.toList.head?
  | _ => none

/-- The texts at both ends of a mapping have no white space there. -/
structure Mapping.IsFlush (m : Mapping) : Prop where
  /-- The first key does not start with white space. -/
  first : m.firstChar?.any Text.isBlank = false
  /-- The last text does not end in white space. -/
  last : (Value.mapping m).lastChar?.any Text.isBlank = false

/-- It can be tried out whether a mapping is flush. -/
instance (m : Mapping) : Decidable m.IsFlush :=
  decidable_of_iff (m.firstChar?.any Text.isBlank = false ∧
    (Value.mapping m).lastChar?.any Text.isBlank = false)
    ⟨fun h => ⟨h.1, h.2⟩, fun h => ⟨h.first, h.last⟩⟩

namespace DecimalStyle

/-- A number is laid out with something. -/
theorem layout_ne_nil (style : DecimalStyle) (d : Decimal) : layout style d ≠ [] := by
  rw [layout]
  dsimp only
  split
  · simp
  · split
    · simp
    · split
      · simp
      · simp

end DecimalStyle

/-- A text is not longer than what is written for its characters, if something is for each of them. -/
theorem Text.length_le_flatMap {f : Char → List Char} (hf : ∀ c, f c ≠ []) (s : List Char) :
    s.length ≤ (s.flatMap f).length := by
  induction s with
  | nil => exact Nat.zero_le _
  | cons c s ih =>
    have hc := List.length_pos_iff.mpr (hf c)
    rw [List.flatMap_cons, List.length_append, List.length_cons]
    omega

namespace Yaml

open Text

/-- A style that puts quotes around the text. -/
def ScalarStyle.isQuoted : ScalarStyle → Bool
  | .single | .double => true
  | .plain | .literal => false

namespace Written

variable {s r : List Char}

/-- A text that is not empty, without white space. -/
structure IsSolid (s : List Char) : Prop where
  /-- There is something in it. -/
  ne_nil : s ≠ []
  /-- Nothing of it is white space. -/
  solid : s.any isBlank = false

/-- No character of a solid text is white space. -/
theorem IsSolid.isBlank_of_mem (hs : IsSolid s) {c : Char} (hc : c ∈ s) : isBlank c = false := by
  rw [← Bool.not_eq_true]
  exact List.any_eq_false.mp hs.solid c hc

/-- A text that does not end in white space. -/
def IsFirm (s : List Char) : Prop := ∃ front c, s = front ++ [c] ∧ isBlank c = false

/-- Text in rows, the last of which does not end in white space before its line feed. -/
def EndsRow (s : List Char) : Prop := ∃ front c, s = front ++ [c, '\n'] ∧ isBlank c = false

/-- What comes before rows does not change how they end. -/
theorem EndsRow.append (hr : EndsRow r) (s : List Char) : EndsRow (s ++ r) := by
  obtain ⟨front, c, rfl, hc⟩ := hr
  exact ⟨s ++ front, c, (List.append_assoc s front _).symm, hc⟩

/-- A text without white space does not end in some. -/
theorem IsSolid.isFirm (hs : IsSolid s) : IsFirm s := by
  obtain ⟨front, c, rfl⟩ := (List.eq_nil_or_concat s).resolve_left hs.ne_nil
  exact ⟨front, c, List.concat_eq_append, hs.isBlank_of_mem (by simp)⟩

/-- A scalar that does not end in white space is followed by a line feed. -/
theorem IsFirm.endsRow (hs : IsFirm s) : EndsRow (scalarRow s) := by
  obtain ⟨front, c, rfl, hc⟩ := hs
  have hbreak : isBreak c = false := by
    rw [← Bool.not_eq_true]
    intro hbreak
    rw [isBlank_of_isGap (by rw [isGap, hbreak, Bool.or_true])] at hc
    cases hc
  refine ⟨' ' :: front, c, ?_, hc⟩
  rw [scalarRow, endRow, if_neg (by simp [hbreak])]
  simp

/-- White space is no digit. -/
theorem isDigit_of_isBlank {c : Char} (hc : isBlank c = true) : c.isDigit = false := by
  have hlow : '0'.val.toNat = 48 := rfl
  have hhigh : '9'.val.toNat = 57 := rfl
  rw [← Bool.not_eq_true]
  intro hdigit
  simp only [Char.isDigit, Bool.and_eq_true, decide_eq_true_eq, ge_iff_le,
    UInt32.le_iff_toNat_le] at hdigit
  simp only [isBlank, inRanges, blankRanges, List.any_cons, List.any_nil, Bool.or_eq_true,
    Bool.and_eq_true, decide_eq_true_eq, Bool.false_eq_true, or_false, Char.toNat] at hc
  omega

/-- A text that has something in it and consists of digits, a point, an exponent and its sign. -/
theorem isSolid_of_notMem (hne : s ≠ [])
    (hs : ∀ c : Char, c.isDigit = false → c ∉ ['.', 'e', '-', '+'] → c ∉ s) : IsSolid s := by
  refine ⟨hne, List.any_eq_false.mpr fun c hc hblank => ?_⟩
  have hmarks : ['.', 'e', '-', '+'].any isBlank = false := by decide
  exact hs c (isDigit_of_isBlank hblank)
    (fun hmark => List.any_eq_false.mp hmarks c hmark hblank) hc

/-- A sign is no white space. -/
theorem IsSolid.sign (hs : IsSolid s) (negative : Bool) :
    IsSolid ((if negative then ['-'] else []) ++ s) := by
  cases negative with
  | false => exact hs
  | true => exact ⟨List.cons_ne_nil _ _, hs.solid⟩

/-- The text of a number has no white space. -/
theorem isSolid_number (n : Number) : IsSolid n.text.toList := by
  cases n with
  | int i =>
    have hdigits : IsSolid (DecimalStyle.natDigits i.natAbs) :=
      isSolid_of_notMem Nat.toDigits_ne_nil fun c hc _ => DecimalStyle.notMem_natDigits hc _
    have hsigned := hdigits.sign (decide (i < 0))
    rw [Number.text, DecimalStyle.intText, String.toList_ofList]
    split
    · rename_i hneg
      simpa [hneg] using hsigned
    · exact hdigits
  | float x =>
    rw [Number.text, Double.yamlText]
    split
    · exact ⟨by decide, by decide⟩
    · split
      · split <;> exact ⟨by decide, by decide⟩
      · rw [String.toList_ofList, Double.finiteText]
        split
        · exact IsSolid.sign ⟨by decide, by decide⟩ _
        · split
          · rename_i d hd
            exact (isSolid_of_notMem (DecimalStyle.layout_ne_nil .yaml d)
              fun c hc hmarks => DecimalStyle.notMem_layout hc hmarks .yaml d).sign _
          · exact IsSolid.sign ⟨by decide, by decide⟩ _

/-- Lines that are indented end in the same character. -/
theorem getLast?_padLines (indent : Nat) (start : Bool) (s : List Char) :
    (padLines indent start s).getLast? = s.getLast? := by
  induction s generalizing start with
  | nil => rfl
  | cons c s ih =>
    rw [padLines, List.getLast?_cons]
    split
    · rw [List.getLast?_cons, ih]
    · split
      · rw [List.getLast?_append, List.getLast?_cons, ih]
        rfl
      · rw [List.getLast?_cons, ih]

/-- The empty text is written in quotes. -/
theorem ne_nil_of_style {s : String} (hs : ScalarStyle.ofText s ≠ .single) : s.toList ≠ [] := by
  intro hnil
  rw [String.toList_eq_nil_iff.mp hnil] at hs
  exact hs (by decide)

/-- A text is firm if it does not end in white space and is not empty. -/
theorem isFirm_of_getLast? (hne : s ≠ []) (hs : s.getLast?.any isBlank = false) : IsFirm s := by
  obtain ⟨front, c, rfl⟩ := (List.eq_nil_or_concat s).resolve_left hne
  rw [List.concat_eq_append, List.getLast?_concat, Option.any_some] at hs
  exact ⟨front, c, List.concat_eq_append, hs⟩

/-- A text is written so that it does not end in white space. -/
def keepsEnd (s : String) : Bool :=
  (ScalarStyle.ofText s).isQuoted || !s.toList.getLast?.any isBlank

/-- A text without white space at its end is written like that. -/
theorem keepsEnd_of_getLast? {s : String} (hs : s.toList.getLast?.any isBlank = false) :
    keepsEnd s = true := by
  rw [keepsEnd, hs, Bool.not_false, Bool.or_true]

/-- A text that is not put in quotes keeps its end if it has no white space there. -/
theorem getLast?_of_keepsEnd {s : String} (hs : keepsEnd s = true)
    (hquoted : (ScalarStyle.ofText s).isQuoted = false) : s.toList.getLast?.any isBlank = false := by
  rwa [keepsEnd, hquoted, Bool.false_or, Bool.not_eq_true'] at hs

/-- A text that keeps its end is firm in whatever style it is written. -/
theorem isFirm_text (indent : Nat) {s : String} (hs : keepsEnd s = true) : IsFirm (text indent s) := by
  have hlast := getLast?_of_keepsEnd hs
  rw [text]
  split
  · rename_i hstyle
    rw [hstyle] at hlast
    exact isFirm_of_getLast? (ne_nil_of_style (by rw [hstyle]; decide)) (hlast rfl)
  · exact ⟨_, '\'', rfl, by decide⟩
  · exact ⟨'"' :: s.toList.flatMap doubleChar, '"', rfl, by decide⟩
  · rename_i hstyle
    rw [hstyle] at hlast
    have hne := ne_nil_of_style (s := s) (by rw [hstyle]; decide)
    refine isFirm_of_getLast? (by rw [literal]; simp) ?_
    rw [literal, List.getLast?_append, List.getLast?_cons, getLast?_padLines,
      List.getLast?_eq_some_getLast hne]
    rw [List.getLast?_eq_some_getLast hne] at hlast
    exact hlast rfl

/-- A text that does not start with white space is written so that it does not either. -/
theorem isBlank_of_head?_text (indent : Nat) {s : String} (hs : s.toList.head?.any isBlank = false) :
    (text indent s).head?.any isBlank = false := by
  rw [text]
  split
  · exact hs
  · rfl
  · rfl
  · rfl

/-- Rows end in a scalar, which is the given text or has no white space in it if there is none. -/
def EndsIn (s? : Option String) (rows : List Char) : Prop :=
  ∃ front row, rows = front ++ scalarRow row ∧
    (s? = none ∧ IsSolid row ∨ ∃ s n, s? = some s ∧ row = text n s)

/-- What comes before rows does not change the scalar they end in. -/
theorem EndsIn.append {s? : Option String} (hr : EndsIn s? r) (s : List Char) :
    EndsIn s? (s ++ r) := by
  obtain ⟨front, row, rfl, hrow⟩ := hr
  exact ⟨s ++ front, row, (List.append_assoc s front _).symm, hrow⟩

/-- What comes before rows does not change the scalar they end in, be it a single character. -/
theorem EndsIn.cons {s? : Option String} (hr : EndsIn s? r) (c : Char) : EndsIn s? (c :: r) :=
  hr.append [c]

/-- A scalar without white space ends its row. -/
theorem IsSolid.endsIn (hs : IsSolid s) : EndsIn none (scalarRow s) := ⟨[], s, rfl, .inl ⟨rfl, hs⟩⟩

/-- Rows that end in a text that keeps its end do not end in white space. -/
theorem EndsIn.endsRow {s? : Option String} (hr : EndsIn s? r)
    (hs : ∀ s, s? = some s → keepsEnd s = true) : EndsRow r := by
  obtain ⟨front, row, rfl, ⟨-, hsolid⟩ | ⟨s, n, hsome, rfl⟩⟩ := hr
  · exact hsolid.isFirm.endsRow.append front
  · exact (isFirm_text n (hs s hsome)).endsRow.append front

mutual
/-- A node ends in the text that is written last for it. -/
theorem endsIn_node (p : Place) (v : Value) : EndsIn v.closing? (node p v) := by
  match v with
  | .null => exact (IsSolid.mk (by decide) (by decide)).endsIn
  | .bool b => cases b <;> exact (IsSolid.mk (by decide) (by decide)).endsIn
  | .number n => exact (isSolid_number n).endsIn
  | .string s => exact ⟨[], _, rfl, .inr ⟨s, p.scalarAt, rfl, rfl⟩⟩
  | .sequence [] => exact (IsSolid.mk (by decide) (by decide)).endsIn
  | .mapping [] => exact (IsSolid.mk (by decide) (by decide)).endsIn
  | .sequence (first :: more) =>
    rw [node]
    exact (endsIn_items p.sequenceAt (first :: more) (List.cons_ne_nil _ _)).append _
  | .mapping (first :: more) =>
    rw [node]
    exact (endsIn_entries p.mappingAt (first :: more) (List.cons_ne_nil _ _)).append _
  | .tagged t inner =>
    have hinner := endsIn_node p.tagged inner
    rw [node]
    exact hinner.append _
/-- The rows of a sequence end in the text that is written last for it. -/
theorem endsIn_items (n : Nat) (vs : List Value) (hne : vs ≠ []) :
    EndsIn (Value.closingItem? vs) (items n vs) := by
  match vs with
  | [] => exact absurd rfl hne
  | [v] =>
    have hnode := endsIn_node (Place.item n) v
    rw [items, List.isEmpty_nil, if_pos rfl, List.append_nil]
    exact hnode.cons '-'
  | v :: w :: rest =>
    have hrest := endsIn_items n (w :: rest) (List.cons_ne_nil _ _)
    rw [items, List.isEmpty_cons, if_neg (by decide)]
    exact (hrest.append _).append _
/-- The rows of a mapping end in the text that is written last for it. -/
theorem endsIn_entries (n : Nat) (es : List (Value × Value)) (hne : es ≠ []) :
    EndsIn (Value.closingEntry? es) (entries n es) := by
  match es with
  | [] => exact absurd rfl hne
  | [(k, v)] =>
    have hnode (p : Place) := endsIn_node p v
    rw [entries, List.isEmpty_nil, if_pos rfl, List.append_nil]
    split
    · exact ((hnode (Place.row n)).cons ':').append _
    · exact (((hnode (Place.entry n)).cons ':').append _).append _
  | (k, v) :: e :: rest =>
    have hrest := endsIn_entries n (e :: rest) (List.cons_ne_nil _ _)
    rw [entries, List.isEmpty_cons, if_neg (c := false = true) (by decide)]
    exact (hrest.append _).append _
end

/-- What comes first is not white space, also if more comes behind it. -/
theorem isBlank_head?_append (hs : s.head?.any isBlank = false) (hr : r.head?.any isBlank = false) :
    (s ++ r).head?.any isBlank = false := by
  cases s with
  | nil => exact hr
  | cons c s => exact hs

/-- A key in front of its colon starts with white space only if it is a text that does. -/
theorem isBlank_head?_simpleKey (k : Value)
    (hk : ∀ s, k = .string s → s.toList.head?.any isBlank = false) :
    (simpleKey k).head?.any isBlank = false := by
  match k with
  | .null | .sequence [] | .mapping [] | .sequence (_ :: _) | .mapping (_ :: _) => rfl
  | .bool b => cases b <;> rfl
  | .number n =>
    cases hhead : n.text.toList.head? with
    | none => exact congrArg (Option.any isBlank) hhead
    | some c =>
      have hc := (isSolid_number n).isBlank_of_mem (List.mem_of_head? hhead)
      exact (congrArg (Option.any isBlank) hhead).trans hc
  | .string s => exact isBlank_of_head?_text 0 (hk s rfl)
  | .tagged t inner =>
    obtain ⟨rest, hrest⟩ := exists_tag_eq t
    rw [simpleKey, hrest]
    rfl

/-- The rows of a mapping start with white space only if its first key is a text that does. -/
theorem isBlank_head?_entries (n : Nat) (m : Mapping) (hm : m.firstChar?.any isBlank = false) :
    (entries n m).head?.any isBlank = false := by
  match m with
  | [] => rfl
  | (k, v) :: rest =>
    rw [entries]
    split
    · rw [List.append_assoc]
      refine isBlank_head?_append (isBlank_head?_simpleKey k ?_) rfl
      rintro s rfl
      exact hm
    · rfl

end Written

/-- The last text of a flush mapping does not end in a gap. -/
theorem isGap_lastChar? {m : Mapping} (hm : m.IsFlush) :
    (Value.mapping m).lastChar?.any isGap = false :=
  any_isGap_of_any_isBlank hm.last

/-- What is written for a mapping stands free, if it is flush. -/
theorem standsFree_write {m : Mapping} (hm : m.IsFlush) : StandsFree (write (.mapping m)).toList := by
  cases m with
  | nil => decide
  | cons e es =>
    have hlast : ∀ s, Value.closingEntry? (e :: es) = some s → Written.keepsEnd s = true := by
      intro s hs
      have hlast := hm.last
      rw [Value.lastChar?, Value.lastText?, Value.lastEntry?_of_closingEntry? hs,
        Option.bind_some] at hlast
      exact Written.keepsEnd_of_getLast? hlast
    obtain ⟨front, c, hrows, hc⟩ :=
      (Written.endsIn_entries 0 (e :: es) (List.cons_ne_nil e es)).endsRow hlast
    have hhead := Written.isBlank_head?_entries 0 (e :: es) hm.first
    rw [toList_write_mapping, List.isEmpty_cons, if_neg (c := false = true) (by decide)]
    refine ⟨?_, ?_⟩
    · have hnone : (Written.entries 0 (e :: es)).takeWhile isBlank = [] := by
        cases hentries : Written.entries 0 (e :: es) with
        | nil => rfl
        | cons d rest =>
          rw [hentries] at hhead
          exact List.takeWhile_cons_of_neg (by simpa using hhead)
      rw [hnone]
      decide
    · have hblank : isBlank '\n' = true := by decide
      rw [hrows, List.reverse_append, List.reverse_cons, List.reverse_singleton,
        List.singleton_append, List.cons_append, List.takeWhile_cons_of_pos hblank,
        List.singleton_append, List.takeWhile_cons_of_neg (by simp [hc])]
      decide

end Yaml

end ManifestRules
