import ManifestRules.Proofs.Decoding
import ManifestRules.Proofs.Slack.Cursor
import ManifestRules.Proofs.Slack.Node
/-!
# The text at the end of a value

The scalar that stands last in a node, if it was not written plain, is the text that stands last in
the value of the node (`Value.lastText?`), provided that it has white space in it: no number and no
word is written with that (`Yaml.Decoding.yields_endsIn`).
-/

namespace ManifestRules

namespace Value

/-- There is no value. -/
def isNull : Value → Bool
  | .null => true
  | _ => false

mutual
/-- The text that stands last in a value, if it is a text that does. An entry without a value ends
in its key. -/
def lastText? (v : Value) : Option String :=
  match v with
  | .string s => some s
  | .sequence items => lastItem? items
  | .mapping entries => lastEntry? entries
  | .tagged _ inner => inner.lastText?
  | _ => none
termination_by structural v
/-- The text that stands last in the last item. -/
def lastItem? (vs : List Value) : Option String :=
  match vs with
  | [] => none
  | v :: rest => if rest.isEmpty then v.lastText? else lastItem? rest
termination_by structural vs
/-- The text that stands last in the last entry. -/
def lastEntry? (es : List (Value × Value)) : Option String :=
  match es with
  | [] => none
  | (k, v) :: rest =>
    if rest.isEmpty then (if v.isNull then k.lastText? else v.lastText?) else lastEntry? rest
termination_by structural es
end

/-- A sequence ends as its last item does. -/
theorem lastItem?_concat (vs : List Value) (v : Value) : lastItem? (vs ++ [v]) = v.lastText? := by
  induction vs with
  | nil => rfl
  | cons w vs ih =>
    rw [List.cons_append, lastItem?, if_neg (by simp), ih]

/-- A mapping ends as its last entry does. -/
theorem lastEntry?_concat (es : List (Value × Value)) (k v : Value) :
    lastEntry? (es ++ [(k, v)]) = if v.isNull then k.lastText? else v.lastText? := by
  induction es with
  | nil => rfl
  | cons e es ih => rw [List.cons_append, lastEntry?, if_neg (by simp), ih]

/-- There is a value where a text stands last. -/
theorem isNull_of_lastText? {v : Value} {s : String} (hv : v.lastText? = some s) :
    v.isNull = false := by
  cases v with
  | null => cases hv
  | _ => rfl

mutual
/-- The text that is written last for a value, if it is a text that is. -/
def closing? (v : Value) : Option String :=
  match v with
  | .string s => some s
  | .sequence items => closingItem? items
  | .mapping entries => closingEntry? entries
  | .tagged _ inner => inner.closing?
  | _ => none
termination_by structural v
/-- The text that is written last for the last item. -/
def closingItem? (vs : List Value) : Option String :=
  match vs with
  | [] => none
  | v :: rest => if rest.isEmpty then v.closing? else closingItem? rest
termination_by structural vs
/-- The text that is written last for the last entry. -/
def closingEntry? (es : List (Value × Value)) : Option String :=
  match es with
  | [] => none
  | (_, v) :: rest => if rest.isEmpty then v.closing? else closingEntry? rest
termination_by structural es
end

mutual
/-- The text that is written last stands last in the value. -/
theorem lastText?_of_closing? {v : Value} {s : String} (hv : v.closing? = some s) :
    v.lastText? = some s := by
  match v with
  | .null | .bool _ | .number _ => cases hv
  | .string _ => exact hv
  | .sequence items => exact lastItem?_of_closingItem? hv
  | .mapping entries => exact lastEntry?_of_closingEntry? hv
  | .tagged _ inner => exact lastText?_of_closing? (v := inner) hv
/-- The text that is written last for the last item stands last in it. -/
theorem lastItem?_of_closingItem? {vs : List Value} {s : String} (hvs : closingItem? vs = some s) :
    lastItem? vs = some s := by
  match vs with
  | [] => cases hvs
  | [v] => exact lastText?_of_closing? (v := v) hvs
  | v :: w :: rest =>
    have hrest : lastItem? (w :: rest) = some s := lastItem?_of_closingItem? hvs
    exact hrest
/-- The text that is written last for the last entry stands last in it. -/
theorem lastEntry?_of_closingEntry? {es : List (Value × Value)} {s : String}
    (hes : closingEntry? es = some s) : lastEntry? es = some s := by
  match es with
  | [] => cases hes
  | [(k, v)] =>
    have hv : v.lastText? = some s := lastText?_of_closing? hes
    rw [Value.lastEntry?, List.isEmpty_nil, if_pos rfl, isNull_of_lastText? hv]
    exact hv
  | e :: e' :: rest =>
    have hrest : lastEntry? (e' :: rest) = some s := lastEntry?_of_closingEntry? hes
    exact hrest
end

end Value

namespace Yaml

namespace Plain

variable {s : List Char} {g : Char}

/-- Behind a character that is no gap there is the gap. -/
theorem gap_mem_of_cons {c : Char} (hc : isGap c = false) (hg : isGap g = true) (hs : g ∈ c :: s) :
    g ∈ s := by
  refine (List.mem_cons.mp hs).resolve_left ?_
  rintro rfl
  rw [hg] at hc
  cases hc

/-- A sign is no gap. -/
theorem gap_mem_takeSign (hg : isGap g = true) (hs : g ∈ s) : g ∈ (Double.takeSign s).2 := by
  rw [Double.takeSign.eq_def]
  split
  · exact gap_mem_of_cons (by decide) hg hs
  · exact gap_mem_of_cons (by decide) hg hs
  · exact hs

/-- A gap is no digit. -/
theorem isDigit_gap (hg : isGap g = true) : Double.isDigit g = false :=
  forall_gap (P := fun g => Double.isDigit g = false) (by decide) hg

/-- A gap comes behind digits. -/
theorem gap_mem_dropWhile (hg : isGap g = true) (hs : g ∈ s) : g ∈ s.dropWhile Double.isDigit := by
  rw [← List.takeWhile_append_dropWhile (p := Double.isDigit) (l := s), List.mem_append] at hs
  refine hs.resolve_left fun hdigit => ?_
  have htake := List.mem_takeWhile_imp hdigit
  rw [isDigit_gap hg] at htake
  cases htake

/-- The digits of no number have a gap. -/
theorem readDigits?_gap (hg : isGap g = true) (hs : g ∈ s) (base : Nat) :
    readDigits? base s = none := by
  have hvalue : Scalar.hexValue? g = none :=
    forall_gap (P := fun g => Scalar.hexValue? g = none) (by decide) hg
  have hnone (s : List Char) : s.foldl (fun n? d => n?.bind fun n => (Scalar.hexValue? d).bind fun v =>
      if v < base then some (base * n + v) else none) none = none := by
    induction s with
    | nil => rfl
    | cons d s ih => exact ih
  have hfold (n? : Option Nat) : s.foldl (fun n? d => n?.bind fun n =>
      (Scalar.hexValue? d).bind fun v => if v < base then some (base * n + v) else none) n? = none := by
    induction s generalizing n? with
    | nil => cases hs
    | cons d s ih =>
      rw [List.foldl_cons]
      obtain rfl | hs := List.mem_cons.mp hs
      · rw [hvalue]
        cases n? <;> exact hnone s
      · exact ih hs _
  rw [readDigits?, hfold, ite_self]

/-- The mark of a base is no gap. -/
theorem readMarked?_gap (hg : isGap g = true) (hs : g ∈ s) : readMarked? s = none := by
  rw [readMarked?.eq_def]
  split
  all_goals first | rfl | exact readDigits?_gap hg (gap_mem_of_cons (by decide) hg
    (gap_mem_of_cons (by decide) hg hs)) _

/-- No integer is written with a gap. -/
theorem ofInt?_gap (hg : isGap g = true) (hs : g ∈ s) : ofInt? s = none := by
  have hrest := gap_mem_takeSign hg hs
  have hread : readInt? s = none := by
    rw [readInt?]
    dsimp only
    rw [readMarked?_gap hg hrest, readDigits?_gap hg hrest, ite_self]
    rfl
  rw [ofInt?, hread]

/-- No exponent is written with a gap. -/
theorem readExponent?_gap (hg : isGap g = true) (hs : g ∈ s) : Double.readExponent? s = none := by
  cases s with
  | nil => cases hs
  | cons c rest =>
    rw [Double.readExponent?]
    split
    · rename_i hc
      have hrest : g ∈ rest := by
        obtain rfl | rfl := hc
        · exact gap_mem_of_cons (by decide) hg hs
        · exact gap_mem_of_cons (by decide) hg hs
      have hdigits : (Double.takeSign rest).2.all Double.isDigit = false := by
        rw [List.all_eq_false]
        exact ⟨g, gap_mem_takeSign hg hrest, by rw [isDigit_gap hg]; decide⟩
      dsimp only
      rw [hdigits, Bool.and_false, if_neg (by decide)]
    · rfl

/-- No decimal is written with a gap. -/
theorem read?_gap (hg : isGap g = true) (hs : g ∈ s) : Double.read? s = none := by
  have hrest := gap_mem_dropWhile hg (gap_mem_takeSign hg hs)
  rw [Double.read?]
  dsimp only
  split
  · rename_i more hmore
    rw [hmore] at hrest
    rw [readExponent?_gap hg (gap_mem_dropWhile hg (gap_mem_of_cons (by decide) hg hrest))]
    exact ite_self _
  · rw [readExponent?_gap hg hrest]
    exact ite_self _

/-- A word without a gap is another text. -/
theorem beq_word_gap {word : List Char} (hg : isGap g = true) (hs : g ∈ s)
    (hword : word.any isGap = false) : (s == word) = false := by
  rw [beq_eq_false_iff_ne]
  rintro rfl
  rw [List.any_eq_true.mpr ⟨g, hs, hg⟩] at hword
  cases hword

/-- No float is written with a gap. -/
theorem readFloat?_gap (hg : isGap g = true) (hs : g ∈ s) : readFloat? s = none := by
  have hrest := gap_mem_takeSign hg hs
  rw [readFloat?]
  dsimp only
  rw [isInfinityWord, beq_word_gap hg hrest (by decide), beq_word_gap hg hrest (by decide),
    beq_word_gap hg hrest (by decide), isNaNWord, beq_word_gap hg hs (by decide),
    beq_word_gap hg hs (by decide), beq_word_gap hg hs (by decide), read?_gap hg hs]
  rfl

/-- A word without a gap is another text. -/
theorem beq_string_gap {s word : String} (hg : isGap g = true) (hs : g ∈ s.toList)
    (hword : word.toList.any isGap = false) : (s == word) = false := by
  rw [beq_eq_false_iff_ne]
  rintro rfl
  rw [List.any_eq_true.mpr ⟨g, hs, hg⟩] at hword
  cases hword

/-- No truth value is written with a gap. -/
theorem readBool?_gap {s : String} (hg : isGap g = true) (hs : g ∈ s.toList) :
    readBool? s = none := by
  rw [readBool?, beq_string_gap hg hs (by decide), beq_string_gap hg hs (by decide),
    beq_string_gap hg hs (by decide), beq_string_gap hg hs (by decide),
    beq_string_gap hg hs (by decide), beq_string_gap hg hs (by decide)]
  rfl

/-- No word for the lack of a value is written with a gap. -/
theorem isNullWord_gap {s : String} (hg : isGap g = true) (hs : g ∈ s.toList) :
    isNullWord s = false := by
  rw [isNullWord, beq_string_gap hg hs (by decide), beq_string_gap hg hs (by decide),
    beq_string_gap hg hs (by decide), beq_string_gap hg hs (by decide)]
  rfl

end Plain

namespace Decoding

variable {text : String} {g : Char}

/-- A scalar with white space in it that was not written plain is a text, whatever its tag. -/
theorem yields_scalarUnder_text (hg : isGap g = true) (hs : g ∈ text.toList)
    (tag : Option (List UInt8)) :
    Yields (fun v => v.lastText? = some text) (scalarUnder tag text false) := by
  rw [scalarUnder]
  cases tag.map TagMeaning.ofBytes with
  | none => exact .pure rfl
  | some meaning =>
    cases meaning with
    | unreadable => exact .pure rfl
    | application name =>
      refine Yields.bind (P := fun v => v.lastText? = some text) (.pure rfl) fun v hv => .pure ?_
      exact hv
    | other => exact .pure rfl
    | bool =>
      dsimp only
      rw [Plain.readBool?_gap hg hs]
      exact .fault _
    | int =>
      dsimp only
      rw [Plain.ofInt?_gap hg hs]
      exact .fault _
    | float =>
      dsimp only
      rw [Plain.readFloat?_gap hg hs]
      exact .fault _
    | null =>
      dsimp only
      rw [Plain.isNullWord_gap hg hs]
      exact .fault _

/-- A tag around a collection leaves its last text where it is. -/
theorem lastText?_underTag (tag : Option (List UInt8)) (v : Value) :
    (underTag tag v).lastText? = v.lastText? := by
  rw [underTag]
  split
  · rfl
  · rfl

/-- A scalar is decoded at every depth. -/
theorem value_scalar (t : NodeTable) (depth : Nat) (p : Properties) (plain : Bool) :
    value t depth (.scalar p text plain) = scalarUnder p.tag text plain := by
  cases depth <;> rfl

/-- The items of a sequence are decoded one level deeper. -/
theorem value_sequence (t : NodeTable) (depth : Nat) (p : Properties) (items : List Node) :
    value t (depth + 1) (.sequence p items) = (do
      let vs ← items.mapM (value t depth)
      pure (underTag p.tag (.sequence vs))) :=
  rfl

/-- The entries of a mapping are decoded one level deeper. -/
theorem value_mapping (t : NodeTable) (depth : Nat) (p : Properties) (entries : List (Node × Node)) :
    value t (depth + 1) (.mapping p entries) = (do
      let m ← entries.foldlM (fun m e => do
        let k ← value t depth e.1
        let v ← value t depth e.2
        addEntry m k v) []
      pure (underTag p.tag (.mapping m))) :=
  rfl

/-- Where nothing is written there is no value. -/
theorem yields_empty (t : NodeTable) (depth : Nat) :
    Yields (· = .null) (value t depth Node.empty) := by
  rw [Node.empty, value_scalar]
  exact .pure rfl

/-- A sequence ends in the text that its last item ends in. -/
theorem yields_sequence {t : NodeTable} {depth : Nat} {n : Node}
    (hn : Yields (fun v => v.lastText? = some text) (value t depth n)) (p : Properties)
    (items : List Node) :
    Yields (fun v => v.lastText? = some text) (value t (depth + 1) (.sequence p (items ++ [n]))) := by
  have hitems : Yields (fun vs => Value.lastItem? vs = some text)
      ((items ++ [n]).mapM (value t depth)) := by
    rw [List.mapM_append]
    refine .of_bind fun vs => ?_
    rw [List.mapM_cons, List.mapM_nil]
    refine Yields.bind (P := fun ws => ∃ v, ws = [v] ∧ v.lastText? = some text) ?_ ?_
    · exact hn.bind fun v hv => .pure ⟨v, rfl, hv⟩
    · rintro _ ⟨v, rfl, hv⟩
      exact .pure (by rw [Value.lastItem?_concat, hv])
  rw [value_sequence]
  refine hitems.bind fun vs hvs => .pure ?_
  rw [lastText?_underTag]
  exact hvs

/-- An entry that is added stands last. -/
theorem yields_addEntry_eq (m : Mapping) (k v : Value) :
    Yields (· = m ++ [(k, v)]) (addEntry m k v) := by
  rw [addEntry]
  split
  · exact .fault _
  · exact .pure rfl

/-- A mapping ends in the text that its last entry ends in. -/
theorem yields_mapping {t : NodeTable} {depth : Nat} {k v : Node} {P Q : Value → Prop}
    (hk : Yields P (value t depth k)) (hv : Yields Q (value t depth v))
    (hlast : ∀ k v, P k → Q v → (if v.isNull then k.lastText? else v.lastText?) = some text)
    (p : Properties) (entries : List (Node × Node)) :
    Yields (fun v => v.lastText? = some text)
      (value t (depth + 1) (.mapping p (entries ++ [(k, v)]))) := by
  have hentries : Yields (fun m => Value.lastEntry? m = some text)
      ((entries ++ [(k, v)]).foldlM (fun (m : Mapping) (e : Node × Node) => do
        let k ← value t depth e.1
        let v ← value t depth e.2
        addEntry m k v) []) := by
    rw [List.foldlM_append]
    refine .of_bind fun m => ?_
    rw [List.foldlM_cons]
    refine Yields.bind (P := fun m => Value.lastEntry? m = some text) ?_ fun m hm => .pure hm
    refine hk.bind fun k hk => hv.bind fun v hv => ?_
    intro followed _ later hadd
    rw [yields_addEntry_eq m k v followed _ later hadd, Value.lastEntry?_concat]
    exact hlast k v hk hv
  rw [value_mapping]
  refine hentries.bind fun m hm => .pure ?_
  rw [lastText?_underTag]
  exact hm

/-- The scalar at the end of a node is the text at the end of its value. -/
theorem yields_endsIn {n : Node} (hn : n.EndsIn text) (hg : isGap g = true) (hs : g ∈ text.toList)
    (t : NodeTable) (depth : Nat) :
    Yields (fun v => v.lastText? = some text) (value t depth n) := by
  induction hn generalizing depth with
  | scalar p =>
    rw [value_scalar]
    exact yields_scalarUnder_text hg hs p.tag
  | item p items hn ih =>
    cases depth with
    | zero => exact .fault _
    | succ depth => exact yields_sequence (ih depth) p items
  | value p entries k hv ih =>
    cases depth with
    | zero => exact .fault _
    | succ depth =>
      refine yields_mapping (.trivial _) (ih depth) (fun _ v _ hv => ?_) p entries
      rw [Value.isNull_of_lastText? hv]
      exact hv
  | key p entries hk ih =>
    cases depth with
    | zero => exact .fault _
    | succ depth =>
      refine yields_mapping (ih depth) (yields_empty t depth) ?_ p entries
      rintro _ _ hk rfl
      exact hk

end Decoding

end Yaml

end ManifestRules
