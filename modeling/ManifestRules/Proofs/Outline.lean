import ManifestRules.Value.Text
/-!
# What the canonical text tells of a value

Of a value the canonical text shows the outline: its sequences and mappings and the texts of its
scalars, but no tags and no types. If the texts of the scalars hold none of the characters that part
and enclose the parts of a collection, then nothing else is lost: values with the same text have the
same outline (`Value.text_eq_text_iff`). A text is read from its start, and where an outline ends in
it does not depend on what follows (`Outline.eq_of_chars_append`).
-/

namespace ManifestRules

/-- A value without its tags and with a text in the place of every scalar. -/
inductive Outline where
  /-- A scalar, by its text. -/
  | scalar (text : String)
  /-- Outlines in order. -/
  | sequence (items : List Outline)
  /-- Pairs of outlines in order. -/
  | mapping (entries : List (Outline × Outline))

namespace Value

mutual
/-- The outline of a value. -/
def outline : Value → Outline
  | .sequence items => .sequence (itemOutlines items)
  | .mapping entries => .mapping (entryOutlines entries)
  | .tagged _ inner => inner.outline
  | .null => .scalar Value.null.text
  | .bool b => .scalar (Value.bool b).text
  | .number n => .scalar (Value.number n).text
  | .string s => .scalar (Value.string s).text
/-- The outlines of items. -/
def itemOutlines : List Value → List Outline
  | [] => []
  | v :: vs => v.outline :: itemOutlines vs
/-- The outlines of entries. -/
def entryOutlines : List (Value × Value) → List (Outline × Outline)
  | [] => []
  | (k, v) :: es => (k.outline, v.outline) :: entryOutlines es
end

end Value

namespace Outline

mutual
/-- The texts of all scalars, those of keys too. -/
def texts : Outline → List String
  | .scalar text => [text]
  | .sequence items => itemTexts items
  | .mapping entries => entryTexts entries
/-- The texts in items. -/
def itemTexts : List Outline → List String
  | [] => []
  | o :: os => o.texts ++ itemTexts os
/-- The texts in entries. -/
def entryTexts : List (Outline × Outline) → List String
  | [] => []
  | (k, v) :: es => k.texts ++ (v.texts ++ entryTexts es)
end

/-- The characters that enclose and part the parts of a collection. -/
def marks : List Char := ['[', ']', '\x7b', '\x7d', ',', ':']

/-- The text of a scalar cannot be taken for a part of a collection. -/
structure IsClear (text : String) : Prop where
  /-- It is not empty. -/
  nonempty : text ≠ ""
  /-- It has no mark in it. -/
  unmarked : ∀ c ∈ text.toList, c ∉ marks

/-- It can be tried out whether a text is clear. -/
instance (text : String) : Decidable (IsClear text) :=
  decidable_of_iff (text ≠ "" ∧ text.toList.all (fun c => !marks.contains c) = true) (by
    simp only [List.all_eq_true, Bool.not_eq_true', List.contains_eq_mem, decide_eq_false_iff_not]
    exact ⟨fun h => ⟨h.1, h.2⟩, fun h => ⟨h.nonempty, h.unmarked⟩⟩)

mutual
/-- The text that shows an outline. -/
def chars : Outline → List Char
  | .scalar text => text.toList
  | .sequence items => '[' :: (itemChars items ++ [']'])
  | .mapping entries => '\x7b' :: (entryChars entries ++ ['\x7d'])
/-- The texts of items, parted by commas. -/
def itemChars : List Outline → List Char
  | [] => []
  | o :: os => o.chars ++ (if os.isEmpty then [] else ',' :: ' ' :: itemChars os)
/-- The texts of entries, parted by commas, with a colon behind each key. -/
def entryChars : List (Outline × Outline) → List Char
  | [] => []
  | (k, v) :: es =>
    k.chars ++ ':' :: ' ' :: (v.chars ++ (if es.isEmpty then [] else ',' :: ' ' :: entryChars es))
end

/-- A text of a scalar ends here: there is a mark next, or nothing. -/
def Stops (s : List Char) : Prop := ∀ c, s.head? = some c → c ∈ marks

/-- A mark ends the text of a scalar. -/
theorem stops_cons {c : Char} (hc : c ∈ marks) (s : List Char) : Stops (c :: s) := by
  rintro _ ⟨⟩
  exact hc

/-- What follows an item ends the text of a scalar. -/
theorem stops_behind {p : Prop} [Decidable p] {close : Char} (hclose : close ∈ marks)
    (more rest : List Char) : Stops ((if p then [] else ',' :: more) ++ close :: rest) := by
  split
  · exact stops_cons hclose rest
  · exact stops_cons (by decide) _

/-- Two texts without marks are equal if the same text starts with both and they end there. -/
theorem eq_of_append {s t r q : List Char} (hs : ∀ c ∈ s, c ∉ marks) (ht : ∀ c ∈ t, c ∉ marks)
    (hr : Stops r) (hq : Stops q) (h : s ++ r = t ++ q) : s = t ∧ r = q := by
  induction s generalizing t with
  | nil =>
    cases t with
    | nil => exact ⟨rfl, h⟩
    | cons d t => exact absurd (hr d (by rw [← List.nil_append r, h]; rfl)) (ht d List.mem_cons_self)
  | cons c s ih =>
    cases t with
    | nil => exact absurd (hq c (by rw [← List.nil_append q, ← h]; rfl)) (hs c List.mem_cons_self)
    | cons d t =>
      obtain ⟨rfl, htail⟩ := List.cons.inj h
      obtain ⟨rfl, hrest⟩ := ih (fun c hc => hs c (List.mem_cons_of_mem _ hc))
        (fun c hc => ht c (List.mem_cons_of_mem _ hc)) htail
      exact ⟨rfl, hrest⟩

/-- The text of an outline starts with a bracket if that of a collection does, and with no mark
otherwise. -/
theorem exists_head (o : Outline) (ho : ∀ t ∈ o.texts, IsClear t) :
    ∃ c rest, o.chars = c :: rest ∧ (c ∉ marks ∨ c = '[' ∨ c = '\x7b') := by
  cases o with
  | scalar text =>
    have hclear := ho text (List.mem_singleton_self text)
    obtain ⟨c, rest, htext⟩ : ∃ c rest, text.toList = c :: rest :=
      List.exists_cons_of_ne_nil (mt String.toList_eq_nil_iff.mp hclear.nonempty)
    exact ⟨c, rest, htext, .inl (hclear.unmarked c (htext ▸ List.mem_cons_self))⟩
  | sequence items => exact ⟨'[', _, rfl, .inr (.inl rfl)⟩
  | mapping entries => exact ⟨'\x7b', _, rfl, .inr (.inr rfl)⟩

/-- No outline starts like the end of a collection. -/
theorem chars_append_ne {o : Outline} (ho : ∀ t ∈ o.texts, IsClear t) {close : Char}
    (hclose : close = ']' ∨ close = '\x7d') (r q : List Char) : close :: r ≠ o.chars ++ q := by
  obtain ⟨c, rest, hchars, hc⟩ := exists_head o ho
  rw [hchars, List.cons_append]
  intro h
  obtain ⟨rfl, -⟩ := List.cons.inj h
  revert hc
  obtain rfl | rfl := hclose <;> decide

/-- A scalar is not read as a collection. -/
theorem scalar_append_ne {text : String} (htext : IsClear text) {first : Char}
    (hfirst : first ∈ marks) (s r q : List Char) : text.toList ++ r ≠ first :: s ++ q := by
  obtain ⟨c, rest, hchars⟩ : ∃ c rest, text.toList = c :: rest :=
    List.exists_cons_of_ne_nil (mt String.toList_eq_nil_iff.mp htext.nonempty)
  rw [hchars]
  intro h
  obtain ⟨rfl, -⟩ := List.cons.inj h
  exact htext.unmarked c (hchars ▸ List.mem_cons_self) hfirst

mutual
/-- Two outlines are equal if the same text starts with both and a scalar would end behind them. -/
theorem eq_of_chars_append (o p : Outline) (ho : ∀ t ∈ o.texts, IsClear t)
    (hp : ∀ t ∈ p.texts, IsClear t) {r q : List Char} (hr : Stops r) (hq : Stops q)
    (h : o.chars ++ r = p.chars ++ q) : o = p ∧ r = q := by
  match o, p with
  | .scalar text, .scalar text' =>
    have hclear := ho text (List.mem_singleton_self text)
    have hclear' := hp text' (List.mem_singleton_self text')
    obtain ⟨htext, hrest⟩ := eq_of_append hclear.unmarked hclear'.unmarked hr hq h
    exact ⟨by rw [String.toList_inj.mp htext], hrest⟩
  | .scalar text, .sequence _ | .scalar text, .mapping _ =>
    exact absurd h (scalar_append_ne (ho text (List.mem_singleton_self text)) (by decide) _ r q)
  | .sequence _, .scalar text | .mapping _, .scalar text =>
    exact absurd h.symm (scalar_append_ne (hp text (List.mem_singleton_self text)) (by decide) _ q r)
  | .sequence items, .sequence items' =>
    simp only [chars, List.cons_append, List.append_assoc, List.cons.injEq, true_and] at h
    obtain ⟨rfl, hrest⟩ := eq_of_itemChars_append items items' ho hp h
    exact ⟨rfl, hrest⟩
  | .mapping entries, .mapping entries' =>
    simp only [chars, List.cons_append, List.append_assoc, List.cons.injEq, true_and] at h
    obtain ⟨rfl, hrest⟩ := eq_of_entryChars_append entries entries' ho hp h
    exact ⟨rfl, hrest⟩
  | .sequence _, .mapping _ | .mapping _, .sequence _ =>
    simp [chars] at h
/-- The same holds for items up to the end of their sequence. -/
theorem eq_of_itemChars_append (os ps : List Outline) (hos : ∀ t ∈ itemTexts os, IsClear t)
    (hps : ∀ t ∈ itemTexts ps, IsClear t) {r q : List Char}
    (h : itemChars os ++ ']' :: r = itemChars ps ++ ']' :: q) : os = ps ∧ r = q := by
  match os, ps with
  | [], [] => exact ⟨rfl, (List.cons.inj h).2⟩
  | [], p :: ps =>
    rw [itemChars, itemChars, List.append_assoc] at h
    exact absurd h (chars_append_ne (List.forall_mem_append.mp hps).1 (.inl rfl) _ _)
  | o :: os, [] =>
    rw [itemChars, itemChars, List.append_assoc] at h
    exact absurd h.symm (chars_append_ne (List.forall_mem_append.mp hos).1 (.inl rfl) _ _)
  | o :: os, p :: ps =>
    obtain ⟨ho, hrestOs⟩ := List.forall_mem_append.mp hos
    obtain ⟨hp, hrestPs⟩ := List.forall_mem_append.mp hps
    rw [itemChars, itemChars, List.append_assoc, List.append_assoc] at h
    obtain ⟨rfl, hrest⟩ := eq_of_chars_append o p ho hp (stops_behind (by decide) _ r)
      (stops_behind (by decide) _ q) h
    match os, ps with
    | [], [] => exact ⟨rfl, (List.cons.inj hrest).2⟩
    | [], _ :: _ | _ :: _, [] => simp at hrest
    | o' :: os, p' :: ps =>
      simp only [List.isEmpty_cons, Bool.false_eq_true, if_false, List.cons_append,
        List.cons.injEq, true_and] at hrest
      obtain ⟨hsame, hend⟩ := eq_of_itemChars_append (o' :: os) (p' :: ps) hrestOs hrestPs hrest
      exact ⟨by rw [hsame], hend⟩
/-- The same holds for entries up to the end of their mapping. -/
theorem eq_of_entryChars_append (es fs : List (Outline × Outline))
    (hes : ∀ t ∈ entryTexts es, IsClear t) (hfs : ∀ t ∈ entryTexts fs, IsClear t)
    {r q : List Char} (h : entryChars es ++ '\x7d' :: r = entryChars fs ++ '\x7d' :: q) :
    es = fs ∧ r = q := by
  match es, fs with
  | [], [] => exact ⟨rfl, (List.cons.inj h).2⟩
  | [], (k, v) :: fs =>
    rw [entryChars, entryChars, List.append_assoc] at h
    exact absurd h (chars_append_ne (List.forall_mem_append.mp hfs).1 (.inr rfl) _ _)
  | (k, v) :: es, [] =>
    rw [entryChars, entryChars, List.append_assoc] at h
    exact absurd h.symm (chars_append_ne (List.forall_mem_append.mp hes).1 (.inr rfl) _ _)
  | (k, v) :: es, (l, w) :: fs =>
    obtain ⟨hk, hbehindKey⟩ := List.forall_mem_append.mp hes
    obtain ⟨hv, hrestEs⟩ := List.forall_mem_append.mp hbehindKey
    obtain ⟨hl, hbehindKey⟩ := List.forall_mem_append.mp hfs
    obtain ⟨hw, hrestFs⟩ := List.forall_mem_append.mp hbehindKey
    simp only [entryChars, List.append_assoc, List.cons_append] at h
    obtain ⟨rfl, hvalues⟩ := eq_of_chars_append k l hk hl (stops_cons (by decide) _)
      (stops_cons (by decide) _) h
    simp only [List.cons.injEq, true_and] at hvalues
    obtain ⟨rfl, hrest⟩ := eq_of_chars_append v w hv hw (stops_behind (by decide) _ r)
      (stops_behind (by decide) _ q) hvalues
    match es, fs with
    | [], [] => exact ⟨rfl, (List.cons.inj hrest).2⟩
    | [], _ :: _ | _ :: _, [] => simp at hrest
    | e :: es, f :: fs =>
      simp only [List.isEmpty_cons, Bool.false_eq_true, if_false, List.cons_append,
        List.cons.injEq, true_and] at hrest
      obtain ⟨hsame, hend⟩ := eq_of_entryChars_append (e :: es) (f :: fs) hrestEs hrestFs hrest
      exact ⟨by rw [hsame], hend⟩
end

end Outline

namespace Value

/-- Texts that are joined with commas. -/
theorem toList_intercalate_cons (first : String) (rest : List String) :
    (", ".intercalate (first :: rest)).toList =
      first.toList ++ (if rest.isEmpty then [] else ',' :: ' ' :: (", ".intercalate rest).toList) := by
  cases rest with
  | nil => simp
  | cons second rest =>
    rw [String.intercalate_cons_cons, String.toList_append, String.toList_append, List.append_assoc]
    rfl

mutual
/-- The canonical text of a value shows its outline and nothing else. -/
theorem toList_text (v : Value) : v.text.toList = v.outline.chars := by
  match v with
  | .null | .bool _ | .number _ | .string _ => rfl
  | .tagged _ inner => rw [text, outline, toList_text inner]
  | .sequence items =>
    rw [text, outline, Outline.chars, String.toList_append, String.toList_append,
      toList_itemTexts items]
    rfl
  | .mapping entries =>
    rw [text, outline, Outline.chars, String.toList_append, String.toList_append,
      toList_entryTexts entries]
    rfl
/-- The texts of items show their outlines. -/
theorem toList_itemTexts (vs : List Value) :
    (", ".intercalate (itemTexts vs)).toList = Outline.itemChars (itemOutlines vs) := by
  match vs with
  | [] => rfl
  | v :: vs =>
    have hempty : (itemTexts vs).isEmpty = (itemOutlines vs).isEmpty := by cases vs <;> rfl
    rw [itemTexts, itemOutlines, Outline.itemChars, toList_intercalate_cons, toList_text v,
      toList_itemTexts vs, hempty]
/-- The texts of entries show their outlines. -/
theorem toList_entryTexts (es : List (Value × Value)) :
    (", ".intercalate (entryTexts es)).toList = Outline.entryChars (entryOutlines es) := by
  match es with
  | [] => rfl
  | (k, v) :: es =>
    have hempty : (entryTexts es).isEmpty = (entryOutlines es).isEmpty := by cases es <;> rfl
    rw [entryTexts, entryOutlines, Outline.entryChars, toList_intercalate_cons, String.toList_append,
      String.toList_append, toList_text k, toList_text v, toList_entryTexts es, hempty,
      List.append_assoc, List.append_assoc]
    rfl
end

/-- Two values whose scalars are clear have the same canonical text if and only if they have the same
outline: apart from tags the same structure, with the same texts in the places of the scalars. -/
theorem text_eq_text_iff {v w : Value} (hv : ∀ t ∈ v.outline.texts, Outline.IsClear t)
    (hw : ∀ t ∈ w.outline.texts, Outline.IsClear t) : v.text = w.text ↔ v.outline = w.outline := by
  have hstop : Outline.Stops [] := by
    rintro _ ⟨⟩
  rw [← String.toList_inj, toList_text, toList_text]
  constructor
  · intro h
    have happend : v.outline.chars ++ [] = w.outline.chars ++ [] := by rw [h]
    exact (Outline.eq_of_chars_append v.outline w.outline hv hw hstop hstop happend).1
  · intro h
    rw [h]

/-- A sequence with a mapping whose key is a sequence. -/
def routes : Value :=
  .sequence [.mapping [(.sequence [.string "a", .number (.int 80)], .tagged ⟨"Env"⟩ (.bool true))],
    .null]

/-- The same with texts in the places of all scalars, and with the tag elsewhere. -/
def routesAsTexts : Value :=
  .sequence [.tagged ⟨"Env"⟩ (.mapping [(.sequence [.string "a", .string "80"], .string "true")]),
    .string "null"]

/-- Neither the types of scalars nor tags tell the two apart, whereas a pair of brackets does. -/
theorem routes_read_alike :
    (∀ t ∈ routes.outline.texts, Outline.IsClear t) ∧
    (∀ t ∈ routesAsTexts.outline.texts, Outline.IsClear t) ∧
    (∀ t ∈ (Value.sequence [routes]).outline.texts, Outline.IsClear t) ∧
    routes.text = routesAsTexts.text ∧ routes.text ≠ (Value.sequence [routes]).text := by
  have hroutes : ∀ t ∈ routes.outline.texts, Outline.IsClear t := by decide +kernel
  have htexts : ∀ t ∈ routesAsTexts.outline.texts, Outline.IsClear t := by decide +kernel
  have hnested : ∀ t ∈ (Value.sequence [routes]).outline.texts, Outline.IsClear t := by
    decide +kernel
  refine ⟨hroutes, htexts, hnested, (text_eq_text_iff hroutes htexts).mpr rfl, fun h => ?_⟩
  cases (text_eq_text_iff hroutes hnested).mp h

end Value

end ManifestRules
