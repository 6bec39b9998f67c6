import ManifestRules.Proofs.Keys
import ManifestRules.Rule.File
import ManifestRules.Yaml.Codec
/-!
# Decoded mappings have distinct keys

An entry is decoded only if its key is not there yet, at every depth. So the
documents and the patches that are decoded have distinct keys
(`Yaml.hasDistinctKeys_of_decode`), and so have the patterns and fragments of the rules
in a rule file (`RuleFile.hasDistinctKeys_of_parse`).
-/

namespace ManifestRules

namespace Yaml.Decoding

/-- Whatever a step of decoding gives, it has the property. -/
def Yields {α : Type} (P : α → Prop) (d : Decoding α) : Prop :=
  ∀ followed a later, d followed = .ok (a, later) → P a

variable {α β : Type} {P : α → Prop} {Q : β → Prop}

/-- What is given without further steps has the property or not. -/
theorem Yields.pure {a : α} (ha : P a) : Yields P (pure a) := by
  intro followed b later hb
  cases hb
  exact ha

/-- A fault gives nothing. -/
theorem Yields.fault (problem : String) : Yields P (fault problem) := by
  intro followed a later ha
  cases ha

/-- What a step gives may be used by the next one. -/
theorem Yields.bind {d : Decoding α} {next : α → Decoding β} (hd : Yields P d)
    (hnext : ∀ a, P a → Yields Q (next a)) : Yields Q (d >>= next) := by
  intro followed b later hb
  simp only [Bind.bind, StateT.bind, Except.bind] at hb
  cases hstep : d followed with
  | error f => simp [hstep] at hb
  | ok p =>
    obtain ⟨a, between⟩ := p
    rw [hstep] at hb
    exact hnext a (hd followed a between hstep) between b later hb

/-- Every step gives something. -/
theorem Yields.trivial (d : Decoding α) : Yields (fun _ => True) d :=
  fun _ _ _ _ => True.intro

/-- What all the steps together give has the property. -/
theorem Yields.of_run {d : Decoding α} (hd : Yields P d) {followed : Nat} {a : α}
    (ha : d.run' followed = .ok a) : P a := by
  simp only [StateT.run', Functor.map, Except.map] at ha
  cases hrun : d followed with
  | error f => simp [hrun] at ha
  | ok p =>
    obtain ⟨b, later⟩ := p
    rw [hrun] at ha
    cases ha
    exact hd followed b later hrun

/-- A step whose result does not matter comes before one that gives the property. -/
theorem Yields.of_bind {d : Decoding α} {next : α → Decoding β}
    (hnext : ∀ a, Yields Q (next a)) : Yields Q (d >>= next) :=
  (Yields.trivial d).bind fun a _ => hnext a

/-- What a step gives may be wrapped. -/
theorem Yields.map {d : Decoding α} {f : α → β} (hd : Yields P d) (hf : ∀ a, P a → Q (f a)) :
    Yields Q (f <$> d) := by
  rw [map_eq_pure_bind]
  exact hd.bind fun a ha => .pure (hf a ha)

/-- If every round of a loop gives the property, then all its results have it. -/
theorem Yields.mapM {f : α → Decoding β} (hf : ∀ a, Yields Q (f a)) (l : List α) :
    Yields (fun bs => ∀ b ∈ bs, Q b) (l.mapM f) := by
  induction l with
  | nil => exact .pure (by simp)
  | cons a l ih =>
    rw [List.mapM_cons]
    refine (hf a).bind fun b hb => ih.bind fun bs hbs => .pure ?_
    exact List.forall_mem_cons.mpr ⟨hb, hbs⟩

/-- A property that every round of a loop keeps holds at its end. -/
theorem Yields.foldlM {f : β → α → Decoding β} (hf : ∀ b a, Q b → Yields Q (f b a)) (l : List α)
    {b : β} (hb : Q b) : Yields Q (l.foldlM f b) := by
  induction l generalizing b with
  | nil => exact .pure hb
  | cons a l ih =>
    rw [List.foldlM_cons]
    exact (hf b a hb).bind fun c hc => ih hc

/-- A value has distinct keys at every depth. -/
abbrev Distinct (v : Value) : Prop := v.hasDistinctKeys = true

/-- Plain scalars have no keys. -/
theorem yields_plainValue (text : String) : Yields Distinct (plainValue text) := by
  rw [plainValue]
  split <;> first | exact .pure rfl | exact .fault _

/-- Scalars have no keys. -/
theorem yields_scalarUnder (tag : Option (List UInt8)) (text : String) (plain : Bool) :
    Yields Distinct (scalarUnder tag text plain) := by
  have hbare : Yields Distinct (bareScalar text plain) := by
    rw [bareScalar]
    split
    · exact yields_plainValue text
    · exact .pure rfl
  rw [scalarUnder]
  cases tag.map TagMeaning.ofBytes with
  | none => exact hbare
  | some meaning =>
    cases meaning with
    | unreadable => exact hbare
    | application name => exact hbare.bind fun v hv => .pure hv
    | other => exact .pure rfl
    | bool | int | float | null => dsimp only; split <;> first | exact .pure rfl | exact .fault _

/-- A tag around a collection does not change its keys. -/
theorem distinct_underTag {tag : Option (List UInt8)} {v : Value} (hv : Distinct v) :
    Distinct (underTag tag v) := by
  rw [underTag]
  split
  · exact hv
  · exact hv

/-- An entry is only added if its key is new. -/
theorem yields_addEntry {m : Mapping} (hm : m.hasDistinctKeys = true) {k v : Value}
    (hk : Distinct k) (hv : Distinct v) :
    Yields (fun m : Mapping => m.hasDistinctKeys = true) (addEntry m k v) := by
  rw [addEntry]
  split
  · exact .fault _
  · have hnew : m.get? k = none := by simpa using ‹¬ (m.get? k).isSome = true›
    exact .pure (Mapping.hasDistinctKeys_append hm hk hv hnew)

/-- Every value that is decoded has distinct keys. -/
theorem yields_value (t : NodeTable) (depth : Nat) (n : Node) :
    Yields Distinct (value t depth n) := by
  induction depth generalizing n with
  | zero =>
    rw [value]
    refine .of_bind fun found => ?_
    split
    · exact yields_scalarUnder _ _ _
    · exact .fault _
  | succ depth ih =>
    rw [value]
    refine .of_bind fun found => ?_
    split
    · exact yields_scalarUnder _ _ _
    · refine (Yields.mapM ih _).bind fun vs hvs => .pure (distinct_underTag ?_)
      exact (Value.itemsHaveDistinctKeys_iff vs).mpr hvs
    · refine Yields.bind (P := fun m : Mapping => m.hasDistinctKeys = true) ?_
        fun m hm => .pure (distinct_underTag hm)
      refine Yields.foldlM ?_ _ rfl
      intro m e hm
      exact (ih e.1).bind fun k hk => (ih e.2).bind fun v hv => yields_addEntry hm hk hv
    · exact .fault _

end Yaml.Decoding

/-- A document that is decoded has distinct keys at every depth. -/
theorem Yaml.hasDistinctKeys_of_decode {text : String} {v : Value} (hv : decode text = .ok v) :
    v.hasDistinctKeys = true := by
  rw [decode] at hv
  cases hnode : Node.ofText text with
  | error f => simp [hnode, bind, Except.bind] at hv
  | ok n =>
    cases n with
    | none =>
      simp only [hnode, bind, Except.bind, pure, Except.pure, Except.ok.injEq] at hv
      rw [← hv]
      rfl
    | some n =>
      simp only [hnode, bind, Except.bind] at hv
      exact (Decoding.yields_value _ _ n).of_run hv

/-- The pattern and the fragment of a rule have distinct keys at every depth. -/
structure Rule.HasDistinctKeys (r : Rule) : Prop where
  /-- The pattern. -/
  pattern : r.pattern.hasDistinctKeys = true
  /-- The fragment. -/
  inject : ∀ fragment, r.inject = some fragment → fragment.hasDistinctKeys = true

namespace RuleFile

open Yaml (Node NodeTable Decoding)
open Yaml.Decoding (Yields)

/-- A mapping that is read has distinct keys. -/
theorem yields_mapping (t : NodeTable) (depth : Nat) (n : Node) :
    Yields (fun m : Mapping => m.hasDistinctKeys = true) (mapping t depth n) := by
  rw [mapping]
  refine .of_bind fun found => ?_
  split
  · refine (Yaml.Decoding.yields_value t depth _).bind fun v hv => ?_
    split
    · exact .pure hv
    · exact .fault _
  · split
    · exact .pure rfl
    · exact .fault _

/-- What is read unless it is absent has the property if all that is read has it. -/
theorem yields_optional {α : Type} {P : α → Prop} {read : Node → Decoding α}
    (hread : ∀ n, Yields P (read n)) (t : NodeTable) (n? : Option Node) :
    Yields (fun a? => ∀ a, a? = some a → P a) (optional t read n?) := by
  cases n? with
  | none => exact .pure (by simp)
  | some n =>
    refine .of_bind fun n => ?_
    have hlast : ∀ absent : Bool, Yields (fun a? => ∀ a, a? = some a → P a)
        (if absent = true then pure none else some <$> read n) := by
      intro absent
      split
      · exact .pure (by simp)
      · refine (hread n).map ?_
        intro a ha b hb
        cases hb
        exact ha
    dsimp only
    split
    · exact .of_bind hlast
    · exact .of_bind hlast

/-- A rule that is read has distinct keys in its pattern and in its fragment. -/
theorem yields_rule (t : NodeTable) (depth : Nat) (n : Node) :
    Yields Rule.HasDistinctKeys (rule t depth n) := by
  rw [rule]
  refine .of_bind fun entries => .of_bind fun pattern? => ?_
  dsimp only
  -- What follows the pattern is read in the same way whether it is given or not.
  split
  case' h_1 => refine (yields_mapping t (depth - 1) _).bind ?_
  case' h_2 => refine Yields.bind (P := fun m : Mapping => m.hasDistinctKeys = true) (.pure rfl) ?_
  all_goals
    intro pattern hpattern
    refine .of_bind fun inject? => ?_
    refine (yields_optional (yields_mapping t (depth - 1)) t inject?).bind ?_
    intro inject hinject
    refine .of_bind fun patch? => .of_bind fun patch => .of_bind fun resources? => ?_
    split
    · exact .of_bind fun ns => .of_bind fun newResources => .pure ⟨hpattern, hinject⟩
    · exact .of_bind fun newResources => .pure ⟨hpattern, hinject⟩

/-- The rules of a document that is read have distinct keys. -/
theorem yields_document (t : NodeTable) (n : Node) :
    Yields (fun rules? => ∀ rules, rules? = some rules → ∀ r ∈ rules, Rule.HasDistinctKeys r)
      (document t n) := by
  rw [document]
  refine .of_bind fun entries => .of_bind fun rules? => yields_optional ?_ t rules?
  intro n
  exact .of_bind fun ns => .mapM (fun n => yields_rule t _ n) ns

/-- The rules of a rule file have distinct keys in their patterns and fragments. -/
theorem hasDistinctKeys_of_parse {text : String} {file : RuleFile} (hf : parse text = .ok file) :
    ∀ r ∈ file.rules, r.HasDistinctKeys := by
  rw [parse] at hf
  split at hf
  · cases hf
    simp
  cases hd : decode text with
  | error f => simp [hd] at hf
  | ok rules? =>
    cases rules? with
    | none =>
      rw [hd] at hf
      cases hf
      simp
    | some rules =>
      rw [hd] at hf
      cases hf
      rw [decode] at hd
      cases hnode : Node.ofText text with
      | error f => simp [hnode, bind, Except.bind] at hd
      | ok n =>
        cases n with
        | none => simp [hnode, bind, Except.bind, pure, Except.pure] at hd
        | some n =>
          simp only [hnode, bind, Except.bind] at hd
          exact (yields_document _ n).of_run hd rules rfl

end RuleFile

end ManifestRules
