import ManifestRules.Proofs.History.Agreement
import ManifestRules.Proofs.Merging
/-!
# Replaying a history

What a task does to the graph depends on nothing but the task and the graph,
whether the task fails or not (`graphOf_perform`). So the documents at any moment
are those of the first graph and those born since, in this order, each with
the fragments merged into it since (`Chain.get?_eq`). A run is such a chain of moments
(`History.chain`).
-/

namespace ManifestRules

namespace Task

/-- The document that a task is done for. -/
def document : Task → Nat
  | .visit i | .test i _ _ | .inject i _ _ | .create i _ _ _ | .append i _ _ _ _ | .patch i _ _
  | .amend i _ _ => i

/-- The fragment that a task merges into the document at an index. -/
def mergedInto (j : Nat) : Task → Option Mapping
  | .inject i _ fragment | .amend i _ fragment => if i = j then some fragment else none
  | _ => none

/-- The document of a task is there; a look for a further document goes at most one beyond. -/
def Fits (g : Graph) : Task → Prop
  | .visit i => i ≤ g.size
  | t => t.document < g.size

/-- The document of a task that fits is at most one beyond the graph. -/
theorem Fits.document_le {t : Task} {g : Graph} (ht : t.Fits g) : t.document ≤ g.size := by
  cases t <;> simp only [Fits, document] at ht ⊢ <;> omega

/-- A task fits a larger graph as well. -/
theorem Fits.mono {t : Task} {g h : Graph} (ht : t.Fits g) (hsize : g.size ≤ h.size) :
    t.Fits h := by
  cases t <;> simp only [Fits, document] at ht ⊢ <;> omega

/-- A task that merges into a document merges the fragment of a rule or a patch. -/
theorem eq_of_mergedInto {t : Task} {j : Nat} {fragment : Mapping}
    (ht : t.mergedInto j = some fragment) :
    ∃ m, t = .inject j m fragment ∨ t = .amend j m fragment := by
  cases t with
  | inject i m own =>
    obtain ⟨rfl, hsome⟩ := Option.ite_none_right_eq_some.mp ht
    cases hsome
    exact ⟨m, .inl rfl⟩
  | amend i m patch =>
    obtain ⟨rfl, hsome⟩ := Option.ite_none_right_eq_some.mp ht
    cases hsome
    exact ⟨m, .inr rfl⟩
  | _ => cases ht

/-- A task merges into its own document only. -/
theorem document_of_mergedInto {t : Task} {j : Nat} {fragment : Mapping}
    (ht : t.mergedInto j = some fragment) : t.document = j := by
  obtain ⟨m, rfl | rfl⟩ := eq_of_mergedInto ht <;> rfl

end Task

namespace Engine

/-- The document that a task appends. -/
def born (e : Engine) : Task → Option Document
  | .append _ _ _ _ fragment => (Stream.parseDocument e.codec fragment).toOption
  | _ => none

/-- The documents that the tasks of a history have appended, in order. -/
def births (e : Engine) (past : List Moment) : List Document :=
  past.filterMap fun x => e.born x.task

/-- The fragments that the tasks of a history have merged into the document at an index, in order. -/
def merges (j : Nat) (past : List Moment) : List Mapping :=
  past.filterMap fun x => x.task.mergedInto j

/-- The births in two parts of a history come one after the other. -/
theorem births_append (e : Engine) (past later : List Moment) :
    e.births (past ++ later) = e.births past ++ e.births later :=
  List.filterMap_append

/-- The graph that a task leaves. -/
def effect (e : Engine) (t : Task) (g : Graph) : Graph :=
  match t with
  | .inject i _ fragment | .amend i _ fragment => g.mergeAt i fragment
  | .append _ _ _ _ fragment =>
    match Stream.parseDocument e.codec fragment with
    | .ok d => g.push d
    | .error _ => g
  | _ => g

/-- A task leaves the graph of its effect, whether it fails or not. -/
theorem graphOf_perform (e : Engine) (t : Task) (g : Graph) :
    graphOf ((e.perform t).run g) = e.effect t g := by
  cases t with
  | visit i => rw [run_visit]; rfl
  | test i m r => rw [run_test]; rfl
  | inject i m fragment => rfl
  | create i m k reference =>
    rw [run_create]
    cases e.renderOn reference g <;> rfl
  | append i m k l fragment =>
    rw [run_append, run_appendFragment, effect]
    cases Stream.parseDocument e.codec fragment with
    | error f => rfl
    | ok d => by_cases hl : e.limit < g.size + 1 <;> simp [hl, graphOf]
  | patch i m reference =>
    rw [run_patch]
    cases e.renderOn reference g >>= Stream.parseMapping e.codec <;> rfl
  | amend i m fragment => rfl

/-- A task that succeeds leaves the graph of its effect. -/
theorem effect_of_ok {e : Engine} {t : Task} {new : List Task} {g h : Graph}
    (hp : (e.perform t).run g = .ok new h) : h = e.effect t g := by
  have hg := graphOf_perform e t g
  rwa [hp] at hg

/-- A task that fails leaves the graph of its effect. -/
theorem effect_of_error {e : Engine} {t : Task} {f : Error} {g h : Graph}
    (hp : (e.perform t).run g = .error f h) : h = e.effect t g := by
  have hg := graphOf_perform e t g
  rwa [hp] at hg

/-- A task merges a fragment into a document, appends a document, or leaves the graph as it is. -/
theorem effect_cases (e : Engine) (t : Task) (g : Graph) :
    (∃ i fragment, t.mergedInto i = some fragment ∧ e.effect t g = g.mergeAt i fragment) ∨
      (∃ d, e.born t = some d ∧ e.effect t g = g.push d) ∨ e.effect t g = g := by
  cases t with
  | inject i m fragment => exact .inl ⟨i, fragment, if_pos rfl, rfl⟩
  | amend i m fragment => exact .inl ⟨i, fragment, if_pos rfl, rfl⟩
  | append i m k l fragment =>
    rw [effect, born]
    cases Stream.parseDocument e.codec fragment with
    | error f => exact .inr (.inr rfl)
    | ok d => exact .inr (.inl ⟨d, rfl, rfl⟩)
  | _ => exact .inr (.inr rfl)

/-- No task makes the graph smaller. -/
theorem size_le_effect (e : Engine) (t : Task) (g : Graph) : g.size ≤ (e.effect t g).size := by
  obtain ⟨i, fragment, -, heffect⟩ | ⟨d, -, heffect⟩ | heffect := effect_cases e t g <;>
    simp [heffect]

/-- After a task that fits, the document at an index is the old or the new one, with the
fragment that the task has merged into it. -/
theorem get?_effect (e : Engine) {t : Task} {g : Graph} (ht : t.Fits g) (later : List Document)
    (j : Nat) : ((e.effect t g).toList ++ later)[j]? =
      ((g.toList ++ ((e.born t).toList ++ later))[j]?).map
        (·.mergeAll (t.mergedInto j).toList) := by
  have hmerge : ∀ (i : Nat) (fragment : Mapping), i < g.size →
      ((g.mergeAt i fragment).toList ++ later)[j]? =
        ((g.toList ++ later)[j]?).map
          (·.mergeAll (if i = j then some fragment else none).toList) := by
    intro i fragment hi
    rw [Graph.toList_mergeAt, List.getElem?_append, List.getElem?_append, List.length_modify,
      List.getElem?_modify]
    by_cases hij : i = j
    · subst hij
      simp [hi, Document.mergeAll]
    · by_cases hj : j < g.toList.length <;> simp [hij, Document.mergeAll]
  cases t with
  | inject i m fragment => exact hmerge i fragment ht
  | amend i m fragment => exact hmerge i fragment ht
  | append i m k l fragment =>
    cases hd : Stream.parseDocument e.codec fragment <;>
      simp [effect, born, hd, Except.toOption, Task.mergedInto, Document.mergeAll]
  | _ => simp [effect, born, Task.mergedInto, Document.mergeAll]

/-- Moments that follow one another, from one graph to another. -/
inductive Chain (e : Engine) : Graph → List Moment → Graph → Prop where
  /-- Nothing has happened. -/
  | nil (g : Graph) : Chain e g [] g
  /-- A task that fits is done first. -/
  | cons {t : Task} {g h : Graph} {past : List Moment} (ht : t.Fits g)
      (rest : Chain e (e.effect t g) past h) : Chain e g (⟨t, g, e.effect t g⟩ :: past) h

/-- The documents at the end of a chain are those at its start and those born in it, each with
the fragments merged into it. -/
theorem Chain.get?_eq {e : Engine} {g h : Graph} {past : List Moment} (hc : e.Chain g past h)
    (j : Nat) :
    h.get? j = ((g.toList ++ e.births past)[j]?).map (·.mergeAll (merges j past)) := by
  rw [Graph.get?_eq]
  induction hc with
  | nil g => simp [births, merges, Document.mergeAll]
  | @cons t g h past ht rest ih =>
    have hbirths : e.births (⟨t, g, e.effect t g⟩ :: past) = (e.born t).toList ++ e.births past := by
      cases hb : e.born t <;> simp [births, hb]
    have hmerges : merges j (⟨t, g, e.effect t g⟩ :: past) =
        (t.mergedInto j).toList ++ merges j past := by
      cases hm : t.mergedInto j <;> simp [merges, hm]
    rw [ih, get?_effect e ht, hbirths, hmerges, Option.map_map]
    simp only [Function.comp_def, Document.mergeAll_append]

/-- What every task of a chain preserves holds at its end if it holds at its start. -/
theorem Chain.invariant {e : Engine} {P : Graph → Prop} {g h : Graph} {past : List Moment}
    (hc : e.Chain g past h) (hstep : ∀ x ∈ past, P x.before → P (e.effect x.task x.before))
    (hg : P g) : P h := by
  induction hc with
  | nil g => exact hg
  | cons ht rest ih =>
    obtain ⟨hfirst, hlater⟩ := List.forall_mem_cons.mp hstep
    exact ih hlater (hfirst hg)

/-- What all documents at the start of a chain have in common they have at its end, if every merge
keeps it and every document that is born has it. -/
theorem Chain.forall_documents {e : Engine} {P : Document → Prop} {g h : Graph} {past : List Moment}
    (hc : e.Chain g past h)
    (hmerge : ∀ x ∈ past, ∀ j fragment, x.task.mergedInto j = some fragment →
      ∀ d, P d → P (d.merge fragment))
    (hborn : ∀ x ∈ past, ∀ d, e.born x.task = some d → P d) (hg : ∀ d ∈ g.toList, P d) :
    ∀ d ∈ h.toList, P d := by
  refine hc.invariant (P := fun k => ∀ d ∈ k.toList, P d) (fun x hx hbefore => ?_) hg
  obtain ⟨i, fragment, hm, heffect⟩ | ⟨d, hd, heffect⟩ | heffect := effect_cases e x.task x.before
  · rw [heffect]
    exact Graph.forall_mem_mergeAt hbefore (hmerge x hx i fragment hm) i
  · rw [heffect]
    exact Graph.forall_mem_push hbefore (hborn x hx d hd)
  · rwa [heffect]

/-- A chain may be cut anywhere. -/
theorem Chain.split {e : Engine} {g h : Graph} {before later : List Moment}
    (hc : e.Chain g (before ++ later) h) : ∃ k, e.Chain g before k ∧ e.Chain k later h := by
  induction before generalizing g with
  | nil => exact ⟨g, .nil g, hc⟩
  | cons x before ih =>
    cases hc with
    | cons ht rest =>
      obtain ⟨k, hb, hl⟩ := ih rest
      exact ⟨k, .cons ht hb, hl⟩

/-- A moment of a chain: what it was reached by, what its task did, and what it led to. -/
theorem Chain.moment {e : Engine} {g h : Graph} {before later : List Moment} {x : Moment}
    (hc : e.Chain g (before ++ x :: later) h) :
    e.Chain g before x.before ∧ x.task.Fits x.before ∧ x.after = e.effect x.task x.before ∧
      e.Chain x.before (x :: later) h := by
  obtain ⟨k, hb, hl⟩ := hc.split
  cases hl with
  | cons ht rest => exact ⟨hb, ht, rfl, .cons ht rest⟩

/-- The graph to which moments lead from a first graph. -/
def reached (g : Graph) (past : List Moment) : Graph := (past.getLast?.map Moment.after).getD g

/-- A moment leads to the graph it left, and those behind it go on from there. -/
theorem reached_cons (g : Graph) (x : Moment) (past : List Moment) :
    reached g (x :: past) = reached x.after past := by
  rw [reached, reached, List.getLast?_cons]
  cases past.getLast? <;> rfl

/-- A chain ends with the graph to which its moments lead. -/
theorem Chain.reached_eq {e : Engine} {g h : Graph} {past : List Moment} (hc : e.Chain g past h) :
    reached g past = h := by
  induction hc with
  | nil g => rfl
  | cons ht rest ih => rw [reached_cons, ih]

/-- A chain that is cut is joined by the graph reached there. -/
theorem Chain.split_reached {e : Engine} {g h : Graph} {before later : List Moment}
    (hc : e.Chain g (before ++ later) h) :
    e.Chain g before (reached g before) ∧ e.Chain (reached g before) later h := by
  obtain ⟨k, hb, hl⟩ := hc.split
  rw [hb.reached_eq]
  exact ⟨hb, hl⟩

end Engine

end ManifestRules
