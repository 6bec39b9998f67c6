import ManifestRules.Proofs.Growth
import ManifestRules.Proofs.History.Completeness
/-!
# What a template sees

A template is rendered on the graph as it is at that moment. The graph then
holds the final documents before the visited one, the visited one as the rules
so far have left it, and untouched documents behind it; of the documents that the
rule itself makes it holds those of earlier templates only
(`exists_history_sees`). What counts as done is what the rules that have
matched ask for: nothing else is merged or appended, and nothing of it is left out.
-/

namespace ManifestRules

/-- The fragment that a task merges into document `i` for a rule before rule `m`, or as the
own fragment of rule `m`; the patch of rule `m` does not count. -/
def Task.mergedBefore (i m : Nat) : Task → Option Mapping
  | .inject j n fragment => if j = i ∧ n ≤ m then some fragment else none
  | .amend j n fragment => if j = i ∧ n < m then some fragment else none
  | _ => none

namespace Engine

/-- The document that a task appends for an earlier visit than that of document `i`, in this
visit for a rule before rule `m`, or for rule `m` by one of the given templates. -/
def bornBefore (e : Engine) (i m : Nat) (templates : Nat → Bool) : Task → Option Document
  | .append j n k l fragment =>
    if j < i ∨ (j = i ∧ (n < m ∨ (n = m ∧ templates k = true)))
    then e.born (.append j n k l fragment) else none
  | _ => none

/-- A graph as it is seen when rule `m` renders a template for document `i`, after the
given templates of the rule. -/
structure Sees (e : Engine) (g : Graph) (past : List Moment) (f : Graph) (i m : Nat)
    (templates : Nat → Bool) (h : Graph) : Prop where
  /-- The documents before the visited one are as they are at the end of the run. -/
  passed : ∀ j < i, h.get? j = f.get? j
  /-- The visited document is there. -/
  visited : i < h.size
  /-- It is as it came, with the fragments merged so far. -/
  current : h.get? i = ((g.toList ++ e.births past)[i]?).map
    (·.mergeAll (past.filterMap fun x => x.task.mergedBefore i m))
  /-- The documents behind it are as they came, and only those made so far are there. -/
  coming : ∀ j, i < j →
    h.get? j = (g.toList ++ past.filterMap fun x => e.bornBefore i m templates x.task)[j]?

/-- The place where rule `m` renders a template for document `i` after the given templates. -/
structure Renders (p : Place) (i m : Nat) (templates : Nat → Bool) : Prop where
  /-- The place is in the visit of the document. -/
  document : p.document = i
  /-- It is among the effects of the rule. -/
  rule : p.rule = m
  /-- The rendering comes before its effects. -/
  part : p.part = 0
  /-- What is rendered are new documents or the patch. -/
  phase : p.phase = 3 ∨ (p.phase = 4 ∧ p.template = 0)
  /-- The given templates are those before the place. -/
  templates : ∀ k, templates k = true ↔ (3 < p.phase ∨ k < p.template)

/-- A template of new documents is rendered after those before it. -/
theorem renders_create (i m k : Nat) (reference : String) :
    Renders (Task.create i m k reference).place i m fun n => n < k := by
  refine ⟨rfl, rfl, rfl, .inl rfl, ?_⟩
  intro n
  rw [decide_eq_true_eq]
  dsimp only [Task.place]
  omega

/-- A patch is rendered after all templates of new documents. -/
theorem renders_patch (i m : Nat) (reference : String) :
    Renders (Task.patch i m reference).place i m fun _ => true := by
  refine ⟨rfl, rfl, rfl, .inr ⟨rfl, rfl⟩, ?_⟩
  intro n
  simp [Task.place]

/-- Rendering comes behind the own fragment of the rule. -/
theorem Renders.le_place {p : Place} {i m : Nat} {templates : Nat → Bool}
    (hp : Renders p i m templates) : Place.mk i m 3 0 0 ≤ p := by
  have hphase := hp.phase
  rw [Place.le_def, hp.document, hp.rule]
  dsimp only
  omega

/-- Rendering comes behind all that the given templates make. -/
theorem Renders.lt_place {p : Place} {i m : Nat} {templates : Nat → Bool}
    (hp : Renders p i m templates) {k : Nat} (hk : templates k = true) (l : Nat) :
    Place.mk i m 3 k l < p := by
  have hphase := hp.phase
  have htemplate := (hp.templates k).mp hk
  rw [Place.lt_def, hp.document, hp.rule]
  dsimp only
  omega

/-- Before the rendering everything counts that is born or merged. -/
theorem Renders.counts_before {p : Place} {i m : Nat} {templates : Nat → Bool}
    (hp : Renders p i m templates) (e : Engine) {t : Task} (ht : t.place < p) :
    e.bornBefore i m templates t = e.born t ∧ t.mergedBefore i m = t.mergedInto i := by
  have hpart := hp.part
  have hphase := hp.phase
  rw [Place.lt_def, hp.document, hp.rule] at ht
  cases t with
  | append j n k l fragment =>
    have hk := hp.templates k
    dsimp only [Task.place] at ht
    refine ⟨if_pos ?_, rfl⟩
    rw [hk]
    omega
  | inject j n fragment =>
    dsimp only [Task.place] at ht
    refine ⟨rfl, ?_⟩
    simp only [Task.mergedBefore, Task.mergedInto]
    exact if_congr (by omega) rfl rfl
  | amend j n fragment =>
    dsimp only [Task.place] at ht
    refine ⟨rfl, ?_⟩
    simp only [Task.mergedBefore, Task.mergedInto]
    exact if_congr (by omega) rfl rfl
  | _ => exact ⟨rfl, rfl⟩

/-- From the rendering on nothing counts any more. -/
theorem Renders.counts_behind {p : Place} {i m : Nat} {templates : Nat → Bool}
    (hp : Renders p i m templates) (e : Engine) {t : Task} (ht : p ≤ t.place) :
    e.bornBefore i m templates t = none ∧ t.mergedBefore i m = none := by
  have hpart := hp.part
  have hphase := hp.phase
  rw [Place.le_def, hp.document, hp.rule] at ht
  cases t with
  | append j n k l fragment =>
    have hk := hp.templates k
    dsimp only [Task.place] at ht
    refine ⟨if_neg ?_, rfl⟩
    rw [hk]
    omega
  | inject j n fragment =>
    dsimp only [Task.place] at ht
    exact ⟨rfl, if_neg (by omega)⟩
  | amend j n fragment =>
    dsimp only [Task.place] at ht
    exact ⟨rfl, if_neg (by omega)⟩
  | _ => exact ⟨rfl, rfl⟩

/-- Two selections from a history agree if they agree up to a moment and the first selects
nothing from there on. -/
theorem filterMap_eq_of_place {α : Type} {before later : List Moment} {x : Moment}
    (hs : Sorted (before ++ x :: later)) {p q : Task → Option α}
    (hbefore : ∀ t, t.place < x.task.place → p t = q t)
    (hbehind : ∀ t, x.task.place ≤ t.place → p t = none) :
    ((before ++ x :: later).filterMap fun y => p y.task) = before.filterMap fun y => q y.task := by
  obtain ⟨-, hlater, hcross⟩ := List.pairwise_append.mp hs
  have hnone : ((x :: later).filterMap fun y => p y.task) = [] := by
    refine List.filterMap_eq_nil_iff.mpr ?_
    intro y hy
    rcases List.mem_cons.mp hy with rfl | hy
    · exact hbehind y.task (le_refl _)
    · exact hbehind y.task ((List.pairwise_cons.mp hlater).1 y hy).le
  rw [List.filterMap_append, hnone, List.append_nil]
  exact List.filterMap_congr fun y hy => hbefore y.task (hcross y hy x List.mem_cons_self)

/-- The graph on which a template is rendered is seen as described. -/
theorem Chain.sees {e : Engine} {g f : Graph} {past : List Moment} (hc : e.Chain g past f)
    (hs : Sorted past) {x : Moment} (hx : x ∈ past) {i m : Nat} {templates : Nat → Bool}
    (hw : x.task.Within i) (hrender : Renders x.task.place i m templates) :
    e.Sees g past f i m templates x.before := by
  obtain ⟨before, later, rfl⟩ := List.append_of_mem hx
  obtain ⟨hb, ht, -, -⟩ := hc.moment
  have hbirths : ((before ++ x :: later).filterMap fun y => e.bornBefore i m templates y.task) =
      e.births before :=
    filterMap_eq_of_place hs (fun t ht => (hrender.counts_before e ht).1)
      fun t ht => (hrender.counts_behind e ht).1
  have hmerges : ((before ++ x :: later).filterMap fun y => y.task.mergedBefore i m) =
      merges i before :=
    filterMap_eq_of_place hs (fun t ht => (hrender.counts_before e ht).2)
      fun t ht => (hrender.counts_behind e ht).2
  have hsize := hb.size_eq
  have hi := hw.lt_size ht
  refine ⟨?_, hi, ?_, ?_⟩
  · intro j hj
    exact (hc.get?_eq_of_passed hs hx (by rw [hw.document_eq]; exact hj)).symm
  · have hleft : i < (g.toList ++ e.births before).length := by
      rw [List.length_append, Graph.length_toList]
      omega
    rw [hb.get?_eq, hmerges, births_append, ← List.append_assoc, List.getElem?_append_left hleft]
  · intro j hj
    rw [hbirths]
    refine hb.get?_eq_of_unvisited ?_
    intro y hy
    have hle := (List.pairwise_append.mp hs.visits).2.2 y hy x List.mem_cons_self
    rw [hw.document_eq] at hle
    omega

/-- In every run, every template sees the final documents before the visited one, the visited
one as the rules so far have left it, and untouched documents behind it; of the documents of its
own rule, a template of new documents sees those of earlier templates, and a patch all. What is
done is done once and in order. -/
theorem exists_history_sees (e : Engine) (g : Graph) :
    ∃ past, e.History g past ∧ Sorted past ∧ ∀ before x later, past = before ++ x :: later →
      e.Caused before x.task ∧
      (∀ i m k reference, x.task = .create i m k reference →
        e.Complete before i m (fun n => n < k) ∧
          e.Sees g past (e.finalGraph g) i m (fun n => n < k) x.before) ∧
      (∀ i m reference, x.task = .patch i m reference →
        e.Complete before i m (fun _ => true) ∧
          e.Sees g past (e.finalGraph g) i m (fun _ => true) x.before) := by
  obtain ⟨past, hp⟩ := e.exists_history g
  refine ⟨past, hp, hp.sorted, ?_⟩
  rintro before x later rfl
  have hcause := hp.caused
  have hx : x ∈ before ++ x :: later := by simp
  refine ⟨hcause, ?_, ?_⟩
  · intro i m k reference ht
    obtain ⟨r, hr, -⟩ : e.Caused before (.create i m k reference) := ht ▸ hcause
    have hw : x.task.Within i := ht ▸ rfl
    have hrender : Renders x.task.place i m fun n => n < k := ht ▸ renders_create i m k reference
    exact ⟨hp.complete hr hrender.le_place fun n hn l => hrender.lt_place hn l,
      hp.chain.sees hp.sorted hx hw hrender⟩
  · intro i m reference ht
    obtain ⟨r, hr, -⟩ : e.Caused before (.patch i m reference) := ht ▸ hcause
    have hw : x.task.Within i := ht ▸ rfl
    have hrender : Renders x.task.place i m fun _ => true := ht ▸ renders_patch i m reference
    exact ⟨hp.complete hr hrender.le_place fun n hn l => hrender.lt_place hn l,
      hp.chain.sees hp.sorted hx hw hrender⟩

end Engine

end ManifestRules
