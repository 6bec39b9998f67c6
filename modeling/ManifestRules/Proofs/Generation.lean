import ManifestRules.Proofs.Growth
import ManifestRules.Proofs.History.Success
import Mathlib.Data.List.Forall2
/-!
# The order of generation

The documents that a run makes stand in the order of the visits in which they are made: first
those of the first document, last those of the last one, and those of one visit in the order
of rules, templates and fragments (`exists_history_generates`). What a visit makes stands
behind the visited document, and so it is visited later, at whatever depth of a cascade.
-/

namespace ManifestRules.Engine

/-- The documents that a template makes: those of the fragments of its text, in order. -/
def TemplateMakes (e : Engine) (past : List Moment) (i m k : Nat) (reference : String)
    (ds : List Document) : Prop :=
  ∃ x ∈ past, x.task = .create i m k reference ∧ ∃ text,
    e.renderOn reference x.before = .ok text ∧
      List.Forall₂ (fun fragment d => Stream.parseDocument e.codec fragment = .ok d)
        (Stream.splitDocuments text) ds

/-- The documents that a rule makes: those of its templates in order, if it matches when it
is tested, or else none. -/
def RuleMakes (e : Engine) (past : List Moment) (i m : Nat) (r : Rule) (ds : List Document) :
    Prop :=
  ∃ x ∈ past, x.task = .test i m r ∧
    if matchesAt x.before i r then
      ∃ parts, List.Forall₂ (fun p part => e.TemplateMakes past i m p.2 p.1 part)
        r.newResources.zipIdx parts ∧ ds = parts.flatten
    else ds = []

/-- The documents that a visit makes: those of the rules in order. -/
def VisitMakes (e : Engine) (past : List Moment) (i : Nat) (ds : List Document) : Prop :=
  ∃ parts, List.Forall₂ (fun p part => e.RuleMakes past i p.2 p.1 part) e.rules.zipIdx parts ∧
    ds = parts.flatten

/-- The documents that the visits of a run make one after another, and where they stand. -/
structure Generates (e : Engine) (g : Graph) (past : List Moment) (f : Graph)
    (made : List (List Document)) : Prop where
  /-- Every document of the final graph has been visited. -/
  length : made.length = f.size
  /-- Behind the documents of the first graph stand those made in the visits, visit by visit. -/
  kinds : f.toList.map Document.kind =
    g.toList.map Document.kind ++ made.flatten.map Document.kind
  /-- Nothing that was made is lost, and nothing is there twice. -/
  births : e.births past = made.flatten
  /-- A visit makes what its rules make. -/
  visits : ∀ i ds, made[i]? = some ds → e.VisitMakes past i ds
  /-- What a visit makes stands behind the visited document. -/
  behind : ∀ i ds, made[i]? = some ds → ∀ l d, ds[l]? = some d → ∃ j,
    j = g.size + (made.take i).flatten.length + l ∧ i < j ∧
      (f.get? j).map Document.kind = some d.kind

variable {e : Engine}

/-- What a template makes in a part of a history it makes in all of it. -/
theorem TemplateMakes.mono {past all : List Moment} (hsub : past ⊆ all) {i m k : Nat}
    {reference : String} {ds : List Document} (hm : e.TemplateMakes past i m k reference ds) :
    e.TemplateMakes all i m k reference ds := by
  obtain ⟨x, hx, hmakes⟩ := hm
  exact ⟨x, hsub hx, hmakes⟩

/-- What a rule makes in a part of a history it makes in all of it. -/
theorem RuleMakes.mono {past all : List Moment} (hsub : past ⊆ all) {i m : Nat} {r : Rule}
    {ds : List Document} (hm : e.RuleMakes past i m r ds) : e.RuleMakes all i m r ds := by
  obtain ⟨x, hx, htest, hmakes⟩ := hm
  refine ⟨x, hsub hx, htest, ?_⟩
  split at hmakes
  · obtain ⟨parts, hparts, hds⟩ := hmakes
    rw [if_pos ‹_›]
    exact ⟨parts, hparts.imp fun _ _ h => h.mono hsub, hds⟩
  · rw [if_neg ‹_›]
    exact hmakes

/-- What a visit makes in a part of a history it makes in all of it. -/
theorem VisitMakes.mono {past all : List Moment} (hsub : past ⊆ all) {i : Nat}
    {ds : List Document} (hm : e.VisitMakes past i ds) : e.VisitMakes all i ds := by
  obtain ⟨parts, hparts, hds⟩ := hm
  exact ⟨parts, hparts.imp fun _ _ h => h.mono hsub, hds⟩

/-- A loop makes what its rounds make, one after another. -/
theorem Performs.exists_parts {α : Type} {task : α → Task}
    {Q : List Moment → α → List Document → Prop}
    (hmono : ∀ {past all : List Moment}, past ⊆ all → ∀ {a ds}, Q past a ds → Q all a ds)
    (hround : ∀ {a g past h}, e.Performs [task a] g past (.ok () h) → Q past a (e.births past))
    {l : List α} {g h : Graph} {past : List Moment}
    (hp : e.Performs (l.map task) g past (.ok () h)) :
    ∃ parts, List.Forall₂ (Q past) l parts ∧ e.births past = parts.flatten := by
  induction l generalizing g past with
  | nil =>
    cases hp
    exact ⟨[], .nil, rfl⟩
  | cons a l ih =>
    have hjoined : e.Performs ([task a] ++ l.map task) g past (.ok () h) := hp
    obtain ⟨f, k, hr, -⟩ | ⟨before, k, later, rfl, hfirst, hrest⟩ := hjoined.split
    · cases hr
    · obtain ⟨parts, hparts, hbirths⟩ := ih hrest
      refine ⟨e.births before :: parts, .cons ?_ ?_, ?_⟩
      · exact hmono (List.subset_append_left before later) (hround hfirst)
      · exact hparts.imp fun _ _ h => hmono (List.subset_append_right before later) h
      · rw [births_append, hbirths, List.flatten_cons]

/-- The fragments of a text become documents in order. -/
theorem Performs.births_additions {i m k l : Nat} {fragments : List String} {g h : Graph}
    {past : List Moment} (hp : e.Performs (additions i m k l fragments) g past (.ok () h)) :
    List.Forall₂ (fun fragment d => Stream.parseDocument e.codec fragment = .ok d) fragments
      (e.births past) := by
  induction fragments generalizing l g past with
  | nil =>
    cases hp
    exact .nil
  | cons fragment fragments ih =>
    cases hp with
    | step hs rest =>
      obtain ⟨d, hd, rfl, -⟩ := of_run_append hs
      rw [births, List.filterMap_cons]
      simp only [born, hd, Except.toOption]
      exact .cons hd (ih rest)

/-- The creation task leads to what the template makes. -/
theorem Performs.births_create {i m k : Nat} {reference : String} {g h : Graph}
    {past : List Moment} (hp : e.Performs [.create i m k reference] g past (.ok () h)) :
    e.TemplateMakes past i m k reference (e.births past) := by
  cases hp with
  | step hs rest =>
    obtain ⟨text, hr, rfl, rfl⟩ := of_run_create hs
    rw [List.append_nil] at rest
    exact ⟨_, List.mem_cons_self, rfl, text, hr, rest.births_additions⟩

/-- Nothing is born of the own fragment of a rule. -/
theorem Performs.births_injects {i m : Nat} {fragment : Option Mapping} {g h : Graph}
    {past : List Moment}
    (hp : e.Performs (fragment.toList.map (.inject i m)) g past (.ok () h)) :
    e.births past = [] := by
  cases fragment with
  | none =>
    cases hp
    rfl
  | some fragment =>
    cases hp with
    | step hs rest =>
      cases (run_inject e i m fragment g).symm.trans hs
      cases rest
      rfl

/-- Nothing is born of the patch of a rule. -/
theorem Performs.births_patches {i m : Nat} {reference : Option String} {g h : Graph}
    {past : List Moment}
    (hp : e.Performs (reference.toList.map (.patch i m)) g past (.ok () h)) :
    e.births past = [] := by
  cases reference with
  | none =>
    cases hp
    rfl
  | some reference =>
    cases hp with
    | step hs rest =>
      obtain ⟨text, fragment, -, -, rfl, rfl⟩ := of_run_patch hs
      cases rest with
      | step hs rest =>
        cases (run_amend e i m fragment _).symm.trans hs
        cases rest
        rfl

/-- The effects of a rule make what its templates make. -/
theorem Performs.births_effects {i m : Nat} {r : Rule} {g h : Graph} {past : List Moment}
    (hp : e.Performs (effects i m r) g past (.ok () h)) :
    ∃ parts, List.Forall₂ (fun p part => e.TemplateMakes past i m p.2 p.1 part)
      r.newResources.zipIdx parts ∧ e.births past = parts.flatten := by
  obtain ⟨f, k, hr, -⟩ | ⟨first, k, rest, rfl, hinject, hrest⟩ := hp.split
  · cases hr
  obtain ⟨f, k', hr, -⟩ | ⟨middle, k', last, rfl, hcreate, hpatch⟩ := hrest.split
  · cases hr
  obtain ⟨parts, hparts, hbirths⟩ := Performs.exists_parts
    (Q := fun past (p : String × Nat) ds => e.TemplateMakes past i m p.2 p.1 ds)
    (fun hsub _ _ hm => hm.mono hsub) (fun hp => hp.births_create) hcreate
  have hsub : middle ⊆ first ++ (middle ++ last) :=
    List.subset_append_of_subset_right first (List.subset_append_left middle last)
  refine ⟨parts, hparts.imp fun _ _ hm => hm.mono hsub, ?_⟩
  rw [births_append, births_append, hinject.births_injects, hpatch.births_patches, hbirths,
    List.nil_append, List.append_nil]

/-- The test task leads to what the rule makes. -/
theorem Performs.births_test {i m : Nat} {r : Rule} {g h : Graph} {past : List Moment}
    (hp : e.Performs [.test i m r] g past (.ok () h)) : e.RuleMakes past i m r (e.births past) := by
  cases hp with
  | step hs rest =>
    cases (run_test e i m r g).symm.trans hs
    refine ⟨_, List.mem_cons_self, rfl, ?_⟩
    split at rest
    · rw [List.append_nil] at rest
      obtain ⟨parts, hparts, hbirths⟩ := rest.births_effects
      rw [if_pos ‹_›]
      exact ⟨parts, hparts.imp fun _ _ hm => hm.mono (List.subset_cons_self _ _), hbirths⟩
    · rw [if_neg ‹_›]
      cases rest
      rfl

/-- The tests of a visit lead to what the visit makes. -/
theorem Performs.births_tests {i : Nat} {g h : Graph} {past : List Moment}
    (hp : e.Performs (tests i 0 e.rules) g past (.ok () h)) :
    e.VisitMakes past i (e.births past) :=
  Performs.exists_parts (Q := fun past (p : Rule × Nat) ds => e.RuleMakes past i p.2 p.1 ds)
    (fun hsub _ _ hm => hm.mono hsub) (fun hp => hp.births_test) hp

/-- The documents that the visits from an index on make, one list for each visit. -/
structure MakesFrom (e : Engine) (i : Nat) (g : Graph) (past : List Moment) (f : Graph)
    (made : List (List Document)) : Prop where
  /-- Every document from the index on is visited. -/
  length : i + made.length = f.size
  /-- The graph grows by what is made. -/
  size : f.size = g.size + made.flatten.length
  /-- What is made is all that is born, in order. -/
  births : e.births past = made.flatten
  /-- A visit makes what its rules make. -/
  visits : ∀ n ds, made[n]? = some ds → e.VisitMakes past (i + n) ds
  /-- When a document is visited, there are more documents than its index. -/
  behind : ∀ n < made.length, i + n < g.size + (made.take n).flatten.length

/-- A visit makes its documents before those of the later visits. -/
theorem MakesFrom.cons {i : Nat} {g h f : Graph} {past later : List Moment}
    {made : List (List Document)} (hi : i < g.size)
    (hv : e.Performs (tests i 0 e.rules) g past (.ok () h))
    (hm : e.MakesFrom (i + 1) h later f made) :
    e.MakesFrom i g (⟨.visit i, g, g⟩ :: (past ++ later)) f (e.births past :: made) := by
  have hsize := hv.size_of_visit hi
  have hlength := hm.length
  have hfinal := hm.size
  refine ⟨?_, ?_, ?_, ?_, ?_⟩
  · rw [List.length_cons]
    omega
  · rw [List.flatten_cons, List.length_append]
    omega
  · have hjoined := births_append e past later
    rw [hm.births] at hjoined
    exact hjoined
  · -- The visits behind the first are numbered from the next index on.
    intro n ds hds
    cases n with
    | zero =>
      cases hds
      have hsub := List.subset_append_left past later
      exact hv.births_tests.mono (List.subset_cons_of_subset _ hsub)
    | succ n =>
      have hmakes := hm.visits n ds hds
      have hsub := List.subset_append_right past later
      rw [Nat.add_right_comm] at hmakes
      exact hmakes.mono (List.subset_cons_of_subset _ hsub)
  · intro n hn
    cases n with
    | zero => exact hi
    | succ n =>
      have hbehind := hm.behind n (Nat.lt_of_succ_lt_succ hn)
      rw [List.take_succ_cons, List.flatten_cons, List.length_append]
      omega

/-- A run that succeeds makes one list of documents for every visit from its index on. -/
theorem Performs.exists_made {i : Nat} {g f : Graph} {past : List Moment}
    (hp : e.Performs [.visit i] g past (.ok () f)) (hi : i ≤ g.size) :
    ∃ made, e.MakesFrom i g past f made := by
  refine Performs.visit_induction (P := fun i g past r => r = .ok () f → i ≤ g.size →
    ∃ made, e.MakesFrom i g past f made) ?_ ?_ ?_ hp rfl hi
  · intro i g hge hr hle
    cases hr
    exact ⟨[], Nat.le_antisymm hle hge, rfl, rfl, by simp, by simp⟩
  · intro i g past f h _ _ hr
    cases hr
  · intro i g past h later r hi hv _ ih hr _
    have hsize := hv.size_of_visit hi
    obtain ⟨made, hmade⟩ := ih hr (by omega)
    exact ⟨_, hmade.cons hi hv⟩

/-- The documents of a visit stand together in the list of all that are made. -/
theorem getElem?_flatten {α : Type} {ls : List (List α)} {i : Nat} {l : List α}
    (hl : ls[i]? = some l) {n : Nat} {a : α} (ha : l[n]? = some a) :
    ls.flatten[(ls.take i).flatten.length + n]? = some a := by
  induction ls generalizing i with
  | nil => cases hl
  | cons first ls ih =>
    cases i with
    | zero =>
      cases hl
      rw [List.take_zero, List.flatten_nil, List.length_nil, Nat.zero_add, List.flatten_cons,
        List.getElem?_append_left (List.getElem?_eq_some_iff.mp ha).1, ha]
    | succ i =>
      rw [List.take_succ_cons, List.flatten_cons, List.flatten_cons, List.length_append,
        Nat.add_assoc, List.getElem?_append_right (Nat.le_add_right _ _), Nat.add_sub_cancel_left]
      exact ih hl

/-- A run that succeeds makes its documents in the order of the visits, rules, templates and
fragments, and each stands behind the document for which it was made. -/
theorem exists_history_generates {g f : Graph} (hrun : e.apply.run g = .ok () f) :
    ∃ past made, e.History g past ∧ Sorted past ∧ e.Generates g past f made := by
  obtain ⟨past, hp⟩ := e.exists_history g
  have hok : e.Performs [.visit 0] g past (.ok () f) := hrun ▸ hp
  obtain ⟨made, hmade⟩ := hok.exists_made (Nat.zero_le _)
  have hlength := hmade.length
  have hkinds : f.toList.map Document.kind =
      g.toList.map Document.kind ++ made.flatten.map Document.kind := by
    have hall := hp.chain.map_kind
    rwa [finalGraph, hrun, hmade.births, List.map_append] at hall
  refine ⟨past, made, hp, hp.sorted, ⟨by omega, hkinds, hmade.births, ?_, ?_⟩⟩
  · intro i ds hds
    have hmakes := hmade.visits i ds hds
    rwa [Nat.zero_add] at hmakes
  · intro i ds hds l d hd
    have hbehind := hmade.behind i (List.getElem?_eq_some_iff.mp hds).1
    refine ⟨_, rfl, by omega, ?_⟩
    have hget := getElem?_flatten hds hd
    have hindex : g.size + (made.take i).flatten.length + l =
        (g.toList.map Document.kind).length + ((made.take i).flatten.length + l) := by
      rw [List.length_map, Graph.length_toList, Nat.add_assoc]
    rw [Graph.get?_eq, ← List.getElem?_map, hkinds, hindex,
      List.getElem?_append_right (Nat.le_add_right _ _), Nat.add_sub_cancel_left,
      List.getElem?_map, hget, Option.map_some]

/-- The cascade of an application stands in the order of generation. -/
theorem cascade_generates :
    cascade.apply.run application = .ok () (cascade.finalGraph application) ∧
      ∃ past made, cascade.History application past ∧ Sorted past ∧
        cascade.Generates application past (cascade.finalGraph application) made := by
  have hrun := run_of_succeeds cascade_succeeds
  exact ⟨hrun, exists_history_generates hrun⟩

/-- The service and the two disks of the application come first, then those of the service. -/
example : (cascade.finalGraph application).toList.map Document.kind =
    ["App", "Service", "Disk", "Disk", "Disk", "Disk"] := by decide +kernel

end ManifestRules.Engine
