import ManifestRules.Proofs.Growth
import ManifestRules.Proofs.History.Success
import ManifestRules.Proofs.Matching
/-!
# No document escapes the rules

If the last rule matches everything, merges a fragment and has no patch, then this
fragment is the last thing that is merged into any document of a run that succeeds
(`exists_history_covered`). Documents that are made by rules, at whatever depth, are no exception.
A fragment whose keys are distinct, as those of every rule file are, is then contained in all
documents, unless there is a sequence in it.
-/

namespace ManifestRules.Engine

variable {e : Engine} {g f : Graph} {past : List Moment}

/-- In a sorted history a task is done only once. -/
theorem Sorted.eq_of_task_eq (hs : Sorted past) {x y : Moment} (hx : x ∈ past) (hy : y ∈ past)
    (hxy : x.task = y.task) : x = y := by
  have hapart : past.Pairwise fun x y => x.task ≠ y.task := by
    refine hs.imp ?_
    intro x y hlt heq
    exact absurd (heq ▸ hlt) (lt_irrefl _)
  have hsymm : Std.Symm fun x y : Moment => x.task ≠ y.task := ⟨fun _ _ h => h.symm⟩
  by_contra hne
  exact hapart.forall hx hy hne hxy

/-- If one task alone merges into a document, then it merges once. -/
theorem Sorted.merges_eq_singleton (hs : Sorted past) {z : Moment} (hz : z ∈ past) {j : Nat}
    {fragment : Mapping} (hmerge : z.task.mergedInto j = some fragment)
    (honly : ∀ y ∈ past, ∀ other, y.task.mergedInto j = some other → y.task = z.task) :
    merges j past = [fragment] := by
  obtain ⟨before, later, rfl⟩ := List.append_of_mem hz
  obtain ⟨-, hlater, hcross⟩ := List.pairwise_append.mp hs
  have hnone : ∀ y ∈ before ++ later, y.task.mergedInto j = none := by
    intro y hy
    have hmem : y ∈ before ++ z :: later := by
      rw [List.mem_append, List.mem_cons]
      exact (List.mem_append.mp hy).imp_right .inr
    cases hm : y.task.mergedInto j with
    | none => rfl
    | some other =>
      have heq := honly y hmem other hm
      have hlt : y.task.place < z.task.place ∨ z.task.place < y.task.place :=
        (List.mem_append.mp hy).imp (fun hy => hcross y hy z List.mem_cons_self)
          ((List.pairwise_cons.mp hlater).1 y)
      rw [heq] at hlt
      exact absurd hlt (by simp)
  have hleft : before.filterMap (fun x => x.task.mergedInto j) = [] :=
    List.filterMap_eq_nil_iff.mpr fun y hy => hnone y (List.mem_append_left later hy)
  have hright : later.filterMap (fun x => x.task.mergedInto j) = [] :=
    List.filterMap_eq_nil_iff.mpr fun y hy => hnone y (List.mem_append_right before hy)
  rw [merges, List.filterMap_append, List.filterMap_cons, hmerge, hleft, hright]
  rfl

/-- What is merged for the last rule, if it has no patch, is its own fragment. -/
theorem History.inject_of_mergedInto {earlier : List Rule} {last : Rule} {fragment other : Mapping}
    (hrules : e.rules = earlier ++ [last]) (hinject : last.inject = some fragment)
    (hpatch : last.patch = none) (hp : e.History g past) {y : Moment} (hy : y ∈ past) {j : Nat}
    (hplace : Place.mk j earlier.length 0 0 0 ≤ y.task.place)
    (hmerge : y.task.mergedInto j = some other) :
    y.task = .inject j earlier.length fragment := by
  have hlast : ∀ n r, earlier.length ≤ n → e.rules[n]? = some r → n = earlier.length ∧ r = last := by
    intro n r hn hr
    have hlt := (List.getElem?_eq_some_iff.mp hr).1
    rw [hrules, List.length_append, List.length_singleton] at hlt
    obtain rfl : n = earlier.length := by omega
    rw [hrules, List.getElem?_concat_length] at hr
    exact ⟨rfl, (Option.some.inj hr).symm⟩
  have hdocument := Task.document_of_mergedInto hmerge
  obtain ⟨before, later, rfl⟩ := List.append_of_mem hy
  have hcause := hp.caused
  rw [Place.le_def, Task.place_document, hdocument] at hplace
  cases ht : y.task with
  | inject i n own =>
    rw [ht] at hcause hplace hdocument
    obtain ⟨r, ⟨hr, -⟩, hown⟩ := hcause
    dsimp only [Task.place, Task.document] at hplace hdocument
    obtain ⟨rfl, rfl⟩ := hlast n r (by omega) hr
    rw [hinject] at hown
    rw [hdocument, Option.some.inj hown]
  | amend i n patched =>
    rw [ht] at hcause hplace
    obtain ⟨x, hx, reference, text, hx', -⟩ := hcause
    obtain ⟨first, second, rfl⟩ := List.append_of_mem hx
    rw [List.append_assoc] at hp
    obtain ⟨r, ⟨hr, -⟩, hreference⟩ := hx' ▸ hp.caused
    dsimp only [Task.place] at hplace
    obtain ⟨rfl, rfl⟩ := hlast n r (by omega) hr
    rw [hpatch] at hreference
    cases hreference
  | _ => rw [ht] at hmerge; cases hmerge

/-- From the test of the last rule on, if it matches and has no patch, its own fragment is merged
into the document and nothing else. -/
theorem History.merges_of_last {earlier : List Rule} {last : Rule} {fragment : Mapping}
    (hrules : e.rules = earlier ++ [last]) (hinject : last.inject = some fragment)
    (hpatch : last.patch = none) {before later : List Moment} {x : Moment}
    (hp : e.History g (before ++ x :: later)) {j : Nat}
    (htest : x.task = .test j earlier.length last)
    (hdone : ∃ z ∈ before ++ x :: later, z.task = .inject j earlier.length fragment) :
    merges j (x :: later) = [fragment] := by
  obtain ⟨-, hlater, hcross⟩ := List.pairwise_append.mp hp.sorted
  obtain ⟨z, hz, hinjected⟩ := hdone
  have hfirst : Place.mk j earlier.length 0 0 0 ≤ x.task.place := by
    rw [htest, Place.le_def]
    dsimp only [Task.place]
    omega
  have hplace : ∀ y ∈ x :: later, Place.mk j earlier.length 0 0 0 ≤ y.task.place := by
    refine List.forall_mem_cons.mpr ⟨hfirst, ?_⟩
    exact fun y hy => le_trans hfirst ((List.pairwise_cons.mp hlater).1 y hy).le
  -- The merge of the own fragment has its place behind the test, so it is not among the earlier
  -- moments.
  have hbehind : z ∈ x :: later := by
    refine (List.mem_append.mp hz).resolve_left ?_
    intro hz
    have hlt := hcross z hz x List.mem_cons_self
    rw [hinjected, htest, Place.lt_def] at hlt
    dsimp only [Task.place] at hlt
    omega
  refine Sorted.merges_eq_singleton hlater hbehind ?_ ?_
  · rw [hinjected]
    exact if_pos rfl
  · intro y hy other hmerge
    rw [hinjected]
    exact hp.inject_of_mergedInto hrules hinject hpatch (List.mem_append_right before hy)
      (hplace y hy) hmerge

/-- If the last rule matches everything, merges a fragment and has no patch, then in a run that
succeeds every document is tested by it, once, and is at the end what it was at this test with the
fragment merged into it; so it contains the fragment, if there is no sequence in it. -/
theorem exists_history_covered {earlier : List Rule} {last : Rule} {fragment : Mapping}
    (hrules : e.rules = earlier ++ [last]) (hpattern : last.pattern = [])
    (hinject : last.inject = some fragment) (hpatch : last.patch = none)
    (hrun : e.apply.run g = .ok () f) :
    ∃ past, e.History g past ∧ ∀ j d, f.get? j = some d →
      ∃ x ∈ past, x.task = .test j earlier.length last ∧ (∀ y ∈ past, y.task = x.task → y = x) ∧
        ∃ b, x.before.get? j = some b ∧ d = b.merge fragment ∧
          (fragment.hasDistinctKeys = true → fragment.sequenceFree = true →
            Mapping.contains d.body fragment = true) := by
  obtain ⟨past, hp⟩ := e.exists_history g
  refine ⟨past, hp, ?_⟩
  intro j d hd
  have hok : e.Performs [.visit 0] g past (.ok () f) := hrun ▸ hp
  have hrule : e.rules[earlier.length]? = some last := by rw [hrules, List.getElem?_concat_length]
  obtain ⟨x, hx, htest⟩ := hok.tested_of_ok (Graph.lt_size_of_get? hd) hrule
  refine ⟨x, hx, htest, fun y hy hyx => hp.sorted.eq_of_task_eq hy hx hyx, ?_⟩
  obtain ⟨before, later, rfl⟩ := List.append_of_mem hx
  obtain ⟨-, hfits, -, hrest⟩ := hp.chain.moment
  have hwithin : x.task.Within j := by
    rw [htest]
    exact rfl
  obtain ⟨b, hb⟩ := Graph.exists_get? (hwithin.lt_size hfits)
  have hxrun : (e.perform x.task).run x.before = .ok (effects j earlier.length last) x.before := by
    have hmatch : matchesAt x.before j last = true := by
      rw [matchesAt, hb, hpattern]
      rfl
    rw [htest, run_test, if_pos hmatch]
  have hmerges := hp.merges_of_last hrules hinject hpatch htest
    (hok.does_of_ok hx hxrun (inject_mem_effects hinject))
  have hfinal : d = b.merge fragment := by
    have hget := hrest.get?_eq j
    have hold : (x.before.toList ++ e.births (x :: later))[j]? = some b := by
      rw [Graph.get?_eq] at hb
      rw [List.getElem?_append_left (List.getElem?_eq_some_iff.mp hb).1, hb]
    rw [hmerges, hold, finalGraph, hrun] at hget
    exact Option.some.inj (hd.symm.trans hget)
  refine ⟨b, hb, hfinal, ?_⟩
  intro hkeys hfree
  rw [hfinal]
  exact Mapping.contains_merge_of_sequenceFree hkeys hfree b.body

/-- Everything in the cascade of an application ends up marked for production. -/
theorem cascade_covered :
    cascade.rules = cascade.rules.take 2 ++ [marking] ∧ marking.pattern = [] ∧
      marking.inject = some mark ∧ marking.patch = none ∧
      cascade.apply.run application = .ok () (cascade.finalGraph application) ∧
      ∃ past, cascade.History application past ∧
        ∀ j d, (cascade.finalGraph application).get? j = some d →
          ∃ x ∈ past, x.task = .test j 2 marking ∧ (∀ y ∈ past, y.task = x.task → y = x) ∧
            ∃ b, x.before.get? j = some b ∧ d = b.merge mark ∧
              Mapping.contains d.body mark = true := by
  have hrun := run_of_succeeds cascade_succeeds
  obtain ⟨past, hp, hall⟩ := @exists_history_covered cascade application _
    (cascade.rules.take 2) marking mark rfl rfl rfl rfl hrun
  refine ⟨rfl, rfl, rfl, rfl, hrun, past, hp, ?_⟩
  intro j d hd
  obtain ⟨x, hx, htest, honly, b, hb, hmerge, hcontains⟩ := hall j d hd
  exact ⟨x, hx, htest, honly, b, hb, hmerge, hcontains (by decide) (by decide)⟩

end ManifestRules.Engine
