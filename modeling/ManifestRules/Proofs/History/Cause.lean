import ManifestRules.Proofs.History.Order
/-!
# What the tasks of a history go back to

Every task of a run has a cause among the earlier moments: an effect goes back to a test
that its rule has passed, a fragment to the template that was rendered for it, and a
merge of a patch to the rendering of the patch (`History.caused`).
-/

namespace ManifestRules.Engine

/-- A rule of the engine was tested on a document, and it matched. -/
def Passed (e : Engine) (past : List Moment) (i m : Nat) (r : Rule) : Prop :=
  e.rules[m]? = some r ∧
    ∃ x ∈ past, x.task = .test i m r ∧ matchesAt x.before i r = true

/-- A task has its cause among the moments of a history. -/
def Caused (e : Engine) (past : List Moment) : Task → Prop
  | .visit _ => True
  | .test i m r =>
    e.rules[m]? = some r ∧ ∃ x ∈ past, x.task = .visit i ∧ i < x.before.size
  | .inject i m fragment => ∃ r, e.Passed past i m r ∧ r.inject = some fragment
  | .create i m k reference =>
    ∃ r, e.Passed past i m r ∧ r.newResources[k]? = some reference
  | .append i m k l fragment =>
    ∃ x ∈ past, ∃ reference text, x.task = .create i m k reference ∧
      e.renderOn reference x.before = .ok text ∧
        (Stream.splitDocuments text)[l]? = some fragment
  | .patch i m reference => ∃ r, e.Passed past i m r ∧ r.patch = some reference
  | .amend i m fragment =>
    ∃ x ∈ past, ∃ reference text, x.task = .patch i m reference ∧
      e.renderOn reference x.before = .ok text ∧ Stream.parseMapping e.codec text = .ok fragment

variable {e : Engine}

/-- A longer history has passed the same tests. -/
theorem Passed.mono {past later : List Moment} {i m : Nat} {r : Rule} (hp : e.Passed past i m r) :
    e.Passed (past ++ later) i m r := by
  obtain ⟨hr, x, hx, hmatch⟩ := hp
  exact ⟨hr, x, List.mem_append_left later hx, hmatch⟩

/-- A cause stays a cause in a longer history. -/
theorem Caused.mono {past later : List Moment} {t : Task} (ht : e.Caused past t) :
    e.Caused (past ++ later) t := by
  cases t with
  | visit i => trivial
  | test i m r =>
    obtain ⟨hr, x, hx, hcause⟩ := ht
    exact ⟨hr, x, List.mem_append_left later hx, hcause⟩
  | inject i m fragment =>
    obtain ⟨r, hp, hr⟩ := ht
    exact ⟨r, hp.mono, hr⟩
  | create i m k reference =>
    obtain ⟨r, hp, hr⟩ := ht
    exact ⟨r, hp.mono, hr⟩
  | append i m k l fragment =>
    obtain ⟨x, hx, hcause⟩ := ht
    exact ⟨x, List.mem_append_left later hx, hcause⟩
  | patch i m reference =>
    obtain ⟨r, hp, hr⟩ := ht
    exact ⟨r, hp.mono, hr⟩
  | amend i m fragment =>
    obtain ⟨x, hx, hcause⟩ := ht
    exact ⟨x, List.mem_append_left later hx, hcause⟩

/-- The effects of a rule that has passed its test have their cause. -/
theorem caused_effects {past : List Moment} {i m : Nat} {r : Rule} (hp : e.Passed past i m r) :
    ∀ t ∈ effects i m r, e.Caused past t := by
  intro t ht
  rcases List.mem_append.mp ht with ht | ht
  · obtain ⟨fragment, hf, rfl⟩ := List.mem_map.mp ht
    exact ⟨r, hp, Option.mem_toList.mp hf⟩
  rcases List.mem_append.mp ht with ht | ht
  · obtain ⟨p, hk, rfl⟩ := List.mem_map.mp ht
    exact ⟨r, hp, List.mem_zipIdx_iff_getElem?.mp hk⟩
  · obtain ⟨reference, hr, rfl⟩ := List.mem_map.mp ht
    exact ⟨r, hp, Option.mem_toList.mp hr⟩

/-- What a task leads to has its cause in the history with this task. -/
theorem caused_of_run {past : List Moment} {t : Task} {new : List Task} {g h : Graph}
    (ht : e.Caused past t) (hp : (e.perform t).run g = .ok new h) :
    ∀ n ∈ new, e.Caused (past ++ [⟨t, g, h⟩]) n := by
  have hself : Moment.mk t g h ∈ past ++ [⟨t, g, h⟩] := by simp
  intro n hn
  cases t with
  | visit i =>
    cases (run_visit e i g).symm.trans hp
    split at hn
    · rcases List.mem_append.mp hn with hn | hn
      · obtain ⟨p, hm, rfl⟩ := List.mem_map.mp hn
        exact ⟨List.mem_zipIdx_iff_getElem?.mp hm, _, hself, rfl, ‹_›⟩
      · rw [List.mem_singleton.mp hn]
        trivial
    · exact absurd hn List.not_mem_nil
  | test i m r =>
    cases (run_test e i m r g).symm.trans hp
    split at hn
    · exact caused_effects ⟨ht.1, _, hself, rfl, ‹_›⟩ n hn
    · exact absurd hn List.not_mem_nil
  | create i m k reference =>
    obtain ⟨text, hr, rfl, -⟩ := of_run_create hp
    obtain ⟨p, hf, rfl⟩ := List.mem_map.mp hn
    exact ⟨_, hself, reference, text, rfl, hr, List.mem_zipIdx_iff_getElem?.mp hf⟩
  | patch i m reference =>
    obtain ⟨text, fragment, hr, hm, rfl, -⟩ := of_run_patch hp
    rw [List.mem_singleton.mp hn]
    exact ⟨_, hself, reference, text, rfl, hr, hm⟩
  | inject i m fragment =>
    cases (run_inject e i m fragment g).symm.trans hp
    exact absurd hn List.not_mem_nil
  | append i m k l fragment =>
    obtain ⟨d, -, rfl, -⟩ := of_run_append hp
    exact absurd hn List.not_mem_nil
  | amend i m fragment =>
    cases (run_amend e i m fragment g).symm.trans hp
    exact absurd hn List.not_mem_nil

/-- Work on tasks with causes only does tasks with causes. -/
theorem Performs.caused {ts : List Task} {g : Graph} {past : List Moment}
    {r : EStateM.Result Error Graph Unit} (hp : e.Performs ts g past r) {earlier : List Moment}
    (hts : ∀ t ∈ ts, e.Caused earlier t) {before later : List Moment} {x : Moment}
    (hx : past = before ++ x :: later) : e.Caused (earlier ++ before) x.task := by
  induction hp generalizing earlier before with
  | done g => exact absurd hx (by simp)
  | @fail t ts g h f hf =>
    obtain ⟨rfl, ⟨rfl, -⟩⟩ | ⟨w, -, hw⟩ := List.cons_eq_append_iff.mp hx
    · rw [List.append_nil]
      exact hts t List.mem_cons_self
    · exact absurd hw (by simp)
  | @step t ts new g h past r hs rest ih =>
    have ht := hts t List.mem_cons_self
    obtain ⟨rfl, hw⟩ | ⟨before, rfl, hw⟩ := List.cons_eq_append_iff.mp hx
    · cases hw
      rw [List.append_nil]
      exact ht
    · -- The moment of the task goes over to the earlier ones, where its tasks find their cause.
      rw [List.append_cons]
      refine ih ?_ hw
      intro n hn
      rcases List.mem_append.mp hn with hn | hn
      · exact caused_of_run ht hs n hn
      · exact (hts n (List.mem_cons_of_mem t hn)).mono

/-- Every task of a run has its cause among the moments before it. -/
theorem History.caused {g : Graph} {before later : List Moment} {x : Moment}
    (hp : e.History g (before ++ x :: later)) : e.Caused before x.task := by
  have hfirst : ∀ t ∈ [Task.visit 0], e.Caused [] t := by simp [Caused]
  exact Performs.caused hp hfirst rfl

end ManifestRules.Engine
