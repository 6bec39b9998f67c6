import ManifestRules.Proofs.History.Cause
/-!
# What a history has left behind

A moment leads to further tasks, and each of these is done unless the run fails before
it (`History.does`). So when a template is rendered, all rules before have been
tested, and those that matched have had all their effects (`History.complete`).
-/

namespace ManifestRules.Engine

variable {e : Engine}

/-- Of the tasks of one visit that are in order, each is done, or the run fails before it. -/
theorem Performs.does {i : Nat} {ts : List Task} {g : Graph} {past : List Moment}
    {r : EStateM.Result Error Graph Unit} (hp : e.Performs ts g past r)
    (hts : ∀ t ∈ ts, t.Within i) (ho : Task.Ordered ts) : ∀ t ∈ ts,
      (∃ x ∈ past, x.task = t) ∨
        ((∃ f h, r = .error f h) ∧ ∀ x ∈ past, x.task.place < t.place) := by
  induction hp with
  | done g => simp
  | @fail t ts g h f hf =>
    intro s hs
    rcases List.mem_cons.mp hs with rfl | hs
    · exact .inl ⟨_, List.mem_singleton.mpr rfl, rfl⟩
    · refine .inr ⟨⟨f, h, rfl⟩, ?_⟩
      intro x hx
      rw [List.mem_singleton.mp hx]
      exact lt_of_lt_of_le t.place_lt_finish ((List.pairwise_cons.mp ho).1 s hs)
  | @step t ts new g h past r hs rest ih =>
    obtain ⟨hall, hordered⟩ := within_of_step hts ho hs
    have hwithin : ∀ n ∈ new ++ ts, n.Within i := fun n hn => (hall n hn).1
    intro s hs'
    rcases List.mem_cons.mp hs' with rfl | hs'
    · exact .inl ⟨_, List.mem_cons_self, rfl⟩
    · obtain ⟨x, hx, hxs⟩ | ⟨hr, hbound⟩ := ih hwithin hordered s (List.mem_append_right new hs')
      · exact .inl ⟨x, List.mem_cons_of_mem _ hx, hxs⟩
      · refine .inr ⟨hr, ?_⟩
        intro x hx
        rcases List.mem_cons.mp hx with rfl | hx
        · exact lt_of_lt_of_le t.place_lt_finish ((List.pairwise_cons.mp ho).1 s hs')
        · exact hbound x hx

/-- What a moment of a visit leads to is done, or the run fails before it. -/
theorem Performs.does_new {i : Nat} {ts : List Task} {g : Graph} {past : List Moment}
    {r : EStateM.Result Error Graph Unit} (hp : e.Performs ts g past r)
    (hts : ∀ t ∈ ts, t.Within i) (ho : Task.Ordered ts) {y : Moment} (hy : y ∈ past)
    {new : List Task} {k : Graph} (hs : (e.perform y.task).run y.before = .ok new k) :
    ∀ t ∈ new, (∃ x ∈ past, x.task = t) ∨
      ((∃ f h, r = .error f h) ∧ ∀ x ∈ past, x.task.place < t.place) := by
  induction hp with
  | done g => exact absurd hy List.not_mem_nil
  | fail hf =>
    rw [List.mem_singleton.mp hy] at hs
    cases hf.symm.trans hs
  | @step t ts new' g h past r hs' rest ih =>
    obtain ⟨hall, hordered⟩ := within_of_step hts ho hs'
    have hwithin : ∀ n ∈ new' ++ ts, n.Within i := fun n hn => (hall n hn).1
    have hbound := (rest.sorted hwithin hordered).2 t.place fun n hn => (hall n hn).2
    intro n hn
    have hdone : t.place < n.place ∧ ((∃ x ∈ past, x.task = n) ∨
        ((∃ f h, r = .error f h) ∧ ∀ x ∈ past, x.task.place < n.place)) := by
      rcases List.mem_cons.mp hy with rfl | hy
      · cases hs'.symm.trans hs
        have hn' := List.mem_append_left ts hn
        exact ⟨(hall n hn').2, rest.does hwithin hordered n hn'⟩
      · obtain ⟨hw, hplace⟩ := hbound y hy
        exact ⟨lt_trans hplace ((ordered_of_run hw hs).2 n hn).2.1, ih hwithin hordered hy n hn⟩
    obtain ⟨hplace, ⟨x, hx, hxn⟩ | ⟨hr, hlt⟩⟩ := hdone
    · exact .inl ⟨x, List.mem_cons_of_mem _ hx, hxn⟩
    · refine .inr ⟨hr, ?_⟩
      intro x hx
      rcases List.mem_cons.mp hx with rfl | hx
      · exact hplace
      · exact hlt x hx

/-- What a visit itself or one of its moments leads to within the visit is done, or the visit
fails before it. -/
theorem Performs.does_visit {i : Nat} {g : Graph} {past : List Moment}
    {r : EStateM.Result Error Graph Unit} (hv : e.Performs (tests i 0 e.rules) g past r)
    {y : Moment} (hy : y ∈ ⟨.visit i, g, g⟩ :: past) {new : List Task} {k : Graph}
    (hs : (e.perform y.task).run y.before = .ok new k) {t : Task} (ht : t ∈ new)
    (hw : t.Within t.document) :
    (∃ x ∈ past, x.task = t) ∨
      ((∃ f h, r = .error f h) ∧ ∀ x ∈ ⟨.visit i, g, g⟩ :: past, x.task.place < t.place) := by
  have hdone : (∃ x ∈ past, x.task = t) ∨
      ((∃ f h, r = .error f h) ∧ ∀ x ∈ past, x.task.place < t.place) := by
    rcases List.mem_cons.mp hy with rfl | hy
    · obtain ⟨-, ht | rfl⟩ := mem_tests_of_run hs ht
      · exact hv.does (fun _ => within_of_mem_tests) (ordered_tests ..) t ht
      · exact hw.elim
    · exact hv.does_new (fun _ => within_of_mem_tests) (ordered_tests ..) hy hs t ht
  have hfirst : Place.mk i 0 0 0 0 ≤ y.task.place := by
    rcases List.mem_cons.mp hy with rfl | hy
    · exact le_refl _
    · exact (hv.sorted_visit.2 y hy).2.le
  have hvisit : Place.mk i 0 0 0 0 < t.place := lt_of_le_of_lt hfirst (place_lt_of_run hs ht)
  exact hdone.imp_right fun ⟨hr, hbound⟩ => ⟨hr, List.forall_mem_cons.mpr ⟨hvisit, hbound⟩⟩

/-- What a moment of a run leads to within a visit is done, or the run does not get further. -/
theorem History.does {g : Graph} {past : List Moment} (hp : e.History g past) {y : Moment}
    (hy : y ∈ past) {new : List Task} {k : Graph}
    (hs : (e.perform y.task).run y.before = .ok new k) {t : Task} (ht : t ∈ new)
    (hw : t.Within t.document) :
    (∃ x ∈ past, x.task = t) ∨ ∀ x ∈ past, x.task.place < t.place := by
  refine Performs.visit_induction (P := fun _ _ past _ => y ∈ past →
    (∃ x ∈ past, x.task = t) ∨ ∀ x ∈ past, x.task.place < t.place) ?_ ?_ ?_ hp hy
  · intro i g hi hy
    rw [List.mem_singleton.mp hy] at hs
    exact absurd (mem_tests_of_run hs ht).1 (Nat.not_lt.mpr hi)
  · intro i g past f h _ hv hy
    obtain ⟨x, hx, hxt⟩ | ⟨-, hbound⟩ := hv.does_visit hy hs ht hw
    · exact .inl ⟨x, List.mem_cons_of_mem _ hx, hxt⟩
    · exact .inr hbound
  · intro i g past h later r hi hv hl ih hy
    rw [← List.cons_append] at hy ⊢
    rcases List.mem_append.mp hy with hy | hy
    · obtain ⟨x, hx, hxt⟩ | ⟨⟨f, k, hr⟩, -⟩ := hv.does_visit hy hs ht hw
      · exact .inl ⟨x, List.mem_append_left later (List.mem_cons_of_mem _ hx), hxt⟩
      · cases hr
    · obtain ⟨x, hx, hxt⟩ | hbound := ih hy
      · exact .inl ⟨x, List.mem_append_right _ hx, hxt⟩
      · have hnext : Place.mk (i + 1) 0 0 0 0 < t.place :=
          lt_of_le_of_lt (hl.sorted_from.2 y hy) (place_lt_of_run hs ht)
        refine .inr fun x hx => ?_
        rcases List.mem_append.mp hx with hx | hx
        · exact lt_trans (hv.place_lt_of_visit x hx) hnext
        · exact hbound x hx

/-- What an earlier moment leads to within a visit is done before any task behind it. -/
theorem History.does_before {g : Graph} {before later : List Moment} {x y : Moment}
    (hp : e.History g (before ++ x :: later)) (hy : y ∈ before) {new : List Task} {k : Graph}
    (hs : (e.perform y.task).run y.before = .ok new k) {t : Task} (ht : t ∈ new)
    (hw : t.Within t.document) (hx : t.place < x.task.place) : ∃ z ∈ before, z.task = t := by
  obtain ⟨z, hz, rfl⟩ | hbound := hp.does (List.mem_append_left _ hy) hs ht hw
  · rcases List.mem_append.mp hz with hz | hz
    · exact ⟨z, hz, rfl⟩
    · rcases List.mem_cons.mp hz with rfl | hz
      · exact absurd hx (lt_irrefl _)
      · have hlater := (List.pairwise_append.mp hp.sorted).2.1
        exact absurd ((List.pairwise_cons.mp hlater).1 z hz) (lt_asymm hx)
  · exact absurd (hbound x (by simp)) (lt_asymm hx)

/-- Only the last task of a history can have failed. -/
theorem Performs.ok_of_mem {ts : List Task} {g : Graph} {before later : List Moment} {x : Moment}
    {r : EStateM.Result Error Graph Unit} (hp : e.Performs ts g (before ++ x :: later) r) :
    ∀ y ∈ before, ∃ new h, (e.perform y.task).run y.before = .ok new h := by
  generalize hl : before ++ x :: later = past at hp
  induction hp generalizing before with
  | done g => exact absurd hl (by simp)
  | fail hf =>
    obtain ⟨rfl, -⟩ | ⟨w, -, hw⟩ := List.append_eq_cons_iff.mp hl
    · simp
    · exact absurd hw (by simp)
  | step hs rest ih =>
    obtain ⟨rfl, -⟩ | ⟨before, rfl, hw⟩ := List.append_eq_cons_iff.mp hl
    · simp
    · intro y hy
      rcases List.mem_cons.mp hy with rfl | hy
      · exact ⟨_, _, hs⟩
      · exact ih hw.symm y hy

/-- What has been done for document `i` when rule `m` renders a template after the given ones. -/
structure Complete (e : Engine) (before : List Moment) (i m : Nat) (templates : Nat → Bool) :
    Prop where
  /-- All rules so far have been tested. -/
  tested : ∀ n ≤ m, ∀ r, e.rules[n]? = some r → ∃ y ∈ before, y.task = .test i n r
  /-- All rules so far that matched have merged their fragments. -/
  injected : ∀ n ≤ m, ∀ r fragment, e.Passed before i n r → r.inject = some fragment →
    ∃ y ∈ before, y.task = .inject i n fragment
  /-- All earlier rules that matched have merged their patches. -/
  amended : ∀ n < m, ∀ r reference, e.Passed before i n r → r.patch = some reference →
    ∃ y ∈ before, y.task = .patch i n reference ∧ ∃ text fragment,
      e.renderOn reference y.before = .ok text ∧ Stream.parseMapping e.codec text = .ok fragment ∧
        ∃ z ∈ before, z.task = .amend i n fragment
  /-- All templates of earlier rules that matched, and those given, have made their documents. -/
  created : ∀ n r k reference, e.Passed before i n r → r.newResources[k]? = some reference →
    (n < m ∨ (n = m ∧ templates k = true)) →
    ∃ y ∈ before, y.task = .create i n k reference ∧ ∃ text,
      e.renderOn reference y.before = .ok text ∧
        ∀ l fragment, (Stream.splitDocuments text)[l]? = some fragment →
          ∃ z ∈ before, z.task = .append i n k l fragment

/-- What a test that was passed leads to is done before any task behind it. -/
theorem History.effect_done {g : Graph} {before later : List Moment} {x : Moment}
    (hp : e.History g (before ++ x :: later)) {i m : Nat} {r : Rule} (hr : e.Passed before i m r)
    {t : Task} (ht : t ∈ effects i m r) (hx : t.place < x.task.place) :
    ∃ z ∈ before, z.task = t := by
  obtain ⟨-, y, hy, htest, hmatch⟩ := hr
  have hrun : (e.perform y.task).run y.before = .ok (effects i m r) y.before := by
    rw [htest, run_test, if_pos hmatch]
  have hw := ((ordered_effects i m r).2 t ht).1
  exact hp.does_before hy hrun ht (by rw [hw.document_eq]; exact hw) hx

/-- A template that was rendered early enough has appended the documents of all its fragments. -/
theorem History.fragments_done {g : Graph} {before later : List Moment} {x y : Moment}
    (hp : e.History g (before ++ x :: later)) (hy : y ∈ before) {i m k : Nat} {reference : String}
    (ht : y.task = .create i m k reference)
    (hx : ∀ l, Place.mk i m 3 k l < x.task.place) :
    ∃ text, e.renderOn reference y.before = .ok text ∧
      ∀ l fragment, (Stream.splitDocuments text)[l]? = some fragment →
        ∃ z ∈ before, z.task = .append i m k l fragment := by
  obtain ⟨new, h, hrun⟩ := Performs.ok_of_mem hp y hy
  obtain ⟨text, hr, rfl, -⟩ := of_run_create (ht ▸ hrun)
  refine ⟨text, hr, ?_⟩
  intro l fragment hf
  have hmem : Task.append i m k l fragment ∈ additions i m k 0 (Stream.splitDocuments text) :=
    List.mem_map.mpr ⟨(fragment, l), List.mem_zipIdx_iff_getElem?.mpr hf, rfl⟩
  exact hp.does_before hy hrun hmem rfl (hx (l + 1))

/-- A patch that was rendered early enough has been merged. -/
theorem History.patch_done {g : Graph} {before later : List Moment} {x y : Moment}
    (hp : e.History g (before ++ x :: later)) (hy : y ∈ before) {i m : Nat} {reference : String}
    (ht : y.task = .patch i m reference) (hx : Place.mk i m 4 0 1 < x.task.place) :
    ∃ text fragment, e.renderOn reference y.before = .ok text ∧
      Stream.parseMapping e.codec text = .ok fragment ∧
        ∃ z ∈ before, z.task = .amend i m fragment := by
  obtain ⟨new, h, hrun⟩ := Performs.ok_of_mem hp y hy
  obtain ⟨text, fragment, hr, hm, rfl, -⟩ := of_run_patch (ht ▸ hrun)
  exact ⟨text, fragment, hr, hm, hp.does_before hy hrun (List.mem_singleton.mpr rfl) rfl hx⟩

/-- A rendering that comes behind the given templates comes behind all that has to be done
before it. -/
theorem History.complete {g : Graph} {before later : List Moment} {x : Moment}
    (hp : e.History g (before ++ x :: later)) {i m : Nat} {templates : Nat → Bool} {r₀ : Rule}
    (hr₀ : e.Passed before i m r₀) (hplace : Place.mk i m 3 0 0 ≤ x.task.place)
    (htemplates : ∀ k, templates k = true → ∀ l, Place.mk i m 3 k l < x.task.place) :
    e.Complete before i m templates := by
  have hrule : ∀ n ≤ m, ∀ phase template part, n < m ∨ phase < 3 →
      Place.mk i n phase template part < x.task.place := by
    intro n hn phase template part hlt
    refine lt_of_lt_of_le ?_ hplace
    rw [Place.lt_def]
    dsimp only
    omega
  refine ⟨?_, ?_, ?_, ?_⟩
  · obtain ⟨-, y, hy, htest, -⟩ := hr₀
    obtain ⟨first, second, rfl⟩ := List.append_of_mem hy
    have hcause := hp
    rw [List.append_assoc] at hcause
    obtain ⟨-, v, hv, hvisit, hi⟩ := htest ▸ hcause.caused
    have hrun : (e.perform v.task).run v.before =
        .ok (tests i 0 e.rules ++ [.visit (i + 1)]) v.before := by
      rw [hvisit, run_visit, if_pos hi]
    intro n hn r hr
    exact hp.does_before (List.mem_append_left _ hv) hrun
      (List.mem_append_left _ (mem_tests hr)) rfl (hrule n hn 1 0 0 (.inr (by omega)))
  · intro n hn r fragment hr hfragment
    exact hp.effect_done hr (inject_mem_effects hfragment) (hrule n hn 2 0 0 (.inr (by omega)))
  · intro n hn r reference hr hreference
    have hlater := hrule n (Nat.le_of_lt hn) 4 0
    obtain ⟨y, hy, ht⟩ := hp.effect_done hr (patch_mem_effects hreference) (hlater 0 (.inl hn))
    exact ⟨y, hy, ht, hp.patch_done hy ht (hlater 1 (.inl hn))⟩
  · intro n r k reference hr hreference hk
    have hfragment : ∀ l, Place.mk i n 3 k l < x.task.place := by
      intro l
      obtain hn | ⟨rfl, hk⟩ := hk
      · exact hrule n (Nat.le_of_lt hn) 3 k l (.inl hn)
      · exact htemplates k hk l
    obtain ⟨y, hy, ht⟩ := hp.effect_done hr (create_mem_effects hreference) (hfragment 0)
    exact ⟨y, hy, ht, hp.fragments_done hy ht hfragment⟩

end ManifestRules.Engine
