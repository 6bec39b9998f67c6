import ManifestRules.Proofs.History
/-!
# Histories and runs agree

Work on two agendas in turn is work on the joined agenda, and every agenda that
starts a run carries out the very program of the engine (`CarriesOut`). So every run has a
history that ends as it does, whatever the templates and the codec are.
-/

namespace ManifestRules.Engine

variable {e : Engine}

/-- A finished agenda may be followed by another. -/
theorem Performs.append {as bs : List Task} {g h : Graph} {past later : List Moment}
    {r : EStateM.Result Error Graph Unit} (ha : e.Performs as g past (.ok () h))
    (hb : e.Performs bs h later r) : e.Performs (as ++ bs) g (past ++ later) r := by
  generalize ho : EStateM.Result.ok () h = o at ha
  induction ha with
  | done g =>
    cases ho
    exact hb
  | fail hp => cases ho
  | step hp rest ih =>
    have hw := ih ho
    rw [List.append_assoc] at hw
    exact .step hp hw

/-- Nothing that follows an agenda is reached when the agenda fails. -/
theorem Performs.append_error {as : List Task} {g h : Graph} {past : List Moment} {f : Error}
    (ha : e.Performs as g past (.error f h)) (bs : List Task) :
    e.Performs (as ++ bs) g past (.error f h) := by
  generalize ho : EStateM.Result.error f h = o at ha
  induction ha with
  | done g => cases ho
  | fail hp =>
    cases ho
    exact .fail hp
  | step hp rest ih =>
    have hw := ih ho
    rw [List.append_assoc] at hw
    exact .step hp hw

/-- Work on a joined agenda fails in its first part, or finishes it and goes on with the second. -/
theorem Performs.split {as bs : List Task} {g : Graph} {past : List Moment}
    {r : EStateM.Result Error Graph Unit} (hp : e.Performs (as ++ bs) g past r) :
    (∃ f h, r = .error f h ∧ e.Performs as g past (.error f h)) ∨
      ∃ before h later, past = before ++ later ∧ e.Performs as g before (.ok () h) ∧
        e.Performs bs h later r := by
  generalize ht : as ++ bs = ts at hp
  induction hp generalizing as with
  | done g =>
    obtain ⟨rfl, rfl⟩ := List.append_eq_nil_iff.mp ht
    exact .inr ⟨[], g, [], rfl, .done g, .done g⟩
  | @fail t ts g h f hf =>
    cases as with
    | nil => exact .inr ⟨[], g, _, rfl, .done g, by subst ht; exact .fail hf⟩
    | cons a as =>
      obtain ⟨rfl, rfl⟩ := List.cons.inj ht
      exact .inl ⟨f, h, rfl, .fail hf⟩
  | @step t ts new g h past r hs rest ih =>
    cases as with
    | nil => exact .inr ⟨[], g, _, rfl, .done g, by subst ht; exact .step hs rest⟩
    | cons a as =>
      obtain ⟨rfl, rfl⟩ := List.cons.inj ht
      -- What the first task leads to belongs to the first part of the agenda that is left.
      obtain ⟨f, k, rfl, hw⟩ | ⟨before, k, later, rfl, hw, hl⟩ := ih (List.append_assoc ..)
      · exact .inl ⟨f, k, rfl, .step hs hw⟩
      · exact .inr ⟨_, k, later, rfl, .step hs hw, hl⟩

/-- An agenda is worked on in one way only. -/
theorem Performs.unique {ts : List Task} {g : Graph} {past past' : List Moment}
    {r r' : EStateM.Result Error Graph Unit} (hp : e.Performs ts g past r)
    (hq : e.Performs ts g past' r') : past = past' ∧ r = r' := by
  induction hp generalizing past' r' with
  | done g =>
    cases hq
    exact ⟨rfl, rfl⟩
  | fail hf =>
    cases hq with
    | fail hf' =>
      cases hf.symm.trans hf'
      exact ⟨rfl, rfl⟩
    | step hs' _ => cases hf.symm.trans hs'
  | step hs _ ih =>
    cases hq with
    | fail hf' => cases hs.symm.trans hf'
    | step hs' rest' =>
      cases hs.symm.trans hs'
      obtain ⟨rfl, rfl⟩ := ih rest'
      exact ⟨rfl, rfl⟩

/-- From every graph, the agenda is worked on as the program runs. -/
def CarriesOut (e : Engine) (ts : List Task) (p : Step Unit) : Prop :=
  ∀ g, ∃ past, e.Performs ts g past (p.run g)

/-- Agendas in turn carry out programs in turn. -/
theorem CarriesOut.seq {ts us : List Task} {p q : Step Unit} (hp : e.CarriesOut ts p)
    (hq : e.CarriesOut us q) : e.CarriesOut (ts ++ us) (p >>= fun _ => q) := by
  intro g
  obtain ⟨past, hpast⟩ := hp g
  rw [EStateM.run_bind]
  cases hr : p.run g with
  | error f h =>
    rw [hr] at hpast
    exact ⟨past, hpast.append_error us⟩
  | ok _ h =>
    rw [hr] at hpast
    obtain ⟨later, hlater⟩ := hq h
    exact ⟨past ++ later, hpast.append hlater⟩

/-- A task for every item carries out the loop over the items. -/
theorem carriesOut_forM {α : Type} {task : α → Task} {f : α → Step Unit}
    (hf : ∀ a, e.CarriesOut [task a] (f a)) (l : List α) :
    e.CarriesOut (l.map task) (l.forM f) := by
  induction l with
  | nil => exact fun g => ⟨[], .done g⟩
  | cons a l ih => exact (hf a).seq ih

/-- Numbering the items does not change a loop that ignores the numbers. -/
theorem forM_zipIdx {α : Type} (f : α → Step Unit) (l : List α) (n : Nat) :
    ((l.zipIdx n).forM fun p => f p.1) = l.forM f := by
  induction l generalizing n with
  | nil => rfl
  | cons a l ih => exact congrArg (f a >>= fun _ => ·) (ih (n + 1))

/-- The append task appends a fragment. -/
theorem carriesOut_append (i m k l : Nat) (fragment : String) :
    e.CarriesOut [.append i m k l fragment] (e.appendFragment fragment) := by
  intro g
  have hr := run_append e i m k l fragment g
  cases hf : (e.appendFragment fragment).run g with
  | error f h => exact ⟨_, .fail (by rw [hr, hf])⟩
  | ok _ h => exact ⟨_, .step (by rw [hr, hf]) (.done h)⟩

/-- The tasks for fragments append them in turn. -/
theorem carriesOut_additions (i m k : Nat) (fragments : List String) :
    e.CarriesOut (additions i m k 0 fragments) (fragments.forM e.appendFragment) := by
  rw [← forM_zipIdx e.appendFragment fragments 0]
  exact carriesOut_forM (fun p : String × Nat => carriesOut_append i m k p.2 p.1) _

/-- The creation task appends all that a template makes. -/
theorem carriesOut_create (i m k : Nat) (reference : String) :
    e.CarriesOut [.create i m k reference] (e.appendResources reference) := by
  intro g
  have hr := run_create e i m k reference g
  rw [appendResources, EStateM.run_bind, run_render]
  cases ht : e.renderOn reference g with
  | error f =>
    rw [ht] at hr
    exact ⟨_, .fail hr⟩
  | ok text =>
    rw [ht] at hr
    obtain ⟨past, hp⟩ := carriesOut_additions i m k (Stream.splitDocuments text) g
    exact ⟨_, .step hr (by rw [List.append_nil]; exact hp)⟩

/-- The patch task merges what a template makes. -/
theorem carriesOut_patch (i m : Nat) (reference : String) :
    e.CarriesOut [.patch i m reference] (e.applyPatch i reference) := by
  intro g
  have hr := run_patch e i m reference g
  rw [applyPatch, EStateM.run_bind, run_render]
  cases ht : e.renderOn reference g with
  | error f =>
    rw [ht] at hr
    exact ⟨_, .fail hr⟩
  | ok text =>
    simp only [ht, bind, Except.bind] at hr
    simp only [run_lift_ok, EStateM.run_bind]
    cases hm : Stream.parseMapping e.codec text with
    | error f =>
      rw [hm] at hr
      exact ⟨_, .fail hr⟩
    | ok fragment =>
      rw [hm] at hr
      exact ⟨_, .step hr (.step (run_amend ..) (.done _))⟩

/-- The effect tasks of a rule carry out its effects. -/
theorem carriesOut_effects (i m : Nat) (r : Rule) :
    e.CarriesOut (effects i m r) (e.applyEffects i r) := by
  have hinject : e.CarriesOut (r.inject.toList.map (.inject i m))
      (r.inject.toList.forM (mergeInto i)) :=
    carriesOut_forM (fun fragment g => ⟨_, .step (run_inject ..) (.done _)⟩) _
  have hcreate : e.CarriesOut (creations i m 0 r.newResources)
      (r.newResources.forM e.appendResources) := by
    rw [← forM_zipIdx e.appendResources r.newResources 0]
    exact carriesOut_forM (fun p : String × Nat => carriesOut_create i m p.2 p.1) _
  have hpatch : e.CarriesOut (r.patch.toList.map (.patch i m))
      (r.patch.toList.forM (e.applyPatch i)) :=
    carriesOut_forM (carriesOut_patch i m) _
  exact hinject.seq (hcreate.seq hpatch)

/-- The test task applies a rule if it matches. -/
theorem carriesOut_test (i m : Nat) (r : Rule) :
    e.CarriesOut [.test i m r] (e.applyRule i r) := by
  intro g
  have hr := run_test e i m r g
  by_cases hm : matchesAt g i r
  · have hrun : (e.applyRule i r).run g = (e.applyEffects i r).run g := by simp [applyRule, hm]
    rw [if_pos hm] at hr
    obtain ⟨past, hp⟩ := carriesOut_effects i m r g
    rw [hrun]
    exact ⟨_, .step hr (by rw [List.append_nil]; exact hp)⟩
  · have hrun : (e.applyRule i r).run g = .ok () g := by simp [applyRule, hm]
    rw [if_neg hm] at hr
    rw [hrun]
    exact ⟨_, .step hr (.done g)⟩

/-- The tests carry out a visit. -/
theorem carriesOut_tests (e : Engine) (i : Nat) :
    e.CarriesOut (tests i 0 e.rules) (e.visit i) := by
  rw [visit, ← forM_zipIdx (e.applyRule i) e.rules 0]
  exact carriesOut_forM (fun p : Rule × Nat => carriesOut_test i p.2 p.1) _

/-- A finished agenda keeps the graph within the limit, or at least as small as it was. -/
theorem Performs.size_le {ts : List Task} {g h : Graph} {past : List Moment}
    (hp : e.Performs ts g past (.ok () h)) : h.size ≤ max g.size e.limit := by
  generalize ho : EStateM.Result.ok () h = o at hp
  induction hp with
  | done g =>
    cases ho
    exact Nat.le_max_left ..
  | fail hf => cases ho
  | step hs _ ih =>
    have hsize := size_of_run hs
    have hrest := ih ho
    omega

/-- With a round left, the loop over the documents visits the one at its index, if it is there,
and goes on behind it. -/
theorem run_visitFrom_succ (e : Engine) (n i : Nat) (g : Graph) :
    (e.visitFrom (n + 1) i).run g =
      if i < g.size then (e.visit i >>= fun _ => e.visitFrom n (i + 1)).run g else .ok () g := by
  by_cases hi : i < g.size <;> simp [visitFrom, hi]

/-- The loop over the documents is carried out from every index, provided its bound
leaves room for all documents that there are or may be. -/
theorem exists_performs_visitFrom (e : Engine) (n i : Nat) (g : Graph)
    (hn : max g.size e.limit ≤ n + i) :
    ∃ past, e.Performs [.visit i] g past ((e.visitFrom n i).run g) := by
  have hr := run_visit e i g
  induction n generalizing i g with
  | zero =>
    have hi : ¬ i < g.size := by omega
    rw [if_neg hi] at hr
    exact ⟨_, .step hr (.done g)⟩
  | succ n ih =>
    by_cases hi : i < g.size
    · rw [if_pos hi] at hr
      obtain ⟨past, hvisit⟩ := carriesOut_tests e i g
      rw [run_visitFrom_succ, if_pos hi, EStateM.run_bind]
      cases hv : (e.visit i).run g with
      | error f h =>
        rw [hv] at hvisit
        exact ⟨_, .step hr (by rw [List.append_nil]; exact hvisit.append_error _)⟩
      | ok _ h =>
        rw [hv] at hvisit
        -- One visit uses up one round, and the bound also covers what it has appended.
        have hsize := hvisit.size_le
        obtain ⟨later, hlater⟩ := ih (i + 1) h (by omega) (run_visit e (i + 1) h)
        exact ⟨_, .step hr (by rw [List.append_nil]; exact hvisit.append hlater)⟩
    · rw [if_neg hi] at hr
      rw [run_visitFrom_succ, if_neg hi]
      exact ⟨_, .step hr (.done g)⟩

/-- Every run has a history. -/
theorem exists_history (e : Engine) (g : Graph) : ∃ past, e.History g past :=
  exists_performs_visitFrom e (e.visitBound g) 0 g (Nat.le_refl _)

end ManifestRules.Engine
