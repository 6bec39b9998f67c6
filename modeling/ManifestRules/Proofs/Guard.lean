import ManifestRules.Proofs.Growth
import ManifestRules.Proofs.History.Success
/-!
# The limit is only a guard

Two runs of the same rules on the same graph that differ in the limit do the same, task by task,
until the smaller limit stops one of them (`Performs.withLimit`). So a run that its limit does not
stop is the run with every larger limit, and one that is stopped has made the same documents so
far (`exists_history_withLimit`).
-/

namespace ManifestRules.Engine

/-- The engine with another limit. -/
def withLimit (e : Engine) (limit : Nat) : Engine := { e with limit }

variable {e : Engine} {L L' : Nat}

/-- With a larger limit a task runs as before, or it is one that the smaller limit has stopped; even
then it leaves the same graph. -/
theorem perform_withLimit (hle : L ≤ L') (t : Task) (g : Graph) :
    ((e.withLimit L').perform t).run g = ((e.withLimit L).perform t).run g ∨
      ∃ h, ((e.withLimit L).perform t).run g = .error (.documentLimit L) h ∧
        graphOf (((e.withLimit L').perform t).run g) = h := by
  cases t with
  | append i m k l fragment =>
    rw [run_append, run_append, run_appendFragment, run_appendFragment]
    simp only [withLimit]
    cases Stream.parseDocument e.codec fragment with
    | error f => exact .inl rfl
    | ok d =>
      by_cases hl : L < g.size + 1
      · refine .inr ⟨g.push d, by simp only [hl, if_true], ?_⟩
        by_cases hl' : L' < g.size + 1 <;> simp only [hl', if_true, if_false, graphOf]
      · have hl' : ¬ L' < g.size + 1 := by omega
        simp only [hl, hl', if_false, true_or]
  | _ => exact .inl rfl

/-- Work on tasks that fit only adds kinds of documents behind those that are there. -/
theorem Performs.kinds_prefix {ts : List Task} {g : Graph} {past : List Moment}
    {r : EStateM.Result Error Graph Unit} (hp : e.Performs ts g past r)
    (hts : ∀ t ∈ ts, t.Fits g) :
    g.toList.map Document.kind <+: (graphOf r).toList.map Document.kind := by
  rw [(hp.chain hts).map_kind, List.map_append]
  exact List.prefix_append _ _

/-- With a larger limit the same tasks are worked on in the same way and with the same result, or
the smaller limit stops the work, and with the larger one it may go on from there. -/
theorem Performs.withLimit (hle : L ≤ L') {ts : List Task} {g : Graph} {past past' : List Moment}
    {r r' : EStateM.Result Error Graph Unit} (hp : (e.withLimit L).Performs ts g past r)
    (hq : (e.withLimit L').Performs ts g past' r') (hts : ∀ t ∈ ts, t.Fits g) :
    (past' = past ∧ r' = r) ∨
      (past <+: past' ∧ (∃ h, r = .error (.documentLimit L) h) ∧
        (graphOf r).toList.map Document.kind <+: (graphOf r').toList.map Document.kind) := by
  induction hp generalizing past' r' with
  | done g =>
    cases hq
    exact .inl ⟨rfl, rfl⟩
  | @fail t ts g h f hf =>
    obtain hsame | ⟨k, hstop, hgraph⟩ := perform_withLimit (e := e) hle t g
    · rw [hf] at hsame
      cases hq with
      | fail hf' =>
        cases hsame.symm.trans hf'
        exact .inl ⟨rfl, rfl⟩
      | step hs' _ => cases hsame.symm.trans hs'
    · cases hf.symm.trans hstop
      cases hq with
      | fail hf' =>
        rw [hf'] at hgraph
        cases hgraph
        exact .inr ⟨List.prefix_refl _, ⟨_, rfl⟩, List.prefix_refl _⟩
      | step hs' rest' =>
        -- The document too many for the smaller limit is where the other run goes on.
        have hfits := fits_of_step hts hs'
        rw [hs'] at hgraph
        cases hgraph
        refine .inr ⟨?_, ⟨_, rfl⟩, rest'.kinds_prefix hfits⟩
        exact (List.prefix_cons_inj _).mpr List.nil_prefix
  | @step t ts new g h past r hs rest ih =>
    obtain hsame | ⟨k, hstop, -⟩ := perform_withLimit (e := e) hle t g
    · rw [hs] at hsame
      cases hq with
      | fail hf' => cases hsame.symm.trans hf'
      | step hs' rest' =>
        cases hsame.symm.trans hs'
        obtain ⟨rfl, rfl⟩ | ⟨hpast, hstop, hkinds⟩ := ih rest' (fits_of_step hts hs)
        · exact .inl ⟨rfl, rfl⟩
        · exact .inr ⟨(List.prefix_cons_inj _).mpr hpast, hstop, hkinds⟩
    · cases hs.symm.trans hstop

/-- The limit is only a guard. With a larger one, everything that was done is done again, task by
task on the same graphs; if the run did not end for the limit, then nothing else is done, and it
ends with the same result on the same graph. However it ended, the documents it has left are there
with the larger limit as well, of the same kinds at the same indices. -/
theorem exists_history_withLimit (hle : L ≤ L') (e : Engine) (g : Graph) :
    ∃ past past', (e.withLimit L).History g past ∧ (e.withLimit L').History g past' ∧
      past <+: past' ∧
      ((∀ l h, (e.withLimit L).apply.run g ≠ .error (.documentLimit l) h) →
        past' = past ∧ (e.withLimit L').apply.run g = (e.withLimit L).apply.run g) ∧
      ((e.withLimit L).finalGraph g).toList.map Document.kind <+:
        ((e.withLimit L').finalGraph g).toList.map Document.kind := by
  obtain ⟨past, hp⟩ := (e.withLimit L).exists_history g
  obtain ⟨past', hp'⟩ := (e.withLimit L').exists_history g
  refine ⟨past, past', hp, hp', ?_⟩
  obtain ⟨rfl, hsame⟩ | ⟨hpast, ⟨h, hstop⟩, hkinds⟩ :=
    Performs.withLimit hle hp hp' (by simp [Task.Fits])
  · have hfinal : (e.withLimit L').finalGraph g = (e.withLimit L).finalGraph g :=
      congrArg graphOf hsame
    rw [hfinal]
    exact ⟨List.prefix_refl _, fun _ => ⟨rfl, hsame⟩, List.prefix_refl _⟩
  · exact ⟨hpast, fun hne => absurd hstop (hne L h), hkinds⟩

/-- The cascade of an application makes six documents, and so it runs with a limit of six as it does
with one of ten. -/
theorem cascade_withLimit : 6 ≤ 10 ∧
    (∀ l h, (cascade.withLimit 6).apply.run application ≠ .error (.documentLimit l) h) ∧
    (cascade.withLimit 10).apply.run application = (cascade.withLimit 6).apply.run application := by
  have hle : 6 ≤ 10 := by decide
  have hne : ∀ l h, (cascade.withLimit 6).apply.run application ≠ .error (.documentLimit l) h := by
    intro l h hstop
    have hsucceeds : (cascade.withLimit 6).succeeds application = true := by decide +kernel
    cases hstop.symm.trans (run_of_succeeds hsucceeds)
  obtain ⟨past, past', -, -, -, hsame, -⟩ := exists_history_withLimit hle cascade application
  exact ⟨hle, hne, (hsame hne).2⟩

/-- A limit of three stops the cascade at the fourth document, the first four of the six. -/
example : ((cascade.withLimit 3).finalGraph application).toList.map Document.kind =
    ["App", "Service", "Disk", "Disk"] := by decide +kernel

end ManifestRules.Engine
