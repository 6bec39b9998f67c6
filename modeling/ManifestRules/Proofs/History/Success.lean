import ManifestRules.Proofs.History.Cause
import ManifestRules.Template.Renderer
import ManifestRules.Yaml.Codec
/-!
# Runs that succeed

A run that succeeds leaves nothing undone: whatever a task leads to is done
(`Performs.done_of_ok`), and every rule is tested on every document of the final graph, also
on those that were appended on the way (`Performs.tested_of_ok`).
-/

namespace ManifestRules.Engine

variable {e : Engine}

/-- The run on a graph succeeds. -/
def succeeds (e : Engine) (g : Graph) : Bool :=
  match e.apply.run g with
  | .ok _ _ => true
  | .error _ _ => false

/-- A run that succeeds ends with its final graph. -/
theorem run_of_succeeds {g : Graph} (hs : e.succeeds g = true) :
    e.apply.run g = .ok () (e.finalGraph g) := by
  rw [succeeds] at hs
  rw [finalGraph]
  cases hr : e.apply.run g with
  | ok _ f => rfl
  | error f h => simp [hr] at hs

/-- The fragment that marks a document for production. -/
def mark : Mapping := [(.string "env", .string "production")]

/-- The rule that marks every document. -/
def marking : Rule := ⟨[], some mark, [], none⟩

/-- A small cascade: an application gets a service and two disks, and every service gets two
disks; everything is marked for production. -/
def cascade : Engine where
  rules :=
    [⟨[(.string "kind", .string "App")], none, ["service", "disks"], none⟩,
     ⟨[(.string "kind", .string "Service")], none, ["disks"], none⟩, marking]
  vars := []
  templates := .ofList [("service", "kind: Service"), ("disks", "kind: Disk\n---\nkind: Disk")]
  renderer := Template.renderer true
  codec := Yaml.codec
  limit := 10

/-- The graph of a single application. -/
def application : Graph := .ofList [⟨"App", [(.string "kind", .string "App")]⟩]

/-- The cascade of an application ends well. -/
theorem cascade_succeeds : cascade.succeeds application = true := by decide +kernel

/-- Work that succeeds has done all its tasks and all that these have led to. -/
theorem Performs.done_of_ok {ts : List Task} {g h : Graph} {past : List Moment}
    (hp : e.Performs ts g past (.ok () h)) :
    (∀ t ∈ ts, ∃ x ∈ past, x.task = t) ∧ ∀ y ∈ past, ∃ new,
      (e.perform y.task).run y.before = .ok new y.after ∧ ∀ t ∈ new, ∃ x ∈ past, x.task = t := by
  generalize ho : EStateM.Result.ok () h = r at hp
  induction hp with
  | done g => simp
  | fail hf => cases ho
  | @step t ts new g k past r hs rest ih =>
    obtain ⟨hgiven, hled⟩ := ih ho
    have hlater : ∀ s ∈ new ++ ts, ∃ x ∈ ⟨t, g, k⟩ :: past, x.task = s := by
      intro s hs
      obtain ⟨x, hx, hxs⟩ := hgiven s hs
      exact ⟨x, List.mem_cons_of_mem _ hx, hxs⟩
    constructor
    · refine List.forall_mem_cons.mpr ⟨⟨_, List.mem_cons_self, rfl⟩, ?_⟩
      exact fun s hs => hlater s (List.mem_append_right new hs)
    · refine List.forall_mem_cons.mpr ⟨⟨new, hs, ?_⟩, ?_⟩
      · exact fun s hs => hlater s (List.mem_append_left ts hs)
      · intro y hy
        obtain ⟨next, hrun, hnext⟩ := hled y hy
        refine ⟨next, hrun, ?_⟩
        intro s hs
        obtain ⟨x, hx, hxs⟩ := hnext s hs
        exact ⟨x, List.mem_cons_of_mem _ hx, hxs⟩

/-- What a moment of work that succeeds leads to is done. -/
theorem Performs.does_of_ok {ts : List Task} {g h k : Graph} {past : List Moment}
    (hp : e.Performs ts g past (.ok () h)) {y : Moment} (hy : y ∈ past) {new : List Task}
    (hs : (e.perform y.task).run y.before = .ok new k) {t : Task} (ht : t ∈ new) :
    ∃ x ∈ past, x.task = t := by
  obtain ⟨next, hrun, hnext⟩ := hp.done_of_ok.2 y hy
  cases hs.symm.trans hrun
  exact hnext t ht

/-- A run that succeeds visits every document from its index on while it is there. -/
theorem Performs.visited_of_ok {i : Nat} {g f : Graph} {past : List Moment}
    (hp : e.Performs [.visit i] g past (.ok () f)) :
    ∀ j, i ≤ j → j < f.size → ∃ x ∈ past, x.task = .visit j ∧ j < x.before.size := by
  refine Performs.visit_induction (P := fun i _ past r => r = .ok () f → ∀ j, i ≤ j → j < f.size →
    ∃ x ∈ past, x.task = .visit j ∧ j < x.before.size) ?_ ?_ ?_ hp rfl
  · intro i g hi hr j hj hlt
    cases hr
    omega
  · intro i g past f h _ _ hr
    cases hr
  · intro i g past h later r hi _ _ ih hr j hj hlt
    rcases Nat.eq_or_lt_of_le hj with rfl | hj
    · exact ⟨_, List.mem_cons_self, rfl, hi⟩
    · obtain ⟨x, hx, hvisit⟩ := ih hr j hj hlt
      exact ⟨x, List.mem_cons_of_mem _ (List.mem_append_right past hx), hvisit⟩

/-- A run that succeeds tests every rule on every document. -/
theorem Performs.tested_of_ok {g f : Graph} {past : List Moment}
    (hp : e.Performs [.visit 0] g past (.ok () f)) {j m : Nat} {r : Rule} (hj : j < f.size)
    (hr : e.rules[m]? = some r) : ∃ x ∈ past, x.task = .test j m r := by
  obtain ⟨v, hv, hvisit, hsize⟩ := hp.visited_of_ok j (Nat.zero_le j) hj
  have hrun : (e.perform v.task).run v.before =
      .ok (tests j 0 e.rules ++ [.visit (j + 1)]) v.before := by
    rw [hvisit, run_visit, if_pos hsize]
  exact hp.does_of_ok hv hrun (List.mem_append_left _ (mem_tests hr))

end ManifestRules.Engine
