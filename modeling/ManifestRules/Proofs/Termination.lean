import ManifestRules.Proofs.Growth
/-!
# Why a run ends

The documents that a run appends are visited in their turn, so nothing in the loop itself says that
it ends. It does because a task succeeds only as long as the limit allows for the graph: the index
catches up with the size (`exists_history_terminates`). A run looks for the documents at 0, 1, 2 and
so on, each once, and tests every rule at most once for a document it has found.
-/

namespace ManifestRules

namespace Task

/-- The index at which a task looks for a document. -/
def lookup : Task → Option Nat
  | .visit i => some i
  | _ => none

/-- The task tests a rule. -/
def isTest : Task → Bool
  | .test _ _ _ => true
  | _ => false

/-- A task within a visit looks for no document. -/
theorem Within.lookup_eq_none {t : Task} {i : Nat} (ht : t.Within i) : t.lookup = none := by
  cases t <;> simp_all [Within, lookup]

end Task

namespace Engine

/-- The indices at which a history looks for a document, in order. The visit of a document is
complete when the next one is looked for. -/
def lookups (past : List Moment) : List Nat := past.filterMap fun x => x.task.lookup

/-- How often a history tests a rule. -/
def testCount (past : List Moment) : Nat := past.countP fun x => x.task.isTest

variable {e : Engine}

/-- No task within a visit leads to a test: all tests are there when the visit begins. -/
theorem isTest_of_run {i : Nat} {t : Task} {new : List Task} {g h : Graph} (ht : t.Within i)
    (hp : (e.perform t).run g = .ok new h) : ∀ n ∈ new, n.isTest = false := by
  intro n hn
  obtain ⟨-, hlt, hle⟩ := (ordered_of_run ht hp).2 n hn
  rw [Place.lt_def] at hlt
  rw [Place.le_def] at hle
  cases n with
  | test j m r =>
    -- The test would lie behind the task and end with it, but it ends with its whole rule.
    cases t with
    | visit i => exact ht.elim
    | _ =>
      dsimp only [Task.place, Task.finish] at hlt hle
      omega
  | _ => rfl

/-- Work on tasks of one visit makes no more tests than there are among the tasks. -/
theorem Performs.testCount_le {i : Nat} {ts : List Task} {g : Graph} {past : List Moment}
    {r : EStateM.Result Error Graph Unit} (hp : e.Performs ts g past r)
    (hts : ∀ t ∈ ts, t.Within i) : testCount past ≤ ts.countP Task.isTest := by
  induction hp with
  | done g => exact Nat.le_refl _
  | @fail t ts g h f hf =>
    simp only [testCount, List.countP_cons, List.countP_nil]
    omega
  | @step t ts new g h past r hs rest ih =>
    obtain ⟨ht, hlater⟩ := List.forall_mem_cons.mp hts
    have hnew : ∀ n ∈ new, n.Within i := fun n hn => ((ordered_of_run ht hs).2 n hn).1
    have hnone : new.countP Task.isTest = 0 := by
      refine List.countP_eq_zero.mpr ?_
      intro n hn
      simp only [isTest_of_run ht hs n hn, Bool.false_eq_true, not_false_eq_true]
    have hrest := ih (List.forall_mem_append.mpr ⟨hnew, hlater⟩)
    simp only [testCount, List.countP_append, List.countP_cons] at hrest ⊢
    omega

/-- A visit tests every rule at most once. -/
theorem Performs.testCount_le_of_visit {i : Nat} {g : Graph} {past : List Moment}
    {r : EStateM.Result Error Graph Unit} (hv : e.Performs (tests i 0 e.rules) g past r) :
    testCount past ≤ e.rules.length := by
  have hcount := hv.testCount_le fun t ht => within_of_mem_tests ht
  have hlength : (tests i 0 e.rules).countP Task.isTest ≤ (tests i 0 e.rules).length :=
    List.countP_le_length
  have hrules : (tests i 0 e.rules).length = e.rules.length := by
    rw [tests, List.length_map, List.length_zipIdx]
  omega

/-- A visit looks for no further document. -/
theorem Performs.lookups_of_visit {i : Nat} {g : Graph} {past : List Moment}
    {r : EStateM.Result Error Graph Unit} (hv : e.Performs (tests i 0 e.rules) g past r) :
    lookups past = [] := by
  refine List.filterMap_eq_nil_iff.mpr ?_
  intro x hx
  exact (hv.sorted_visit.2 x hx).1.lookup_eq_none

/-- How far the run from an index on comes: it visits `n` documents completely. -/
structure Reaches (e : Engine) (i n : Nat) (g : Graph) (past : List Moment)
    (r : EStateM.Result Error Graph Unit) : Prop where
  /-- It looks for the documents from the index on, one after another. -/
  inTurn : lookups past = List.range' i (n + 1)
  /-- It looks for none behind as many as there are or may be. -/
  bound : i + n ≤ max g.size e.limit
  /-- If it succeeds, then because there is no further document. -/
  done : ∀ f, r = .ok () f → i + n = f.size
  /-- Every document that is there leads to one test of every rule at most. -/
  tested : testCount past ≤ (max g.size e.limit - i) * e.rules.length

/-- A visit that fails is the last one. -/
theorem Reaches.of_fail {i : Nat} {g h : Graph} {past : List Moment} {f : Error} (hi : i < g.size)
    (hv : e.Performs (tests i 0 e.rules) g past (.error f h)) :
    e.Reaches i 0 g (⟨.visit i, g, g⟩ :: past) (.error f h) := by
  have hlookups := hv.lookups_of_visit
  have htests := hv.testCount_le_of_visit
  have hone : 1 * e.rules.length ≤ (max g.size e.limit - i) * e.rules.length :=
    Nat.mul_le_mul_right _ (by omega)
  have hcount : testCount (⟨.visit i, g, g⟩ :: past) = testCount past := by
    simp [testCount, Task.isTest]
  refine ⟨?_, by omega, by simp, by omega⟩
  rw [lookups] at hlookups ⊢
  rw [List.filterMap_cons, hlookups]
  rfl

/-- A visit that is completed comes before those that follow. -/
theorem Reaches.cons {i n : Nat} {g h : Graph} {past later : List Moment}
    {r : EStateM.Result Error Graph Unit} (hi : i < g.size)
    (hv : e.Performs (tests i 0 e.rules) g past (.ok () h)) (hr : e.Reaches (i + 1) n h later r) :
    e.Reaches i (n + 1) g (⟨.visit i, g, g⟩ :: (past ++ later)) r := by
  have hlookups := hv.lookups_of_visit
  have htests := hv.testCount_le_of_visit
  have hsize := hv.size_le
  have hlater := hr.inTurn
  have hbound := hr.bound
  have hcount := hr.tested
  refine ⟨?_, by omega, ?_, ?_⟩
  · rw [lookups] at hlookups hlater ⊢
    rw [List.filterMap_cons, List.filterMap_append, hlookups, hlater]
    rfl
  · intro f hf
    have hdone := hr.done f hf
    omega
  · -- The first document takes one share of the bound, and the later ones take the others.
    have hshare : (max h.size e.limit - (i + 1)) * e.rules.length + 1 * e.rules.length ≤
        (max g.size e.limit - i) * e.rules.length := by
      rw [← Nat.add_mul]
      exact Nat.mul_le_mul_right _ (by omega)
    have hsplit : testCount (⟨.visit i, g, g⟩ :: (past ++ later)) =
        testCount past + testCount later := by
      simp [testCount, Task.isTest]
    omega

/-- The run from an index on visits some number of documents completely. -/
theorem Performs.exists_reaches {i : Nat} {g : Graph} {past : List Moment}
    {r : EStateM.Result Error Graph Unit} (hp : e.Performs [.visit i] g past r)
    (hi : i ≤ g.size) : ∃ n, e.Reaches i n g past r := by
  refine Performs.visit_induction
    (P := fun i g past r => i ≤ g.size → ∃ n, e.Reaches i n g past r) ?_ ?_ ?_ hp hi
  · intro i g hge hle
    refine ⟨0, rfl, by omega, ?_, Nat.zero_le _⟩
    intro f hf
    cases hf
    omega
  · intro i g past f h hlt hv _
    exact ⟨0, .of_fail hlt hv⟩
  · intro i g past h later r hlt hv _ ih _
    have hgrow := hv.size_of_visit hlt
    obtain ⟨n, hreaches⟩ := ih (by omega)
    exact ⟨n + 1, hreaches.cons hlt hv⟩

/-- Every run comes to an end by itself, whatever rules match what they have made: to give it more
rounds than there are or may be documents does not change it. It looks for the documents at 0 and
so on, up to some index `n`, and if it succeeds, `n` is where the documents end. So it visits
exactly `n` documents completely, at most as many as there are or may be, and for each of as many
it tests every rule once at most. -/
theorem exists_history_terminates (e : Engine) (g : Graph) :
    (∀ rounds, max g.size e.limit ≤ rounds → (e.visitFrom rounds 0).run g = e.apply.run g) ∧
    ∃ past n, e.History g past ∧ lookups past = List.range (n + 1) ∧
      (∀ f, e.apply.run g = .ok () f → n = f.size) ∧ n ≤ max g.size e.limit ∧
      testCount past ≤ max g.size e.limit * e.rules.length := by
  obtain ⟨past, hp⟩ := e.exists_history g
  constructor
  · intro rounds hrounds
    obtain ⟨past', hp'⟩ := e.exists_performs_visitFrom rounds 0 g hrounds
    exact (hp'.unique hp).2
  · obtain ⟨n, hlookups, hbound, hdone, htests⟩ := Performs.exists_reaches hp (Nat.zero_le _)
    rw [← List.range_eq_range'] at hlookups
    simp only [Nat.zero_add] at hbound hdone
    exact ⟨past, n, hp, hlookups, hdone, hbound, htests⟩

end Engine

end ManifestRules
