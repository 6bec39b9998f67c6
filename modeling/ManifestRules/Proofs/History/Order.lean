import ManifestRules.Proofs.History.Replay
import Mathlib.Order.Basic
/-!
# The order of a history

A task has its place in the loops over documents, rules and templates. A run does its
tasks in the order of their places (`History.ordered`), and it touches only
documents that are there (`History.chain`).
-/

namespace ManifestRules

/-- How far a run has come. -/
structure Place where
  /-- The document that is visited. -/
  document : Nat
  /-- The rule that is tested or applied. -/
  rule : Nat
  /-- A visit begins in phase 0; a rule is tested in phase 1, merges its own fragment in phase 2,
  makes new documents in phase 3 and patches in phase 4. -/
  phase : Nat
  /-- The template of new documents. -/
  template : Nat
  /-- A template is rendered in part 0 and has its effects in the parts behind it. -/
  part : Nat

/-- Places in the order of the loops. -/
instance : Preorder Place where
  le p q := p.document < q.document ∨ (p.document = q.document ∧
    (p.rule < q.rule ∨ (p.rule = q.rule ∧
      (p.phase < q.phase ∨ (p.phase = q.phase ∧
        (p.template < q.template ∨ (p.template = q.template ∧ p.part ≤ q.part)))))))
  le_refl p := by omega
  le_trans p q r hpq hqr := by omega

/-- Places are compared component by component. -/
theorem Place.le_def (p q : Place) : p ≤ q ↔ p.document < q.document ∨
    (p.document = q.document ∧ (p.rule < q.rule ∨ (p.rule = q.rule ∧
      (p.phase < q.phase ∨ (p.phase = q.phase ∧ (p.template < q.template ∨
        (p.template = q.template ∧ p.part ≤ q.part))))))) := Iff.rfl

/-- One place is before another if it is not at or behind it. -/
theorem Place.lt_def (p q : Place) : p < q ↔ p.document < q.document ∨
    (p.document = q.document ∧ (p.rule < q.rule ∨ (p.rule = q.rule ∧
      (p.phase < q.phase ∨ (p.phase = q.phase ∧ (p.template < q.template ∨
        (p.template = q.template ∧ p.part < q.part))))))) := by
  rw [lt_iff_le_not_ge, le_def, le_def]
  omega

namespace Task

/-- The place of a task. -/
def place : Task → Place
  | .visit i => ⟨i, 0, 0, 0, 0⟩
  | .test i m _ => ⟨i, m, 1, 0, 0⟩
  | .inject i m _ => ⟨i, m, 2, 0, 0⟩
  | .create i m k _ => ⟨i, m, 3, k, 0⟩
  | .append i m k l _ => ⟨i, m, 3, k, l + 1⟩
  | .patch i m _ => ⟨i, m, 4, 0, 0⟩
  | .amend i m _ => ⟨i, m, 4, 0, 1⟩

/-- A place that all a task leads to within its visit is before. -/
def finish : Task → Place
  | .visit i => ⟨i + 1, 0, 0, 0, 0⟩
  | .test i m _ => ⟨i, m + 1, 0, 0, 0⟩
  | .inject i m _ => ⟨i, m, 3, 0, 0⟩
  | .create i m k _ => ⟨i, m, 3, k + 1, 0⟩
  | .append i m k l _ => ⟨i, m, 3, k, l + 2⟩
  | .patch i m _ | .amend i m _ => ⟨i, m, 4, 0, 2⟩

/-- A task done within the visit of a document. -/
def Within (i : Nat) : Task → Prop
  | .visit _ => False
  | t => t.document = i

/-- The place of a task names its document. -/
@[simp] theorem place_document (t : Task) : t.place.document = t.document := by
  cases t <;> rfl

/-- A task within a visit is done for the visited document. -/
theorem Within.document_eq {t : Task} {i : Nat} (ht : t.Within i) : t.document = i := by
  cases t <;> simp_all [Within, document]

/-- A task within a visit fits as long as the visited document is there. -/
theorem Within.fits {t : Task} {i : Nat} (ht : t.Within i) {g : Graph} (hi : i < g.size) :
    t.Fits g := by
  cases t <;> simp_all [Within, Fits]

/-- The document of a task that fits within a visit is there. -/
theorem Within.lt_size {t : Task} {i : Nat} (ht : t.Within i) {g : Graph} (hfits : t.Fits g) :
    i < g.size := by
  cases t <;> simp_all [Within, Fits]

/-- A task within a visit is before everything of the next visit. -/
theorem Within.place_lt {t : Task} {i : Nat} (ht : t.Within i) {p : Place}
    (hp : Place.mk (i + 1) 0 0 0 0 ≤ p) : t.place < p := by
  have hd := ht.document_eq
  rw [Place.le_def] at hp
  rw [Place.lt_def]
  rw [t.place_document]
  dsimp only at hp
  omega

/-- The place of a task is before its finish. -/
theorem place_lt_finish (t : Task) : t.place < t.finish := by
  cases t <;> rw [Place.lt_def] <;> dsimp only [place, finish] <;> omega

/-- Tasks in order: each is at or behind the finish of those before it. -/
def Ordered (ts : List Task) : Prop := ts.Pairwise fun s t => s.finish ≤ t.place

end Task

namespace Engine

/-- Numbers given to the items of a list grow. -/
theorem pairwise_zipIdx {α : Type} (l : List α) (n : Nat) :
    (l.zipIdx n).Pairwise fun p q => p.2 < q.2 := by
  induction l generalizing n with
  | nil => exact .nil
  | cons a l ih =>
    refine .cons ?_ (ih (n + 1))
    intro p hp
    exact List.le_snd_of_mem_zipIdx hp

/-- Tasks for numbered items are in order if a larger number means a later place. -/
theorem ordered_zipIdx {α : Type} {task : α × Nat → Task}
    (htask : ∀ p q, p.2 < q.2 → (task p).finish ≤ (task q).place) (l : List α) (n : Nat) :
    Task.Ordered ((l.zipIdx n).map task) :=
  List.pairwise_map.mpr ((pairwise_zipIdx l n).imp fun {p q} hpq => htask p q hpq)

/-- Agendas in order that are parted by a place are in order together. -/
theorem ordered_append {as bs : List Task} (has : Task.Ordered as) (hbs : Task.Ordered bs)
    {p : Place} (hbefore : ∀ a ∈ as, a.finish ≤ p) (hbehind : ∀ b ∈ bs, p ≤ b.place) :
    Task.Ordered (as ++ bs) :=
  List.pairwise_append.mpr
    ⟨has, hbs, fun a ha b hb => le_trans (hbefore a ha) (hbehind b hb)⟩

/-- The tests of a visit are in order. -/
theorem ordered_tests (i m : Nat) (rules : List Rule) : Task.Ordered (tests i m rules) := by
  refine ordered_zipIdx ?_ rules m
  intro p q hpq
  rw [Place.le_def]
  dsimp only [Task.finish, Task.place]
  omega

/-- The creations of a rule are in order, in the phase of new documents. -/
theorem ordered_creations (i m : Nat) (references : List String) :
    Task.Ordered (creations i m 0 references) ∧ ∀ t ∈ creations i m 0 references,
      t.Within i ∧ Place.mk i m 3 0 0 ≤ t.place ∧ t.finish ≤ Place.mk i m 4 0 0 := by
  constructor
  · refine ordered_zipIdx ?_ references 0
    intro p q hpq
    rw [Place.le_def]
    dsimp only [Task.finish, Task.place]
    omega
  · intro t ht
    obtain ⟨p, -, rfl⟩ := List.mem_map.mp ht
    simp only [Place.le_def]
    dsimp only [Task.finish, Task.place]
    exact ⟨rfl, by omega, by omega⟩

/-- The additions of a template are in order, behind its rendering and before the next template. -/
theorem ordered_additions (i m k : Nat) (fragments : List String) :
    Task.Ordered (additions i m k 0 fragments) ∧ ∀ t ∈ additions i m k 0 fragments,
      t.Within i ∧ Place.mk i m 3 k 0 < t.place ∧ t.finish ≤ Place.mk i m 3 (k + 1) 0 := by
  constructor
  · refine ordered_zipIdx ?_ fragments 0
    intro p q hpq
    rw [Place.le_def]
    dsimp only [Task.finish, Task.place]
    omega
  · intro t ht
    obtain ⟨p, -, rfl⟩ := List.mem_map.mp ht
    rw [Place.lt_def, Place.le_def]
    dsimp only [Task.finish, Task.place]
    exact ⟨rfl, by omega, by omega⟩

/-- The merge of the own fragment of a rule comes behind its test and before its templates. -/
theorem ordered_injects (i m : Nat) (fragment : Option Mapping) :
    Task.Ordered (fragment.toList.map (.inject i m)) ∧
      ∀ t ∈ fragment.toList.map (Task.inject i m),
        t.Within i ∧ Place.mk i m 1 0 0 < t.place ∧ t.finish ≤ Place.mk i m 3 0 0 := by
  constructor
  · cases fragment <;> simp [Task.Ordered]
  · intro t ht
    obtain ⟨f, -, rfl⟩ := List.mem_map.mp ht
    rw [Place.lt_def, Place.le_def]
    dsimp only [Task.finish, Task.place]
    exact ⟨rfl, by omega, by omega⟩

/-- The patch of a rule comes behind its templates and before the next rule. -/
theorem ordered_patches (i m : Nat) (reference : Option String) :
    Task.Ordered (reference.toList.map (.patch i m)) ∧
      ∀ t ∈ reference.toList.map (Task.patch i m),
        t.Within i ∧ Place.mk i m 4 0 0 ≤ t.place ∧ t.finish ≤ Place.mk i (m + 1) 0 0 0 := by
  constructor
  · cases reference <;> simp [Task.Ordered]
  · intro t ht
    obtain ⟨f, -, rfl⟩ := List.mem_map.mp ht
    simp only [Place.le_def]
    dsimp only [Task.finish, Task.place]
    exact ⟨rfl, by omega, by omega⟩

/-- The effects of a rule are in order, behind its test and before that of the next rule. -/
theorem ordered_effects (i m : Nat) (r : Rule) :
    Task.Ordered (effects i m r) ∧ ∀ t ∈ effects i m r,
      t.Within i ∧ Place.mk i m 1 0 0 < t.place ∧ t.finish ≤ Place.mk i (m + 1) 0 0 0 := by
  obtain ⟨hinjects, hinject⟩ := ordered_injects i m r.inject
  obtain ⟨hcreations, hcreate⟩ := ordered_creations i m r.newResources
  obtain ⟨hpatches, hpatch⟩ := ordered_patches i m r.patch
  have htest : Place.mk i m 1 0 0 < Place.mk i m 3 0 0 := by
    rw [Place.lt_def]
    dsimp only
    omega
  have hphase : Place.mk i m 3 0 0 ≤ Place.mk i m 4 0 0 := by
    rw [Place.le_def]
    dsimp only
    omega
  have hnext : Place.mk i m 4 0 0 ≤ Place.mk i (m + 1) 0 0 0 := by
    rw [Place.le_def]
    dsimp only
    omega
  have hrest : Task.Ordered (creations i m 0 r.newResources ++ r.patch.toList.map (.patch i m)) :=
    ordered_append hcreations hpatches (fun t ht => (hcreate t ht).2.2) fun t ht => (hpatch t ht).2.1
  constructor
  · refine ordered_append hinjects hrest (fun t ht => (hinject t ht).2.2) ?_
    intro t ht
    rcases List.mem_append.mp ht with ht | ht
    · exact (hcreate t ht).2.1
    · exact le_trans hphase (hpatch t ht).2.1
  · intro t ht
    rcases List.mem_append.mp ht with ht | ht
    · obtain ⟨hw, hlt, hle⟩ := hinject t ht
      exact ⟨hw, hlt, le_trans hle (le_trans hphase hnext)⟩
    rcases List.mem_append.mp ht with ht | ht
    · obtain ⟨hw, hge, hle⟩ := hcreate t ht
      exact ⟨hw, lt_of_lt_of_le htest hge, le_trans hle hnext⟩
    · obtain ⟨hw, hge, hle⟩ := hpatch t ht
      exact ⟨hw, lt_of_lt_of_le htest (le_trans hphase hge), hle⟩

/-- What a task within a visit leads to is in order and lies within the task. -/
theorem ordered_of_run {e : Engine} {t : Task} {i : Nat} {new : List Task} {g h : Graph}
    (ht : t.Within i) (hp : (e.perform t).run g = .ok new h) :
    Task.Ordered new ∧ ∀ n ∈ new, n.Within i ∧ t.place < n.place ∧ n.finish ≤ t.finish := by
  cases t with
  | visit j => exact ht.elim
  | test j m r =>
    cases (run_test e j m r g).symm.trans hp
    cases ht
    split
    · exact ordered_effects j m r
    · exact ⟨.nil, by simp⟩
  | inject j m fragment =>
    cases (run_inject e j m fragment g).symm.trans hp
    exact ⟨.nil, by simp⟩
  | create j m k reference =>
    cases ht
    obtain ⟨text, -, rfl, rfl⟩ := of_run_create hp
    exact ordered_additions j m k _
  | append j m k l fragment =>
    obtain ⟨d, -, rfl, -⟩ := of_run_append hp
    exact ⟨.nil, by simp⟩
  | patch j m reference =>
    cases ht
    obtain ⟨text, fragment, -, -, rfl, rfl⟩ := of_run_patch hp
    refine ⟨List.pairwise_singleton _ _, ?_⟩
    intro n hn
    rw [List.mem_singleton.mp hn, Place.lt_def, Place.le_def]
    dsimp only [Task.finish, Task.place]
    exact ⟨rfl, by omega, by omega⟩
  | amend j m fragment =>
    cases (run_amend e j m fragment g).symm.trans hp
    exact ⟨.nil, by simp⟩

/-- Every test of a visit is within it. -/
theorem within_of_mem_tests {i m : Nat} {rules : List Rule} {t : Task}
    (ht : t ∈ tests i m rules) : t.Within i := by
  obtain ⟨p, -, rfl⟩ := List.mem_map.mp ht
  exact rfl

/-- The tests of a visit are behind its place. -/
theorem place_lt_of_mem_tests {i : Nat} {rules : List Rule} {t : Task}
    (ht : t ∈ tests i 0 rules) : Place.mk i 0 0 0 0 < t.place := by
  obtain ⟨p, -, rfl⟩ := List.mem_map.mp ht
  rw [Place.lt_def]
  dsimp only [Task.place]
  omega

/-- An existing document is visited by the tests of the rules. -/
theorem mem_tests_of_run {e : Engine} {i : Nat} {new : List Task} {g h : Graph}
    (hp : (e.perform (.visit i)).run g = .ok new h) {t : Task} (ht : t ∈ new) :
    i < g.size ∧ (t ∈ tests i 0 e.rules ∨ t = .visit (i + 1)) := by
  cases (run_visit e i g).symm.trans hp
  split at ht
  · exact ⟨‹i < g.size›, (List.mem_append.mp ht).imp_right List.mem_singleton.mp⟩
  · exact absurd ht List.not_mem_nil

/-- A task leads only to what lies behind it. -/
theorem place_lt_of_run {e : Engine} {t n : Task} {new : List Task} {g h : Graph}
    (hp : (e.perform t).run g = .ok new h) (hn : n ∈ new) : t.place < n.place := by
  by_cases hw : t.Within t.document
  · exact ((ordered_of_run hw hp).2 n hn).2.1
  · cases t with
    | visit i =>
      obtain ⟨-, hn | rfl⟩ := mem_tests_of_run hp hn
      · exact place_lt_of_mem_tests hn
      · rw [Place.lt_def]
        dsimp only [Task.place]
        omega
    | _ => exact absurd rfl hw

/-- What a task that fits leads to fits the graph it leaves. -/
theorem fits_of_run {e : Engine} {t : Task} {new : List Task} {g h : Graph} (ht : t.Fits g)
    (hp : (e.perform t).run g = .ok new h) : ∀ n ∈ new, n.Fits h := by
  intro n hn
  by_cases hw : t.Within t.document
  · have hsize := hw.lt_size ht
    have hgrow : g.size ≤ h.size := by
      rw [effect_of_ok hp]
      exact size_le_effect e t g
    exact ((ordered_of_run hw hp).2 n hn).1.fits (by omega)
  · cases t with
    | visit i =>
      cases (run_visit e i g).symm.trans hp
      obtain ⟨hi, hn | rfl⟩ := mem_tests_of_run (run_visit e i g) hn
      · exact (within_of_mem_tests hn).fits hi
      · exact Nat.succ_le_of_lt hi
    | _ => exact absurd rfl hw

/-- The agenda that a task leaves fits the graph that it leaves. -/
theorem fits_of_step {e : Engine} {t : Task} {ts new : List Task} {g h : Graph}
    (hts : ∀ s ∈ t :: ts, s.Fits g) (hs : (e.perform t).run g = .ok new h) :
    ∀ n ∈ new ++ ts, n.Fits h := by
  intro n hn
  rcases List.mem_append.mp hn with hn | hn
  · exact fits_of_run (hts t List.mem_cons_self) hs n hn
  · have hsize := size_le_effect e t g
    rw [← effect_of_ok hs] at hsize
    exact (hts n (List.mem_cons_of_mem t hn)).mono hsize

/-- Work on tasks that fit is a chain of moments. -/
theorem Performs.chain {e : Engine} {ts : List Task} {g : Graph} {past : List Moment}
    {r : EStateM.Result Error Graph Unit} (hp : e.Performs ts g past r)
    (hts : ∀ t ∈ ts, t.Fits g) : e.Chain g past (graphOf r) := by
  induction hp with
  | done g => exact .nil g
  | @fail t ts g h f hf =>
    rw [effect_of_error hf]
    exact .cons (hts t List.mem_cons_self) (.nil _)
  | @step t ts new g h past r hs rest ih =>
    have ht := hts t List.mem_cons_self
    have hnew := fits_of_step hts hs
    rw [effect_of_ok hs] at ih hnew ⊢
    exact .cons ht (ih hnew)

/-- A run is a chain of moments from the graph it starts with to the graph it leaves. -/
theorem History.chain {e : Engine} {g : Graph} {past : List Moment} (hp : e.History g past) :
    e.Chain g past (e.finalGraph g) :=
  Performs.chain hp (by simp [Task.Fits])

/-- A run only merges into documents that are there: no index is ever out of range. -/
theorem History.lt_size_of_mergedInto {e : Engine} {g : Graph} {past : List Moment}
    (hp : e.History g past) {x : Moment} (hx : x ∈ past) {i : Nat} {fragment : Mapping}
    (hm : x.task.mergedInto i = some fragment) : i < x.before.size := by
  obtain ⟨before, later, rfl⟩ := List.append_of_mem hx
  obtain ⟨-, hfits, -, -⟩ := hp.chain.moment
  obtain ⟨m, htask | htask⟩ := Task.eq_of_mergedInto hm
  · rwa [htask] at hfits
  · rwa [htask] at hfits

/-- Moments in the order of the places of their tasks. -/
def Sorted (past : List Moment) : Prop := past.Pairwise fun x y => x.task.place < y.task.place

/-- The agenda that a task leaves lies within the visit and behind the task, and is in order. -/
theorem within_of_step {e : Engine} {i : Nat} {t : Task} {ts new : List Task} {g h : Graph}
    (hts : ∀ s ∈ t :: ts, s.Within i) (ho : Task.Ordered (t :: ts))
    (hs : (e.perform t).run g = .ok new h) :
    (∀ n ∈ new ++ ts, n.Within i ∧ t.place < n.place) ∧ Task.Ordered (new ++ ts) := by
  obtain ⟨hfirst, hlater⟩ := List.pairwise_cons.mp ho
  obtain ⟨hnew, hwithin⟩ := ordered_of_run (hts t List.mem_cons_self) hs
  constructor
  · intro n hn
    rcases List.mem_append.mp hn with hn | hn
    · exact ⟨(hwithin n hn).1, (hwithin n hn).2.1⟩
    · exact ⟨hts n (List.mem_cons_of_mem t hn), lt_of_lt_of_le t.place_lt_finish (hfirst n hn)⟩
  · refine List.pairwise_append.mpr ⟨hnew, hlater, ?_⟩
    intro n hn s hs
    exact le_trans (hwithin n hn).2.2 (hfirst s hs)

/-- Work on tasks of one visit that are in order stays in the visit and keeps the order. -/
theorem Performs.sorted {e : Engine} {i : Nat} {ts : List Task} {g : Graph} {past : List Moment}
    {r : EStateM.Result Error Graph Unit} (hp : e.Performs ts g past r)
    (hts : ∀ t ∈ ts, t.Within i) (ho : Task.Ordered ts) :
    Sorted past ∧ ∀ p, (∀ t ∈ ts, p < t.place) → ∀ x ∈ past, x.task.Within i ∧ p < x.task.place := by
  induction hp with
  | done g => exact ⟨.nil, by simp⟩
  | @fail t ts g h f hf =>
    refine ⟨List.pairwise_singleton _ _, ?_⟩
    intro p hpt x hx
    rw [List.mem_singleton.mp hx]
    exact ⟨hts t List.mem_cons_self, hpt t List.mem_cons_self⟩
  | @step t ts new g h past r hs rest ih =>
    have ht := hts t List.mem_cons_self
    obtain ⟨hall, hjoined⟩ := within_of_step hts ho hs
    obtain ⟨hsorted, hbound⟩ := ih (fun n hn => (hall n hn).1) hjoined
    have hrest := hbound t.place fun n hn => (hall n hn).2
    refine ⟨.cons (fun x hx => (hrest x hx).2) hsorted, ?_⟩
    intro p hpt x hx
    have hpt' := hpt t List.mem_cons_self
    rcases List.mem_cons.mp hx with rfl | hx
    · exact ⟨ht, hpt'⟩
    · exact ⟨(hrest x hx).1, lt_trans hpt' (hrest x hx).2⟩

/-- A visit does its tasks in order. -/
theorem Performs.sorted_visit {e : Engine} {i : Nat} {g : Graph} {past : List Moment}
    {r : EStateM.Result Error Graph Unit} (hp : e.Performs (tests i 0 e.rules) g past r) :
    Sorted past ∧ ∀ x ∈ past, x.task.Within i ∧ Place.mk i 0 0 0 0 < x.task.place := by
  obtain ⟨hsorted, hbound⟩ :=
    hp.sorted (fun t ht => within_of_mem_tests ht) (ordered_tests i 0 e.rules)
  exact ⟨hsorted, hbound _ fun t ht => place_lt_of_mem_tests ht⟩

/-- A visit and all its tasks are before the next visit. -/
theorem Performs.place_lt_of_visit {e : Engine} {i : Nat} {g : Graph} {past : List Moment}
    {r : EStateM.Result Error Graph Unit} (hp : e.Performs (tests i 0 e.rules) g past r) :
    ∀ x ∈ ⟨.visit i, g, g⟩ :: past, x.task.place < Place.mk (i + 1) 0 0 0 0 := by
  refine List.forall_mem_cons.mpr ⟨Task.place_lt_finish (.visit i), ?_⟩
  exact fun x hx => (hp.sorted_visit.2 x hx).1.place_lt (le_refl _)

/-- A statement on the run from every index holds if it holds where the run ends, where a
visit fails, and before a visit whenever it holds after it. -/
theorem Performs.visit_induction {e : Engine}
    {P : Nat → Graph → List Moment → EStateM.Result Error Graph Unit → Prop}
    (stop : ∀ i g, g.size ≤ i → P i g [⟨.visit i, g, g⟩] (.ok () g))
    (fail : ∀ i g past f h, i < g.size → e.Performs (tests i 0 e.rules) g past (.error f h) →
      P i g (⟨.visit i, g, g⟩ :: past) (.error f h))
    (next : ∀ i g past h later r, i < g.size → e.Performs (tests i 0 e.rules) g past (.ok () h) →
      e.Performs [.visit (i + 1)] h later r → P (i + 1) h later r →
      P i g (⟨.visit i, g, g⟩ :: (past ++ later)) r)
    {i : Nat} {g : Graph} {past : List Moment} {r : EStateM.Result Error Graph Unit}
    (hp : e.Performs [.visit i] g past r) : P i g past r := by
  -- The agenda does not get shorter from one visit to the next, but the history that is left does.
  induction hn : past.length using Nat.strongRecOn generalizing i g past with
  | _ n ih =>
    cases hp with
    | fail hf => cases (run_visit e i g).symm.trans hf
    | step hs rest =>
      cases (run_visit e i g).symm.trans hs
      split at rest
      · rw [List.append_nil] at rest
        obtain ⟨f, h, rfl, hv⟩ | ⟨before, h, later, rfl, hv, hl⟩ := rest.split
        · exact fail i g _ f h ‹_› hv
        · refine next i g before h later r ‹_› hv hl (ih later.length ?_ hl rfl)
          simp only [List.length_cons, List.length_append] at hn
          omega
      · cases rest
        exact stop i g (by omega)

/-- The run from an index on does its tasks in the order of their places. -/
theorem Performs.sorted_from {e : Engine} {i : Nat} {g : Graph} {past : List Moment}
    {r : EStateM.Result Error Graph Unit} (hp : e.Performs [.visit i] g past r) :
    Sorted past ∧ ∀ x ∈ past, Place.mk i 0 0 0 0 ≤ x.task.place := by
  refine Performs.visit_induction
    (P := fun i _ past _ => Sorted past ∧ ∀ x ∈ past, Place.mk i 0 0 0 0 ≤ x.task.place) ?_ ?_ ?_ hp
  · intro i g _
    refine ⟨List.pairwise_singleton _ _, ?_⟩
    intro x hx
    rw [List.mem_singleton.mp hx]
    exact le_refl _
  · intro i g past f h _ hv
    obtain ⟨hsorted, hbound⟩ := hv.sorted_visit
    refine ⟨.cons (fun x hx => (hbound x hx).2) hsorted, ?_⟩
    exact List.forall_mem_cons.mpr ⟨le_refl _, fun x hx => (hbound x hx).2.le⟩
  · intro i g past h later r _ hv _ ⟨hlater, hbehind⟩
    obtain ⟨hsorted, hbound⟩ := hv.sorted_visit
    have hvisit : Sorted (⟨.visit i, g, g⟩ :: past) :=
      .cons (fun x hx => (hbound x hx).2) hsorted
    have hcross : ∀ x ∈ ⟨.visit i, g, g⟩ :: past, ∀ y ∈ later, x.task.place < y.task.place :=
      fun x hx y hy => lt_of_lt_of_le (hv.place_lt_of_visit x hx) (hbehind y hy)
    have hall := List.pairwise_append.mpr ⟨hvisit, hlater, hcross⟩
    refine ⟨hall, List.forall_mem_cons.mpr ⟨le_refl _, ?_⟩⟩
    exact fun x hx => ((List.pairwise_cons.mp hall).1 x hx).le

/-- A run does its tasks in the order of their places. -/
theorem History.sorted {e : Engine} {g : Graph} {past : List Moment} (hp : e.History g past) :
    Sorted past :=
  (Performs.sorted_from hp).1

end Engine

end ManifestRules
