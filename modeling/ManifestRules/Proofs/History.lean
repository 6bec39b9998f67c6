import ManifestRules.Engine
import Mathlib.Data.List.Basic
/-!
# The history of a run

A run is work on an agenda. The first task of the agenda is performed on the
graph as it is; it may change the graph, and its own tasks come before those
that follow. `Performs` records every task together with the graph before and
after it, also for a run that fails. Every run of the engine has a history that
ends as the run does (`exists_history`), and it has only one (`Performs.unique`).
-/

namespace ManifestRules

/-- One thing that a run does. A task names the document it is done for, the place of
the rule among the rules, the place of a template among those of the rule, and the
place of a fragment in the text that the template has made. -/
inductive Task where
  /-- Look whether there is a document at the index, and visit it if so. -/
  | visit (i : Nat)
  /-- Test a rule. -/
  | test (i m : Nat) (r : Rule)
  /-- Merge the fragment of a rule. -/
  | inject (i m : Nat) (fragment : Mapping)
  /-- Render a template of new documents. -/
  | create (i m k : Nat) (reference : String)
  /-- Append the document of a fragment that a template has made. -/
  | append (i m k l : Nat) (fragment : String)
  /-- Render the template of a patch. -/
  | patch (i m : Nat) (reference : String)
  /-- Merge a patch. -/
  | amend (i m : Nat) (fragment : Mapping)

/-- A task as it was performed. -/
structure Moment where
  /-- The task. -/
  task : Task
  /-- The graph it was performed on. -/
  before : Graph
  /-- The graph it left. -/
  after : Graph

/-- The graph that a step leaves, whether it fails or not. -/
def graphOf {α : Type} : EStateM.Result Error Graph α → Graph
  | .ok _ g => g
  | .error _ g => g

namespace Engine

/-- The tests of the rules on the document at an index, the first having place `m`. -/
def tests (i m : Nat) (rules : List Rule) : List Task :=
  (rules.zipIdx m).map fun p => .test i p.2 p.1

/-- The tasks for the templates of new documents, the first having place `k`. -/
def creations (i m k : Nat) (references : List String) : List Task :=
  (references.zipIdx k).map fun p => .create i m p.2 p.1

/-- The tasks for the fragments of a text, the first having place `l`. -/
def additions (i m k l : Nat) (fragments : List String) : List Task :=
  (fragments.zipIdx l).map fun p => .append i m k p.2 p.1

/-- The effects of a rule in order. -/
def effects (i m : Nat) (r : Rule) : List Task :=
  r.inject.toList.map (.inject i m) ++ (creations i m 0 r.newResources ++
    r.patch.toList.map (.patch i m))

/-- A rule is tested in every visit. -/
theorem mem_tests {e : Engine} {i m : Nat} {r : Rule} (hr : e.rules[m]? = some r) :
    Task.test i m r ∈ tests i 0 e.rules :=
  List.mem_map.mpr ⟨(r, m), List.mem_zipIdx_iff_getElem?.mpr hr, rfl⟩

/-- The own fragment of a rule is among its effects. -/
theorem inject_mem_effects {i m : Nat} {r : Rule} {fragment : Mapping}
    (hr : r.inject = some fragment) : Task.inject i m fragment ∈ effects i m r :=
  List.mem_append_left _ (List.mem_map.mpr ⟨fragment, Option.mem_toList.mpr hr, rfl⟩)

/-- A template of new documents is among the effects of its rule. -/
theorem create_mem_effects {i m k : Nat} {r : Rule} {reference : String}
    (hr : r.newResources[k]? = some reference) : Task.create i m k reference ∈ effects i m r :=
  List.mem_append_right _ (List.mem_append_left _
    (List.mem_map.mpr ⟨(reference, k), List.mem_zipIdx_iff_getElem?.mpr hr, rfl⟩))

/-- The patch of a rule is among its effects. -/
theorem patch_mem_effects {i m : Nat} {r : Rule} {reference : String}
    (hr : r.patch = some reference) : Task.patch i m reference ∈ effects i m r :=
  List.mem_append_right _ (List.mem_append_right _
    (List.mem_map.mpr ⟨reference, Option.mem_toList.mpr hr, rfl⟩))

/-- Perform a task and give the tasks that come next. -/
def perform (e : Engine) : Task → Step (List Task)
  | .visit i => do
    if i < (← get).size then pure (tests i 0 e.rules ++ [.visit (i + 1)]) else pure []
  | .test i m r => do
    if matchesAt (← get) i r then pure (effects i m r) else pure []
  | .inject i _ fragment => do
    mergeInto i fragment
    pure []
  | .create i m k reference => do
    let rendered ← e.render reference
    pure (additions i m k 0 (Stream.splitDocuments rendered))
  | .append _ _ _ _ fragment => do
    e.appendFragment fragment
    pure []
  | .patch i m reference => do
    let rendered ← e.render reference
    let fragment ← lift (Stream.parseMapping e.codec rendered)
    pure [.amend i m fragment]
  | .amend i _ fragment => do
    mergeInto i fragment
    pure []

/-- Work on an agenda: which tasks are performed on which graphs, and how it ends. -/
inductive Performs (e : Engine) :
    List Task → Graph → List Moment → EStateM.Result Error Graph Unit → Prop where
  /-- Nothing is left to do. -/
  | done (g : Graph) : Performs e [] g [] (.ok () g)
  /-- The first task fails, and with it the run. -/
  | fail {t : Task} {ts : List Task} {g h : Graph} {f : Error}
      (hp : (e.perform t).run g = .error f h) : Performs e (t :: ts) g [⟨t, g, h⟩] (.error f h)
  /-- The first task succeeds, and the run goes on with the tasks it gives. -/
  | step {t : Task} {ts new : List Task} {g h : Graph} {past : List Moment}
      {r : EStateM.Result Error Graph Unit} (hp : (e.perform t).run g = .ok new h)
      (rest : Performs e (new ++ ts) h past r) : Performs e (t :: ts) g (⟨t, g, h⟩ :: past) r

/-- The history of the run on a graph. -/
def History (e : Engine) (g : Graph) (past : List Moment) : Prop :=
  e.Performs [.visit 0] g past (e.apply.run g)

/-- The graph that the run leaves, whether it fails or not. -/
def finalGraph (e : Engine) (g : Graph) : Graph := graphOf (e.apply.run g)

/-- A result that is no failure is passed on. -/
@[simp] theorem run_lift_ok {α : Type} (x : α) (g : Graph) :
    (lift (.ok x) : Step α).run g = .ok x g := rfl

/-- A failure leaves the graph as it is. -/
@[simp] theorem run_lift_error {α : Type} (f : Error) (g : Graph) :
    (lift (.error f) : Step α).run g = .error f g := rfl

/-- Rendering only reads the graph. -/
@[simp] theorem run_render (e : Engine) (reference : String) (g : Graph) :
    (e.render reference).run g = (lift (e.renderOn reference g)).run g := rfl

/-- An existing document is tested against every rule, then its successor is looked for. -/
theorem run_visit (e : Engine) (i : Nat) (g : Graph) :
    (e.perform (.visit i)).run g =
      .ok (if i < g.size then tests i 0 e.rules ++ [.visit (i + 1)] else []) g := by
  by_cases hi : i < g.size <;> simp [perform, hi]

/-- A rule that matches leads to its effects. -/
theorem run_test (e : Engine) (i m : Nat) (r : Rule) (g : Graph) :
    (e.perform (.test i m r)).run g = .ok (if matchesAt g i r then effects i m r else []) g := by
  by_cases hm : matchesAt g i r <;> simp [perform, hm]

/-- The fragment of a rule is merged at once. -/
theorem run_inject (e : Engine) (i m : Nat) (fragment : Mapping) (g : Graph) :
    (e.perform (.inject i m fragment)).run g = .ok [] (g.mergeAt i fragment) := rfl

/-- A template of new documents is rendered on the graph as it is and leads to its fragments. -/
theorem run_create (e : Engine) (i m k : Nat) (reference : String) (g : Graph) :
    (e.perform (.create i m k reference)).run g =
      match e.renderOn reference g with
      | .ok text => .ok (additions i m k 0 (Stream.splitDocuments text)) g
      | .error f => .error f g := by
  rw [perform, EStateM.run_bind, run_render]
  cases e.renderOn reference g <;> rfl

/-- A document is appended before the limit is checked. -/
theorem run_appendFragment (e : Engine) (fragment : String) (g : Graph) :
    (e.appendFragment fragment).run g =
      match Stream.parseDocument e.codec fragment with
      | .ok d =>
        if e.limit < g.size + 1 then .error (.documentLimit e.limit) (g.push d)
        else .ok () (g.push d)
      | .error f => .error f g := by
  cases hd : Stream.parseDocument e.codec fragment with
  | error f => simp [appendFragment, hd]
  | ok d => by_cases hl : e.limit < g.size + 1 <;> simp [appendFragment, hd, checkLimit, hl]

/-- A fragment becomes a document, and nothing comes of it. -/
theorem run_append (e : Engine) (i m k l : Nat) (fragment : String) (g : Graph) :
    (e.perform (.append i m k l fragment)).run g =
      match (e.appendFragment fragment).run g with
      | .ok _ h => .ok [] h
      | .error f h => .error f h := by
  rw [perform, EStateM.run_bind]
  cases (e.appendFragment fragment).run g <;> rfl

/-- The template of a patch is rendered on the graph as it is and leads to the merge. -/
theorem run_patch (e : Engine) (i m : Nat) (reference : String) (g : Graph) :
    (e.perform (.patch i m reference)).run g =
      match e.renderOn reference g >>= Stream.parseMapping e.codec with
      | .ok fragment => .ok [.amend i m fragment] g
      | .error f => .error f g := by
  rw [perform, EStateM.run_bind, run_render]
  cases e.renderOn reference g with
  | error f => rfl
  | ok text =>
    simp only [run_lift_ok, bind, Except.bind]
    cases Stream.parseMapping e.codec text <;> rfl

/-- A patch is merged at once. -/
theorem run_amend (e : Engine) (i m : Nat) (fragment : Mapping) (g : Graph) :
    (e.perform (.amend i m fragment)).run g = .ok [] (g.mergeAt i fragment) := rfl

/-- A template that is rendered without failure leads to the fragments of its text. -/
theorem of_run_create {e : Engine} {i m k : Nat} {reference : String} {new : List Task}
    {g h : Graph} (hp : (e.perform (.create i m k reference)).run g = .ok new h) :
    ∃ text, e.renderOn reference g = .ok text ∧
      new = additions i m k 0 (Stream.splitDocuments text) ∧ h = g := by
  rw [run_create] at hp
  cases hr : e.renderOn reference g with
  | error f => simp [hr] at hp
  | ok text =>
    rw [hr] at hp
    cases hp
    exact ⟨text, rfl, rfl, rfl⟩

/-- A fragment that is appended without failure is a document, and the limit allows for it. -/
theorem of_run_append {e : Engine} {i m k l : Nat} {fragment : String} {new : List Task}
    {g h : Graph} (hp : (e.perform (.append i m k l fragment)).run g = .ok new h) :
    ∃ d, Stream.parseDocument e.codec fragment = .ok d ∧ new = [] ∧ h = g.push d ∧
      h.size ≤ e.limit := by
  rw [run_append, run_appendFragment] at hp
  cases hd : Stream.parseDocument e.codec fragment with
  | error f => simp [hd] at hp
  | ok d =>
    by_cases hl : e.limit < g.size + 1
    · simp [hd, hl] at hp
    · simp only [hd, hl, if_false] at hp
      cases hp
      refine ⟨d, rfl, rfl, rfl, ?_⟩
      rw [Graph.size_push]
      omega

/-- A patch that is rendered without failure is a mapping, and it is merged next. -/
theorem of_run_patch {e : Engine} {i m : Nat} {reference : String} {new : List Task}
    {g h : Graph} (hp : (e.perform (.patch i m reference)).run g = .ok new h) :
    ∃ text fragment, e.renderOn reference g = .ok text ∧
      Stream.parseMapping e.codec text = .ok fragment ∧ new = [.amend i m fragment] ∧ h = g := by
  rw [run_patch] at hp
  cases hr : e.renderOn reference g with
  | error f => simp [hr, bind, Except.bind] at hp
  | ok text =>
    simp only [hr, bind, Except.bind] at hp
    cases hm : Stream.parseMapping e.codec text with
    | error f => simp [hm] at hp
    | ok fragment =>
      rw [hm] at hp
      cases hp
      exact ⟨text, fragment, rfl, hm, rfl, rfl⟩

/-- A task that succeeds appends one document at most, and only within the limit. -/
theorem size_of_run {e : Engine} {t : Task} {new : List Task} {g h : Graph}
    (hp : (e.perform t).run g = .ok new h) :
    h.size = g.size ∨ (h.size = g.size + 1 ∧ h.size ≤ e.limit) := by
  cases t with
  | visit i =>
    cases (run_visit e i g).symm.trans hp
    exact .inl rfl
  | test i m r =>
    cases (run_test e i m r g).symm.trans hp
    exact .inl rfl
  | inject i m fragment =>
    cases (run_inject e i m fragment g).symm.trans hp
    exact .inl (Graph.size_mergeAt ..)
  | create i m k reference =>
    obtain ⟨text, -, -, rfl⟩ := of_run_create hp
    exact .inl rfl
  | append i m k l fragment =>
    obtain ⟨d, -, -, rfl, hl⟩ := of_run_append hp
    exact .inr ⟨Graph.size_push .., hl⟩
  | patch i m reference =>
    obtain ⟨text, fragment, -, -, -, rfl⟩ := of_run_patch hp
    exact .inl rfl
  | amend i m fragment =>
    cases (run_amend e i m fragment g).symm.trans hp
    exact .inl (Graph.size_mergeAt ..)

end Engine

end ManifestRules
