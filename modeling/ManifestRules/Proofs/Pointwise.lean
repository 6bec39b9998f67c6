import ManifestRules.Proofs.History.Success
/-!
# Rules without templates

Rules that only merge have no use for the graph. A run of such rules always succeeds, and it comes
to the same as a map over the documents: every body goes through the rules in order, and each rule
that matches it as it is by then merges its fragment (`apply_of_mergesOnly`). So it does not matter
which other documents there are, or in which order they stand.
-/

namespace ManifestRules

namespace Rule

/-- The rule has no templates. -/
def MergesOnly (r : Rule) : Prop := r.newResources = [] ∧ r.patch = none

/-- What a rule without templates makes of a body. -/
def settle (body : Mapping) (r : Rule) : Mapping :=
  if Mapping.contains body r.pattern then
    match r.inject with
    | some fragment => Mapping.merge body fragment
    | none => body
  else body

/-- It can be decided whether a rule has templates. -/
instance (r : Rule) : Decidable r.MergesOnly :=
  inferInstanceAs (Decidable (r.newResources = [] ∧ r.patch = none))

end Rule

/-- What rules without templates make of a document. -/
def Document.settle (rules : List Rule) (d : Document) : Document :=
  { d with body := rules.foldl Rule.settle d.body }

namespace Graph

/-- The documents of one graph and those of another behind them. -/
def append (g h : Graph) : Graph := .ofList (g.toList ++ h.toList)

/-- The documents at the given indices, in the order in which these are given. -/
def select (g : Graph) (indices : List Nat) : Graph := .ofList (indices.filterMap g.get?)

/-- Change the document at an index; nothing changes when there is none. -/
def alterAt (g : Graph) (i : Nat) (f : Document → Document) : Graph :=
  .ofList (g.toList.modify i f)

/-- Change the documents from an index on. -/
def alterFrom (g : Graph) (i : Nat) (f : Document → Document) : Graph :=
  .ofList (g.toList.take i ++ (g.toList.drop i).map f)

variable {g : Graph} {i : Nat} {f k : Document → Document}

/-- A change of one document keeps the number of documents. -/
@[simp] theorem size_alterAt (g : Graph) (i : Nat) (f : Document → Document) :
    (g.alterAt i f).size = g.size := by
  rw [← length_toList, ← length_toList, alterAt, toList_ofList, List.length_modify]

/-- Of two changes at one index the second has the result of the first. -/
theorem alterAt_alterAt (g : Graph) (i : Nat) (f k : Document → Document) :
    (g.alterAt i f).alterAt i k = g.alterAt i (k ∘ f) := by
  refine eq_of_toList (List.ext_getElem? fun j => ?_)
  simp only [alterAt, toList_ofList, List.getElem?_modify]
  by_cases hij : i = j <;> simp [hij, Function.comp_def]

/-- Changes that do the same to the document at an index change the graph alike. -/
theorem alterAt_congr (hf : ∀ d, g.get? i = some d → f d = k d) :
    g.alterAt i f = g.alterAt i k := by
  refine eq_of_toList (List.ext_getElem? fun j => ?_)
  simp only [alterAt, toList_ofList, List.getElem?_modify]
  by_cases hij : i = j
  · subst hij
    cases hd : g.toList[i]? with
    | none => rfl
    | some d =>
      have hsame := hf d (by rw [get?_eq, hd])
      simp [hsame]
  · simp [hij]

/-- A document that is changed to what it is leaves the graph as it is. -/
theorem alterAt_eq_self (hf : ∀ d, g.get? i = some d → f d = d) : g.alterAt i f = g := by
  rw [alterAt_congr (k := id) hf]
  refine eq_of_toList (List.ext_getElem? fun j => ?_)
  simp [alterAt]

/-- A merge is a change of one document. -/
theorem mergeAt_eq_alterAt (g : Graph) (i : Nat) (fragment : Mapping) :
    g.mergeAt i fragment = g.alterAt i (·.merge fragment) :=
  eq_of_toList (toList_mergeAt g i fragment)

/-- Behind the last document there is nothing to change. -/
theorem alterFrom_of_size_le (hi : g.size ≤ i) (f : Document → Document) :
    g.alterFrom i f = g := by
  rw [← length_toList] at hi
  refine eq_of_toList ?_
  rw [alterFrom, toList_ofList, List.take_of_length_le hi, List.drop_eq_nil_of_le hi, List.map_nil,
    List.append_nil]

/-- The documents from an index on are the one at the index and those behind it. -/
theorem alterFrom_succ (g : Graph) (i : Nat) (f : Document → Document) :
    (g.alterAt i f).alterFrom (i + 1) f = g.alterFrom i f := by
  refine eq_of_toList ?_
  simp only [alterFrom, alterAt, toList_ofList]
  induction g.toList generalizing i with
  | nil => simp
  | cons d ds ih =>
    cases i with
    | zero => simp
    | succ i => simpa using ih i

/-- The changed document of a graph with all of them changed. -/
theorem get?_map (g : Graph) (f : Document → Document) (i : Nat) :
    (Graph.ofList (g.toList.map f)).get? i = (g.get? i).map f := by
  rw [get?_eq, get?_eq, toList_ofList, List.getElem?_map]

end Graph

namespace Engine

variable {e : Engine}

/-- A rule without templates changes only the document it is applied to, whatever else there is. -/
theorem run_applyRule_of_mergesOnly {r : Rule} (hr : r.MergesOnly) (i : Nat) (g : Graph) :
    (e.applyRule i r).run g = .ok () (g.alterAt i (Document.settle [r])) := by
  have heffects : (e.applyEffects i r).run g = (r.inject.toList.forM (mergeInto i)).run g := by
    rw [applyEffects, hr.1, hr.2, EStateM.run_bind]
    cases (r.inject.toList.forM (mergeInto i)).run g <;> rfl
  by_cases hm : matchesAt g i r
  · have hrun : (e.applyRule i r).run g = (e.applyEffects i r).run g := by simp [applyRule, hm]
    have hmatch : ∀ d, g.get? i = some d → Mapping.contains d.body r.pattern = true := by
      intro d hd
      simpa [matchesAt, hd] using hm
    rw [hrun, heffects]
    cases hinject : r.inject with
    | none =>
      have hsame : g.alterAt i (Document.settle [r]) = g := by
        refine Graph.alterAt_eq_self ?_
        intro d hd
        simp [Document.settle, Rule.settle, hinject]
      rw [hsame]
      rfl
    | some fragment =>
      have hmerge : g.alterAt i (Document.settle [r]) = g.mergeAt i fragment := by
        rw [Graph.mergeAt_eq_alterAt]
        refine Graph.alterAt_congr ?_
        intro d hd
        simp [Document.settle, Rule.settle, hinject, hmatch d hd, Document.merge]
      rw [hmerge]
      rfl
  · have hrun : (e.applyRule i r).run g = .ok () g := by simp [applyRule, hm]
    have hsame : g.alterAt i (Document.settle [r]) = g := by
      refine Graph.alterAt_eq_self ?_
      intro d hd
      have hno : Mapping.contains d.body r.pattern = false := by simpa [matchesAt, hd] using hm
      simp [Document.settle, Rule.settle, hno]
    rw [hrun, hsame]

/-- Rules without templates, applied in order, change only the document they are applied to. -/
theorem run_forM_of_mergesOnly {rules : List Rule} (hrules : ∀ r ∈ rules, r.MergesOnly) (i : Nat)
    (g : Graph) :
    (rules.forM (e.applyRule i)).run g = .ok () (g.alterAt i (Document.settle rules)) := by
  induction rules generalizing g with
  | nil =>
    have hsame : g.alterAt i (Document.settle []) = g := Graph.alterAt_eq_self fun _ _ => rfl
    rw [hsame]
    rfl
  | cons r rules ih =>
    obtain ⟨hr, hrest⟩ := List.forall_mem_cons.mp hrules
    have hround : ((r :: rules).forM (e.applyRule i)).run g =
        (e.applyRule i r >>= fun _ => rules.forM (e.applyRule i)).run g := rfl
    rw [hround, EStateM.run_bind, run_applyRule_of_mergesOnly hr]
    dsimp only
    rw [ih hrest, Graph.alterAt_alterAt]
    rfl

/-- The loop over the documents changes those from its index on. -/
theorem run_visitFrom_of_mergesOnly (hrules : ∀ r ∈ e.rules, r.MergesOnly) (n i : Nat) (g : Graph)
    (hn : g.size ≤ n + i) :
    (e.visitFrom n i).run g = .ok () (g.alterFrom i (Document.settle e.rules)) := by
  induction n generalizing i g with
  | zero =>
    rw [Graph.alterFrom_of_size_le (by omega)]
    rfl
  | succ n ih =>
    rw [run_visitFrom_succ]
    by_cases hi : i < g.size
    · have hvisit : (e.visit i).run g = .ok () (g.alterAt i (Document.settle e.rules)) :=
        run_forM_of_mergesOnly hrules i g
      have hsize : (g.alterAt i (Document.settle e.rules)).size ≤ n + (i + 1) := by
        rw [Graph.size_alterAt]
        omega
      rw [if_pos hi, EStateM.run_bind, hvisit]
      dsimp only
      rw [ih (i + 1) _ hsize, Graph.alterFrom_succ]
    · rw [if_neg hi, Graph.alterFrom_of_size_le (by omega)]

/-- A run of rules without templates changes every document by itself. -/
theorem run_apply_of_mergesOnly (hrules : ∀ r ∈ e.rules, r.MergesOnly) (g : Graph) :
    e.apply.run g = .ok () (.ofList (g.toList.map (Document.settle e.rules))) := by
  have hbound : g.size ≤ e.visitBound g + 0 := Nat.le_max_left ..
  exact run_visitFrom_of_mergesOnly hrules (e.visitBound g) 0 g hbound

/-- Without templates a run is a map over the documents. It succeeds, every document keeps its place
and its kind, and its body goes through the rules in order, where each one that matches merges its
fragment. So two graphs one behind the other come to what they come to alone, and documents in
another order, or only some of them, come to the same documents in that order. -/
theorem apply_of_mergesOnly (e : Engine) (hrules : ∀ r ∈ e.rules, r.MergesOnly) :
    (∀ g, e.apply.run g = .ok () (.ofList (g.toList.map fun d =>
      { d with body := e.rules.foldl Rule.settle d.body }))) ∧
    (∀ g h, e.apply.run (g.append h) = .ok () ((e.finalGraph g).append (e.finalGraph h))) ∧
    ∀ g indices, e.apply.run (g.select indices) = .ok () ((e.finalGraph g).select indices) := by
  have hrun := fun g => run_apply_of_mergesOnly hrules g
  have hfinal : ∀ g, e.finalGraph g = .ofList (g.toList.map (Document.settle e.rules)) := by
    intro g
    rw [finalGraph, hrun]
    rfl
  refine ⟨hrun, ?_, ?_⟩
  · intro g h
    rw [hrun, hfinal, hfinal]
    simp only [Graph.append, Graph.toList_ofList, List.map_append]
  · intro g indices
    have hget : (e.finalGraph g).get? = fun i => (g.get? i).map (Document.settle e.rules) := by
      funext i
      rw [hfinal, Graph.get?_map]
    rw [hrun, Graph.select, Graph.select, hget, Graph.toList_ofList, List.map_filterMap]

/-- Two rules by which every job is queued, and what is queued gets a place. -/
def queue : Engine where
  rules :=
    [⟨[(.string "kind", .string "Job")], some [(.string "state", .string "queued")], [], none⟩,
     ⟨[(.string "state", .string "queued")], some [(.string "place", .string "last")], [], none⟩]
  vars := []
  templates := .ofList []
  renderer := Template.renderer true
  codec := Yaml.codec
  limit := 0

/-- A job. -/
def job : Document := ⟨"Job", [(.string "kind", .string "Job")]⟩

/-- The application and the job may stand in either order, and a limit of zero does not matter. -/
theorem queue_settles : (∀ r ∈ queue.rules, r.MergesOnly) ∧
    queue.apply.run ((Graph.ofList [job, ⟨"App", []⟩]).select [1, 0]) = .ok () (.ofList
      [⟨"App", []⟩, ⟨"Job", [(.string "kind", .string "Job"), (.string "state", .string "queued"),
        (.string "place", .string "last")]⟩]) := by
  have hrules : ∀ r ∈ queue.rules, r.MergesOnly := by decide
  have hmap := (apply_of_mergesOnly queue hrules).1
  refine ⟨hrules, ?_⟩
  rw [hmap]
  rfl

end Engine

end ManifestRules
