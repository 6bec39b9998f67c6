import ManifestRules.Proofs.History.Order
/-!
# How the graph grows

The graph of a run only grows: documents keep their index and their captured kind, and
none loses a key. A visit changes its own document and no other one, so those before it
have their final bodies and those behind it the bodies they came with. All this
holds for runs that fail as well (`exists_history_growsOnly`).
-/

namespace ManifestRules.Engine

/-- How a run with a history leads from one graph to another. -/
structure GrowsOnly (e : Engine) (g : Graph) (past : List Moment) (f : Graph) : Prop where
  /-- The documents of the first graph keep their indices and kinds. -/
  first : g.size ≤ f.size ∧
    ∀ j < g.size, (f.get? j).map Document.kind = (g.get? j).map Document.kind
  /-- Behind them stand the documents born in the run and no others. -/
  kinds : f.toList.map Document.kind = (g.toList ++ e.births past).map Document.kind
  /-- The documents are visited in turn. -/
  visits : past.Pairwise fun x y => x.task.document ≤ y.task.document
  /-- A visit changes no document but its own. -/
  others : ∀ x ∈ past, ∀ j < x.before.size, j ≠ x.task.document →
    x.after.get? j = x.before.get? j
  /-- The documents before the visited one have their final bodies. -/
  passed : ∀ x ∈ past, ∀ j < x.task.document, f.get? j = x.before.get? j
  /-- The documents behind the last one visited are as in the first graph, or as they were born. -/
  coming : ∀ x, past.getLast? = some x → ∀ j, x.task.document < j →
    f.get? j = (g.toList ++ e.births past)[j]?
  /-- A document keeps every key it ever has. -/
  keys : ∀ x ∈ past, ∀ j d, x.before.get? j = some d →
    ∃ d', f.get? j = some d' ∧ Mapping.keys d.body <+: Mapping.keys d'.body

variable {e : Engine} {g h : Graph} {past : List Moment}

/-- Nothing is merged into a document that no moment belongs to. -/
theorem merges_eq_nil {j : Nat} (hne : ∀ x ∈ past, x.task.document ≠ j) : merges j past = [] := by
  refine List.filterMap_eq_nil_iff.mpr ?_
  intro x hx
  cases hm : x.task.mergedInto j with
  | none => rfl
  | some fragment => exact absurd (Task.document_of_mergedInto hm) (hne x hx)

/-- A document that no moment belongs to is at the end of a chain as it came. -/
theorem Chain.get?_eq_of_unvisited (hc : e.Chain g past h) {j : Nat}
    (hne : ∀ x ∈ past, x.task.document ≠ j) : h.get? j = (g.toList ++ e.births past)[j]? := by
  rw [hc.get?_eq, merges_eq_nil hne]
  simp [Document.mergeAll]

/-- The kinds at the end of a chain are those at its start and those born in it. -/
theorem Chain.map_kind (hc : e.Chain g past h) :
    h.toList.map Document.kind = (g.toList ++ e.births past).map Document.kind := by
  refine List.ext_getElem? ?_
  intro j
  rw [List.getElem?_map, List.getElem?_map, ← Graph.get?_eq, hc.get?_eq, Option.map_map]
  simp only [Function.comp_def, Document.mergeAll_kind]

/-- A chain does not make the graph smaller, by as many documents as are born it grows. -/
theorem Chain.size_eq (hc : e.Chain g past h) : h.size = g.size + (e.births past).length := by
  have hlength := congrArg List.length hc.map_kind
  simpa using hlength

/-- A visit makes the graph larger by what is born in it. -/
theorem Performs.size_of_visit {i : Nat} {g h : Graph} {past : List Moment} (hi : i < g.size)
    (hv : e.Performs (tests i 0 e.rules) g past (.ok () h)) :
    h.size = g.size + (e.births past).length := by
  have hc := hv.chain fun t ht => (within_of_mem_tests ht).fits hi
  exact hc.size_eq

/-- A document keeps its keys along a chain. -/
theorem Chain.keys_kept (hc : e.Chain g past h) {j : Nat} {d : Document}
    (hd : g.get? j = some d) :
    ∃ d', h.get? j = some d' ∧ Mapping.keys d.body <+: Mapping.keys d'.body := by
  have hj : (g.toList ++ e.births past)[j]? = some d := by
    rw [Graph.get?_eq] at hd
    rw [List.getElem?_append_left (List.getElem?_eq_some_iff.mp hd).1, hd]
  refine ⟨d.mergeAll (merges j past), ?_, d.keys_prefix_mergeAll _⟩
  rw [hc.get?_eq, hj, Option.map_some]

/-- A task leaves the documents of other visits alone. -/
theorem get?_effect_of_ne {t : Task} (ht : t.Fits g) {j : Nat} (hj : j < g.size)
    (hne : j ≠ t.document) : (e.effect t g).get? j = g.get? j := by
  have hnone : t.mergedInto j = none := by
    cases hm : t.mergedInto j with
    | none => rfl
    | some fragment => exact absurd (Task.document_of_mergedInto hm).symm hne
  have hget := get?_effect e ht [] j
  rw [← Graph.length_toList] at hj
  rw [hnone, List.append_nil, List.getElem?_append_left hj] at hget
  simpa [Graph.get?_eq, Document.mergeAll] using hget

/-- In a history that is sorted by place, documents are visited in turn. -/
theorem Sorted.visits (hs : Sorted past) :
    past.Pairwise fun x y => x.task.document ≤ y.task.document := by
  refine hs.imp ?_
  intro x y hxy
  rw [Place.lt_def, Task.place_document, Task.place_document] at hxy
  omega

/-- The last moment of a sorted history belongs to the last document visited. -/
theorem Sorted.document_le_getLast (hs : Sorted past) {x : Moment}
    (hx : past.getLast? = some x) : ∀ y ∈ past, y.task.document ≤ x.task.document := by
  obtain ⟨before, rfl⟩ := List.getLast?_eq_some_iff.mp hx
  intro y hy
  rcases List.mem_append.mp hy with hy | hy
  · exact (List.pairwise_append.mp hs.visits).2.2 y hy x (List.mem_singleton.mpr rfl)
  · rw [List.mem_singleton.mp hy]

/-- The moments from a given one on belong to its document or later ones. -/
theorem Sorted.document_le_of_mem {before later : List Moment} {x : Moment}
    (hs : Sorted (before ++ x :: later)) :
    ∀ y ∈ x :: later, x.task.document ≤ y.task.document := by
  intro y hy
  rcases List.mem_cons.mp hy with rfl | hy
  · exact Nat.le_refl _
  · exact (List.pairwise_cons.mp (List.pairwise_append.mp hs.visits).2.1).1 y hy

/-- A document that has been passed does not change any more. -/
theorem Chain.get?_eq_of_passed (hc : e.Chain g past h) (hs : Sorted past) {x : Moment}
    (hx : x ∈ past) {j : Nat} (hj : j < x.task.document) : h.get? j = x.before.get? j := by
  obtain ⟨before, later, rfl⟩ := List.append_of_mem hx
  obtain ⟨-, ht, -, hl⟩ := hc.moment
  have hbehind := hs.document_le_of_mem
  have hsize : j < x.before.toList.length := by
    have hle := ht.document_le
    rw [Graph.length_toList]
    omega
  rw [hl.get?_eq_of_unvisited fun y hy => by have hle := hbehind y hy; omega,
    List.getElem?_append_left hsize, Graph.get?_eq]

/-- Every run only lets the graph grow, however it ends. -/
theorem exists_history_growsOnly (e : Engine) (g : Graph) :
    ∃ past, e.History g past ∧ e.GrowsOnly g past (e.finalGraph g) := by
  obtain ⟨past, hp⟩ := e.exists_history g
  have hc := hp.chain
  have hs := hp.sorted
  have hsize := hc.size_eq
  refine ⟨past, hp, ⟨⟨by omega, ?_⟩, hc.map_kind, hs.visits, ?_, ?_, ?_, ?_⟩⟩
  · intro j hj
    have hleft : (g.toList ++ e.births past)[j]? = g.get? j := by
      rw [Graph.get?_eq, List.getElem?_append_left (by rwa [Graph.length_toList])]
    rw [hc.get?_eq, hleft, Option.map_map]
    simp only [Function.comp_def, Document.mergeAll_kind]
  · intro x hx j hj hne
    obtain ⟨before, later, rfl⟩ := List.append_of_mem hx
    obtain ⟨-, ht, hafter, -⟩ := hc.moment
    rw [hafter, get?_effect_of_ne ht hj hne]
  · intro x hx j hj
    exact hc.get?_eq_of_passed hs hx hj
  · intro x hx j hj
    have hlast := hs.document_le_getLast hx
    exact hc.get?_eq_of_unvisited fun y hy => by have hle := hlast y hy; omega
  · intro x hx j d hd
    obtain ⟨before, later, rfl⟩ := List.append_of_mem hx
    exact hc.moment.2.2.2.keys_kept hd

end ManifestRules.Engine
