import ManifestRules.Proofs.Growth
import ManifestRules.Proofs.Pointwise
/-!
# Answers in a growing graph

A query is answered by the first document that satisfies it, so what stands behind that document
has no say in the answer (`Selector.resolve_append`), and neither have documents of other kinds. A
task of a run appends a document or merges into one; if the latter is of another kind, an answer
that has been found stays (`Engine.found_effect`), and so it stays over any part of a run
in which this holds of every task (`Engine.answer_stable`).
-/

namespace ManifestRules

namespace Graph

/-- The documents of a kind in the first graph come before those in the second. -/
theorem ofKind_append (g h : Graph) (kind : String) :
    (g.append h).ofKind kind = g.ofKind kind ++ h.ofKind kind := by
  rw [ofKind, append, toList_ofList, List.filter_append]
  rfl

/-- To append a document is to append a graph of one document. -/
theorem push_eq_append (g : Graph) (d : Document) : g.push d = g.append (.ofList [d]) :=
  eq_of_toList (toList_push g d)

/-- A change at one place does not change a selection that has the item there neither before nor
after the change. -/
theorem filter_modify {α : Type} {select : α → Bool} {f : α → α} {l : List α} {i : Nat}
    (hi : ∀ a, l[i]? = some a → select a = false ∧ select (f a) = false) :
    (l.modify i f).filter select = l.filter select := by
  induction l generalizing i with
  | nil => rw [List.modify_nil]
  | cons a l ih =>
    cases i with
    | zero =>
      obtain ⟨hbefore, hafter⟩ := hi a rfl
      have hold : ¬ select a = true := by simp [hbefore]
      have hnew : ¬ select (f a) = true := by simp [hafter]
      rw [List.modify_zero_cons, List.filter_cons_of_neg hnew, List.filter_cons_of_neg hold]
    | succ i =>
      have hrest : (l.modify i f).filter select = l.filter select := ih fun b hb => hi b hb
      rw [List.modify_succ_cons, List.filter_cons, List.filter_cons, hrest]

/-- A merge into a document of another kind leaves the documents of a kind as they are. -/
theorem ofKind_mergeAt {g : Graph} {i : Nat} {kind : String}
    (hkind : ∀ d, g.get? i = some d → Text.lowerString d.kind ≠ Text.lowerString kind)
    (fragment : Mapping) : (g.mergeAt i fragment).ofKind kind = g.ofKind kind := by
  rw [ofKind, ofKind, toList_mergeAt]
  refine filter_modify ?_
  intro d hd
  have hother : (Text.lowerString d.kind == Text.lowerString kind) = false :=
    beq_false_of_ne (hkind d (by rw [get?_eq, hd]))
  exact ⟨hother, hother⟩

end Graph

namespace Selector

/-- A query is answered by the first graph if anything matches there, and else by the second. -/
theorem resolve_append (s : Selector) (g h : Graph) :
    s.resolve (g.append h) =
      match s.resolve g with
      | .found v => .found v
      | .noMatch => s.resolve h := by
  rw [resolve, Graph.ofKind_append, List.find?_append, resolve]
  cases (g.ofKind s.wantedKind).find? fun d => s.accepts d.body with
  | some d => rfl
  | none => rfl

/-- An answer that has been found stays when a document is appended. -/
theorem found_push {s : Selector} {g : Graph} {v : Value} (hv : s.resolve g = .found v)
    (d : Document) : s.resolve (g.push d) = .found v := by
  rw [Graph.push_eq_append, resolve_append, hv]

/-- A merge into a document of another kind does not change the answer. -/
theorem resolve_mergeAt {s : Selector} {g : Graph} {i : Nat}
    (hkind : ∀ d, g.get? i = some d → Text.lowerString d.kind ≠ Text.lowerString s.wantedKind)
    (fragment : Mapping) : s.resolve (g.mergeAt i fragment) = s.resolve g := by
  rw [resolve, Graph.ofKind_mergeAt hkind, resolve]

end Selector

/-- A task merges into no document of a kind, in whatever case it is written. -/
def Task.Spares (kind : String) (g : Graph) (t : Task) : Prop :=
  ∀ j fragment d, t.mergedInto j = some fragment → g.get? j = some d →
    Text.lowerString d.kind ≠ Text.lowerString kind

namespace Engine

variable {e : Engine}

/-- An answer that has been found stays over a task that spares the documents of its kind. -/
theorem found_effect {s : Selector} {g : Graph} {t : Task} {v : Value}
    (ht : t.Spares s.wantedKind g) (hv : s.resolve g = .found v) :
    s.resolve (e.effect t g) = .found v := by
  obtain ⟨i, fragment, hm, heffect⟩ | ⟨d, -, heffect⟩ | heffect := effect_cases e t g
  · rw [heffect, Selector.resolve_mergeAt fun d hd => ht i fragment d hm hd, hv]
  · rw [heffect]
    exact Selector.found_push hv d
  · rw [heffect, hv]

/-- An answer that has been found stays over moments that spare the documents of its kind. -/
theorem Chain.found {s : Selector} {g h : Graph} {past : List Moment} {v : Value}
    (hc : e.Chain g past h) (hspare : ∀ x ∈ past, x.task.Spares s.wantedKind x.before)
    (hv : s.resolve g = .found v) : s.resolve h = .found v :=
  hc.invariant (P := fun k => s.resolve k = .found v) (fun x hx => found_effect (hspare x hx)) hv

end Engine

/-- The answer to a query on a graph is, if one is found, the answer on any graph that begins with
it, and a query that is none fails in the same way everywhere. So between two moments of a run, as
long as nothing is merged into a document of the query's kind, an answer that has been found
stays, whatever is appended. -/
theorem Engine.answer_stable :
    (∀ (g h : Graph) (query : String), (g.append h).resolve query =
      match g.resolve query with
      | .ok .noMatch => h.resolve query
      | answer => answer) ∧
    (∀ (g h : Graph) (query : String) (f : Error),
      g.resolve query = .error f → h.resolve query = .error f) ∧
    ∀ (e : Engine) (g : Graph), ∃ past, e.History g past ∧
      ∀ earlier between later, past = earlier ++ (between ++ later) →
        ∀ query s v, Selector.parse query = .ok s →
          (reached g earlier).resolve query = .ok (.found v) →
          (∀ x ∈ between, x.task.Spares s.wantedKind x.before) →
          (reached g (earlier ++ between)).resolve query = .ok (.found v) := by
  refine ⟨?_, ?_, ?_⟩
  · intro g h query
    unfold Graph.resolve
    cases Selector.parse query with
    | error f => rfl
    | ok s =>
      simp only [Except.map, Selector.resolve_append]
      cases s.resolve g <;> rfl
  · intro g h query f hf
    unfold Graph.resolve at hf ⊢
    cases hs : Selector.parse query with
    | error k =>
      rw [hs] at hf
      exact hf
    | ok s =>
      rw [hs] at hf
      cases hf
  · intro e g
    obtain ⟨past, hp⟩ := e.exists_history g
    refine ⟨past, hp, ?_⟩
    rintro earlier between later rfl query s v hs hv hspare
    have hfound : s.resolve (reached g earlier) = .found v := by
      simpa [Graph.resolve, hs, Except.map] using hv
    -- The part of the run between the two moments is a chain from the one graph to the other.
    have hc := hp.chain
    rw [← List.append_assoc] at hc
    have hboth : e.Chain g (earlier ++ between) (reached g (earlier ++ between)) :=
      hc.split_reached.1
    have hbetween := hboth.split_reached.2
    have hstays := hbetween.found hspare hfound
    rw [Graph.resolve, hs, Except.map, hstays]

end ManifestRules
