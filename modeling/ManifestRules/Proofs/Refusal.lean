import ManifestRules.Proofs.Evaluation
import Mathlib.Control.Monad.Basic
/-!
# Queries that are no selectors

When a query is no selector, its failure is kept beside the problem that ends the writing of the
template, and only the former is reported. Nothing in a template takes the problem back, so no
further query is asked, and the failure that is kept is that of the first such query. It is
reported whatever the query stands in, and nothing else is ever reported in its place or as one
(`Template.refusal_reported`).
-/

namespace ManifestRules.Template

/-- All queries are selectors. -/
def AllSelectors (queries : List String) : Prop :=
  ∀ query ∈ queries, ∃ s, Selector.parse query = .ok s

namespace Course

/-- Queries are selectors until the first one that is not, and that one is refused. -/
def selecting : Course where
  during i := AllSelectors i.queries ∧ i.refusal = none
  fails i :=
    match i.refusal with
    | some e => ∃ before query, i.queries = before ++ [query] ∧ AllSelectors before ∧
      Selector.parse query = .error e
    | none => AllSelectors i.queries
  quiet := And.right

/-- Evaluations on a graph fail for a query exactly if it is no selector. -/
theorem selecting_allows (strict : Bool) (vars : Mapping) (g : Option Graph) :
    selecting.Allows (envOf strict vars g) (envOf strict vars g) where
  data := rfl
  ask := rfl
  strict := id
  other := by
    rintro ⟨queries, refusal⟩ ⟨hqueries, rfl⟩
    exact hqueries
  answered := by
    rintro answer query r hask hr ⟨queries, refusal⟩ ⟨hqueries, rfl⟩
    obtain ⟨g, -, rfl⟩ := Option.map_eq_some_iff.mp hask
    rw [Graph.resolve] at hr
    cases hparse : Selector.parse query with
    | error e => simp [hparse, Except.map] at hr
    | ok s =>
      refine ⟨List.forall_mem_append.mpr ⟨hqueries, ?_⟩, rfl⟩
      exact List.forall_mem_singleton.mpr ⟨s, hparse⟩
  refused := by
    rintro answer query e hask he ⟨queries, refusal⟩ ⟨hqueries, rfl⟩
    obtain ⟨g, -, rfl⟩ := Option.map_eq_some_iff.mp hask
    rw [Graph.resolve] at he
    cases hparse : Selector.parse query with
    | ok s => simp [hparse, Except.map] at he
    | error f =>
      rw [hparse] at he
      cases he
      exact ⟨queries, query, rfl, hqueries, hparse⟩

end Course

/-- A text that is no selector is reported as it is. -/
theorem exists_of_parse_error {query : String} {e : Error} (he : Selector.parse query = .error e) :
    ∃ message, e = .selectorSyntax query message := by
  unfold Selector.parse Selector.parsePair Selector.parseTriple at he
  repeat' split at he
  all_goals cases he
  all_goals exact ⟨_, rfl⟩

/-- Of the queries that rendering a text asks, the last one is no selector, and it is reported; or
all are selectors, and what is reported is the text or a problem with the template. -/
theorem queriesOf_cases (strict : Bool) (name text : String) (vars : Mapping) (g : Option Graph) :
    (∃ before query message, queriesOf strict text vars g = before ++ [query] ∧
      AllSelectors before ∧ Selector.parse query = .error (.selectorSyntax query message) ∧
      renderText strict name text vars g = .error (.selectorSyntax query message)) ∨
    AllSelectors (queriesOf strict text vars g) ∧
      ((∃ written, renderText strict name text vars g = .ok written) ∨
        ∃ problem, renderText strict name text vars g = .error (.template problem (some name))) := by
  cases hparse : parse text with
  | error problem =>
    simp only [queriesOf, renderText, parseNamed, hparse, bind, Except.bind]
    exact .inr ⟨List.forall_mem_nil _, .inr ⟨problem, rfl⟩⟩
  | ok t =>
    have hstart : Course.selecting.during .start := ⟨List.forall_mem_nil _, rfl⟩
    have hcourse := (Course.selecting_allows strict vars g).render t .start hstart
    simp only [queriesOf, renderText, parseNamed, hparse, bind, Except.bind]
    generalize (render (envOf strict vars g) t).run.run .start = run at hcourse ⊢
    cases hcourse with
    | ok written hs => exact .inr ⟨hs.1, .inl ⟨written, outcomeOf_ok hs.2 written⟩⟩
    | @error problem s _ hfails =>
      rw [outcomeOf_error]
      cases hrefusal : s.refusal with
      | none =>
        simp only [Course.selecting, hrefusal] at hfails
        exact .inr ⟨hfails, .inr ⟨problem, rfl⟩⟩
      | some e =>
        simp only [Course.selecting, hrefusal] at hfails
        obtain ⟨before, query, hqueries, hbefore, hquery⟩ := hfails
        obtain ⟨message, rfl⟩ := exists_of_parse_error hquery
        exact .inl ⟨before, query, message, hqueries, hbefore, hquery, rfl⟩

/-- A failure to render a text is one of the template under the given name, or it is one of a
query in it. -/
theorem renderText_error {strict : Bool} {name text : String} {vars : Mapping} {g : Option Graph}
    {e : Error} (he : renderText strict name text vars g = .error e) :
    (∃ problem, e = .template problem (some name)) ∨
      ∃ query message, e = .selectorSyntax query message := by
  obtain ⟨before, query, message, -, -, -, hrun⟩ | ⟨-, ⟨written, hrun⟩ | ⟨problem, hrun⟩⟩ :=
    queriesOf_cases strict name text vars g
  · cases he.symm.trans hrun
    exact .inr ⟨query, message, rfl⟩
  · cases he.symm.trans hrun
  · cases he.symm.trans hrun
    exact .inl ⟨problem, rfl⟩

/-- If any query that rendering a text asks is no selector, then the first one that is none is
reported with its own message, whatever is written or goes wrong besides. And only a query that was
asked and is the first to be no selector is reported as such. -/
theorem refusal_reported (strict : Bool) (name text : String) (vars : Mapping) (g : Option Graph) :
    (∀ query ∈ queriesOf strict text vars g, ∀ e, Selector.parse query = .error e →
      ∃ before first behind message, queriesOf strict text vars g = before ++ first :: behind ∧
        AllSelectors before ∧ Selector.parse first = .error (.selectorSyntax first message) ∧
        renderText strict name text vars g = .error (.selectorSyntax first message)) ∧
    ∀ query message, renderText strict name text vars g = .error (.selectorSyntax query message) →
      ∃ before behind, queriesOf strict text vars g = before ++ query :: behind ∧
        AllSelectors before ∧ Selector.parse query = .error (.selectorSyntax query message) := by
  obtain ⟨before, first, firstMessage, hqueries, hbefore, hfirst, hrun⟩ | ⟨hall, hrun⟩ :=
    queriesOf_cases strict name text vars g
  · constructor
    · intro query hquery e he
      exact ⟨before, first, [], firstMessage, hqueries, hbefore, hfirst, hrun⟩
    · intro query message hreported
      cases hrun.symm.trans hreported
      exact ⟨before, [], hqueries, hbefore, hfirst⟩
  · constructor
    · intro query hquery e he
      obtain ⟨s, hs⟩ := hall query hquery
      cases he.symm.trans hs
    · intro query message hreported
      obtain ⟨written, hrun⟩ | ⟨problem, hrun⟩ := hrun
      · cases hrun.symm.trans hreported
      · cases hrun.symm.trans hreported

/-- A template that asks about everything in a list, and one thing more behind it. -/
def survey : String :=
  "\x7b\x7b#each var.queries as |query|\x7d\x7d\x7b\x7b#if query\x7d\x7d" ++
    "\x7b\x7bindent 2 (toYaml (resource query))\x7d\x7d\x7b\x7b/if\x7d\x7d\x7b\x7b/each\x7d\x7d" ++
    "\x7b\x7bresource \"late\"\x7d\x7d"

/-- The list: the second and the third query are no selectors. -/
def surveyVars : Mapping :=
  [(.string "queries", .sequence [.string "kind.App & name", .string "app", .string "name"])]

/-- The graph of an application. -/
def surveyed : Graph := .ofList [⟨"App", [(.string "name", .string "shop")]⟩]

/-- The second query is reported, from within two blocks and two calls, and no further query is
asked. -/
theorem survey_refused :
    queriesOf false survey surveyVars (some surveyed) = ["kind.App & name", "app"] ∧
    (∃ e, Selector.parse "app" = .error e) ∧
    (∃ before first behind message, ["kind.App & name", "app"] = before ++ first :: behind ∧
      AllSelectors before ∧ Selector.parse first = .error (.selectorSyntax first message) ∧
      renderText false "survey" survey surveyVars (some surveyed) =
        .error (.selectorSyntax first message)) ∧
    renderText false "survey" survey surveyVars (some surveyed) = .error (.selectorSyntax "app"
      "expected 'LEFT & RIGHT' or 'LEFT & KEY.VALUE & RIGHT'") ∧
    ∃ before behind, ["kind.App & name", "app"] = before ++ "app" :: behind ∧
      AllSelectors before ∧ Selector.parse "app" = .error (.selectorSyntax "app"
        "expected 'LEFT & RIGHT' or 'LEFT & KEY.VALUE & RIGHT'") := by
  have hqueries : queriesOf false survey surveyVars (some surveyed) = ["kind.App & name", "app"] := by
    decide +kernel
  have hrun : renderText false "survey" survey surveyVars (some surveyed) =
      .error (.selectorSyntax "app" "expected 'LEFT & RIGHT' or 'LEFT & KEY.VALUE & RIGHT'") := by
    decide +kernel
  have happ : Selector.parse "app" = .error (.selectorSyntax "app"
      "expected 'LEFT & RIGHT' or 'LEFT & KEY.VALUE & RIGHT'") := rfl
  obtain ⟨hfirst, hreported⟩ := refusal_reported false "survey" survey surveyVars (some surveyed)
  rw [hqueries] at hfirst hreported
  exact ⟨hqueries, ⟨_, happ⟩, hfirst "app" (by simp) _ happ, hrun, hreported _ _ hrun⟩

end ManifestRules.Template
