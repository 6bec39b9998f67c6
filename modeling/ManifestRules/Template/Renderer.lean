import ManifestRules.Template.Render
import ManifestRules.Template.Source
/-!
# Rendering with variables and a graph

The data of a template is the object with the variables under `var`. If there
is a graph, queries are answered on it. A query that is no selector is reported
as such, whatever tag asked it and however the writing ended; every other failure
is one of the template.
-/

namespace ManifestRules.Template

/-- The data of a template. -/
def dataOf (vars : Mapping) : Json := .object [("var", Json.ofValue (.mapping vars))]

/-- What a template is evaluated with. -/
def envOf (strict : Bool) (vars : Mapping) (graph : Option Graph) : Env :=
  ⟨strict, dataOf vars, graph.map fun g => g.resolve⟩

/-- What is reported of a run: the query that was no selector, if there was one, and
else the text or the problem with the template of this name. -/
def outcomeOf (name : String) (run : Except String String × Progress) : Except Error String :=
  match run.2.refusal, run.1 with
  | some e, _ => .error e
  | none, .ok text => .ok text
  | none, .error problem => .error (.template problem (some name))

/-- Where no query was refused, the text that was written is reported. -/
theorem outcomeOf_ok {name : String} {s : Progress} (hs : s.refusal = none) (text : String) :
    outcomeOf name (.ok text, s) = .ok text := by
  rw [outcomeOf, hs]

/-- Where the writing failed, the query that was refused is reported, or the problem if there was no
such query. -/
theorem outcomeOf_error (name problem : String) (s : Progress) :
    outcomeOf name (.error problem, s) =
      .error (s.refusal.getD (.template problem (some name))) := by
  rw [outcomeOf]
  cases s.refusal <;> rfl

/-- A failure to read a template. -/
def parseNamed (name text : String) : Except Error (List Element) :=
  match parse text with
  | .ok t => .ok t
  | .error problem => .error (.template problem (some name))

/-- Render a template text. -/
def renderText (strict : Bool) (name text : String) (vars : Mapping) (graph : Option Graph) :
    Except Error String := do
  let t ← parseNamed name text
  outcomeOf name ((render (envOf strict vars graph) t).run.run .start)

/-- A text whose reading passes a test is read as a template that passes it. -/
theorem exists_parse_of_any {text : String} {test : List Element → Bool}
    (htest : (parse text).toOption.any test = true) : ∃ t, parse text = .ok t ∧ test t = true := by
  cases hparse : parse text with
  | error problem =>
    rw [hparse] at htest
    cases htest
  | ok t =>
    rw [hparse] at htest
    exact ⟨t, rfl, htest⟩

/-- Two graphs on which a template is evaluated alike are the same to its text. -/
theorem renderText_congr {text : String} {t : List Element} (hparse : parse text = .ok t)
    {strict : Bool} {vars : Mapping} {g h : Option Graph}
    (hrender : render (envOf strict vars g) t = render (envOf strict vars h) t) (name : String) :
    renderText strict name text vars g = renderText strict name text vars h := by
  simp only [renderText, parseNamed, hparse, bind, Except.bind, hrender]

/-- The queries that rendering a template text asks, in order. -/
def queriesOf (strict : Bool) (text : String) (vars : Mapping) (graph : Option Graph) :
    List String :=
  match parse text with
  | .ok t => ((render (envOf strict vars graph) t).run.run .start).2.queries
  | .error _ => []

/-- The renderer of templates, strict or not about missing variables. -/
def renderer (strict : Bool) : Renderer where
  render := renderText strict
  check name text := (parseNamed name text).map fun _ => ()

end ManifestRules.Template
