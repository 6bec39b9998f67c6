import ManifestRules.Pipeline
import ManifestRules.Proofs.Evaluation
import ManifestRules.Proofs.Retracing
/-!
# Strictness only adds failures

A strict template fails where a variable is missing, and does nothing else that another one would
not do. This goes from the rule file and every single rendering, each of which is seen by the
matches and templates behind it, to a build as a whole: if it succeeds on strict templates, then
it gives the same graph and the same text on templates that are not (`Pipeline.ofTexts_of_strict`).
-/

namespace ManifestRules

/-- Whatever the first renderer renders, the second one renders to the same text. -/
def Renderer.Within (r r' : Renderer) : Prop :=
  ∀ {name text vars graph s}, r.render name text vars graph = .ok s →
    r'.render name text vars graph = .ok s

/-- Strict templates are rendered to what they are rendered to without strictness. -/
theorem Template.renderer_within :
    (Template.renderer true).Within (Template.renderer false) :=
  fun hs => renderText_of_strict (fun _ => rfl) hs

/-- Where a run fails, the one that retraces it may do anything. -/
def Leeway.afterFailure : Leeway := ⟨fun _ _ => True, fun _ _ => trivial⟩

/-- Nothing but the successes has to be the same. -/
theorem Leeway.permits_afterFailure_iff {α : Type} {r r' : Except Error α} :
    afterFailure.Permits r r' ↔ ∀ a, r = .ok a → r' = .ok a := by
  constructor
  · rintro (a | hf) b hb
    · exact hb
    · cases hb
  · intro h
    cases r with
    | ok a =>
      rw [h a rfl]
      exact .ok a
    | error f => exact .error trivial

namespace Pipeline

/-- The engine for a rule file that has been rendered. -/
def engineFor (r : Renderer) (limit : Nat) (vars : Mapping) (templates : TemplateSource)
    (file : RuleFile) : Engine :=
  ⟨file.rules, vars, templates, r, Yaml.codec, limit⟩

/-- A build from texts, without any files: the rule file is rendered and read, the rules are
applied to the input, and the graph is written. -/
def ofTexts (r : Renderer) (limit : Nat) (vars : Mapping) (rules : String)
    (templates : TemplateSource) (input : String) : Except Error (Graph × String) := do
  let file ← RuleFile.renderAndParse r rules vars
  let g ← (engineFor r limit vars templates file).build input
  let text ← Stream.serializeDocuments Yaml.codec g
  pure (g, text)

variable {r r' : Renderer} {limit : Nat} {vars : Mapping} {rules : String}
  {templates : TemplateSource} {input : String}

/-- With a renderer that goes further, an engine retraces all that succeeds. -/
theorem engineFor_mirrors (hr : r.Within r') (file : RuleFile) :
    (engineFor r limit vars templates file).Mirrors .afterFailure
      (engineFor r' limit vars templates file) where
  rules := rfl
  codec := rfl
  limit := rfl
  renderOn := by
    intro rule _ reference _ g
    refine Leeway.Permits.bind (.refl fun f _ => trivial) fun text _ => ?_
    exact Leeway.permits_afterFailure_iff.mpr fun s hs => hr hs
  fragment := fun _ => trivial
  patch := fun _ => trivial
  tooLarge := trivial

/-- With a renderer that goes further, a build that succeeds gives the same. -/
theorem ofTexts_of_within (hr : r.Within r') {built : Graph × String}
    (hbuilt : ofTexts r limit vars rules templates input = .ok built) :
    ofTexts r' limit vars rules templates input = .ok built := by
  have hfile : Leeway.afterFailure.Permits (RuleFile.renderAndParse r rules vars)
      (RuleFile.renderAndParse r' rules vars) := by
    refine .bind ?_ fun text _ => .refl fun f _ => trivial
    exact Leeway.permits_afterFailure_iff.mpr fun s hs => hr hs
  have hpermits : Leeway.afterFailure.Permits (ofTexts r limit vars rules templates input)
      (ofTexts r' limit vars rules templates input) := by
    refine hfile.bind fun file _ => ?_
    refine ((engineFor_mirrors hr file).build input).bind fun g _ => ?_
    exact .refl fun f _ => trivial
  exact Leeway.permits_afterFailure_iff.mp hpermits built hbuilt

/-- A build that succeeds on strict templates succeeds without strictness, with the same graph and
the same text. -/
theorem ofTexts_of_strict {built : Graph × String}
    (hbuilt : ofTexts (Template.renderer true) limit vars rules templates input = .ok built) :
    ofTexts (Template.renderer false) limit vars rules templates input = .ok built :=
  ofTexts_of_within Template.renderer_within hbuilt

/-- A rule file that gives every application a service. -/
def publishing : String := "rules:\n- match: \x7bkind: App\x7d\n  newResources: [service]\n"

/-- The template of the service, which needs a port. -/
def services : List (String × String) :=
  [("service", "kind: Service\nport: \x7b\x7bvar.port\x7d\x7d")]

/-- The build of an application with these rules, on strict templates or not. -/
def publish (strict : Bool) (vars : Mapping) : Except Error (Graph × String) :=
  ofTexts (Template.renderer strict) 10 vars publishing (.ofList services) "kind: App"

/-- With a port among the variables, the application gets its service on strict templates, and so
it does without strictness. -/
theorem publish_of_strict : ∃ built,
    publish true [(.string "port", .number (.int 80))] = .ok built ∧
    publish false [(.string "port", .number (.int 80))] = .ok built ∧
    built.2 = "---\nkind: App\n---\nkind: Service\nport: 80\n" := by
  have htext : (publish true [(.string "port", .number (.int 80))]).map Prod.snd =
      .ok "---\nkind: App\n---\nkind: Service\nport: 80\n" := by decide +kernel
  cases hbuilt : publish true [(.string "port", .number (.int 80))] with
  | error f => simp [hbuilt, Except.map] at htext
  | ok built =>
    rw [hbuilt] at htext
    exact ⟨built, rfl, ofTexts_of_strict hbuilt, Except.ok.inj htext⟩

/-- Without one, strict templates fail, and others leave the port empty. -/
example : (publish true []).isOk = false ∧ (publish false []).isOk = true := by decide +kernel

end Pipeline

end ManifestRules
