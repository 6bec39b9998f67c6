import ManifestRules.Command.Validate
import ManifestRules.Proofs.History.Cause
import ManifestRules.Proofs.InMemory
import ManifestRules.Proofs.Refusal
/-!
# What a validation is worth

A validation that succeeds has read the values and the rule file as a build does, and it has read
and checked every template that the rules refer to. A build renders no other templates, whatever
documents it meets. So a build on the same files cannot fail for a file that is missing or
unreadable, nor for the values or the rule file (`Command.ValidateRequest.build_of_valid`).
-/

namespace ManifestRules

variable {σ : Type} {fs : Files (StateM σ)} {s : σ}

/-- A failure that only the documents can cause, or the rendering of one of these templates. -/
def Error.OfDocuments (references : List String) : Error → Prop
  | .parse _ _ | .missingKind _ | .selectorSyntax _ _ | .documentLimit _ | .serialization _ => True
  | .template _ name => ∃ reference ∈ references, name = some reference
  | _ => False

namespace Stream

variable {references : List String} {f : Error}

/-- A text that cannot be decoded is a failure of the documents. -/
theorem ofDocuments_of_decode {text : String} (hf : Yaml.codec.decode text = .error f) :
    f.OfDocuments references := by
  simp only [Yaml.codec, Yaml.decodeDocument] at hf
  split at hf
  · cases hf
  · cases hf
    trivial

/-- A value that cannot be encoded is a failure of the documents. -/
theorem ofDocuments_of_encode {v : Value} (hf : Yaml.codec.encode v = .error f) :
    f.OfDocuments references := by
  simp only [Yaml.codec, Yaml.encodeDocument] at hf
  split at hf
  · cases hf
  · cases hf
    trivial

/-- A fragment that is no document is a failure of the documents. -/
theorem ofDocuments_of_parseDocument {text : String}
    (hf : parseDocument Yaml.codec text = .error f) : f.OfDocuments references :=
  of_parseDocument_error (fun _ _ => ofDocuments_of_decode) (fun _ _ => trivial) (fun _ => trivial)
    hf

/-- A patch that is no mapping is a failure of the documents. -/
theorem ofDocuments_of_parseMapping {text : String}
    (hf : parseMapping Yaml.codec text = .error f) : f.OfDocuments references :=
  of_parseMapping_error (fun _ _ => ofDocuments_of_decode) (fun _ _ => trivial) hf

/-- A graph that cannot be written is a failure of the documents. -/
theorem ofDocuments_of_serializeDocuments {g : Graph}
    (hf : serializeDocuments Yaml.codec g = .error f) : f.OfDocuments references := by
  rw [serializeDocuments] at hf
  cases hparts : g.toList.mapM (writeDocument Yaml.codec) with
  | ok parts => simp [hparts, bind, Except.bind, pure, Except.pure] at hf
  | error e =>
    rw [hparts] at hf
    cases hf
    obtain ⟨before, d, behind, -, -, hd⟩ := mapM_eq_error_iff.mp hparts
    rw [writeDocument] at hd
    cases hencode : Yaml.codec.encode (.mapping d.body) with
    | ok text => simp [hencode, bind, Except.bind, pure, Except.pure] at hd
    | error k =>
      rw [hencode] at hd
      cases hd
      exact ofDocuments_of_encode hencode

end Stream

/-- A template that cannot be rendered is a failure of its own. -/
theorem Template.ofDocuments_of_renderText {references : List String} {f : Error} {strict : Bool}
    {name text : String} {vars : Mapping} {g : Option Graph} (hname : name ∈ references)
    (hf : renderText strict name text vars g = .error f) : f.OfDocuments references := by
  obtain ⟨problem, rfl⟩ | ⟨query, message, rfl⟩ := renderText_error hf
  · exact ⟨name, hname, rfl⟩
  · trivial

/-- The template that a task renders, if it renders one. -/
def Task.reference? : Task → Option String
  | .create _ _ _ reference | .patch _ _ reference => some reference
  | _ => none

/-- Every template that a run renders is one that a rule refers to. -/
theorem Engine.History.reference_mem {e : Engine} {g : Graph} {past : List Moment}
    (hp : e.History g past) {x : Moment} (hx : x ∈ past) {reference : String}
    (href : x.task.reference? = some reference) : reference ∈ Pipeline.references e.rules := by
  obtain ⟨before, later, rfl⟩ := List.append_of_mem hx
  have hcaused := hp.caused
  cases htask : x.task with
  | create i m k found =>
    rw [htask] at href hcaused
    obtain ⟨r, ⟨hr, -⟩, hnew⟩ := hcaused
    cases href
    exact Pipeline.mem_references.mpr ⟨r, List.mem_of_getElem? hr,
      List.mem_append_left _ (List.mem_of_getElem? hnew)⟩
  | patch i m found =>
    rw [htask] at href hcaused
    obtain ⟨r, ⟨hr, -⟩, hpatch⟩ := hcaused
    cases href
    exact Pipeline.mem_references.mpr ⟨r, List.mem_of_getElem? hr,
      List.mem_append_right _ (Option.mem_toList.mpr hpatch)⟩
  | _ =>
    rw [htask] at href
    cases href

/-- A run on documents may fail in no other way than it did, and only for the documents. -/
def Leeway.documents (references : List String) : Leeway where
  allows f o := o = some f ∧ f.OfDocuments references
  free := fun h => nomatch h.1

namespace Pipeline

/-- The templates that rules refer to are among the given ones and can be read. -/
def Readable (fs : Files (StateM σ)) (s : σ) (directory : String) (rules : List Rule)
    (checked : List String) : Prop :=
  ∀ reference ∈ references rules, reference ∈ checked ∧
    ∃ text, (directorySource fs s directory).load reference = .ok text

/-- An engine whose templates can be read fails only for the documents. -/
theorem engineAt_mirrors_self {c : BuildConfig} {l : Loaded} {checked : List String}
    (hread : Readable fs s (rulesDirectory c.rules) l.file.rules checked) :
    (engineAt fs s c l).Mirrors (.documents checked) (engineAt fs s c l) where
  rules := rfl
  codec := rfl
  limit := rfl
  renderOn := by
    intro rule hrule reference hreference g
    have hmem : reference ∈ references l.file.rules :=
      mem_references.mpr ⟨rule, hrule, hreference⟩
    obtain ⟨hchecked, text, htext⟩ := hread reference hmem
    refine .refl fun f hf => ⟨rfl, ?_⟩
    have hload : (engineAt fs s c l).templates.load reference = .ok text :=
      (load_sourceOf hmem).trans htext
    rw [Engine.renderOn, hload] at hf
    exact Template.ofDocuments_of_renderText hchecked hf
  fragment := fun hf => ⟨rfl, Stream.ofDocuments_of_parseDocument hf⟩
  patch := fun hf => ⟨rfl, Stream.ofDocuments_of_parseMapping hf⟩
  tooLarge := ⟨rfl, trivial⟩

/-- A build whose values, rules and templates can be read fails only for the documents. -/
theorem ofDocuments_of_execute (hrest : fs.AtRest s) {c : BuildConfig} {l : Loaded}
    (hloaded : loadedAt fs s c = .ok l) {checked : List String}
    (hread : Readable fs s (rulesDirectory c.rules) l.file.rules checked) {input : String}
    {f : Error} (hf : ((execute fs c input).run.run s).1 = .error f) : f.OfDocuments checked := by
  have hpermits : (Leeway.documents checked).Permits
      ((engineAt fs s c l).build input >>= Stream.serializeDocuments Yaml.codec)
      ((engineAt fs s c l).build input >>= Stream.serializeDocuments Yaml.codec) :=
    ((engineAt_mirrors_self hread).build input).bind fun g _ =>
      .refl fun f hf => ⟨rfl, Stream.ofDocuments_of_serializeDocuments hf⟩
  rw [gives_execute hrest c input, hloaded] at hf
  change (engineAt fs s c l).build input >>= Stream.serializeDocuments Yaml.codec = .error f at hf
  rw [hf] at hpermits
  cases hpermits with
  | error h => exact h.2

end Pipeline

namespace Command

/-- Findings that come to nothing bad have no errors among them. -/
theorem Findings.hasErrors_of_outcome {f : Findings} {strict useColor : Bool} {before : String}
    (hf : (f.outcome strict useColor before).code = 0) : f.hasErrors = false := by
  cases herrors : f.hasErrors with
  | false => rfl
  | true => simp [outcome, verdict, herrors, Outcome.failed] at hf

namespace ValidateRequest

/-- The build that goes with a validation: on the same files and as strict, with any limit. -/
def config (r : ValidateRequest) (limit : Nat) : BuildConfig where
  rules := r.rules
  values := r.values
  strict := r.strict
  limit := limit

/-- The templates that are checked are those that the rules refer to. -/
theorem mem_sortedReferences {rules : List Rule} {reference : String} :
    reference ∈ sortedReferences rules ↔ reference ∈ Pipeline.references rules := by
  rw [sortedReferences, List.mem_mergeSort]

/-- Nothing is wrong with a template that can be read and is one. -/
theorem of_checkTemplate {r : Renderer} {reference : String} {found : Except Error String}
    (hnone : checkTemplate r reference found = none) :
    ∃ text, found = .ok text ∧ r.check reference text = .ok () := by
  rw [checkTemplate] at hnone
  split at hnone
  · rename_i hchecked
    cases found with
    | error e => cases hchecked
    | ok text => exact ⟨text, rfl, hchecked⟩
  · cases hnone

/-- What is found about rules among the files. -/
def findingsAt (fs : Files (StateM σ)) (s : σ) (r : Renderer) (location : String)
    (rules : List Rule) : Findings where
  ruleCount := rules.length
  idle := idleRules rules
  templates := (sortedReferences rules).map fun reference =>
    (reference, checkTemplate r reference
      ((Pipeline.directorySource fs s (Pipeline.rulesDirectory location)).load reference))

/-- Rules are looked over. -/
theorem run_inspect (h : fs.AtRest s) (r : Renderer) (location : String) (rules : List Rule) :
    (inspect fs r location rules).run s = (findingsAt fs s r location rules, s) := by
  rw [inspect, StateT.run_bind, Pipeline.run_loadTemplates h]
  change (Findings.mk _ _ _, s) = _
  rw [List.map_map]
  rfl

/-- A validation that succeeds has read the values and the rule file and has found nothing wrong
with any template. -/
theorem exists_of_valid (hrest : fs.AtRest s) {log : RuleFile → String} {useColor : Bool}
    {r : ValidateRequest} (hvalid : ((r.run fs log useColor).run s).1.code = 0) :
    ∃ vars file, Pipeline.valuesAt fs s r.rules r.values = .ok vars ∧
      Pipeline.rulesAt fs s r.rules (Template.renderer r.strict) vars = .ok file ∧
      (findingsAt fs s (Template.renderer r.strict) r.rules file.rules).hasErrors = false := by
  rw [run, StateT.run_bind, Pipeline.gives_loadValues hrest] at hvalid
  cases hvars : Pipeline.valuesAt fs s r.rules r.values with
  | error e =>
    rw [hvars] at hvalid
    cases hvalid
  | ok vars =>
    rw [hvars] at hvalid
    change ((r.runWith fs log useColor _ vars).run s).1.code = 0 at hvalid
    rw [runWith, StateT.run_bind, Pipeline.gives_loadRules hrest] at hvalid
    cases hfile : Pipeline.rulesAt fs s r.rules (Template.renderer r.strict) vars with
    | error e =>
      rw [hfile] at hvalid
      cases hvalid
    | ok file =>
      rw [hfile] at hvalid
      change (((inspect fs (Template.renderer r.strict) r.rules file.rules >>= fun f =>
        pure ((f.outcome r.strict useColor _).withLog (log file))) : StateM σ Outcome).run
          s).1.code = 0 at hvalid
      rw [StateT.run_bind, run_inspect hrest] at hvalid
      exact ⟨vars, file, rfl, hfile, Findings.hasErrors_of_outcome hvalid⟩

/-- A build with what a validation has checked finds all its templates. -/
theorem exists_text_of_valid {r : Renderer} {location : String} {rules : List Rule}
    (hfound : (findingsAt fs s r location rules).hasErrors = false) {reference : String}
    (hreference : reference ∈ sortedReferences rules) :
    ∃ text, (Pipeline.directorySource fs s (Pipeline.rulesDirectory location)).load reference =
      .ok text ∧ r.check reference text = .ok () := by
  rw [Findings.hasErrors, List.any_eq_false] at hfound
  have hnone := hfound _ (List.mem_map_of_mem hreference)
  exact of_checkTemplate (Option.not_isSome_iff_eq_none.mp hnone)

/-- What a validation is worth. If it succeeds, then a build on the same files, with the same
locations, the same strictness and any limit, reads the values and the rule file without failure.
Every template that a rule refers to has been read and checked, and in no run is any other template
rendered, whatever the documents are. So whatever the input is, the build fails, if at all, for
the documents: for one of them, for a query, for the limit, or for one of the checked templates
that cannot be rendered, but not for a file, the values or the rule file. -/
theorem build_of_valid (hrest : fs.AtRest s) {log : RuleFile → String} {useColor : Bool}
    {r : ValidateRequest} (hvalid : ((r.run fs log useColor).run s).1.code = 0) :
    ∃ l, ∀ limit,
      (Pipeline.load fs (r.config limit)).run.run s = (.ok l, s) ∧
      (∀ reference ∈ sortedReferences l.file.rules, ∃ text,
        fs.textAt s (Location.join (Pipeline.rulesDirectory r.rules) reference) = .ok text ∧
        (Template.renderer r.strict).check reference text = .ok ()) ∧
      (∃ e, (Pipeline.engine fs (r.config limit) l).run s = (e, s) ∧
        ∀ g past, e.History g past → ∀ x ∈ past, ∀ reference,
          x.task.reference? = some reference → reference ∈ sortedReferences l.file.rules) ∧
      ∀ input f,
        ((Pipeline.execute fs (r.config limit) input).run.run s).1 = .error f →
          f.OfDocuments (sortedReferences l.file.rules) := by
  obtain ⟨vars, file, hvars, hfile, hfound⟩ := exists_of_valid hrest hvalid
  refine ⟨⟨vars, file⟩, fun limit => ?_⟩
  have hloaded : Pipeline.loadedAt fs s (r.config limit) = .ok ⟨vars, file⟩ := by
    simp only [Pipeline.loadedAt, config, hvars, hfile, bind, Except.bind, pure, Except.pure]
  refine ⟨?_, ?_, ⟨_, Pipeline.run_engine hrest _ _, ?_⟩, ?_⟩
  · rw [Pipeline.gives_load hrest, hloaded]
  · intro reference hreference
    obtain ⟨text, htext, hcheck⟩ := exists_text_of_valid hfound hreference
    exact ⟨text, Pipeline.load_directorySource_eq_ok_iff.mp htext, hcheck⟩
  · intro g past hp x hx reference href
    exact mem_sortedReferences.mpr (hp.reference_mem hx href)
  · intro input f hf
    refine Pipeline.ofDocuments_of_execute hrest hloaded ?_ hf
    intro reference hreference
    have hchecked := mem_sortedReferences.mpr hreference
    obtain ⟨text, htext, -⟩ := exists_text_of_valid hfound hchecked
    exact ⟨hchecked, text, htext⟩

/-- The validation of the directory with the rules for applications. -/
def chart : ValidateRequest := ⟨"chart/rules.yaml", none, true⟩

/-- The directory with the rules for applications is valid, and so its builds fail for nothing but
the documents. -/
theorem build_chart_of_valid :
    ((chart.run FileTree.files (fun _ => "") false).run Pipeline.chart).1.code = 0 ∧
    ∃ checked, ∀ limit input f,
      ((Pipeline.execute FileTree.files (chart.config limit) input).run.run Pipeline.chart).1 =
        .error f → f.OfDocuments checked := by
  have hvalid : ((chart.run FileTree.files (fun _ => "") false).run Pipeline.chart).1.code = 0 := by
    decide +kernel
  obtain ⟨l, hbuilds⟩ := build_of_valid (FileTree.files_atRest Pipeline.chart) hvalid
  exact ⟨hvalid, _, fun limit input f hf => (hbuilds limit).2.2.2 input f hf⟩

end ValidateRequest

end Command

end ManifestRules
