import ManifestRules.Proofs.Resting
import ManifestRules.Proofs.Strictness
/-!
# Files and texts

A build from files at rest does what a build from their texts does. The values and the rule file
are known by their texts from the start, and the templates are looked up one by one while the
rules are applied; so the two sources of templates only have to agree on the references that the
rules make. A template that is not there fails in both, and only the words differ
(`Pipeline.execute_ofTexts`).
-/

namespace ManifestRules

variable {σ : Type} {fs : Files (StateM σ)} {s : σ}

/-- A template that is not in memory is reported by its reference. -/
theorem TemplateSource.eq_of_load_ofList {templates : List (String × String)} {reference : String}
    {e : Error} (he : (ofList templates).load reference = .error e) :
    e = .templateNotFound reference "not present in template store" := by
  simp only [ofList] at he
  split at he
  · cases he
  · cases he
    rfl

/-- A reference that a rule makes is one of the references of the rules. -/
theorem Pipeline.mem_references {rules : List Rule} {reference : String} :
    reference ∈ references rules ↔ ∃ r ∈ rules, reference ∈ r.references := by
  rw [references, List.mem_eraseDups, List.mem_flatMap]

/-- Two results agree, except that a template which is not in memory is one that cannot be read
from its file. -/
inductive Pipeline.Agree (fs : Files (StateM σ)) (s : σ) (directory : String) :
    Except Error String → Except Error String → Prop where
  /-- They are the same. -/
  | same (r : Except Error String) : Agree fs s directory r r
  /-- Both fail for the same template. -/
  | notFound {reference : String} {f : FileFault}
    (hf : fs.textAt s (Location.join directory reference) = .error f) :
    Agree fs s directory
      (.error (.templateNotFound (Location.join directory reference) f.text))
      (.error (.templateNotFound reference "not present in template store"))

/-- The templates in memory are those of the files, as far as these references go. -/
def TemplateSource.Holds (fs : Files (StateM σ)) (s : σ) (directory : String)
    (references : List String) (templates : List (String × String)) : Prop :=
  ∀ reference ∈ references, ((ofList templates).load reference).toOption =
    (fs.textAt s (Location.join directory reference)).toOption

/-- A run on templates in memory may fail in its own words where the files lack a template. -/
def Leeway.wording (fs : Files (StateM σ)) (s : σ) (directory : String) : Leeway where
  allows f o :=
    o = some f ∨ ∃ reference fault, fs.textAt s (Location.join directory reference) = .error fault ∧
      f = .templateNotFound (Location.join directory reference) fault.text ∧
      o = some (.templateNotFound reference "not present in template store")
  free := by
    rintro f (h | ⟨_, _, _, _, h⟩)
    · cases h
    · cases h

/-- Results that differ by no more than words agree. -/
theorem Pipeline.Agree.of_permits {directory : String} {r r' : Except Error String}
    (h : (Leeway.wording fs s directory).Permits r r') : Agree fs s directory r r' := by
  cases h with
  | ok text => exact .same _
  | @error f r' hf =>
    cases r' with
    | ok text =>
      obtain h | ⟨_, _, _, _, h⟩ := hf
      · cases h
      · cases h
    | error k =>
      obtain h | ⟨reference, fault, hfault, rfl, h⟩ := hf
      · cases h
        exact .same _
      · cases h
        exact .notFound hfault

namespace Pipeline

/-- A template in memory is found as in the files, or it is found in neither. -/
theorem load_permits {directory reference : String} {references : List String}
    {templates : List (String × String)}
    (hholds : TemplateSource.Holds fs s directory references templates)
    (hreference : reference ∈ references) :
    (Leeway.wording fs s directory).Permits ((directorySource fs s directory).load reference)
      ((TemplateSource.ofList templates).load reference) := by
  have hsame := hholds reference hreference
  simp only [directorySource]
  cases hmemory : (TemplateSource.ofList templates).load reference with
  | ok text =>
    cases htext : fs.textAt s (Location.join directory reference) with
    | ok text' =>
      rw [hmemory, htext] at hsame
      cases hsame
      exact .ok text
    | error f =>
      rw [hmemory, htext] at hsame
      cases hsame
  | error e =>
    cases htext : fs.textAt s (Location.join directory reference) with
    | ok text' =>
      rw [hmemory, htext] at hsame
      cases hsame
    | error f =>
      rw [TemplateSource.eq_of_load_ofList hmemory]
      exact .error (.inr ⟨reference, f, htext, rfl, rfl⟩)

/-- With the templates of the files in memory, an engine retraces the one on the files. -/
theorem engineAt_mirrors {c : BuildConfig} {l : Loaded} {templates : List (String × String)}
    (hholds : TemplateSource.Holds fs s (rulesDirectory c.rules) (references l.file.rules)
      templates) :
    (engineAt fs s c l).Mirrors (.wording fs s (rulesDirectory c.rules))
      (engineFor (Template.renderer c.strict) c.limit l.vars (.ofList templates) l.file) where
  rules := rfl
  codec := rfl
  limit := rfl
  renderOn := by
    intro rule hrule reference hreference g
    have hmem : reference ∈ references l.file.rules :=
      mem_references.mpr ⟨rule, hrule, hreference⟩
    refine Leeway.Permits.bind ?_ fun text _ => .refl fun f _ => .inl rfl
    change Leeway.Permits _ ((sourceOf _ _).load reference) _
    rw [load_sourceOf hmem]
    exact load_permits hholds hmem
  fragment := fun _ => .inl rfl
  patch := fun _ => .inl rfl
  tooLarge := .inl rfl

/-- A build from files at rest is the build from their texts. The values have a text, which is
empty if there is no file of them beside the rule file, the rule file has one, and the templates
that the rules refer to are held in memory if they have one. Then the values are decoded, the rule
file is rendered and read, the rules are applied, and the graph is written, in this order; and the
files give the same text or the same failure, up to the words for a template that is not there. -/
theorem execute_ofTexts (hrest : fs.AtRest s) {c : BuildConfig} {values rules : String}
    {templates : List (String × String)}
    (hvalues : valuesText fs s c.rules c.values = .ok values)
    (hrules : fs.textAt s c.rules = .ok rules)
    (htemplates : ∀ vars file, Values.parse values = .ok vars →
      RuleFile.renderAndParse (Template.renderer c.strict) rules vars = .ok file →
      TemplateSource.Holds fs s (rulesDirectory c.rules) (references file.rules) templates)
    (input : String) :
    ∃ r, (execute fs c input).run.run s = (r, s) ∧
      Agree fs s (rulesDirectory c.rules) r (do
        let vars ← Values.parse values
        let built ← ofTexts (Template.renderer c.strict) c.limit vars rules (.ofList templates)
          input
        pure built.2) := by
  refine ⟨_, gives_execute hrest c input, .of_permits ?_⟩
  have hloaded : loadedAt fs s c = Values.parse values >>= fun vars =>
      RuleFile.renderAndParse (Template.renderer c.strict) rules vars >>= fun file =>
        pure ⟨vars, file⟩ := by
    rw [loadedAt, valuesAt, hvalues]
    simp only [rulesAt, hrules]
    rfl
  rw [hloaded]
  simp only [ofTexts, bind_assoc, pure_bind]
  refine Leeway.Permits.bind (.refl fun f _ => .inl rfl) fun vars hvars => ?_
  refine Leeway.Permits.bind (.refl fun f _ => .inl rfl) fun file hfile => ?_
  refine ((engineAt_mirrors (htemplates vars file hvars hfile)).build input).bind fun g _ => ?_
  rw [bind_pure]
  exact .refl fun f _ => .inl rfl

/-- A directory with the rules for applications, their template and a port. -/
def chart : FileTree :=
  let templates : List (RawText × FileTree) := services.map fun t => (t.1, .file (some t.2))
  .directory [("chart", .directory
    (("rules.yaml", .file (some publishing)) :: ("values.yaml", .file (some "port: 80")) ::
      templates))]

/-- The build with these files. -/
def charting : BuildConfig := ⟨"chart/rules.yaml", none, true, 10⟩

/-- The rules of the directory refer to the template of the service only. -/
theorem references_chart {vars : Mapping} {file : RuleFile}
    (hvars : Values.parse "port: 80" = .ok vars)
    (hfile : RuleFile.renderAndParse (Template.renderer true) publishing vars = .ok file) :
    references file.rules = ["service"] := by
  have hreferences : (Values.parse "port: 80" >>= fun vars =>
      RuleFile.renderAndParse (Template.renderer true) publishing vars >>= fun file =>
        pure (references file.rules)) = .ok ["service"] := by decide +kernel
  simp only [hvars, hfile, bind, Except.bind] at hreferences
  exact Except.ok.inj hreferences

/-- The build with the texts of these files. -/
def chartingTexts : Except Error String := do
  let vars ← Values.parse "port: 80"
  let built ← ofTexts (Template.renderer true) 10 vars publishing (.ofList services) "kind: App"
  pure built.2

/-- The application gets its service from the directory as it does from the texts. -/
theorem charting_ofTexts :
    chartingTexts = .ok "---\nkind: App\n---\nkind: Service\nport: 80\n" ∧
    ∃ r, (execute FileTree.files charting "kind: App").run.run chart = (r, chart) ∧
      Agree FileTree.files chart "chart" r chartingTexts := by
  refine ⟨by decide +kernel, ?_⟩
  have hvalues : valuesText FileTree.files chart "chart/rules.yaml" none = .ok "port: 80" := by
    decide +kernel
  have hrules : FileTree.files.textAt chart "chart/rules.yaml" = .ok publishing := by
    decide +kernel
  refine execute_ofTexts (FileTree.files_atRest chart) (c := charting) hvalues hrules ?_ "kind: App"
  intro vars file hvars hfile reference hreference
  rw [references_chart hvars hfile, List.mem_singleton] at hreference
  rw [hreference]
  decide +kernel

end Pipeline

end ManifestRules
