import ManifestRules.Command.Validate
import ManifestRules.Files.Tree
import ManifestRules.Pipeline
/-!
# Files at rest

As long as nobody changes them, files are two functions: what a location leads to, and what
text is there. A pipeline that reads such files gives a result and leaves them as they are
(`Gives`), and what it gives can be told from the two functions.
-/

namespace ManifestRules

variable {σ α β : Type} {fs : Files (StateM σ)} {s : σ}

namespace Files

/-- Looking at the files leaves them as they are. -/
structure AtRest (fs : Files (StateM σ)) (s : σ) : Prop where
  /-- It is looked what a location leads to. -/
  kind : ∀ location, ((fs.kind location).run s).2 = s
  /-- A file is read. -/
  read : ∀ location, ((fs.read location).run s).2 = s

/-- What a location leads to. -/
def kindAt (fs : Files (StateM σ)) (s : σ) (location : String) : Option FileKind :=
  ((fs.kind location).run s).1

/-- The text at a location. -/
def textAt (fs : Files (StateM σ)) (s : σ) (location : String) : Except FileFault String :=
  ((fs.read location).run s).1

/-- Looking where a location leads to says so. -/
theorem AtRest.run_kind (h : fs.AtRest s) (location : String) :
    (fs.kind location).run s = (fs.kindAt s location, s) :=
  Prod.ext rfl (h.kind location)

/-- Reading a file gives its text. -/
theorem AtRest.run_read (h : fs.AtRest s) (location : String) :
    (fs.read location).run s = (fs.textAt s location, s) :=
  Prod.ext rfl (h.read location)

end Files

/-- A tree of files is at rest. -/
theorem FileTree.files_atRest (t : FileTree) : files.AtRest t where
  kind _ := rfl
  read _ := rfl

/-- On this state a program gives the result and leaves the state as it is. -/
def Gives (s : σ) (x : ExceptT Error (StateM σ) α) (r : Except Error α) : Prop :=
  x.run.run s = (r, s)

namespace Gives

/-- A result is passed on. -/
theorem of_result (r : Except Error α) : Gives s (ExceptT.mk (pure r)) r := rfl

/-- What comes next goes on with the value. -/
theorem bind {x : ExceptT Error (StateM σ) α} {r : Except Error α}
    {f : α → ExceptT Error (StateM σ) β} {k : α → Except Error β} (hx : Gives s x r)
    (hf : ∀ a, r = .ok a → Gives s (f a) (k a)) : Gives s (x >>= f) (r >>= k) := by
  rw [Gives] at hx
  rw [Gives, ExceptT.run_bind, StateT.run_bind, hx]
  cases r with
  | ok a => exact hf a rfl
  | error e => rfl

/-- Something is looked up first. -/
theorem of_run {p : StateM σ α} {a : α} {f : α → ExceptT Error (StateM σ) β} {r : Except Error β}
    (hp : p.run s = (a, s)) (hf : Gives s (f a) r) :
    Gives s ((liftM p : ExceptT Error (StateM σ) α) >>= f) r := by
  have hlift : Gives s (liftM p : ExceptT Error (StateM σ) α) (.ok a) := by
    rw [Gives, ExceptT.run_liftM, StateT.run_map, hp]
    rfl
  exact hlift.bind (k := fun _ => r) fun b hb => Except.ok.inj hb ▸ hf

end Gives

/-- Where a program leaves the state as it is for every item, it does so for all of them. -/
theorem run_mapM {f : α → StateM σ β} {k : α → β} (hf : ∀ a, (f a).run s = (k a, s))
    (l : List α) : (l.mapM f).run s = (l.map k, s) := by
  induction l with
  | nil => rfl
  | cons a l ih =>
    rw [List.mapM_cons, StateT.run_bind, hf]
    change (l.mapM f >>= fun bs => pure (k a :: bs)).run s = _
    rw [StateT.run_bind, ih]
    rfl

/-- A file that cannot be read, as a failure of the program. -/
def FileFault.toError (f : FileFault) : Error := .io f.text

/-- A file is read, or the reason is given why not. -/
theorem Input.gives_readFile (h : fs.AtRest s) (location : String) :
    Gives s (readFile fs location) ((fs.textAt s location).mapError FileFault.toError) := by
  refine .of_run (h.run_read location) ?_
  cases fs.textAt s location <;> rfl

namespace Pipeline

/-- The text of the values: that of the file which is named, or of the one beside the rule file,
where the lack of a file counts as an empty text. -/
def valuesText (fs : Files (StateM σ)) (s : σ) (rules : String) (values : Option String) :
    Except FileFault String :=
  match values with
  | some location => fs.textAt s location
  | none =>
    let location := Location.join (rulesDirectory rules) defaultValues
    match fs.kindAt s location with
    | none => .ok ""
    | some _ => fs.textAt s location

/-- The values of the files. -/
def valuesAt (fs : Files (StateM σ)) (s : σ) (rules : String) (values : Option String) :
    Except Error Mapping :=
  (valuesText fs s rules values).mapError FileFault.toError >>= Values.parse

/-- The rule file among the files, rendered with variables. -/
def rulesAt (fs : Files (StateM σ)) (s : σ) (rules : String) (r : Renderer) (vars : Mapping) :
    Except Error RuleFile :=
  (fs.textAt s rules).mapError FileFault.toError >>= fun text =>
    RuleFile.renderAndParse r text vars

/-- What is read of the files before templates are. -/
def loadedAt (fs : Files (StateM σ)) (s : σ) (c : BuildConfig) : Except Error Loaded :=
  valuesAt fs s c.rules c.values >>= fun vars =>
    rulesAt fs s c.rules (Template.renderer c.strict) vars >>= fun file => pure ⟨vars, file⟩

/-- The templates of a directory, each read when it is asked for. -/
def directorySource (fs : Files (StateM σ)) (s : σ) (directory : String) : TemplateSource where
  load reference :=
    let location := Location.join directory reference
    (fs.textAt s location).mapError fun f => .templateNotFound location f.text

/-- A template is found if its file has a text. -/
theorem load_directorySource_eq_ok_iff {directory reference text : String} :
    (directorySource fs s directory).load reference = .ok text ↔
      fs.textAt s (Location.join directory reference) = .ok text := by
  simp only [directorySource]
  cases fs.textAt s (Location.join directory reference) with
  | ok found =>
    constructor
    · intro h
      cases h
      rfl
    · intro h
      cases h
      rfl
  | error f =>
    constructor
    · intro h
      cases h
    · intro h
      cases h

/-- The engine for what has been read of the files. -/
def engineAt (fs : Files (StateM σ)) (s : σ) (c : BuildConfig) (l : Loaded) : Engine where
  rules := l.file.rules
  vars := l.vars
  templates := sourceOf (rulesDirectory c.rules) ((references l.file.rules).map fun reference =>
    (reference, (directorySource fs s (rulesDirectory c.rules)).load reference))
  renderer := Template.renderer c.strict
  codec := Yaml.codec
  limit := c.limit

/-- Values are read. -/
theorem gives_loadValues (h : fs.AtRest s) (rules : String) (values : Option String) :
    Gives s (loadValues fs rules values) (valuesAt fs s rules values) := by
  cases values with
  | some location =>
    exact (Input.gives_readFile h location).bind fun text _ => .of_result _
  | none =>
    refine .of_run (h.run_kind _) ?_
    rw [valuesAt, valuesText]
    cases fs.kindAt s (Location.join (rulesDirectory rules) defaultValues) with
    | none => rfl
    | some _ => exact (Input.gives_readFile h _).bind fun text _ => .of_result _

/-- A rule file is read and rendered. -/
theorem gives_loadRules (h : fs.AtRest s) (rules : String) (r : Renderer) (vars : Mapping) :
    Gives s (loadRules fs rules r vars) (rulesAt fs s rules r vars) :=
  (Input.gives_readFile h rules).bind fun _ _ => .of_result _

/-- Values and rules are read. -/
theorem gives_load (h : fs.AtRest s) (c : BuildConfig) :
    Gives s (load fs c) (loadedAt fs s c) :=
  (gives_loadValues h c.rules c.values).bind fun vars _ =>
    (gives_loadRules h c.rules (Template.renderer c.strict) vars).bind fun _ _ => .of_result _

/-- A template is read. -/
theorem run_loadTemplate (h : fs.AtRest s) (directory reference : String) :
    (loadTemplate fs directory reference).run s =
      ((directorySource fs s directory).load reference, s) := by
  rw [loadTemplate, StateT.run_bind, h.run_read]
  dsimp only [directorySource]
  cases fs.textAt s (Location.join directory reference) <;> rfl

/-- Templates are read one by one. -/
theorem run_loadTemplates (h : fs.AtRest s) (directory : String) (references : List String) :
    (loadTemplates fs directory references).run s =
      (references.map fun reference =>
        (reference, (directorySource fs s directory).load reference), s) := by
  refine run_mapM (fun reference => ?_) references
  rw [StateT.run_bind, run_loadTemplate h]
  rfl

/-- The engine is made. -/
theorem run_engine (h : fs.AtRest s) (c : BuildConfig) (l : Loaded) :
    (engine fs c l).run s = (engineAt fs s c l, s) := by
  rw [engine, StateT.run_bind, run_loadTemplates h]
  rfl

/-- The source of templates that have been read gives them as the directory does. -/
theorem load_sourceOf {source : TemplateSource} {directory reference : String}
    {references : List String} (hreference : reference ∈ references) :
    (sourceOf directory (references.map fun r => (r, source.load r))).load reference =
      source.load reference := by
  have hfound : (references.map fun r => (r, source.load r)).find? (fun t => t.1 == reference) =
      some (reference, source.load reference) := by
    cases hfind : references.find? fun r => r == reference with
    | none => exact absurd (List.find?_eq_none.mp hfind reference hreference) (by simp)
    | some r =>
      have hr : r = reference := by simpa using List.find?_some hfind
      rw [List.find?_map, Function.comp_def, hfind, hr]
      rfl
  simp only [sourceOf, hfound]

/-- The graph of a stream is built. -/
theorem gives_build (h : fs.AtRest s) (c : BuildConfig) (input : String) :
    Gives s (build fs c input)
      (loadedAt fs s c >>= fun l => (engineAt fs s c l).build input) := by
  refine (gives_load h c).bind fun l _ => ?_
  rw [Gives, buildLoaded, ExceptT.run_mk, StateT.run_bind, run_engine h]
  rfl

/-- The graph of a stream is built and written. -/
theorem gives_execute (h : fs.AtRest s) (c : BuildConfig) (input : String) :
    Gives s (execute fs c input)
      ((loadedAt fs s c >>= fun l => (engineAt fs s c l).build input) >>=
        Stream.serializeDocuments Yaml.codec) :=
  (gives_build h c input).bind fun _ _ => .of_result _

end Pipeline

end ManifestRules
