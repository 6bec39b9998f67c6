import ManifestRules.Template.Renderer
/-!
# Courses of an evaluation

The evaluation of a template asks queries and may fail, and nothing in a template takes a failure
back. So two kinds of facts go through all its constructs at once (`Course.Allows.render`). What
holds of what was asked at the start and is kept by every answer holds to the end, and behind a
failure holds what is expected then. And strictness only adds failures: where it adds none, the
evaluation is the one without it, step by step.
-/

namespace ManifestRules.Template

variable {α β : Type}

/-- What a tag stands for is written from where the text stands, and only where the text stands is
corrected behind it. -/
theorem Eval.run_wholly (indents : Progress → Bool) (write : Eval String) (s : Progress) :
    (Eval.wholly indents write).run.run s =
      match write.run.run { s with produced := false, indents := indents s } with
      | (.ok text, t) =>
        (.ok text,
          if t.produced then { t with indents := t.lineEnded }
          else { t with produced := s.produced, indents := s.indents })
      | (.error f, t) => (.error f, t) := by
  have hrun : (Eval.wholly indents write).run.run s =
      (write >>= fun text => do
        modify fun p =>
          if p.produced then { p with indents := p.lineEnded }
          else { p with produced := s.produced, indents := s.indents }
        pure text).run.run { s with produced := false, indents := indents s } := rfl
  rw [hrun, ExceptT.run_bind, StateT.run_bind]
  generalize write.run.run { s with produced := false, indents := indents s } = r
  obtain ⟨r, t⟩ := r
  cases r <;> rfl

/-- What a block writes, with its body and what stands behind `else` written as given. -/
def blockWith (env : Env) (f : Frame) (head : Head) (hasInverse : Bool)
    (body : Frame → Eval String) (other : Eval String) : Eval String := do
  let args ← evaluateAll env f.blocks head.args
  let options ← evaluateOptions env f.blocks head.options
  Eval.wholly (fun p => p.indents || head.ownLine && p.lineEnded) do
    match ← plan env f head args options hasInverse with
    | .body scopes => joinMap (fun blocks => body { f with blocks }) scopes
    | .inverse => other
    | .written s => pure s

/-- What is expected of an evaluation. -/
structure Course where
  /-- This holds of what was asked as long as nothing fails. -/
  during : Inquiry → Prop
  /-- This holds of what was asked when something has failed. -/
  fails : Inquiry → Prop
  /-- As long as nothing fails, no query has been refused. -/
  quiet : ∀ {i}, during i → i.refusal = none

namespace Course

/-- A result that is expected, and that another one repeats unless it is a failure. -/
inductive Repeats (C : Course) :
    Except String α × Progress → Except String α × Progress → Prop where
  /-- A success is repeated with all that is kept. -/
  | ok (a : α) {s : Progress} (hs : C.during s.toInquiry) : Repeats C (.ok a, s) (.ok a, s)
  /-- A failure need not be. -/
  | error {problem : String} {s : Progress} {r : Except String α × Progress}
    (hf : C.fails s.toInquiry) : Repeats C (.error problem, s) r

/-- An evaluation goes as expected, and another one does the same as long as it does not fail. -/
def Follows (C : Course) (p q : Eval α) : Prop :=
  ∀ s, C.during s.toInquiry → C.Repeats (p.run.run s) (q.run.run s)

/-- What it takes for evaluations to go as expected: they are evaluated with the same data and
answers, the second one is no stricter, and every single step is as expected. -/
structure Allows (C : Course) (env env' : Env) : Prop where
  /-- References lead into the same data. -/
  data : env'.data = env.data
  /-- Queries are answered in the same way. -/
  ask : env'.ask = env.ask
  /-- The second is strict only if the first is. -/
  strict : env'.strict = true → env.strict = true
  /-- A failure that is not one of a query can always occur. -/
  other : ∀ i, C.during i → C.fails i
  /-- A query that is answered is expected. -/
  answered : ∀ {answer query r}, env.ask = some answer → answer query = .ok r →
    ∀ i, C.during i → C.during ⟨i.queries ++ [query], i.refusal⟩
  /-- A query that is no selector is expected to fail. -/
  refused : ∀ {answer query e}, env.ask = some answer → answer query = .error e →
    ∀ i, C.during i → C.fails ⟨i.queries ++ [query], some e⟩

variable {C : Course}

namespace Follows

/-- A value is given. -/
theorem pure (a : α) : C.Follows (Pure.pure a) (Pure.pure a) :=
  fun _ hs => .ok a hs

/-- What comes next may use the value. -/
theorem bind {p q : Eval α} {f k : α → Eval β} (hp : C.Follows p q)
    (hf : ∀ a, C.Follows (f a) (k a)) : C.Follows (p >>= f) (q >>= k) := by
  intro s hs
  have hfirst := hp s hs
  simp only [ExceptT.run_bind, StateT.run_bind]
  generalize p.run.run s = r at hfirst
  generalize q.run.run s = r' at hfirst
  cases hfirst with
  | ok a hs => exact hf a _ hs
  | error hfail => exact .error hfail

/-- A failure may stand for anything. -/
theorem fail {env env' : Env} (h : C.Allows env env') (problem : String) (q : Eval α) :
    C.Follows (Eval.fail problem) q :=
  fun s hs => .error (h.other s.toInquiry hs)

/-- A result is passed on. -/
theorem ofExcept {env env' : Env} (h : C.Allows env env') (r : Except String α) :
    C.Follows (Eval.ofExcept r) (Eval.ofExcept r) := by
  cases r with
  | ok a => exact pure a
  | error problem => exact fail h problem _

/-- Writing a text asks nothing. -/
theorem emit (margin text : String) :
    C.Follows (Eval.emit margin text) (Eval.emit margin text) := by
  intro s hs
  rw [Eval.emit]
  split
  · by_cases hm : margin.isEmpty = true
    · simp only [hm, if_true]
      exact .ok _ hs
    · simp only [hm]
      exact .ok _ hs
  · exact .ok _ hs

/-- What stands around a tag asks nothing. -/
theorem wholly {indents : Progress → Bool} {p q : Eval String} (hp : C.Follows p q) :
    C.Follows (Eval.wholly indents p) (Eval.wholly indents q) := by
  intro s hs
  have hinner := hp { s with produced := false, indents := indents s } hs
  rw [Eval.run_wholly, Eval.run_wholly]
  generalize p.run.run { s with produced := false, indents := indents s } = r at hinner
  generalize q.run.run { s with produced := false, indents := indents s } = r' at hinner
  cases hinner with
  | error hfail => exact .error hfail
  | @ok a t ht =>
    refine .ok a ?_
    split <;> exact ht

/-- Texts are joined. -/
theorem joinMap {p q : α → Eval String} (hp : ∀ a, C.Follows (p a) (q a)) (l : List α) :
    C.Follows (joinMap p l) (Template.joinMap q l) := by
  induction l with
  | nil => exact pure _
  | cons a l ih => exact bind (hp a) fun _ => bind ih fun _ => pure _

end Follows

namespace Allows

variable {env env' : Env}

/-- Where the second evaluation fails for want of something, the first one fails as well. -/
theorem fail_if (h : C.Allows env env') {b b' : Bool} (hb : b' = true → b = true)
    {problem : String} {p q : Eval α} (hp : C.Follows p q) :
    C.Follows (if b then Eval.fail problem else p) (if b' then Eval.fail problem else q) := by
  cases b with
  | true => exact .fail h problem _
  | false =>
    have hb' : b' = false := by simpa using hb
    rw [hb']
    exact hp

/-- Where the first evaluation has all it needs, the second one has so as well. -/
theorem fail_unless (h : C.Allows env env') {b b' : Bool} (hb : b = true → b' = true)
    {problem : String} {p q : Eval α} (hp : C.Follows p q) :
    C.Follows (if b then p else Eval.fail problem) (if b' then q else Eval.fail problem) := by
  cases b with
  | true =>
    rw [hb rfl]
    exact hp
  | false => exact .fail h problem _

/-- The names mean the same helpers. -/
theorem helper? (h : C.Allows env env') (name : String) :
    env'.helper? name = env.helper? name := by
  rw [Env.helper?, Env.helper?, h.ask]

/-- A query is asked. -/
theorem query (h : C.Allows env env') (arg : Option Found) :
    C.Follows (env.query arg) (env'.query arg) := by
  rw [Env.query, Env.query, h.ask]
  split
  · rename_i query answer _ hask
    intro s hs
    cases hr : answer query with
    | ok r =>
      have hrun : (do Eval.note query; Pure.pure r.value : Eval Value).run.run s =
          (.ok r.value, { s with queries := s.queries ++ [query] }) := rfl
      rw [hrun]
      exact .ok r.value (h.answered hask hr s.toInquiry hs)
    | error e =>
      have hrun : (do Eval.note query; Eval.refuse e; Eval.fail e.message : Eval Value).run.run s =
          (.error e.message,
            { s with queries := s.queries ++ [query], refusal := s.refusal.or (some e) }) := rfl
      rw [hrun, C.quiet hs]
      exact .error (h.refused hask hr s.toInquiry hs)
  · exact .fail h _ _

/-- An argument is taken. -/
theorem arg (h : C.Allows env env') (args : List Found) (i : Nat) :
    C.Follows (env.arg args i) (env'.arg args i) := by
  rw [Env.arg, Env.arg]
  cases args[i]? with
  | none => exact .fail h _ _
  | some f =>
    refine h.fail_if ?_ (.pure _)
    intro hmissing
    rw [Bool.and_eq_true] at hmissing ⊢
    exact ⟨h.strict hmissing.1, hmissing.2⟩

/-- A text is taken. -/
theorem textArg (h : C.Allows env env') (args : List Found) (i : Nat) :
    C.Follows (env.textArg args i) (env'.textArg args i) := by
  refine .bind (h.arg args i) ?_
  intro v
  split
  · exact .pure _
  · exact .fail h _ _

/-- A number is taken. -/
theorem countArg (h : C.Allows env env') (args : List Found) (i : Nat) :
    C.Follows (env.countArg args i) (env'.countArg args i) := by
  refine .bind (h.arg args i) ?_
  intro v
  split
  · split
    · exact .pure _
    · exact .fail h _ _
  · exact .fail h _ _

/-- A test is made. -/
theorem succeeds (h : C.Allows env env') (args : List Found) (t : Test) :
    C.Follows (t.succeeds env args) (t.succeeds env' args) := by
  cases t with
  | eq | ne | compare =>
    exact .bind (h.arg args 0) fun x => .bind (h.arg args 1) fun y => .pure _
  | and | or => exact .pure _
  | not => exact .bind (h.arg args 0) fun x => .pure _

/-- A value is computed. -/
theorem apply (h : C.Allows env env') (args : List Found) (v : ValueHelper) :
    C.Follows (v.apply env args) (v.apply env' args) := by
  cases v with
  | lookup =>
    simp only [ValueHelper.apply]
    split
    · split
      · exact .pure _
      · exact h.fail_if h.strict (.pure _)
    · exact .fail h _ _
  | toYaml =>
    simp only [ValueHelper.apply]
    split
    · exact .pure _
    · exact .fail h _ _
  | len | toJson | quote => exact .bind (h.arg args 0) fun x => .pure _
  | indent | nindent =>
    exact .bind (h.countArg args 0) fun width => .bind (h.textArg args 1) fun text => .pure _
  | default => exact .bind (h.arg args 0) fun x => .bind (h.arg args 1) fun y => .pure _
  | upper | lower | b64enc => exact .bind (h.textArg args 0) fun text => .pure _
  | resource => exact .bind (h.query _) fun r => .pure _

/-- A value is computed and written. -/
theorem write (h : C.Allows env env') (margin : String) (args : List Found) (v : ValueHelper) :
    C.Follows (v.write env margin args) (v.write env' margin args) := by
  cases v with
  | resource => exact .bind (h.query _) fun r => .pure _
  | _ => exact .bind (h.apply args _) fun x => .emit _ _

/-- The argument of a block is taken. -/
theorem subject (h : C.Allows env env') (args : List Found) :
    C.Follows (subject args) (Template.subject args) := by
  cases args with
  | nil => exact .fail h _ _
  | cons f args => exact .pure f

/-- The level of a report is checked. -/
theorem checkLevel (h : C.Allows env env') (options : List (String × Found)) :
    C.Follows (checkLevel options) (Template.checkLevel options) := by
  rw [Template.checkLevel]
  split
  · split
    · exact .pure _
    · exact .fail h _ _
  · exact .pure _

/-- A condition is looked at. -/
theorem condition (h : C.Allows env env') (args : List Found) (options : List (String × Found)) :
    C.Follows (condition args options) (Template.condition args options) :=
  .bind (h.subject args) fun _ => .pure _

/-- The arguments of a block helper are checked. -/
theorem check (h : C.Allows env env') (args : List Found) (options : List (String × Found))
    (b : BlockHelper) : C.Follows (b.check env args options) (b.check env' args options) := by
  cases b with
  | ifHolds | unlessHolds | each => exact .bind (h.subject args) fun _ => .pure _
  | within =>
    refine .bind (h.subject args) fun f => h.fail_if ?_ (.pure _)
    intro hmissing
    rw [Bool.and_eq_true] at hmissing ⊢
    exact ⟨hmissing.1, h.strict hmissing.2⟩
  | raw => exact .pure _
  | log => exact h.checkLevel options

/-- A helper is called for a value. -/
theorem callValue (h : C.Allows env env') (name : String) (args : List Found)
    (options : List (String × Found)) :
    C.Follows (callValue env name args options) (Template.callValue env' name args options) := by
  rw [Template.callValue, Template.callValue, h.helper?]
  split
  · exact .bind (h.apply args _) fun _ => .pure _
  · exact .bind (h.succeeds args _) fun _ => .pure _
  · exact .bind (h.check args options _) fun _ => .pure _
  · exact .fail h _ _

mutual

/-- An expression is evaluated. -/
theorem evaluate (h : C.Allows env env') (blocks : List Block) (e : Expr) :
    C.Follows (evaluate env blocks e) (Template.evaluate env' blocks e) := by
  cases e with
  | reference r =>
    rw [Template.evaluate, Template.evaluate, h.data]
    exact .ofExcept h _
  | literal v =>
    rw [Template.evaluate, Template.evaluate]
    exact .pure _
  | call name args options =>
    rw [Template.evaluate, Template.evaluate]
    exact .bind (h.evaluateAll blocks args) fun args =>
      .bind (h.evaluateOptions blocks options) fun options => h.callValue name args options

/-- Arguments are evaluated. -/
theorem evaluateAll (h : C.Allows env env') (blocks : List Block) (es : List Expr) :
    C.Follows (evaluateAll env blocks es) (Template.evaluateAll env' blocks es) := by
  cases es with
  | nil =>
    rw [Template.evaluateAll, Template.evaluateAll]
    exact .pure _
  | cons e rest =>
    rw [Template.evaluateAll, Template.evaluateAll]
    exact .bind (h.evaluate blocks e) fun _ => .bind (h.evaluateAll blocks rest) fun _ => .pure _

/-- Named arguments are evaluated. -/
theorem evaluateOptions (h : C.Allows env env') (blocks : List Block)
    (es : List (String × Expr)) :
    C.Follows (evaluateOptions env blocks es) (Template.evaluateOptions env' blocks es) := by
  cases es with
  | nil =>
    rw [Template.evaluateOptions, Template.evaluateOptions]
    exact .pure _
  | cons o rest =>
    obtain ⟨name, e⟩ := o
    rw [Template.evaluateOptions, Template.evaluateOptions]
    exact .bind (h.evaluate blocks e) fun _ =>
      .bind (h.evaluateOptions blocks rest) fun _ => .pure _

end

/-- A value is written. -/
theorem writeFound (h : C.Allows env env') (margin : String) (f : Found) :
    C.Follows (writeFound env margin f) (Template.writeFound env' margin f) := by
  rw [Template.writeFound, Template.writeFound]
  split
  · exact h.fail_if h.strict (.pure _)
  · exact .emit _ _

/-- A helper is called where it stands in the text. -/
theorem writeCall (h : C.Allows env env') (margin name : String) (args : List Found)
    (options : List (String × Found)) :
    C.Follows (writeCall env margin name args options)
      (Template.writeCall env' margin name args options) := by
  rw [Template.writeCall, Template.writeCall, h.helper?]
  refine .wholly ?_
  split
  · exact h.write margin args _
  · exact .bind (h.succeeds args _) fun _ => .emit _ _
  · exact .bind (h.check args options _) fun _ => .pure _
  · exact .fail h _ _

/-- A name is evaluated. -/
theorem nameOf (h : C.Allows env env') (blocks : List Block) (e : Expr) :
    C.Follows (nameOf env blocks e) (Template.nameOf env' blocks e) := by
  cases e with
  | reference r => exact .pure _
  | literal v => exact .bind (h.evaluate blocks _) fun _ => .pure _
  | call name args options => exact .bind (h.evaluate blocks _) fun _ => .pure _

/-- A tag without arguments is written. -/
theorem writeValue (h : C.Allows env env') (margin : String) (blocks : List Block) (e : Expr) :
    C.Follows (writeValue env margin blocks e) (Template.writeValue env' margin blocks e) := by
  refine .bind (h.nameOf blocks e) fun name => ?_
  rw [h.helper?]
  split
  · exact h.writeCall margin name [] []
  · exact .bind (h.evaluate blocks e) fun f => h.writeFound margin f

/-- It is decided what a block does. -/
theorem plan (h : C.Allows env env') (f : Frame) (head : Head) (args : List Found)
    (options : List (String × Found)) (hasInverse : Bool) :
    C.Follows (plan env f head args options hasInverse)
      (Template.plan env' f head args options hasInverse) := by
  have hinverse : (hasInverse || !env.strict) = true → (hasInverse || !env'.strict) = true := by
    have hstrict := h.strict
    cases hasInverse <;> cases hs : env.strict <;> simp_all
  rw [Template.plan, Template.plan, h.helper?]
  split
  · exact .bind (h.condition args options) fun _ => .pure _
  · exact .bind (h.condition args options) fun _ => .pure _
  · refine .bind (h.subject args) fun whole => ?_
    split
    · exact .pure _
    · exact h.fail_unless hinverse (.pure _)
  · refine .bind (h.subject args) fun whole => ?_
    split
    · exact .pure _
    · exact h.fail_unless hinverse (.pure _)
  · exact .pure _
  · exact .bind (h.checkLevel options) fun _ => .pure _
  · exact .bind (h.succeeds args _) fun _ => .pure _
  · exact .bind (h.write f.margin args _) fun _ => .pure _
  · exact .fail h _ _

/-- A part declares what it declares. -/
theorem declare (h : C.Allows env env') (f : Frame) (e : Element) :
    C.Follows (declare env f e) (Template.declare env' f e) := by
  cases e with
  | directive head body =>
    refine .bind (h.evaluateAll f.blocks head.args) fun args =>
      .bind (h.evaluateOptions f.blocks head.options) fun _ => ?_
    split
    · exact .pure _
    · exact .fail h _ _
    · exact .fail h _ _
  | _ => exact .pure f

/-- Parts declare what they declare. -/
theorem declareAll (h : C.Allows env env') (es : List Element) (f : Frame) :
    C.Follows (declareAll env f es) (Template.declareAll env' f es) := by
  induction es generalizing f with
  | nil => exact .pure f
  | cons e rest ih =>
    simp only [Template.declareAll, List.foldlM_cons] at ih ⊢
    exact .bind (h.declare f e) ih

/-- A fragment is put in, if fragments are written alike. -/
theorem writeInclusion (h : C.Allows env env')
    {enter enter' : List Element → Frame → Eval String}
    (henter : ∀ es f, C.Follows (enter es f) (enter' es f)) (f : Frame) (i : Inclusion)
    (body : Option (List Element)) :
    C.Follows (writeInclusion env enter f i body)
      (Template.writeInclusion env' enter' f i body) := by
  refine .bind (h.nameOf f.blocks i.name) fun name =>
    .bind (h.evaluateAll f.blocks i.args) fun args =>
      .bind (h.evaluateOptions f.blocks i.options) fun options => .wholly ?_
  refine .bind (h.declareAll (body.getD []) f) fun inner => ?_
  rw [h.data]
  refine .bind (.ofExcept h _) fun blocks => ?_
  split
  · exact henter _ _
  · exact henter _ _
  · exact .fail h _ _

/-- A block is written, if its body and what stands behind `else` are written alike. -/
theorem blockWith (h : C.Allows env env') (f : Frame) (head : Head) (hasInverse : Bool)
    {body body' : Frame → Eval String} (hbody : ∀ f, C.Follows (body f) (body' f))
    {other other' : Eval String} (hother : C.Follows other other') :
    C.Follows (blockWith env f head hasInverse body other)
      (Template.blockWith env' f head hasInverse body' other') := by
  refine .bind (h.evaluateAll f.blocks head.args) fun args =>
    .bind (h.evaluateOptions f.blocks head.options) fun options => .wholly ?_
  refine .bind (h.plan f head args options hasInverse) fun p => ?_
  cases p with
  | body scopes => exact .joinMap (fun blocks => hbody { f with blocks }) scopes
  | inverse => exact hother
  | written s => exact .pure s

mutual

/-- A part is written, if fragments are written alike. -/
theorem writeElement (h : C.Allows env env')
    {enter enter' : List Element → Frame → Eval String}
    (henter : ∀ es f, C.Follows (enter es f) (enter' es f)) (e : Element) (f : Frame) :
    C.Follows (writeElement env enter e f) (Template.writeElement env' enter' e f) := by
  cases e with
  | text s => exact .emit _ _
  | value v => exact h.writeValue f.margin f.blocks v
  | call name args options =>
    exact .bind (h.evaluateAll f.blocks args) fun args =>
      .bind (h.evaluateOptions f.blocks options) fun options =>
        h.writeCall f.margin name args options
  | block head body inverse =>
    have hbody : ∀ f, C.Follows (Template.writeElements env enter body f)
        (Template.writeElements env' enter' body f) := h.writeElements henter body
    -- The program of a block is known only when it is known whether there is an `else`.
    cases inverse with
    | none => exact h.blockWith f head false hbody (.pure "")
    | some other => exact h.blockWith f head true hbody (h.writeElements henter other f)
  | inclusion i body => exact h.writeInclusion henter f i body
  | directive head body => exact .pure _

/-- Parts are written, if fragments are written alike. -/
theorem writeElements (h : C.Allows env env')
    {enter enter' : List Element → Frame → Eval String}
    (henter : ∀ es f, C.Follows (enter es f) (enter' es f)) (es : List Element) (f : Frame) :
    C.Follows (writeElements env enter es f) (Template.writeElements env' enter' es f) := by
  cases es with
  | nil => exact .pure _
  | cons e rest =>
    exact .bind (h.writeElement henter e f) fun _ => .bind (h.declare f e) fun inner =>
      .bind (h.writeElements henter rest inner) fun _ => .pure _

end

/-- Parts are written, with fragments in each other. -/
theorem writeNested (h : C.Allows env env') (depth : Nat) (es : List Element) (f : Frame) :
    C.Follows (writeNested env depth es f) (Template.writeNested env' depth es f) := by
  induction depth generalizing es f with
  | zero => exact .fail h _ _
  | succ depth ih => exact h.writeElements ih es f

/-- A template is written. -/
theorem render (h : C.Allows env env') (template : List Element) :
    C.Follows (render env template) (Template.render env' template) :=
  h.writeNested nestingLimit template Frame.outermost

end Allows

/-- Rendering a text gives what is expected: the same text with less strictness, or a failure that
is reported behind what was asked until then. -/
theorem renderText_cases {strict strict' : Bool} {vars : Mapping} {g : Option Graph}
    (h : C.Allows (envOf strict vars g) (envOf strict' vars g)) (hstart : C.during .start)
    {text : String} {t : List Element} (hparse : parse text = .ok t) (name : String) :
    (∃ s, renderText strict name text vars g = .ok s ∧
      renderText strict' name text vars g = .ok s) ∨
    ∃ problem i, renderText strict name text vars g =
      .error (i.refusal.getD (.template problem (some name))) ∧ C.fails i := by
  have hcourse := h.render t .start hstart
  simp only [renderText, parseNamed, hparse, bind, Except.bind]
  generalize (Template.render (envOf strict vars g) t).run.run .start = r at hcourse
  generalize (Template.render (envOf strict' vars g) t).run.run .start = r' at hcourse
  cases hcourse with
  | ok text hs => exact .inl ⟨text, outcomeOf_ok (C.quiet hs) text, outcomeOf_ok (C.quiet hs) text⟩
  | @error problem s _ hf => exact .inr ⟨problem, s.toInquiry, outcomeOf_error name problem s, hf⟩

/-- Nothing is expected. -/
def free : Course := ⟨fun i => i.refusal = none, fun _ => True, id⟩

/-- Evaluations on the same variables and graph are free to go as they go. -/
theorem free_allows {strict strict' : Bool} (hstrict : strict' = true → strict = true)
    (vars : Mapping) (g : Option Graph) :
    free.Allows (envOf strict vars g) (envOf strict' vars g) where
  data := rfl
  ask := rfl
  strict := hstrict
  other := fun _ _ => trivial
  answered := fun _ _ _ hi => hi
  refused := fun _ _ _ _ => trivial

end Course

/-- What is rendered is rendered to the same text if less is asked of the variables. -/
theorem renderText_of_strict {strict strict' : Bool} (hstrict : strict' = true → strict = true)
    {name text : String} {vars : Mapping} {g : Option Graph} {s : String}
    (hs : renderText strict name text vars g = .ok s) :
    renderText strict' name text vars g = .ok s := by
  cases hparse : parse text with
  | error problem => simp [renderText, parseNamed, hparse, bind, Except.bind] at hs
  | ok t =>
    have hallows := Course.free_allows hstrict vars g
    obtain ⟨s', hrun, hrun'⟩ | ⟨problem, i, hrun, -⟩ :=
      Course.renderText_cases hallows rfl hparse name
    · cases hs.symm.trans hrun
      exact hrun'
    · cases hs.symm.trans hrun

end ManifestRules.Template
