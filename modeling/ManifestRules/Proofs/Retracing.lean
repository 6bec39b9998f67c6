import ManifestRules.Engine
import ManifestRules.Proofs.Joining
/-!
# Runs that retrace others

One run retraces another if it gives the same result wherever the other one succeeds. What it may
do where the other one fails is its leeway, a relation between failures. So two engines that
differ in their templates only run alike as far as their renderings do (`Engine.Mirrors.build`).
-/

namespace ManifestRules

variable {α β : Type}

/-- The failure of a result, if it is one. -/
def failure? : Except Error α → Option Error
  | .ok _ => none
  | .error f => some f

/-- What a run may do where the one that it retraces has failed. -/
structure Leeway where
  /-- Where the one fails with this, the other fails with that, or it does not fail. -/
  allows : Error → Option Error → Prop
  /-- A run that goes on where the other one has failed may still fail in any way. -/
  free : ∀ {f}, allows f none → ∀ o, allows f o

namespace Leeway

variable {L : Leeway}

/-- The second result is one that the leeway permits behind the first one. -/
inductive Permits (L : Leeway) : Except Error α → Except Error α → Prop where
  /-- A success is the same. -/
  | ok (a : α) : Permits L (.ok a) (.ok a)
  /-- A failure is up to the leeway. -/
  | error {f : Error} {r : Except Error α} (hf : L.allows f (failure? r)) :
    Permits L (.error f) r

/-- A result may stay as it is if its failure may. -/
theorem Permits.refl {r : Except Error α} (hr : ∀ f, r = .error f → L.allows f (some f)) :
    L.Permits r r := by
  cases r with
  | ok a => exact .ok a
  | error f => exact .error (hr f rfl)

/-- What is made of a success is made of it again. -/
theorem Permits.bind {r r' : Except Error α} {p q : α → Except Error β} (hr : L.Permits r r')
    (hp : ∀ a, r = .ok a → L.Permits (p a) (q a)) : L.Permits (r >>= p) (r' >>= q) := by
  cases hr with
  | ok a => exact hp a rfl
  | @error f r' hf =>
    -- Only a leeway that is free lets the second result be used at all.
    cases r' with
    | ok a => exact .error (L.free hf _)
    | error k => exact .error hf

end Leeway

/-- The result of a step as a whole. -/
def resultOf : EStateM.Result Error Graph α → Except Error (α × Graph)
  | .ok a g => .ok (a, g)
  | .error f _ => .error f

/-- The result of two steps is that of the second one behind the first. -/
theorem resultOf_bind (p : Step α) (f : α → Step β) (g : Graph) :
    resultOf ((p >>= f).run g) = resultOf (p.run g) >>= fun x => resultOf ((f x.1).run x.2) := by
  rw [EStateM.run_bind]
  cases p.run g <;> rfl

/-- On every graph the second step gives what the leeway permits behind the first one. -/
def Leeway.Retraces (L : Leeway) (p q : Step α) : Prop :=
  ∀ g, L.Permits (resultOf (p.run g)) (resultOf (q.run g))

namespace Leeway.Retraces

variable {L : Leeway}

/-- A step that cannot fail may stay as it is. -/
theorem of_ok {p : Step α} (hp : ∀ g, ∃ a h, p.run g = .ok a h) : L.Retraces p p := by
  intro g
  obtain ⟨a, h, hrun⟩ := hp g
  rw [hrun]
  exact .ok (a, h)

/-- A result is passed on. -/
theorem lift {r r' : Except Error α} (hr : L.Permits r r') :
    L.Retraces (Engine.lift r) (Engine.lift r') := by
  intro g
  cases hr with
  | ok a => exact .ok (a, g)
  | @error f r' hf =>
    refine .error ?_
    cases r' <;> exact hf

/-- Steps that retrace each other may be followed by such steps. -/
theorem bind {p q : Step α} {f k : α → Step β} (hp : L.Retraces p q)
    (hf : ∀ a, L.Retraces (f a) (k a)) : L.Retraces (p >>= f) (q >>= k) := by
  intro g
  rw [resultOf_bind, resultOf_bind]
  exact (hp g).bind fun x _ => hf x.1 x.2

/-- A loop is retraced if its rounds are. -/
theorem forM {f k : α → Step Unit} {l : List α} (hf : ∀ a ∈ l, L.Retraces (f a) (k a)) :
    L.Retraces (l.forM f) (l.forM k) := by
  induction l with
  | nil => exact of_ok fun g => ⟨(), g, rfl⟩
  | cons a l ih =>
    obtain ⟨hfirst, hrest⟩ := List.forall_mem_cons.mp hf
    exact bind hfirst fun _ => ih hrest

end Leeway.Retraces

namespace Engine

/-- Two engines that differ in nothing but their templates, variables and renderers, and in what
these give no more than the leeway permits. -/
structure Mirrors (L : Leeway) (e e' : Engine) : Prop where
  /-- The rules are the same. -/
  rules : e'.rules = e.rules
  /-- The documents are read in the same way. -/
  codec : e'.codec = e.codec
  /-- The graph may hold as many documents. -/
  limit : e'.limit = e.limit
  /-- The templates that the rules refer to are rendered to what is permitted. -/
  renderOn : ∀ r ∈ e.rules, ∀ reference ∈ r.references, ∀ g,
    L.Permits (e.renderOn reference g) (e'.renderOn reference g)
  /-- A fragment that is no document may fail as it does. -/
  fragment : ∀ {text f}, Stream.parseDocument e.codec text = .error f → L.allows f (some f)
  /-- A patch that is no mapping may fail as it does. -/
  patch : ∀ {text f}, Stream.parseMapping e.codec text = .error f → L.allows f (some f)
  /-- A graph that is too large may fail as it does. -/
  tooLarge : L.allows (.documentLimit e.limit) (some (.documentLimit e.limit))

/-- A build is the graph that the rules leave of the stream. -/
theorem build_eq (e : Engine) (input : String) :
    e.build input =
      e.parse input >>= fun g => resultOf (e.apply.run g) >>= fun x => pure x.2 := by
  rw [build]
  refine congrArg (e.parse input >>= ·) (funext fun g => ?_)
  cases e.apply.run g <;> rfl

namespace Mirrors

variable {L : Leeway} {e e' : Engine}

/-- The size of a graph is checked. -/
theorem checkLimit (hm : e.Mirrors L e') (g : Graph) :
    L.Permits (e.checkLimit g) (e'.checkLimit g) := by
  rw [Engine.checkLimit, Engine.checkLimit, hm.limit]
  refine .refl ?_
  intro f hf
  split at hf
  · cases hf
    exact hm.tooLarge
  · cases hf

/-- A template of a rule is rendered. -/
theorem render (hm : e.Mirrors L e') {r : Rule} (hr : r ∈ e.rules) {reference : String}
    (href : reference ∈ r.references) : L.Retraces (e.render reference) (e'.render reference) :=
  fun g => Leeway.Retraces.lift (hm.renderOn r hr reference href g) g

/-- A document is appended. -/
theorem appendFragment (hm : e.Mirrors L e') (fragment : String) :
    L.Retraces (e.appendFragment fragment) (e'.appendFragment fragment) := by
  rw [Engine.appendFragment, Engine.appendFragment, hm.codec]
  refine .bind (.lift (.refl fun f => hm.fragment)) fun d => ?_
  refine .bind (.of_ok fun g => ⟨(), g.push d, rfl⟩) fun _ => ?_
  exact fun g => Leeway.Retraces.lift (hm.checkLimit g) g

/-- The documents of a template are appended. -/
theorem appendResources (hm : e.Mirrors L e') {r : Rule} (hr : r ∈ e.rules) {reference : String}
    (href : reference ∈ r.references) :
    L.Retraces (e.appendResources reference) (e'.appendResources reference) :=
  .bind (hm.render hr href) fun _ => .forM fun fragment _ => hm.appendFragment fragment

/-- A patch is merged. -/
theorem applyPatch (hm : e.Mirrors L e') {r : Rule} (hr : r ∈ e.rules) {reference : String}
    (href : reference ∈ r.references) (i : Nat) :
    L.Retraces (e.applyPatch i reference) (e'.applyPatch i reference) := by
  refine .bind (hm.render hr href) fun text => ?_
  rw [hm.codec]
  refine .bind (.lift (.refl fun f => hm.patch)) fun fragment => ?_
  exact .of_ok fun g => ⟨(), g.mergeAt i fragment, rfl⟩

/-- The effects of a rule are applied. -/
theorem applyEffects (hm : e.Mirrors L e') {r : Rule} (hr : r ∈ e.rules) (i : Nat) :
    L.Retraces (e.applyEffects i r) (e'.applyEffects i r) := by
  refine .bind (.forM fun fragment _ => .of_ok fun g => ⟨(), g.mergeAt i fragment, rfl⟩) fun _ => ?_
  refine .bind (.forM fun reference href => ?_) fun _ => .forM fun reference href => ?_
  · exact hm.appendResources hr (List.mem_append_left _ href)
  · exact hm.applyPatch hr (List.mem_append_right _ href) i

/-- A rule is applied. -/
theorem applyRule (hm : e.Mirrors L e') {r : Rule} (hr : r ∈ e.rules) (i : Nat) :
    L.Retraces (e.applyRule i r) (e'.applyRule i r) := by
  refine .bind (.of_ok fun g => ⟨g, g, rfl⟩) fun g => ?_
  split
  · exact hm.applyEffects hr i
  · exact .of_ok fun g => ⟨(), g, rfl⟩

/-- A document is visited. -/
theorem visit (hm : e.Mirrors L e') (i : Nat) : L.Retraces (e.visit i) (e'.visit i) := by
  rw [Engine.visit, Engine.visit, hm.rules]
  exact .forM fun r hr => hm.applyRule hr i

/-- Documents are visited in order. -/
theorem visitFrom (hm : e.Mirrors L e') (n i : Nat) :
    L.Retraces (e.visitFrom n i) (e'.visitFrom n i) := by
  induction n generalizing i with
  | zero => exact .of_ok fun g => ⟨(), g, rfl⟩
  | succ n ih =>
    refine .bind (.of_ok fun g => ⟨g, g, rfl⟩) fun g => ?_
    split
    · exact .bind (hm.visit i) fun _ => ih (i + 1)
    · exact .of_ok fun g => ⟨(), g, rfl⟩

/-- The rules are applied to a graph. -/
theorem apply (hm : e.Mirrors L e') : L.Retraces e.apply e'.apply := by
  refine .bind (.of_ok fun g => ⟨g, g, rfl⟩) fun g => ?_
  rw [visitBound, visitBound, hm.limit]
  exact hm.visitFrom _ 0

/-- A stream is decoded. -/
theorem parse (hm : e.Mirrors L e') (input : String) :
    L.Permits (e.parse input) (e'.parse input) := by
  rw [Engine.parse, Engine.parse, hm.codec]
  refine .bind (.refl fun f hf => ?_) fun ds _ => ?_
  · rw [Stream.parseDocuments, mapM_eq_error_iff] at hf
    obtain ⟨before, text, behind, -, -, htext⟩ := hf
    exact hm.fragment htext
  · exact .bind (hm.checkLimit _) fun _ _ => .ok _

/-- A build gives what the leeway permits if the renderings do. -/
theorem build (hm : e.Mirrors L e') (input : String) :
    L.Permits (e.build input) (e'.build input) := by
  rw [build_eq, build_eq]
  refine (hm.parse input).bind fun g _ => ?_
  exact (hm.apply g).bind fun x _ => .ok x.2

end Mirrors

end Engine

end ManifestRules
