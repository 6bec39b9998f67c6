import ManifestRules.Rule
import ManifestRules.Stream
import ManifestRules.Template.Source
/-!
# The rule engine

The engine walks the graph by index. It tests every document against every rule
in order, and a rule that matches merges its fragment, appends the documents of
its templates and merges its patch, in this order. Documents that were appended
are visited in their turn, so rules apply to what rules have made. Every
template sees the graph as it is when it is rendered.

A run changes the graph step by step; when it fails, the graph stays as it was
at that moment. The bound on the number of documents is tested after every
document that is appended, and so every run comes to an end.
-/

namespace ManifestRules

/-- How many documents a graph may hold if nothing else is said. -/
def defaultDocumentLimit : Nat := 10000

/-- What a run is made with. -/
structure Engine where
  /-- The rules in order. -/
  rules : List Rule
  /-- The variables of templates. -/
  vars : Mapping
  /-- Where templates come from. -/
  templates : TemplateSource
  /-- How templates are rendered. -/
  renderer : Renderer
  /-- How documents are written. -/
  codec : Codec
  /-- How many documents the graph may hold. -/
  limit : Nat

/-- A step of a run, which changes the graph and may fail. -/
abbrev Step := EStateM Error Graph

namespace Engine

/-- The graph must not be larger than the limit. -/
def checkLimit (e : Engine) (g : Graph) : Except Error Unit :=
  if e.limit < g.size then .error (.documentLimit e.limit) else .ok ()

/-- Fail with the failure of a result, if it is one. -/
def lift {α : Type} (r : Except Error α) : Step α :=
  match r with
  | .ok x => pure x
  | .error e => throw e

/-- Render a template on a graph. -/
def renderOn (e : Engine) (reference : String) (g : Graph) : Except Error String := do
  let text ← e.templates.load reference
  e.renderer.render reference text e.vars (some g)

/-- Render a template on the graph as it is. -/
def render (e : Engine) (reference : String) : Step String := do
  lift (e.renderOn reference (← get))

/-- Append the document of a fragment. -/
def appendFragment (e : Engine) (fragment : String) : Step Unit := do
  let d ← lift (Stream.parseDocument e.codec fragment)
  modify fun g => g.push d
  lift (e.checkLimit (← get))

/-- Append the documents that a template makes. -/
def appendResources (e : Engine) (reference : String) : Step Unit := do
  let rendered ← e.render reference
  (Stream.splitDocuments rendered).forM e.appendFragment

/-- Merge a fragment into the document at an index. A run merges only into the document it visits,
and that is there (`History.lt_size_of_mergedInto`); so there is no failure for an index out of
range. -/
def mergeInto (i : Nat) (fragment : Mapping) : Step Unit :=
  modify fun g => g.mergeAt i fragment

/-- Merge what a template makes into the document at an index. -/
def applyPatch (e : Engine) (i : Nat) (reference : String) : Step Unit := do
  let rendered ← e.render reference
  let fragment ← lift (Stream.parseMapping e.codec rendered)
  mergeInto i fragment

/-- Apply the effects of a rule to the document at an index. -/
def applyEffects (e : Engine) (i : Nat) (r : Rule) : Step Unit := do
  r.inject.toList.forM (mergeInto i)
  r.newResources.forM e.appendResources
  r.patch.toList.forM (e.applyPatch i)

/-- The document at an index contains the pattern of a rule. -/
def matchesAt (g : Graph) (i : Nat) (r : Rule) : Bool :=
  (g.get? i).any fun d => Mapping.contains d.body r.pattern

/-- Apply a rule to the document at an index if it matches. -/
def applyRule (e : Engine) (i : Nat) (r : Rule) : Step Unit := do
  if matchesAt (← get) i r then e.applyEffects i r

/-- Apply every rule to the document at an index, in order. -/
def visit (e : Engine) (i : Nat) : Step Unit :=
  e.rules.forM (e.applyRule i)

/-- Visit the documents from an index on, including those appended meanwhile, but
at most so many. -/
def visitFrom (e : Engine) : Nat → Nat → Step Unit
  | 0, _ => pure ()
  | fuel + 1, i => do
    if i < (← get).size then
      e.visit i
      e.visitFrom fuel (i + 1)

/-- How many documents a run can visit: as many as there are, or as many as there
may be. -/
def visitBound (e : Engine) (g : Graph) : Nat := max g.size e.limit

/-- Apply the rules to every document. -/
def apply (e : Engine) : Step Unit := do
  e.visitFrom (e.visitBound (← get)) 0

/-- Decode a stream to a graph within the limit. -/
def parse (e : Engine) (input : String) : Except Error Graph := do
  let ds ← Stream.parseDocuments e.codec input
  let g := Graph.ofList ds
  e.checkLimit g
  pure g

/-- Decode a stream and apply the rules to its graph. -/
def build (e : Engine) (input : String) : Except Error Graph := do
  let g ← e.parse input
  match e.apply.run g with
  | .ok _ final => pure final
  | .error f _ => throw f

end Engine

end ManifestRules
