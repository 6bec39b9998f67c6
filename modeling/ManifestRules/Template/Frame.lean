import ManifestRules.Json.Content
import ManifestRules.Template.Scope
/-!
# What surrounds a part of a template

A part of a template sees the blocks around it and the fragments that have got a
name before it. Inside a fragment it also sees the body of the inclusion, under
a name of its own. Frames are what they see: each part is written in one, and a
change of it lasts as long as the part that it is made for.
-/

namespace ManifestRules.Template

/-- What a part of a template sees. -/
structure Frame where
  /-- The blocks, the innermost first. -/
  blocks : List Block
  /-- The fragments by name, of which earlier ones win. -/
  fragments : List (String × List Element)
  /-- The bodies of the inclusions, the innermost first. -/
  bodies : List (List Element)
  /-- How many of these bodies are being written, so that the name for bodies
  means the one behind them. -/
  depth : Nat
  /-- What the lines start with. -/
  margin : String
deriving Inhabited

namespace Frame

/-- The frame of a whole template. -/
def outermost : Frame := ⟨[Block.outermost], [], [], 0, ""⟩

/-- The name for the body of an inclusion. -/
def bodyName : String := "@partial-block"

/-- Give a fragment a name. -/
def define (f : Frame) (name : String) (fragment : List Element) : Frame :=
  { f with fragments := (name, fragment) :: f.fragments }

/-- The fragment of a name. -/
def fragment? (f : Frame) (name : String) : Option (List Element) :=
  if name = bodyName then f.bodies[f.depth]?
  else (f.fragments.find? fun e => e.1 == name).map (·.2)

/-- The blocks for a fragment. A first argument on a path of the data takes the
place of all blocks, and named arguments are added to the innermost value. -/
def given (f : Frame) (data : Json) (args : List Found) (options : List (String × Found)) :
    Except String (List Block) := do
  let blocks :=
    match args with
    | .at path _ :: _ => [⟨.at path, [], []⟩]
    | _ => f.blocks
  if options.isEmpty then pure blocks
  else
    let front := blocks.headD Block.outermost
    let current ← Scope.inBase data front.base []
    let extended := current.json.extended (options.map fun o => (o.1, o.2.json))
    pure [{ front with base := .value extended }]

/-- The frame for a fragment that is put in by name, with a body if the inclusion
has one that is not put in itself. -/
def entering (f : Frame) (name margin : String) (blocks : List Block)
    (body : Option (List Element)) : Frame :=
  { f with
    blocks
    bodies := body.toList ++ f.bodies
    depth := if name = bodyName then f.depth + 1 else f.depth - 1
    margin := f.margin ++ margin }

end Frame

end ManifestRules.Template
