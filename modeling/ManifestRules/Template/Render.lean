import ManifestRules.Template.Frame
import ManifestRules.Template.Helper
import ManifestRules.Template.Parse
/-!
# Writing a template

The parts of a template are written in order. A tag without arguments calls the
helper of its name, if there is one, and writes the value it refers to if not.
What is missing writes nothing, except in strict templates, where it is a
failure. Blocks see the blocks around them, the innermost first. An inclusion
writes the fragment of its name; without one, its body is written.
-/

namespace ManifestRules.Template

/-- The named argument of a name. -/
def option? (options : List (String × Found)) (name : String) : Option Json :=
  (options.find? fun o => o.1 == name).map fun o => o.2.json

/-- Conditions count zero as holding. -/
def zeroHolds (options : List (String × Found)) : Bool :=
  match option? options "includeZero" with
  | some (.bool b) => b
  | _ => false

/-- The words for the level of a report. -/
def levels : List String := ["error", "warn", "info", "debug", "trace"]

/-- A report has a level that exists. -/
def checkLevel (options : List (String × Found)) : Eval Unit :=
  match option? options "level" with
  | some (.string level) =>
    if levels.contains (Text.lowerString level) then pure () else Eval.fail "invalid level"
  | _ => pure ()

/-- The argument that a block is about. -/
def subject (args : List Found) : Eval Found :=
  match args with
  | f :: _ => pure f
  | [] => Eval.fail "an argument is not given"

/-- The argument of a condition holds. -/
def condition (args : List Found) (options : List (String × Found)) : Eval Bool := do
  let f ← subject args
  pure (f.json.holds (zeroHolds options))

/-- A block helper as a value has no body to write; its arguments are checked. -/
def BlockHelper.check (env : Env) (args : List Found) (options : List (String × Found))
    (h : BlockHelper) : Eval Unit := do
  match h with
  | .ifHolds | .unlessHolds | .each =>
    let _ ← subject args
  | .within =>
    let f ← subject args
    if !f.json.holds false && env.strict then Eval.fail "a value is missing"
  | .raw => pure ()
  | .log => checkLevel options

/-- The value of a helper call. -/
def callValue (env : Env) (name : String) (args : List Found)
    (options : List (String × Found)) : Eval Found := do
  match env.helper? name with
  | some (.value h) => do pure (.value (← h.apply env args))
  | some (.test t) => do pure (.value (.bool (← t.succeeds env args)))
  | some (.block h) =>
    h.check env args options
    pure (.value (.string ""))
  | none => Eval.fail ("helper not defined: " ++ name)

mutual
/-- Evaluate an expression. The arguments of a call come first. -/
def evaluate (env : Env) (blocks : List Block) (e : Expr) : Eval Found :=
  match e with
  | .reference r => Eval.ofExcept (Scope.lookup env.data blocks r)
  | .literal v => pure (.value v)
  | .call name args options => do
    let args ← evaluateAll env blocks args
    let options ← evaluateOptions env blocks options
    callValue env name args options
termination_by structural e
/-- Evaluate arguments in order. -/
def evaluateAll (env : Env) (blocks : List Block) (es : List Expr) : Eval (List Found) :=
  match es with
  | [] => pure []
  | e :: rest => do
    let f ← evaluate env blocks e
    let fs ← evaluateAll env blocks rest
    pure (f :: fs)
termination_by structural es
/-- Evaluate named arguments in order. -/
def evaluateOptions (env : Env) (blocks : List Block) (es : List (String × Expr)) :
    Eval (List (String × Found)) :=
  match es with
  | [] => pure []
  | (name, e) :: rest => do
    let f ← evaluate env blocks e
    let fs ← evaluateOptions env blocks rest
    pure ((name, f) :: fs)
termination_by structural es
end

/-- Write a value. -/
def writeFound (env : Env) (margin : String) (f : Found) : Eval String :=
  if f.isMissing then
    if env.strict then Eval.fail "a value is missing" else pure ""
  else Eval.emit margin f.json.written

/-- Write what a helper call stands for. -/
def writeCall (env : Env) (margin name : String) (args : List Found)
    (options : List (String × Found)) : Eval String :=
  Eval.wholly Progress.indents do
    match env.helper? name with
    | some (.value h) => h.write env margin args
    | some (.test t) =>
      let b ← t.succeeds env args
      Eval.emit margin (Json.bool b).written
    | some (.block h) =>
      h.check env args options
      pure ""
    | none => Eval.fail ("helper not defined: " ++ name)

/-- The name that an expression is, if it may be one. -/
def nameOf (env : Env) (blocks : List Block) (e : Expr) : Eval String :=
  match e with
  | .reference r => pure r.text
  | e => do
    let f ← evaluate env blocks e
    pure f.json.written

/-- Write a tag without arguments. -/
def writeValue (env : Env) (margin : String) (blocks : List Block) (e : Expr) : Eval String := do
  let name ← nameOf env blocks e
  if (env.helper? name).isSome then writeCall env margin name [] []
  else
    let f ← evaluate env blocks e
    writeFound env margin f

/-- What the names of a block are given to: its value, and the key of that. -/
def bindings (names : List String) (part : Found) (key : Json) : List (String × Base) :=
  match names with
  | [] => []
  | n :: rest => (n, Base.ofFound part) :: rest.map fun m => (m, .value key)

/-- The block for one part of a value, with its place among the parts. -/
def partBlock (names : List String) (part : Found) (count i : Nat) (key : Json)
    (isMember : Bool) : Block :=
  ⟨Base.ofFound part,
    [("first", .bool (i == 0)), ("last", .bool (i + 1 == count)),
      ("index", .number (.int i))] ++ (if isMember then [("key", key)] else []),
    bindings names part key⟩

/-- The blocks for the items of an array. -/
def itemBlocks (names : List String) (whole : Found) (items : List Json) : List Block :=
  items.zipIdx.map fun (v, i) =>
    partBlock names (whole.part (toString i) v) items.length i (.number (.int i)) false

/-- The blocks for the members of an object. -/
def memberBlocks (names : List String) (whole : Found) (members : List (String × Json)) :
    List Block :=
  members.zipIdx.map fun (m, i) =>
    partBlock names (whole.part m.1 m.2) members.length i (.string m.1) true

/-- The block for a value as a whole; it can give one name. The variables are
those of the block around it. -/
def wholeBlock (names : List String) (whole : Found) (outer : List Block) : Block :=
  ⟨Base.ofFound whole, (outer.headD Block.outermost).locals,
    match names with
    | [n] => bindings [n] whole .null
    | _ => []⟩

/-- The blocks for the parts of a value. None means that the value has no parts
to go through, or that there are none but something else to write. -/
def partBlocks? (names : List String) (whole : Found) (hasInverse : Bool) :
    Option (List Block) :=
  match whole.json with
  | .array items =>
    if items.isEmpty && hasInverse then none else some (itemBlocks names whole items)
  | .object members =>
    if members.isEmpty && hasInverse then none else some (memberBlocks names whole members)
  | _ => none

/-- What a block does with its body and with what stands behind `else`. -/
inductive Plan where
  /-- Write the body once for each of these lists of blocks. -/
  | body (scopes : List (List Block))
  /-- Write what stands behind `else`, if there is something. -/
  | inverse
  /-- This text has been written. -/
  | written (s : String)

/-- Decide what a block does. -/
def plan (env : Env) (f : Frame) (head : Head) (args : List Found)
    (options : List (String × Found)) (hasInverse : Bool) : Eval Plan := do
  match env.helper? head.helper with
  | some (.block .ifHolds) =>
    pure (if ← condition args options then .body [f.blocks] else .inverse)
  | some (.block .unlessHolds) =>
    pure (if ← condition args options then .inverse else .body [f.blocks])
  | some (.block .each) =>
    let whole ← subject args
    match partBlocks? head.names whole hasInverse with
    | some parts => pure (.body (parts.map (· :: f.blocks)))
    | none =>
      if hasInverse || !env.strict then pure .inverse else Eval.fail "a value is missing"
  | some (.block .within) =>
    let whole ← subject args
    if whole.json.holds false then
      pure (.body [wholeBlock head.names whole f.blocks :: f.blocks])
    else if hasInverse || !env.strict then pure .inverse
    else Eval.fail "a value is missing"
  | some (.block .raw) => pure (.body [f.blocks])
  | some (.block .log) =>
    checkLevel options
    pure (.written "")
  | some (.test t) => pure (if ← t.succeeds env args then .body [f.blocks] else .inverse)
  | some (.value h) => do pure (.written (← h.write env f.margin args))
  | none => Eval.fail ("helper not defined: " ++ head.helper)

/-- The frame behind a part. A directive gives its body a name. -/
def declare (env : Env) (f : Frame) (e : Element) : Eval Frame :=
  match e with
  | .directive head body => do
    let args ← evaluateAll env f.blocks head.args
    let _ ← evaluateOptions env f.blocks head.options
    match head.helper, args.map Found.json, body with
    | "inline", .string name :: _, some fragment => pure (f.define name fragment)
    | "inline", _, _ => Eval.fail "inline needs a name and a body"
    | other, _, _ => Eval.fail ("directive not defined: " ++ other)
  | _ => pure f

/-- The frame behind some parts. -/
def declareAll (env : Env) (f : Frame) (es : List Element) : Eval Frame :=
  es.foldlM (declare env) f

/-- Write a fragment with the given function. What the body of the inclusion
declares is there only for the fragment. -/
def writeInclusion (env : Env) (enter : List Element → Frame → Eval String) (f : Frame)
    (i : Inclusion) (body : Option (List Element)) : Eval String := do
  let name ← nameOf env f.blocks i.name
  let args ← evaluateAll env f.blocks i.args
  let options ← evaluateOptions env f.blocks i.options
  Eval.wholly (fun p => i.ownLine && (p.lineEnded || !i.margin.isEmpty)) do
    let inner ← declareAll env f (body.getD [])
    let blocks ← Eval.ofExcept (f.given env.data args options)
    match inner.fragment? name, body with
    | some fragment, body => enter fragment (inner.entering name i.margin blocks body)
    | none, some own => enter own (inner.entering name i.margin blocks none)
    | none, none => Eval.fail ("fragment not defined: " ++ name)

/-- Join the texts that a function writes for the members of a list. -/
def joinMap {α : Type} (write : α → Eval String) : List α → Eval String
  | [] => pure ""
  | x :: rest => do
    let s ← write x
    let t ← joinMap write rest
    pure (s ++ t)

mutual
/-- Write a part of a template; fragments are written with the given function. -/
def writeElement (env : Env) (enter : List Element → Frame → Eval String) (e : Element)
    (f : Frame) : Eval String :=
  match e with
  | .text s => Eval.emit f.margin s
  | .value v => writeValue env f.margin f.blocks v
  | .call name args options => do
    let args ← evaluateAll env f.blocks args
    let options ← evaluateOptions env f.blocks options
    writeCall env f.margin name args options
  | .block head body inverse => do
    let args ← evaluateAll env f.blocks head.args
    let options ← evaluateOptions env f.blocks head.options
    Eval.wholly (fun p => p.indents || head.ownLine && p.lineEnded) do
      match ← plan env f head args options inverse.isSome with
      | .body scopes =>
        joinMap (fun blocks => writeElements env enter body { f with blocks }) scopes
      | .inverse =>
        match inverse with
        | some other => writeElements env enter other f
        | none => pure ""
      | .written s => pure s
  | .inclusion i body => writeInclusion env enter f i body
  | .directive _ _ => pure ""
termination_by structural e
/-- Write parts in order. What one declares is there for those behind it. -/
def writeElements (env : Env) (enter : List Element → Frame → Eval String)
    (es : List Element) (f : Frame) : Eval String :=
  match es with
  | [] => pure ""
  | e :: rest => do
    let s ← writeElement env enter e f
    let t ← writeElements env enter rest (← declare env f e)
    pure (s ++ t)
termination_by structural es
end

/-- Write parts, with fragments in each other as deep as given. -/
def writeNested (env : Env) : Nat → List Element → Frame → Eval String
  | 0, _, _ => Eval.fail "fragments are nested too deep"
  | depth + 1, es, f => writeElements env (writeNested env depth) es f

/-- How deep fragments may be nested. -/
def nestingLimit : Nat := 1000

/-- Write a template on data. -/
def render (env : Env) (template : List Element) : Eval String :=
  writeNested env nestingLimit template Frame.outermost

end ManifestRules.Template
