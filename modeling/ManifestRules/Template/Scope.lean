import ManifestRules.Path
import ManifestRules.Template.Syntax
/-!
# What references mean

A reference is followed from the value of the innermost block, from that of a
block further out, from the whole data, or from a name that a block has given.
A value found on a path of the data keeps that path, so that a block over it
can be continued; other values stand for themselves.
-/

namespace ManifestRules.Template

/-- The outcome of evaluating an expression. -/
inductive Found where
  /-- A value at a path of the data. -/
  | at (path : List String) (v : Json)
  /-- Another value. -/
  | value (v : Json)
  /-- Nothing is there. -/
  | missing
deriving Repr, Inhabited

namespace Found

/-- The value; what is missing counts as null. -/
def json : Found → Json
  | .at _ v => v
  | .value v => v
  | .missing => .null

/-- Nothing is there. -/
def isMissing : Found → Bool
  | .missing => true
  | _ => false

/-- A part of a found value, which lies one step further if that has a path. -/
def part (whole : Found) (segment : String) (v : Json) : Found :=
  match whole with
  | .at path _ => .at (path ++ [segment]) v
  | _ => .value v

end Found

/-- What a block has as its value, or gives a name to. -/
inductive Base where
  /-- What stands at a path of the data. -/
  | at (path : List String)
  /-- Another value. -/
  | value (v : Json)
deriving Repr, Inhabited

/-- The base that a found value makes. -/
def Base.ofFound : Found → Base
  | .at path _ => .at path
  | .value v => .value v
  | .missing => .value .null

/-- A block while its body is written. -/
structure Block where
  /-- Its value. -/
  base : Base
  /-- Its variables. -/
  locals : List (String × Json)
  /-- The names that it gives, of which later ones win. -/
  names : List (String × Base)
deriving Repr, Inhabited

/-- The block of a whole template. -/
def Block.outermost : Block := ⟨.at [], [], []⟩

namespace Scope

/-- Take a step into a value. The items of an array have numbers, and any other
step is a fault there. -/
def step (v? : Option Json) (segment : String) : Except String (Option Json) :=
  match v? with
  | some (.array items) =>
    match Path.readIndex? segment with
    | some i => .ok items[i]?
    | none => .error ("invalid array index " ++ segment)
  | some (.object members) => .ok (Json.member? members segment)
  | _ => .ok none

/-- Take steps into a value. -/
def descend (v : Json) (path : List String) : Except String (Option Json) :=
  path.foldlM step (some v)

/-- What stands at a path of the data. -/
def inData (data : Json) (path : List String) : Except String Found := do
  match ← descend data path with
  | some v => pure (.at path v)
  | none => pure .missing

/-- What stands at a path of another value. -/
def inValue (v : Json) (path : List String) : Except String Found := do
  match ← descend v path with
  | some w => pure (.value w)
  | none => pure .missing

/-- What stands at a path of a base. -/
def inBase (data : Json) (base : Base) (path : List String) : Except String Found :=
  match base with
  | .at start => inData data (start ++ path)
  | .value v => inValue v path

/-- The names among the steps of a reference. -/
def namesOf (segments : List Segment) : List String :=
  segments.filterMap fun s =>
    match s with
    | .name n => some n
    | _ => none

/-- What the innermost block that gives a name gives it to. -/
def named? (blocks : List Block) (name : String) : Option Base :=
  blocks.findSome? fun b => (b.names.reverse.find? fun n => n.1 == name).map (·.2)

/-- The steps up at the front of a reference, and the steps behind them. -/
def takeUps : List Segment → Nat × List Segment
  | .up :: rest =>
    let (n, rest) := takeUps rest
    (n + 1, rest)
  | rest => (0, rest)

/-- The block that lies so many blocks further out; the innermost if there is none. -/
def blockAt (blocks : List Block) (level : Nat) : Block :=
  blocks.getD level (blocks.headD Block.outermost)

/-- Follow a reference to a value. -/
def follow (data : Json) (blocks : List Block) (segments : List Segment) :
    Except String Found :=
  let (level, behind) := takeUps segments
  let given :=
    match behind with
    | .name n :: rest => (named? blocks n).map fun b => (b, namesOf rest)
    | _ => none
  match given with
  | some (base, path) => inBase data base path
  | none =>
    let path := namesOf segments
    if level = 0 ∧ behind.head? = some .root then inData data path
    else inBase data (blockAt blocks level).base path

/-- The variable that a reference names: its level and its name. -/
def localOf? : List Segment → Option (Nat × String)
  | .local :: rest =>
    match takeUps rest with
    | (level, .name n :: _) => some (level, n)
    | _ => none
  | _ => none

/-- Evaluate a reference. -/
def lookup (data : Json) (blocks : List Block) (r : Reference) : Except String Found :=
  match localOf? r.segments with
  | some (level, n) =>
    match blocks[level]? with
    | some b =>
      match b.locals.find? fun e => e.1 == n with
      | some e => .ok (.value e.2)
      | none => .ok .missing
    | none => .ok .missing
  | none => follow data blocks r.segments

end Scope

end ManifestRules.Template
