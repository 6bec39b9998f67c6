import ManifestRules.Graph
/-!
# Selectors

A query picks the first document of a kind, perhaps with a condition on its
body, and a field of that document. Its text has two or three clauses parted
by ampersands; `Selector.parse` reads it and `Selector.resolve` answers it on
a graph. A query that no document satisfies has an answer of its own, and a
text that is no query fails with the reason.
-/

namespace ManifestRules

/-- A query for a field of a document. -/
inductive Selector where
  /-- The first document of the kind. -/
  | kind (kind : String) (field : List String)
  /-- The first document of the kind whose path has the given canonical text. -/
  | attribute (kind : String) (path : List String) (value : String) (field : List String)
  /-- The first document of the kind whose path leads to a mapping with an
  entry of the given texts. -/
  | mapEntry (kind : String) (path : List String) (key value : String) (field : List String)
deriving Repr, DecidableEq, Inhabited

/-- The answer to a query. -/
inductive Resolution where
  /-- The value of the field. -/
  | found (v : Value)
  /-- No document satisfies the query. -/
  | noMatch
deriving Repr, Inhabited

namespace Resolution

/-- What stands for the answer when nothing matches. -/
def noMatchText : String := "<no match>"

/-- A document satisfied the query. -/
def isMatch : Resolution → Bool
  | .found _ => true
  | .noMatch => false

/-- The answer as a value. -/
def value : Resolution → Value
  | .found v => v
  | .noMatch => .string noMatchText

end Resolution

namespace Selector

/-- The clauses of a query, without the white space around them. -/
def clauses (query : String) : List String :=
  (Text.splitAt '&' query.toList).map fun c => String.ofList (Text.trim c)

/-- Read a query of two clauses. -/
def parsePair (query left right : String) : Except Error Selector :=
  let field := Path.split right
  match Path.split left with
  | [_, wanted] => .ok (.kind wanted field)
  | _ :: wanted :: second :: third :: rest =>
    let steps := second :: third :: rest
    .ok (.attribute wanted steps.dropLast (steps.getLast (by simp [steps])) field)
  | parts =>
    .error (.selectorSyntax query
      ("left selector '" ++ left ++ "' has " ++ toString parts.length ++
        " segments; expected 'kind.K' or 'kind.K.path.VALUE'"))

/-- Read a query of three clauses. -/
def parseTriple (query left entry right : String) : Except Error Selector :=
  match Path.split left with
  | _ :: wanted :: step :: rest =>
    match Text.splitOnce '.' entry.toList with
    | some (key, value) =>
      .ok (.mapEntry wanted (step :: rest) (String.ofList key) (String.ofList value)
        (Path.split right))
    | none =>
      .error (.selectorSyntax query ("map match '" ++ entry ++ "' must be 'KEY.VALUE'"))
  | _ =>
    .error (.selectorSyntax query ("left selector '" ++ left ++ "' must be 'kind.K.path'"))

/-- Read a query. -/
def parse (query : String) : Except Error Selector :=
  match clauses query with
  | [left, right] => parsePair query left right
  | [left, entry, right] => parseTriple query left entry right
  | [_] | [] =>
    .error (.selectorSyntax query "expected 'LEFT & RIGHT' or 'LEFT & KEY.VALUE & RIGHT'")
  | many =>
    .error (.selectorSyntax query
      ("expected at most 3 '&'-separated clauses, found " ++ toString many.length))

/-- The kind a query asks for. -/
def wantedKind : Selector → String
  | .kind k _ | .attribute k _ _ _ | .mapEntry k _ _ _ _ => k

/-- The path of the field a query asks for. -/
def field : Selector → List String
  | .kind _ f | .attribute _ _ _ f | .mapEntry _ _ _ _ f => f

/-- The entries that an outcome gives to search, if it leads to a mapping. -/
def entriesOf? : Lookup → Option Mapping
  | .found v => v.asMapping?
  | .root m => some m
  | _ => none

/-- A body satisfies the condition of a query. -/
def accepts (s : Selector) (body : Mapping) : Bool :=
  match s with
  | .kind _ _ => true
  | .attribute _ path value _ => (Path.walkMapping body path).text == value
  | .mapEntry _ path key value _ =>
    match entriesOf? (Path.walkMapping body path) with
    | some entries => entries.any fun e => e.1.text == key && e.2.text == value
    | none => false

/-- Answer a query on a graph. -/
def resolve (s : Selector) (g : Graph) : Resolution :=
  match (g.ofKind s.wantedKind).find? fun d => s.accepts d.body with
  | some d => .found (Path.walkMapping d.body s.field).value
  | none => .noMatch

end Selector

/-- Read a query and answer it. -/
def Graph.resolve (g : Graph) (query : String) : Except Error Resolution :=
  (Selector.parse query).map fun s => s.resolve g

end ManifestRules
