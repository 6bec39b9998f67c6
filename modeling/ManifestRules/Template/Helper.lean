import ManifestRules.Json.Content
import ManifestRules.Selector
import ManifestRules.Template.Progress
import ManifestRules.Template.Scope
import ManifestRules.Text.Base64
import ManifestRules.Text.Case
import ManifestRules.Yaml.Written
/-!
# Helpers

Helpers are the operations that templates can call. Some compute a value from
their arguments, some test them, and the ones that write the body of a block are
evaluated elsewhere. A helper fails on an argument of the wrong type or one that
is not given, and in strict templates on one that is missing.
-/

namespace ManifestRules.Template

/-- What a template is evaluated with. -/
structure Env where
  /-- Missing values are failures. -/
  strict : Bool
  /-- The data that references lead into. -/
  data : Json
  /-- How queries are answered, if they can be asked. -/
  ask : Option (String → Except Error Resolution)

/-- The comparisons. -/
inductive Comparison where
  /-- Greater. -/
  | gt
  /-- Greater or equal. -/
  | gte
  /-- Less. -/
  | lt
  /-- Less or equal. -/
  | lte
deriving Repr, DecidableEq

/-- The helpers that write the body of a block. -/
inductive BlockHelper where
  /-- Once, if the argument holds. -/
  | ifHolds
  /-- Once, if the argument does not hold. -/
  | unlessHolds
  /-- Once for every part of the argument. -/
  | each
  /-- Once, with the argument as its value. -/
  | within
  /-- Once, as it is. -/
  | raw
  /-- Not at all; the arguments are reported elsewhere. -/
  | log
deriving Repr, DecidableEq

/-- The helpers that test their arguments. -/
inductive Test where
  /-- The first two are equal. -/
  | eq
  /-- The first two are not equal. -/
  | ne
  /-- The first two compare in this way. -/
  | compare (c : Comparison)
  /-- All hold. -/
  | and
  /-- One of them holds. -/
  | or
  /-- The first does not hold. -/
  | not
deriving Repr, DecidableEq

/-- The helpers that compute a value. -/
inductive ValueHelper where
  /-- A part of a value. -/
  | lookup
  /-- The size of a value. -/
  | len
  /-- YAML text. -/
  | toYaml
  /-- JSON text. -/
  | toJson
  /-- A text in quotes. -/
  | quote
  /-- A text with its lines indented. -/
  | indent
  /-- The same, on a line of its own. -/
  | nindent
  /-- A value, or another one if it is empty. -/
  | default
  /-- Upper case. -/
  | upper
  /-- Lower case. -/
  | lower
  /-- Base64. -/
  | b64enc
  /-- The answer to a query. -/
  | resource
deriving Repr, DecidableEq

/-- A helper. -/
inductive Helper where
  /-- One that writes the body of a block. -/
  | block (h : BlockHelper)
  /-- One that tests, and writes the body of a block if the test succeeds. -/
  | test (t : Test)
  /-- One that computes a value. -/
  | value (h : ValueHelper)
deriving Repr, DecidableEq

/-- The helpers by name. -/
def helperNames : List (String × Helper) :=
  [("if", .block .ifHolds), ("unless", .block .unlessHolds), ("each", .block .each),
    ("with", .block .within), ("raw", .block .raw), ("log", .block .log),
    ("eq", .test .eq), ("ne", .test .ne), ("gt", .test (.compare .gt)),
    ("gte", .test (.compare .gte)), ("lt", .test (.compare .lt)),
    ("lte", .test (.compare .lte)), ("and", .test .and), ("or", .test .or),
    ("not", .test .not), ("lookup", .value .lookup), ("len", .value .len),
    ("toYaml", .value .toYaml), ("toJson", .value .toJson), ("quote", .value .quote),
    ("indent", .value .indent), ("nindent", .value .nindent), ("default", .value .default),
    ("upper", .value .upper), ("lower", .value .lower), ("b64enc", .value .b64enc)]

/-- The helper of a name. Queries can be asked only where they are answered. -/
def Env.helper? (env : Env) (name : String) : Option Helper :=
  if name = "resource" then env.ask.map fun _ => .value .resource
  else (helperNames.find? fun h => h.1 == name).map (·.2)

/-- The lines of a text with spaces in front of each that is not empty, joined
by line feeds. -/
def indentLines (width : Nat) (text : String) : String :=
  let lines := (Text.lines text.toList).map Text.lineContent
  let padded := lines.map fun l => if l.isEmpty then l else List.replicate width ' ' ++ l
  "\n".intercalate (padded.map String.ofList)

/-- YAML text without the line feed at its end. -/
def yamlText (v : Json) : String :=
  Text.trimEndString (Yaml.write v.toValue)

/-- The text that quotes are put around. -/
def quotable : Json → String
  | .string s => s
  | v => v.text

/-- The text for a query that is no text. -/
def needsSelector : String := "resource expects a selector string"

/-- Ask a query. If it is no selector, its failure is kept, and the message of that
is the problem. -/
def Env.query (env : Env) (arg : Option Found) : Eval Value := do
  match arg.map Found.json, env.ask with
  | some (.string query), some ask =>
    Eval.note query
    match ask query with
    | .ok r => pure r.value
    | .error e =>
      Eval.refuse e
      Eval.fail e.message
  | _, _ => Eval.fail needsSelector

/-- An argument that has to be given, and in strict templates has to be there. -/
def Env.arg (env : Env) (args : List Found) (i : Nat) : Eval Json :=
  match args[i]? with
  | some f =>
    if env.strict && f.isMissing then Eval.fail "an argument is missing" else pure f.json
  | none => Eval.fail "an argument is not given"

/-- A text as argument. -/
def Env.textArg (env : Env) (args : List Found) (i : Nat) : Eval String := do
  match ← env.arg args i with
  | .string s => pure s
  | _ => Eval.fail "an argument is no text"

/-- A number without sign as argument. -/
def Env.countArg (env : Env) (args : List Found) (i : Nat) : Eval Nat := do
  match ← env.arg args i with
  | .number (.int n) => if 0 ≤ n then pure n.toNat else Eval.fail "an argument is negative"
  | _ => Eval.fail "an argument is no whole number"

/-- A comparison holds for an order. -/
def Comparison.accepts (c : Comparison) (o : Option Ordering) : Bool :=
  match c with
  | .gt => o == some .gt
  | .gte => o == some .gt || o == some .eq
  | .lt => o == some .lt
  | .lte => o == some .lt || o == some .eq

/-- The outcome of a test. How many arguments `and` and `or` have is free, and
what is missing does not hold. -/
def Test.succeeds (env : Env) (args : List Found) : Test → Eval Bool
  | .eq => do pure ((← env.arg args 0).same (← env.arg args 1))
  | .ne => do pure !((← env.arg args 0).same (← env.arg args 1))
  | .compare c => do
    let x ← env.arg args 0
    let y ← env.arg args 1
    pure (c.accepts (Json.compare? x y))
  | .and => pure (args.all fun f => f.json.holds false)
  | .or => pure (args.any fun f => f.json.holds false)
  | .not => do pure !((← env.arg args 0).holds false)

/-- The value that a helper computes. -/
def ValueHelper.apply (env : Env) (args : List Found) : ValueHelper → Eval Json
  | .lookup =>
    match args with
    | whole :: index :: _ =>
      match Json.part? whole.json index.json with
      | some v => pure v
      | none => if env.strict then Eval.fail "nothing is found" else pure .null
    | _ => Eval.fail "an argument is not given"
  | .len => do pure (.number (.int (Json.size (← env.arg args 0))))
  | .toYaml =>
    match args with
    | f :: _ => pure (.string (yamlText f.json))
    | [] => Eval.fail "an argument is not given"
  | .toJson => do pure (.string (← env.arg args 0).text)
  | .quote => do pure (.string (Json.quote (quotable (← env.arg args 0))))
  | .indent => do
    let width ← env.countArg args 0
    let text ← env.textArg args 1
    pure (.string (indentLines width text))
  | .nindent => do
    let width ← env.countArg args 0
    let text ← env.textArg args 1
    pure (.string ("\n" ++ indentLines width text))
  | .default => do
    let fallback ← env.arg args 0
    let v ← env.arg args 1
    pure (if Json.isEmpty v then fallback else v)
  | .upper => do pure (.string (Text.upperString (← env.textArg args 0)))
  | .lower => do pure (.string (Text.lowerString (← env.textArg args 0)))
  | .b64enc => do pure (.string (Text.base64 (← env.textArg args 0)))
  | .resource => do pure (Json.ofValue (← env.query args[0]?))

/-- The text that a helper writes where it stands in the text. An answer to a
query is written in its canonical text, apart from the lines around it. -/
def ValueHelper.write (env : Env) (margin : String) (args : List Found) (h : ValueHelper) :
    Eval String :=
  match h with
  | .resource => do pure (← env.query args[0]?).text
  | h => do Eval.emit margin (Json.written (← h.apply env args))

end ManifestRules.Template
