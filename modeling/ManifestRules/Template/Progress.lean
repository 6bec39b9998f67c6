import ManifestRules.Error
import ManifestRules.Text.Blank
/-!
# How far a template is written

Besides its text, writing a template keeps the queries that were asked and where
the text stands in its line. The latter decides about indentation: the lines of
a fragment start with its margin, but a line that nothing is written to stays
empty (`Eval.emit`, `Eval.wholly`). The failure of a query that is no selector is
kept beside the problem that ends the writing (`Eval.refuse`), so that it is not
mistaken for any other.
-/

namespace ManifestRules.Template

/-- What was asked while a template is written. -/
structure Inquiry where
  /-- The queries that were asked, in order. -/
  queries : List String
  /-- The failure of the first query that was no selector. -/
  refusal : Option Error
deriving Repr, Inhabited

/-- What is kept while a template is written. -/
structure Progress extends Inquiry where
  /-- The text that was written last ended a line. -/
  lineEnded : Bool
  /-- The present call has written something. -/
  produced : Bool
  /-- The next text starts with the margin. -/
  indents : Bool
deriving Repr, Inhabited

/-- Nothing is asked. -/
def Inquiry.start : Inquiry := ⟨[], none⟩

/-- Nothing is written. -/
def Progress.start : Progress := ⟨.start, true, false, false⟩

/-- Evaluation can fail with a problem, and keeps what it has done until then. -/
abbrev Eval := ExceptT String (StateM Progress)

namespace Eval

/-- Fail. -/
def fail {α : Type} (problem : String) : Eval α := throw problem

/-- Pass a result on. -/
def ofExcept {α : Type} : Except String α → Eval α
  | .ok x => pure x
  | .error problem => fail problem

/-- Note a query. -/
def note (query : String) : Eval Unit :=
  modify fun p => { p with queries := p.queries ++ [query] }

/-- Keep the failure of a query, unless one is kept already. -/
def refuse (e : Error) : Eval Unit :=
  modify fun p => { p with refusal := p.refusal.or (some e) }

/-- The text with the margin at the start of every line but the first. -/
def indentRest (margin : List Char) : List Char → List Char
  | [] => []
  | c :: rest =>
    if c = '\n' ∧ !rest.isEmpty then c :: (margin ++ indentRest margin rest)
    else c :: indentRest margin rest

/-- Write a text. It starts with the margin if that is due, unless it starts
with the end of a line. -/
def emit (margin text : String) : Eval String := do
  let cs := text.toList
  match cs.head?, cs.getLast? with
  | some first, some last =>
    let p ← get
    let ends := Text.isLineEnd last
    set { p with lineEnded := ends, produced := true, indents := ends }
    if margin.isEmpty then pure text
    else
      let lead := if p.indents && !Text.isLineEnd first then margin.toList else []
      pure (String.ofList (lead ++ indentRest margin.toList cs))
  | _, _ => pure ""

/-- Write what a tag stands for, starting with the margin if `indents` says so.
Where nothing is written, the margin stays as due as it was. -/
def wholly (indents : Progress → Bool) (write : Eval String) : Eval String := do
  let before ← get
  set { before with produced := false, indents := indents before }
  let s ← write
  modify fun p =>
    if p.produced then { p with indents := p.lineEnded }
    else { p with produced := before.produced, indents := before.indents }
  pure s

end Eval

end ManifestRules.Template
