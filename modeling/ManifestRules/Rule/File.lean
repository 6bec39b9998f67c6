import ManifestRules.Rule
import ManifestRules.Template.Source
import ManifestRules.Yaml.Decode
/-!
# Rule files and values

A rule file is a template; its rendering is a mapping with a list of rules.
Unknown keys do not count, and tags are ignored, but a known key may stand only
once. What is left empty counts as not given. Values are a mapping from which
templates take their variables.
-/

namespace ManifestRules

/-- Something worth telling about a rule file without rules. -/
inductive RuleNotice where
  /-- The file is blank. -/
  | emptyFile
  /-- The file has no list of rules. -/
  | noRules
deriving Repr, DecidableEq

/-- The text of a notice. -/
def RuleNotice.text : RuleNotice → String
  | .emptyFile => "Rule file is empty; documents will pass through unchanged"
  | .noRules => "Rule file has no \x60rules\x60 key; documents will pass through unchanged"

/-- What a rule file holds. -/
structure RuleFile where
  /-- The rules in order. -/
  rules : List Rule
  /-- What is worth telling about it. -/
  notice : Option RuleNotice
deriving Repr, Inhabited

namespace RuleFile

open Yaml (Node NodeTable Decoding)

/-- A scalar of which nothing is written. -/
def isBlank : Node → Bool
  | .scalar _ text plain => text.isEmpty && plain
  | _ => false

/-- The text of a scalar as it is written. -/
def textOf (t : NodeTable) (n : Node) : Decoding String := do
  match ← Decoding.follow t n with
  | .scalar _ text _ => pure text
  | _ => Decoding.fault "invalid type: expected a string"

/-- The entries of a mapping whose keys are texts, as far as `depth` allows. -/
def fields (t : NodeTable) (depth : Nat) (n : Node) : Decoding (List (String × Node)) := do
  match ← Decoding.follow t n with
  | .mapping _ entries =>
    if depth = 0 then Decoding.fault "recursion limit exceeded"
    else
      entries.mapM fun e => do
        let k ← textOf t e.1
        pure (k, e.2)
  | found => if isBlank found then pure [] else Decoding.fault "invalid type: expected a mapping"

/-- The items of a sequence, as far as `depth` allows. -/
def items (t : NodeTable) (depth : Nat) (n : Node) : Decoding (List Node) := do
  match ← Decoding.follow t n with
  | .sequence _ ns =>
    if depth = 0 then Decoding.fault "recursion limit exceeded" else pure ns
  | found => if isBlank found then pure [] else Decoding.fault "invalid type: expected a sequence"

/-- The node under one of the names, if there is one. -/
def field? (entries : List (String × Node)) (names : List String) : Decoding (Option Node) :=
  match entries.filter fun e => names.contains e.1 with
  | [] => pure none
  | [e] => pure (some e.2)
  | _ => Decoding.fault "duplicate field"

/-- The scalar stands for the lack of a value. -/
def isNull (tag : Option (List UInt8)) (text : String) (plain : Bool) : Decoding Bool :=
  if !plain then pure false
  else
    match tag with
    | none => pure (text.isEmpty || Yaml.Plain.isNullWord text)
    | some bytes =>
      if Yaml.TagMeaning.ofBytes bytes = .null then
        if Yaml.Plain.isNullWord text then pure true
        else Decoding.fault "invalid value: expected null"
      else pure false

/-- Read a node unless it stands for the lack of a value. -/
def optional {α : Type} (t : NodeTable) (read : Node → Decoding α) (n? : Option Node) :
    Decoding (Option α) := do
  match n? with
  | none => pure none
  | some n =>
    let n ← Decoding.follow t n
    let absent ←
      match n with
      | .scalar p text plain => isNull p.tag text plain
      | _ => pure false
    if absent then pure none else some <$> read n

/-- Read a mapping of values. -/
def mapping (t : NodeTable) (depth : Nat) (n : Node) : Decoding Mapping := do
  match ← Decoding.follow t n with
  | .mapping _ entries =>
    match ← Decoding.value t depth (.mapping Yaml.Properties.none entries) with
    | .mapping m => pure m
    | _ => Decoding.fault "invalid type: expected a mapping"
  | found => if isBlank found then pure [] else Decoding.fault "invalid type: expected a mapping"

/-- Read a rule. -/
def rule (t : NodeTable) (depth : Nat) (n : Node) : Decoding Rule := do
  let entries ← fields t depth n
  let inner := depth - 1
  let pattern ←
    match ← field? entries ["match"] with
    | some n => mapping t inner n
    | none => pure []
  let inject ← optional t (mapping t inner) (← field? entries ["inject"])
  let patch ← optional t (textOf t) (← field? entries ["patches", "injectFile"])
  let newResources ←
    match ← field? entries ["newResources"] with
    | some n => do (← items t inner n).mapM (textOf t)
    | none => pure []
  pure ⟨pattern, inject, newResources, patch⟩

/-- Read the rules of a file, if it has a list of them. -/
def document (t : NodeTable) (n : Node) : Decoding (Option (List Rule)) := do
  let depth := Yaml.depthLimit
  let entries ← fields t depth n
  optional t (fun n => do (← items t (depth - 1) n).mapM (rule t (depth - 2)))
    (← field? entries ["rules"])

/-- Read the rules of a text, if it has a list of them. -/
def decode (text : String) : Except Yaml.Fault (Option (List Rule)) := do
  match ← Node.ofText text with
  | none => pure none
  | some n => (document (NodeTable.ofNode n) n).run' 0

/-- What a rule file has to look like. -/
def hint : String :=
  "The rule file must be a mapping with a \x60rules\x60 list of \x7bmatch, inject, patches, " ++
    "newResources\x7d entries"

/-- Read a rendered rule file. -/
def parse (text : String) : Except Error RuleFile :=
  if Text.isBlankString text then .ok ⟨[], some .emptyFile⟩
  else
    match decode text with
    | .ok (some rules) => .ok ⟨rules, none⟩
    | .ok none => .ok ⟨[], some .noRules⟩
    | .error f => .error (.rulesParse f.text (some hint))

/-- The name of a rule file in messages. -/
def templateName : String := "rules"

/-- Render a rule file and read it. -/
def renderAndParse (r : Renderer) (text : String) (vars : Mapping) : Except Error RuleFile := do
  let rendered ← r.render templateName text vars none
  parse rendered

end RuleFile

namespace Values

/-- Read values; a blank text and a lack of value are no values. -/
def parse (text : String) : Except Error Mapping :=
  if Text.isBlankString text then .ok []
  else
    match Yaml.decode text with
    | .error f => .error (.yaml f.text)
    | .ok (.mapping m) => .ok m
    | .ok .null => .ok []
    | .ok other =>
      .error (.rulesParse ("values must be a mapping, found " ++ other.typeName) none)

end Values

end ManifestRules
