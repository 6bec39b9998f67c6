import ManifestRules.Graph
/-!
# Templates seen from outside

The engine knows templates by reference only. A source turns a reference into
the text of a template, and a renderer turns that text into the text of
documents. Both are parameters of the engine.
-/

namespace ManifestRules

/-- Where the texts of templates come from. -/
structure TemplateSource where
  /-- The text for a reference. -/
  load : String → Except Error String

/-- How templates are turned into text. -/
structure Renderer where
  /-- Render a template, given its name for messages, its text, the variables
  and the graph whose documents it may ask about. -/
  render : (name text : String) → (vars : Mapping) → Option Graph → Except Error String
  /-- Check that a text is a template, given its name for messages. -/
  check : (name text : String) → Except Error Unit

namespace TemplateSource

/-- Templates held in memory; a reference has at most one text. -/
def ofList (templates : List (String × String)) : TemplateSource where
  load reference :=
    match templates.find? fun t => t.1 == reference with
    | some t => .ok t.2
    | none => .error (.templateNotFound reference "not present in template store")

end TemplateSource

end ManifestRules
