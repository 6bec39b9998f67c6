import ManifestRules.Value
/-!
# Rules

A rule has a pattern and what is done to every document that contains it: a
fragment is merged into the document, templates make new documents, and the
rendering of one more template is merged into the document.
-/

namespace ManifestRules

/-- One rule. -/
structure Rule where
  /-- What a document has to contain. -/
  pattern : Mapping
  /-- The fragment that is merged into the document. -/
  inject : Option Mapping
  /-- The templates of new documents, in order. -/
  newResources : List String
  /-- The template whose rendering is merged into the document. -/
  patch : Option String
deriving Repr, Inhabited

namespace Rule

/-- The templates that a rule refers to, those of new documents first. -/
def references (r : Rule) : List String := r.newResources ++ r.patch.toList

/-- The rule has an effect. -/
def hasEffect (r : Rule) : Bool :=
  r.inject.isSome || !r.newResources.isEmpty || r.patch.isSome

end Rule

end ManifestRules
