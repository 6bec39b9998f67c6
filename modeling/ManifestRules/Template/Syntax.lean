import ManifestRules.Json
/-!
# Templates

A template is text with tags in it. A tag writes a value, calls a helper, or is
one end of a block, whose body a helper may write any number of times. Values
are given by references into the data, by literals and by helper calls. A
fragment is a part of a template that gets a name; inclusions put it in.
-/

namespace ManifestRules.Template

/-- A step of a reference. -/
inductive Segment where
  /-- The data as a whole. -/
  | root
  /-- The variables of a block instead of its value. -/
  | local
  /-- The block around. -/
  | up
  /-- The part with this name. -/
  | name (s : String)
deriving Repr, DecidableEq, Inhabited

/-- A reference into the data. -/
structure Reference where
  /-- The reference as it is written. -/
  text : String
  /-- Its steps. -/
  segments : List Segment
deriving Repr, DecidableEq, Inhabited

/-- Something that has a value. -/
inductive Expr where
  /-- A reference. -/
  | reference (r : Reference)
  /-- A literal. -/
  | literal (v : Json)
  /-- A helper call. -/
  | call (helper : String) (args : List Expr) (options : List (String × Expr))
deriving Repr, Inhabited

/-- A helper call at the start of a block, with the names that it gives to what
the block goes through. -/
structure Head where
  /-- The helper. -/
  helper : String
  /-- Its arguments. -/
  args : List Expr
  /-- Its named arguments. -/
  options : List (String × Expr)
  /-- The names for the block. -/
  names : List String
  /-- The tag has a line of its own. -/
  ownLine : Bool
deriving Repr, Inhabited

/-- A tag that puts a fragment in. -/
structure Inclusion where
  /-- The name of the fragment as it is written, which a closing tag repeats. -/
  label : String
  /-- The name of the fragment. -/
  name : Expr
  /-- The arguments, of which the first is the value for the fragment. -/
  args : List Expr
  /-- What is added to that value. -/
  options : List (String × Expr)
  /-- The white space that the lines of the fragment start with. -/
  margin : String
  /-- The tag has a line of its own. -/
  ownLine : Bool
deriving Repr, Inhabited

/-- A part of a template. -/
inductive Element where
  /-- Text that is written as it is. -/
  | text (s : String)
  /-- The value of a tag without arguments. -/
  | value (e : Expr)
  /-- A helper call that writes. -/
  | call (helper : String) (args : List Expr) (options : List (String × Expr))
  /-- A block with its body and what stands behind `else`. -/
  | block (head : Head) (body : List Element) (inverse : Option (List Element))
  /-- A fragment put in, with the body that the tag may have for it. -/
  | inclusion (i : Inclusion) (body : Option (List Element))
  /-- A directive, which writes nothing; the body of `inline` becomes a fragment. -/
  | directive (head : Head) (body : Option (List Element))
deriving Repr, Inhabited

end ManifestRules.Template
