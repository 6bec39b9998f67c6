import ManifestRules.Error
import ManifestRules.Merge
import ManifestRules.Path
import ManifestRules.Pattern
import ManifestRules.Text.Case
/-!
# Documents and the graph

A document is a mapping with a kind, captured when the document is made. The
graph holds documents in order; it grows at its end, and the body of a
document may change, but none is ever removed or moved.
-/

namespace ManifestRules

/-- One manifest. -/
structure Document where
  /-- The kind it had when it was made. -/
  kind : String
  /-- Its body, which later merges may change. -/
  body : Mapping
deriving Repr, Inhabited

namespace Document

/-- The plain text key under which a body holds its kind. -/
def kindKey : Value := .string "kind"

/-- The kind that a body gives: a text that is not empty, possibly tagged. -/
def kindOf? (body : Mapping) : Option String :=
  match (body.get? kindKey).map Value.untagged with
  | some (.string kind) => if kind.isEmpty then none else some kind
  | _ => none

/-- Make a document of a mapping. The source is shown when it has no kind. -/
def ofBody (body : Mapping) (source : String) : Except Error Document :=
  match kindOf? body with
  | some kind => .ok ⟨kind, body⟩
  | none => .error (.missingKind source)

/-- Make a document of a decoded value, which has to be an untagged mapping. -/
def ofValue (v : Value) (source : String) : Except Error Document :=
  match v with
  | .mapping body => ofBody body source
  | other =>
    .error (.parse ("expected a mapping but found " ++ other.typeName ++ ":\n" ++ source)
      (some "Each document must be a YAML mapping with a `kind` field"))

/-- Merge a fragment into the body. -/
def merge (d : Document) (fragment : Mapping) : Document :=
  { d with body := Mapping.merge d.body fragment }

/-- The captured kind does not follow a merge. -/
@[simp] theorem merge_kind (d : Document) (fragment : Mapping) :
    (d.merge fragment).kind = d.kind := rfl

end Document

/-- Documents in the order they were read or created. -/
structure Graph where
  /-- The documents. -/
  documents : Array Document
deriving Repr, Inhabited

namespace Graph

/-- The graph without documents. -/
def empty : Graph := ⟨#[]⟩

/-- The graph of a list of documents. -/
def ofList (documents : List Document) : Graph := ⟨documents.toArray⟩

/-- The documents as a list. -/
def toList (g : Graph) : List Document := g.documents.toList

/-- How many documents there are. -/
def size (g : Graph) : Nat := g.documents.size

/-- Append a document. -/
def push (g : Graph) (d : Document) : Graph := ⟨g.documents.push d⟩

/-- The document at an index. -/
def get? (g : Graph) (i : Nat) : Option Document := g.documents[i]?

/-- Merge a fragment into the document at an index; nothing changes when there is none. -/
def mergeAt (g : Graph) (i : Nat) (fragment : Mapping) : Graph :=
  ⟨g.documents.modify i fun d => d.merge fragment⟩

/-- The documents of a kind in order; case does not count. -/
def ofKind (g : Graph) (kind : String) : List Document :=
  let wanted := Text.lowerString kind
  g.toList.filter fun d => Text.lowerString d.kind == wanted

/-- A look-up by index is one in the list of documents. -/
theorem get?_eq (g : Graph) (i : Nat) : g.get? i = g.toList[i]? :=
  (Array.getElem?_toList).symm

/-- The list of documents is as long as the graph. -/
@[simp] theorem length_toList (g : Graph) : g.toList.length = g.size :=
  Array.length_toList

/-- There is a document at every index before the size. -/
theorem exists_get? {g : Graph} {i : Nat} (hi : i < g.size) : ∃ d, g.get? i = some d :=
  ⟨g.documents[i], Array.getElem?_eq_getElem hi⟩

/-- Every document stands at an index before the size. -/
theorem lt_size_of_get? {g : Graph} {i : Nat} {d : Document} (hd : g.get? i = some d) :
    i < g.size :=
  (Array.getElem?_eq_some_iff.mp hd).1

/-- Graphs with the same documents in the same order are equal. -/
theorem eq_of_toList {g h : Graph} (hlist : g.toList = h.toList) : g = h :=
  congrArg Graph.mk (Array.toList_inj.mp hlist)

/-- The graph of a list holds the documents of the list. -/
@[simp] theorem toList_ofList (ds : List Document) : (ofList ds).toList = ds := rfl

/-- The graph of a list is as large as the list is long. -/
@[simp] theorem size_ofList (ds : List Document) : (ofList ds).size = ds.length :=
  List.size_toArray

/-- An appended document stands at the end. -/
@[simp] theorem toList_push (g : Graph) (d : Document) : (g.push d).toList = g.toList ++ [d] :=
  Array.toList_push

/-- Appending makes the graph larger by one. -/
@[simp] theorem size_push (g : Graph) (d : Document) : (g.push d).size = g.size + 1 :=
  Array.size_push d

/-- A merge changes the document at its index in the list. -/
theorem toList_mergeAt (g : Graph) (i : Nat) (fragment : Mapping) :
    (g.mergeAt i fragment).toList = g.toList.modify i fun d => d.merge fragment :=
  Array.toList_modify ..

/-- What all documents and one more have in common holds when this one is appended. -/
theorem forall_mem_push {P : Document → Prop} {g : Graph} (hg : ∀ d ∈ g.toList, P d) {d : Document}
    (hd : P d) : ∀ x ∈ (g.push d).toList, P x := by
  rw [toList_push, List.forall_mem_append, List.forall_mem_singleton]
  exact ⟨hg, hd⟩

/-- What all documents have in common holds after a merge that keeps it. -/
theorem forall_mem_mergeAt {P : Document → Prop} {g : Graph} (hg : ∀ d ∈ g.toList, P d)
    {fragment : Mapping} (hmerge : ∀ d, P d → P (d.merge fragment)) (i : Nat) :
    ∀ x ∈ (g.mergeAt i fragment).toList, P x := by
  intro x hx
  rw [toList_mergeAt] at hx
  obtain ⟨j, hj⟩ := List.mem_iff_getElem?.mp hx
  rw [List.getElem?_modify] at hj
  obtain ⟨d, hd, rfl⟩ := Option.map_eq_some_iff.mp hj
  have hold : P d := hg d (List.mem_of_getElem? hd)
  split
  · exact hmerge d hold
  · exact hold

/-- A merge keeps the number of documents. -/
@[simp] theorem size_mergeAt (g : Graph) (i : Nat) (fragment : Mapping) :
    (g.mergeAt i fragment).size = g.size :=
  Array.size_modify

end Graph

end ManifestRules
