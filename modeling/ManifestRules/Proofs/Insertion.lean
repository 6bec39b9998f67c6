import ManifestRules.Selector
import Mathlib.Data.List.InsertIdx
/-!
# A document more

A document can be inserted anywhere in a graph. The documents from there on move one further, and
appending and merging do the same as without it (`push_insertAt`, `mergeAt_insertAt`). Queries for
other kinds have the same answers (`sameAnswers_insertAt`).
-/

namespace ManifestRules.Graph

/-- Insert a document before the one at an index, or at the end. -/
def insertAt (g : Graph) (p : Nat) (d : Document) : Graph := .ofList (g.toList.insertIdx p d)

/-- Where a document stands after one has been inserted. -/
def shift (p i : Nat) : Nat := if i < p then i else i + 1

variable {g : Graph} {p : Nat}

/-- The list of documents with one inserted. -/
@[simp] theorem toList_insertAt (g : Graph) (p : Nat) (d : Document) :
    (g.insertAt p d).toList = g.toList.insertIdx p d := rfl

/-- An insertion makes the graph larger by one. -/
theorem size_insertAt (hp : p ≤ g.size) (d : Document) : (g.insertAt p d).size = g.size + 1 := by
  rw [← length_toList] at hp ⊢
  rw [toList_insertAt, List.length_insertIdx_of_le_length hp, length_toList]

/-- The inserted document stands at its index. -/
theorem get?_insertAt_self (hp : p ≤ g.size) (d : Document) : (g.insertAt p d).get? p = some d := by
  rw [← length_toList] at hp
  rw [get?_eq, toList_insertAt, List.getElem?_insertIdx, if_neg (Nat.lt_irrefl p), if_pos rfl,
    if_pos hp]

/-- The other documents are there as before, those from the index on by one further. -/
theorem get?_insertAt_shift (g : Graph) (p : Nat) (d : Document) (i : Nat) :
    (g.insertAt p d).get? (shift p i) = g.get? i := by
  rw [get?_eq, get?_eq, toList_insertAt, List.getElem?_insertIdx, shift]
  by_cases hi : i < p
  · simp only [hi, if_true]
  · have hlt : ¬ i + 1 < p := by omega
    have hne : i + 1 ≠ p := by omega
    simp only [hi, hlt, hne, if_false, Nat.add_sub_cancel]

/-- It does not matter whether an item is inserted before or after another is put at the end. -/
theorem insertIdx_concat {α : Type} {l : List α} {p : Nat} (hp : p ≤ l.length) (a b : α) :
    (l ++ [b]).insertIdx p a = l.insertIdx p a ++ [b] := by
  induction l generalizing p with
  | nil =>
    obtain rfl : p = 0 := Nat.le_zero.mp hp
    rfl
  | cons c l ih =>
    cases p with
    | zero => rfl
    | succ p =>
      have hrest := ih (Nat.le_of_succ_le_succ hp)
      rw [List.cons_append, List.insertIdx_succ_cons, List.insertIdx_succ_cons, hrest,
        List.cons_append]

/-- It does not matter whether a document is inserted before or after another is appended. -/
theorem push_insertAt (hp : p ≤ g.size) (d x : Document) :
    (g.insertAt p d).push x = (g.push x).insertAt p d := by
  rw [← length_toList] at hp
  refine eq_of_toList ?_
  rw [toList_push, toList_insertAt, toList_insertAt, toList_push, insertIdx_concat hp]

/-- It does not matter whether a document is inserted before or after a merge into another one. -/
theorem mergeAt_insertAt (g : Graph) (p : Nat) (d : Document) (i : Nat) (fragment : Mapping) :
    (g.insertAt p d).mergeAt (shift p i) fragment = (g.mergeAt i fragment).insertAt p d := by
  refine eq_of_toList (List.ext_getElem? ?_)
  intro j
  simp only [toList_mergeAt, toList_insertAt, List.getElem?_modify, List.getElem?_insertIdx,
    List.length_modify]
  obtain hj | rfl | hj := Nat.lt_trichotomy j p
  · have hshift : shift p i = j ↔ i = j := by
      rw [shift]
      split <;> omega
    simp only [hj, hshift, if_true]
  · have hshift : shift j i ≠ j := by
      rw [shift]
      split <;> omega
    simp [hshift]
  · have hshift : shift p i = j ↔ i = j - 1 := by
      rw [shift]
      split <;> omega
    have hlt : ¬ j < p := by omega
    have hne : j ≠ p := by omega
    simp only [hlt, hne, hshift, if_false]

/-- An inserted item that is not selected does not change the selection. -/
theorem filter_insertIdx {α : Type} {select : α → Bool} {a : α} (ha : select a = false)
    (l : List α) (p : Nat) : (l.insertIdx p a).filter select = l.filter select := by
  have hnot : ¬ select a = true := by simp [ha]
  induction l generalizing p with
  | nil => cases p <;> simp [ha]
  | cons b l ih =>
    cases p with
    | zero => rw [List.insertIdx_zero, List.filter_cons_of_neg hnot]
    | succ p => rw [List.insertIdx_succ_cons, List.filter_cons, List.filter_cons, ih p]

/-- An inserted document does not count among those of another kind. -/
theorem ofKind_insertAt {d : Document} {kind : String}
    (hkind : Text.lowerString kind ≠ Text.lowerString d.kind) (g : Graph) (p : Nat) :
    (g.insertAt p d).ofKind kind = g.ofKind kind := by
  rw [ofKind, ofKind, toList_insertAt, filter_insertIdx]
  exact beq_false_of_ne hkind.symm

/-- Two graphs give the same answers to all queries but those for one kind, in whatever case. -/
def SameAnswers (kind : String) (g h : Graph) : Prop :=
  ∀ query s, Selector.parse query = .ok s →
    Text.lowerString s.wantedKind ≠ Text.lowerString kind → g.resolve query = h.resolve query

/-- An inserted document changes the answers to queries for its own kind only. -/
theorem sameAnswers_insertAt (g : Graph) (p : Nat) (d : Document) :
    SameAnswers d.kind (g.insertAt p d) g := by
  intro query s hs hkind
  simp only [Graph.resolve, hs, Except.map, Selector.resolve, ofKind_insertAt hkind]

end ManifestRules.Graph
