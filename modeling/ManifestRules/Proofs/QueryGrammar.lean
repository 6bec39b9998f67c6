import ManifestRules.Selector
import Mathlib.Data.List.Basic
/-!
# The grammar of queries

Whether a text is a query, and of which form, depends on nothing but its ampersands and on the dots
between them (`Selector.HasForm`): white space around the clauses holds neither, and any clause may
be empty otherwise. Reading a text succeeds exactly on the texts of these forms, and fails on all
others with the text itself in the error (`Selector.parse_iff_hasForm`).
-/

namespace ManifestRules

namespace Text

/-- A separator in front opens a new piece, any other character belongs to the first one. -/
theorem splitAt_cons (separator c : Char) (rest : List Char) :
    splitAt separator (c :: rest) =
      if c = separator then [] :: splitAt separator rest
      else (splitAt separator rest).modifyHead (c :: ·) := by
  have hne : splitAt separator rest ≠ [] := by
    cases rest with
    | nil => exact List.cons_ne_nil _ _
    | cons d rest =>
      rw [splitAt]
      split
      · exact List.cons_ne_nil _ _
      · split <;> exact List.cons_ne_nil _ _
  rw [splitAt]
  cases hrest : splitAt separator rest with
  | nil => exact absurd hrest hne
  | cons piece more => rfl

/-- The pieces of a text are those of the list of its characters. -/
theorem splitAt_eq_splitOn (separator : Char) (s : List Char) :
    splitAt separator s = s.splitOn separator := by
  induction s with
  | nil => rfl
  | cons c rest ih =>
    simp only [splitAt_cons, List.splitOn_cons_eq_if_modifyHead, ih, beq_iff_eq]

/-- There is one piece more than there are separators. -/
theorem length_splitAt (separator : Char) (s : List Char) :
    (splitAt separator s).length = s.count separator + 1 := by
  induction s with
  | nil => rfl
  | cons c rest ih =>
    rw [splitAt_cons]
    by_cases hc : c = separator
    · rw [if_pos hc, List.length_cons, ih, hc, List.count_cons_self]
    · rw [if_neg hc, List.length_modifyHead, ih, List.count_cons_of_ne hc]

/-- No piece of a text holds the separator. -/
theorem notMem_of_mem_splitAt {separator : Char} {s piece : List Char}
    (hpiece : piece ∈ splitAt separator s) : separator ∉ piece := by
  induction s generalizing piece with
  | nil =>
    rw [List.mem_singleton.mp hpiece]
    exact List.not_mem_nil
  | cons c rest ih =>
    rw [splitAt_cons] at hpiece
    split at hpiece
    · rcases List.mem_cons.mp hpiece with rfl | hpiece
      · exact List.not_mem_nil
      · exact ih hpiece
    · rename_i hc
      cases hrest : splitAt separator rest with
      | nil => simp [hrest] at hpiece
      | cons first more =>
        rw [hrest] at ih hpiece
        rcases List.mem_cons.mp hpiece with rfl | hpiece
        · exact List.not_mem_cons_of_ne_of_not_mem (Ne.symm hc) (ih List.mem_cons_self)
        · exact ih (List.mem_cons_of_mem _ hpiece)

/-- The pieces of a text are the texts without the separator that it is joined of. -/
theorem splitAt_eq_iff {separator : Char} {s : List Char} {pieces : List (List Char)}
    (hpieces : pieces ≠ []) :
    splitAt separator s = pieces ↔
      s = [separator].intercalate pieces ∧ ∀ piece ∈ pieces, separator ∉ piece := by
  constructor
  · rintro rfl
    refine ⟨?_, fun piece => notMem_of_mem_splitAt⟩
    rw [splitAt_eq_splitOn, List.intercalate_splitOn]
  · rintro ⟨rfl, hnone⟩
    rw [splitAt_eq_splitOn, List.splitOn_intercalate separator hnone hpieces]

/-- A text has two pieces if it is joined of them by the separator, which is in none of them. -/
theorem splitAt_eq_pair_iff {separator : Char} {s first second : List Char} :
    splitAt separator s = [first, second] ↔
      s = first ++ separator :: second ∧ separator ∉ first ∧ separator ∉ second := by
  rw [splitAt_eq_iff (List.cons_ne_nil _ _)]
  simp [List.intercalate]

/-- A text has three pieces if it is joined of them by separators, which are in none of them. -/
theorem splitAt_eq_triple_iff {separator : Char} {s first second third : List Char} :
    splitAt separator s = [first, second, third] ↔
      s = first ++ separator :: (second ++ separator :: third) ∧ separator ∉ first ∧
        separator ∉ second ∧ separator ∉ third := by
  rw [splitAt_eq_iff (List.cons_ne_nil _ _)]
  simp [List.intercalate]

/-- Only a text without the separator cannot be cut at it. -/
theorem splitOnce_eq_none_iff {separator : Char} {s : List Char} :
    splitOnce separator s = none ↔ separator ∉ s := by
  induction s with
  | nil => simp [splitOnce]
  | cons c rest ih =>
    rw [splitOnce]
    split
    · simp_all
    · rw [Option.map_eq_none_iff, ih, List.mem_cons, not_or]
      exact (and_iff_right (Ne.symm ‹_›)).symm

/-- Trimming takes away nothing but white space. -/
theorem count_trim {c : Char} (hc : isBlank c = false) (s : List Char) :
    (trim s).count c = s.count c := by
  have hdrop : ∀ t : List Char, (t.dropWhile isBlank).count c = t.count c := by
    intro t
    induction t with
    | nil => rfl
    | cons d t ih =>
      rw [List.dropWhile_cons]
      split
      · have hne : d ≠ c := by
          rintro rfl
          simp_all
        rw [ih, List.count_cons_of_ne hne]
      · rfl
  rw [trim, trimEnd, trimStart, List.count_reverse, hdrop, List.count_reverse, hdrop]

end Text

/-- A path text has one segment more than dots. -/
theorem Path.length_split (s : List Char) :
    (split (String.ofList s)).length = s.count '.' + 1 := by
  rw [split, List.length_map, String.toList_ofList, Text.length_splitAt]

namespace Selector

/-- The forms of a query. -/
inductive Form where
  /-- Any document of a kind. -/
  | ofKind
  /-- A document whose path has a given text. -/
  | byValue
  /-- A document whose path leads to a mapping with a given entry. -/
  | byEntry
deriving DecidableEq, Repr

/-- The form of a query that has been read. -/
def form : Selector → Form
  | .kind _ _ => .ofKind
  | .attribute _ _ _ _ => .byValue
  | .mapEntry _ _ _ _ _ => .byEntry

/-- A text has a form of a query, which its ampersands and the dots between them decide. -/
inductive HasForm (query : String) : Form → Prop where
  /-- There is one ampersand, and one dot before it. -/
  | ofKind {left right : List Char} (hquery : query.toList = left ++ '&' :: right)
    (hleft : '&' ∉ left) (hright : '&' ∉ right) (hdots : left.count '.' = 1) :
    HasForm query .ofKind
  /-- There is one ampersand, and there are at least three dots before it. -/
  | byValue {left right : List Char} (hquery : query.toList = left ++ '&' :: right)
    (hleft : '&' ∉ left) (hright : '&' ∉ right) (hdots : 3 ≤ left.count '.') :
    HasForm query .byValue
  /-- There are two ampersands, at least two dots before the first, and a dot between them. -/
  | byEntry {left entry right : List Char}
    (hquery : query.toList = left ++ '&' :: (entry ++ '&' :: right)) (hleft : '&' ∉ left)
    (hentry : '&' ∉ entry) (hright : '&' ∉ right) (hdots : 2 ≤ left.count '.')
    (hdot : '.' ∈ entry) : HasForm query .byEntry

/-- The form that a text has, by the pieces between its ampersands. -/
def formOf? : List (List Char) → Option Form
  | [left, _] =>
    if left.count '.' = 1 then some .ofKind else if 3 ≤ left.count '.' then some .byValue else none
  | [left, entry, _] => if 2 ≤ left.count '.' ∧ '.' ∈ entry then some .byEntry else none
  | _ => none

/-- The form of a text is that of its pieces. -/
theorem hasForm_iff (query : String) (form : Form) :
    HasForm query form ↔ formOf? (Text.splitAt '&' query.toList) = some form := by
  constructor
  · intro h
    cases h with
    | ofKind hquery hleft hright hdots =>
      rw [Text.splitAt_eq_pair_iff.mpr ⟨hquery, hleft, hright⟩, formOf?, if_pos hdots]
    | byValue hquery hleft hright hdots =>
      rw [Text.splitAt_eq_pair_iff.mpr ⟨hquery, hleft, hright⟩, formOf?, if_neg (by omega),
        if_pos hdots]
    | byEntry hquery hleft hentry hright hdots hdot =>
      rw [Text.splitAt_eq_triple_iff.mpr ⟨hquery, hleft, hentry, hright⟩, formOf?,
        if_pos ⟨hdots, hdot⟩]
  · intro h
    match hpieces : Text.splitAt '&' query.toList with
    | [] | [_] | _ :: _ :: _ :: _ :: _ =>
      rw [hpieces] at h
      cases h
    | [left, right] =>
      obtain ⟨hquery, hleft, hright⟩ := Text.splitAt_eq_pair_iff.mp hpieces
      rw [hpieces, formOf?] at h
      split at h
      · cases h
        exact .ofKind hquery hleft hright ‹_›
      · split at h
        · cases h
          exact .byValue hquery hleft hright ‹_›
        · cases h
    | [left, entry, right] =>
      obtain ⟨hquery, hleft, hentry, hright⟩ := Text.splitAt_eq_triple_iff.mp hpieces
      rw [hpieces, formOf?] at h
      split at h
      · rename_i hdots
        cases h
        exact .byEntry hquery hleft hentry hright hdots.1 hdots.2
      · cases h

/-- A text with a form is read as a query of this form; a text without one is refused, and the error
carries the text. -/
inductive Reads (query : String) : Option Form → Except Error Selector → Prop where
  /-- The text is read. -/
  | accepted (s : Selector) : Reads query (some s.form) (.ok s)
  /-- The text is refused. -/
  | refused (message : String) : Reads query none (.error (.selectorSyntax query message))

/-- A query of a form is read exactly where this form is seen. -/
theorem Reads.exists_ok_iff {query : String} {found : Option Form} {result : Except Error Selector}
    (h : Reads query found result) (form : Form) :
    (∃ s, result = .ok s ∧ s.form = form) ↔ found = some form := by
  cases h with
  | accepted s => simp
  | refused message => simp

/-- A text is refused exactly where no form is seen. -/
theorem Reads.exists_error_iff {query : String} {found : Option Form}
    {result : Except Error Selector} (h : Reads query found result) :
    (∃ message, result = .error (.selectorSyntax query message)) ↔ found = none := by
  cases h with
  | accepted s => simp
  | refused message => simp

/-- Two clauses are read by the dots of the first, which stand between its segments. -/
theorem reads_parsePair (query right : String) (left piece : List Char) :
    Reads query (formOf? [left, piece])
      (parsePair query (String.ofList (Text.trim left)) right) := by
  have hdots := Path.length_split (Text.trim left)
  rw [Text.count_trim (by decide)] at hdots
  rw [formOf?, parsePair]
  match hparts : Path.split (String.ofList (Text.trim left)) with
  | [] | [_] | [_, _, _] =>
    rw [hparts] at hdots
    simp only [List.length_cons, List.length_nil] at hdots
    rw [if_neg (by omega), if_neg (by omega)]
    exact .refused _
  | [_, wanted] =>
    rw [hparts] at hdots
    simp only [List.length_cons, List.length_nil] at hdots
    rw [if_pos (by omega)]
    exact .accepted (.kind wanted _)
  | _ :: wanted :: _ :: _ :: _ =>
    rw [hparts] at hdots
    simp only [List.length_cons] at hdots
    rw [if_neg (by omega), if_pos (by omega)]
    exact .accepted (.attribute wanted _ _ _)

/-- Three clauses are read by the dots of the first, if there is one in the second. -/
theorem reads_parseTriple (query right : String) (left entry piece : List Char) :
    Reads query (formOf? [left, entry, piece])
      (parseTriple query (String.ofList (Text.trim left)) (String.ofList (Text.trim entry))
        right) := by
  have hdots := Path.length_split (Text.trim left)
  rw [Text.count_trim (by decide)] at hdots
  have hdot : Text.splitOnce '.' (Text.trim entry) = none ↔ '.' ∉ entry := by
    rw [Text.splitOnce_eq_none_iff, ← List.count_eq_zero, Text.count_trim (by decide),
      List.count_eq_zero]
  rw [formOf?, parseTriple, String.toList_ofList]
  match hparts : Path.split (String.ofList (Text.trim left)) with
  | [] | [_] | [_, _] =>
    rw [hparts] at hdots
    simp only [List.length_cons, List.length_nil] at hdots
    rw [if_neg (by omega)]
    exact .refused _
  | _ :: wanted :: _ :: _ =>
    rw [hparts] at hdots
    simp only [List.length_cons] at hdots
    cases hentry : Text.splitOnce '.' (Text.trim entry) with
    | none =>
      rw [if_neg (fun h => hdot.mp hentry h.2)]
      exact .refused _
    | some parts =>
      have hmem : '.' ∈ entry := by
        by_contra hnone
        rw [hdot.mpr hnone] at hentry
        cases hentry
      rw [if_pos ⟨by omega, hmem⟩]
      exact .accepted (.mapEntry wanted _ _ _ _)

/-- A text is read by its form. -/
theorem reads_parse (query : String) :
    Reads query (formOf? (Text.splitAt '&' query.toList)) (parse query) := by
  rw [parse, clauses]
  match Text.splitAt '&' query.toList with
  | [] | [_] | _ :: _ :: _ :: _ :: _ => exact .refused _
  | [left, right] => exact reads_parsePair query _ left right
  | [left, entry, right] => exact reads_parseTriple query _ left entry right

/-- Reading a text succeeds exactly if the text has a form of a query, and what is read then has
this form. On every other text it fails, and the error carries the text as it is. -/
theorem parse_iff_hasForm (query : String) :
    (∀ form, (∃ s, parse query = .ok s ∧ s.form = form) ↔ HasForm query form) ∧
    ((∃ message, parse query = .error (.selectorSyntax query message)) ↔
      ∀ form, ¬ HasForm query form) := by
  have hreads := reads_parse query
  simp only [hasForm_iff, hreads.exists_error_iff]
  exact ⟨hreads.exists_ok_iff, Option.eq_none_iff_forall_ne_some⟩

/-- The same clause asks for a value with four segments, and is refused with three. -/
example :
    parse "kind.Service.name.web & spec" = .ok (.attribute "Service" ["name"] "web" ["spec"]) ∧
      ∀ s, parse "kind.Service.name & spec" ≠ .ok s := by
  constructor
  · rfl
  · nofun

end Selector

end ManifestRules
