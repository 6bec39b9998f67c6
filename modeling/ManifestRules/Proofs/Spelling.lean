import ManifestRules.Proofs.QueryGrammar
import ManifestRules.Proofs.Trimming
import Mathlib.Data.List.Forall2
/-!
# The spelling of a query

A selector is written with clauses whose segments are joined with dots (`Selector.written`). What can
be written so that it is read back is said of its strings (`Selector.IsWritable`), and nothing else
is ever read: a text is read as a selector if and only if the selector can be written and the text
spells it, with any first segment in the left clause and with any white space around the clauses
(`Selector.parse_iff_spells`).
-/

namespace ManifestRules

/-- A text is cut at the first separator. -/
theorem Text.splitOnce_eq_some_iff {separator : Char} {s before behind : List Char} :
    splitOnce separator s = some (before, behind) ↔
      s = before ++ separator :: behind ∧ separator ∉ before := by
  induction s generalizing before with
  | nil => simp [splitOnce]
  | cons c rest ih =>
    rw [splitOnce]
    by_cases hc : c = separator
    · rw [if_pos hc]
      constructor
      · rintro ⟨⟩
        exact ⟨by rw [hc, List.nil_append], List.not_mem_nil⟩
      · rintro ⟨heq, hnone⟩
        cases before with
        | nil =>
          obtain ⟨-, rfl⟩ := List.cons.inj heq
          rfl
        | cons d before =>
          obtain ⟨rfl, -⟩ := List.cons.inj heq
          exact absurd (hc ▸ List.mem_cons_self) hnone
    · rw [if_neg hc, Option.map_eq_some_iff]
      constructor
      · rintro ⟨⟨start, rest'⟩, hstart, ⟨⟩⟩
        obtain ⟨rfl, hnone⟩ := ih.mp hstart
        exact ⟨rfl, List.not_mem_cons_of_ne_of_not_mem (Ne.symm hc) hnone⟩
      · rintro ⟨heq, hnone⟩
        cases before with
        | nil => exact absurd (List.cons.inj heq).1 hc
        | cons d before =>
          obtain ⟨rfl, hrest⟩ := List.cons.inj heq
          exact ⟨(before, behind), ih.mpr ⟨hrest, fun h => hnone (List.mem_cons_of_mem c h)⟩, rfl⟩

/-- A character that is not white space is in a text exactly if it is in what is left of it. -/
theorem Text.notMem_trim_iff {c : Char} (hc : isBlank c = false) (s : List Char) :
    c ∉ trim s ↔ c ∉ s := by
  rw [← List.count_eq_zero, count_trim hc, List.count_eq_zero]

namespace Path

/-- The text of a path: its segments joined with dots. -/
def join (segments : List String) : String := ".".intercalate segments

/-- A first segment stands before a dot. -/
theorem toList_join_cons (first : String) {rest : List String} (hrest : rest ≠ []) :
    (join (first :: rest)).toList = first.toList ++ '.' :: (join rest).toList := by
  obtain ⟨second, rest, rfl⟩ := List.exists_cons_of_ne_nil hrest
  rw [join, String.intercalate_cons_cons, String.toList_append, String.toList_append,
    List.append_assoc]
  rfl

/-- A character other than the dot is in the text of a path only if it is in a segment. -/
theorem notMem_join_iff {c : Char} (hc : c ≠ '.') (segments : List String) :
    c ∉ (join segments).toList ↔ ∀ s ∈ segments, c ∉ s.toList := by
  induction segments with
  | nil => simp [join]
  | cons first rest ih =>
    by_cases hrest : rest = []
    · subst hrest
      simp [join]
    · rw [toList_join_cons first hrest, List.mem_append, List.mem_cons, List.forall_mem_cons, ← ih,
        not_or, not_or]
      exact and_congr_right fun _ => and_iff_right hc

/-- The segments of a path text are the texts without a dot that it is joined of. -/
theorem split_eq_iff {path : String} {segments : List String} (hne : segments ≠ []) :
    split path = segments ↔ path = join segments ∧ ∀ s ∈ segments, '.' ∉ s.toList := by
  have hlist : split path = segments ↔
      Text.splitAt '.' path.toList = segments.map String.toList := by
    rw [split]
    constructor
    · rintro rfl
      simp [List.map_map, Function.comp_def]
    · intro h
      rw [h, List.map_map]
      simp [Function.comp_def]
  have hjoin : path.toList = ['.'].intercalate (segments.map String.toList) ↔
      path = join segments := by
    rw [← String.toList_inj, join, String.toList_intercalate]
    rfl
  rw [hlist, Text.splitAt_eq_iff (by simpa using hne), hjoin, List.forall_mem_map]

/-- Segments without dots are read back from the path they are joined to. -/
theorem split_join {segments : List String} (hne : segments ≠ [])
    (hdots : ∀ s ∈ segments, '.' ∉ s.toList) : split (join segments) = segments :=
  (split_eq_iff hne).mpr ⟨rfl, hdots⟩

/-- A path text has a segment. -/
theorem split_ne_nil (path : String) : split path ≠ [] := by
  intro hnil
  have hlength := length_split path.toList
  rw [String.ofList_toList, hnil] at hlength
  cases hlength

/-- A path text is joined of its segments. -/
theorem join_split (path : String) :
    join (split path) = path ∧ ∀ s ∈ split path, '.' ∉ s.toList := by
  obtain ⟨hjoin, hdots⟩ := (split_eq_iff (split_ne_nil path)).mp rfl
  exact ⟨hjoin.symm, hdots⟩

end Path

namespace Selector

/-- The paths in a selector. -/
def paths : Selector → List (List String)
  | .kind _ field => [field]
  | .attribute _ path _ field | .mapEntry _ path _ _ field => [path, field]

/-- The strings in a selector that stand between dots when it is written: all but the text of an
entry. -/
def segments : Selector → List String
  | .kind wanted field => wanted :: field
  | .attribute wanted path text field => wanted :: (path ++ text :: field)
  | .mapEntry wanted path key _ field => wanted :: (path ++ key :: field)

/-- All strings in a selector. -/
def strings : Selector → List String
  | .kind wanted field => wanted :: field
  | .attribute wanted path text field => wanted :: (path ++ text :: field)
  | .mapEntry wanted path key text field => wanted :: (path ++ key :: text :: field)

/-- The segments of the left clause behind the first one. -/
def steps : Selector → List String
  | .kind wanted _ => [wanted]
  | .attribute wanted path text _ => wanted :: (path ++ [text])
  | .mapEntry wanted path _ _ _ => wanted :: path

/-- The clauses behind the left one. -/
def laterClauses : Selector → List String
  | .kind _ field | .attribute _ _ _ field => [Path.join field]
  | .mapEntry _ _ key text field => [key ++ "." ++ text, Path.join field]

/-- The clauses that a selector is written with, if the left one has the given first segment. -/
def clausesFrom (first : String) (s : Selector) : List String :=
  Path.join (first :: s.steps) :: s.laterClauses

/-- The text that a selector is written as. -/
def written (s : Selector) : String := " & ".intercalate (s.clausesFrom "kind")

/-- A selector can be written so that it is read back. -/
structure IsWritable (s : Selector) : Prop where
  /-- No path is empty. -/
  paths : ∀ p ∈ s.paths, p ≠ []
  /-- No string holds an ampersand. -/
  ampersands : ∀ t ∈ s.strings, '&' ∉ t.toList
  /-- No string holds a dot, except perhaps the text of an entry. -/
  dots : ∀ t ∈ s.segments, '.' ∉ t.toList
  /-- No clause begins or ends with white space. -/
  trimmed : ∀ c ∈ s.clausesFrom "kind", Text.IsTrimmed c.toList

/-- A text can be the first segment of a left clause. -/
structure StartsClause (first : String) : Prop where
  /-- It holds no ampersand. -/
  ampersand : '&' ∉ first.toList
  /-- It holds no dot. -/
  dot : '.' ∉ first.toList
  /-- It does not begin with white space. -/
  head : ∀ c, first.toList.head? = some c → Text.isBlank c = false

/-- A text holds clauses between ampersands, with white space around them. -/
def HoldsClauses (query : String) (clauses : List String) : Prop :=
  ∃ pieces, query.toList = ['&'].intercalate pieces ∧
    List.Forall₂ (fun clause piece => Text.Pads piece clause.toList) clauses pieces

/-- A text spells a selector: it is what the selector is written as, up to the first segment of the
left clause and white space around the clauses. -/
def Spells (query : String) (s : Selector) : Prop :=
  ∃ first, StartsClause first ∧ HoldsClauses query (s.clausesFrom first)

/-- Two clauses are read as a selector for the kind alone, or for the text of an attribute. -/
theorem parsePair_eq_ok_iff {query left right : String} {s : Selector} :
    parsePair query left right = .ok s ↔
      (∃ first wanted, Path.split left = [first, wanted] ∧ s = .kind wanted (Path.split right)) ∨
      ∃ first wanted path text, path ≠ [] ∧
        Path.split left = first :: wanted :: (path ++ [text]) ∧
        s = .attribute wanted path text (Path.split right) := by
  rw [parsePair]
  constructor
  · intro h
    rcases hleft : Path.split left with _ | ⟨first, _ | ⟨wanted, _ | ⟨second, _ | ⟨third, rest⟩⟩⟩⟩
    case cons.cons.nil =>
      rw [hleft] at h
      exact .inl ⟨first, wanted, rfl, (Except.ok.inj h).symm⟩
    case cons.cons.cons.cons =>
      rw [hleft] at h
      have hsteps : second :: third :: rest =
          (second :: third :: rest).dropLast ++ [(second :: third :: rest).getLast (by simp)] :=
        (List.dropLast_append_getLast _).symm
      exact .inr ⟨first, wanted, _, _, List.cons_ne_nil _ _, congrArg (first :: wanted :: ·) hsteps,
        (Except.ok.inj h).symm⟩
    all_goals
      rw [hleft] at h
      cases h
  · rintro (⟨first, wanted, hleft, rfl⟩ | ⟨first, wanted, path, text, hpath, hleft, rfl⟩)
    · rw [hleft]
    · obtain ⟨second, path, rfl⟩ := List.exists_cons_of_ne_nil hpath
      obtain ⟨third, rest, hrest⟩ := List.exists_cons_of_ne_nil (List.concat_ne_nil text path)
      rw [hleft, List.cons_append, hrest]
      simp only [← hrest, ← List.cons_append, List.dropLast_concat, List.getLast_concat]

/-- Three clauses are read as a selector for an entry. -/
theorem parseTriple_eq_ok_iff {query left entry right : String} {s : Selector} :
    parseTriple query left entry right = .ok s ↔
      ∃ first wanted path key text, path ≠ [] ∧ Path.split left = first :: wanted :: path ∧
        Text.splitOnce '.' entry.toList = some (key.toList, text.toList) ∧
        s = .mapEntry wanted path key text (Path.split right) := by
  rw [parseTriple]
  constructor
  · intro h
    rcases hleft : Path.split left with _ | ⟨first, _ | ⟨wanted, _ | ⟨step, rest⟩⟩⟩
    case cons.cons.cons =>
      rw [hleft] at h
      cases hentry : Text.splitOnce '.' entry.toList with
      | none =>
        rw [hentry] at h
        cases h
      | some parts =>
        rw [hentry] at h
        refine ⟨first, wanted, step :: rest, String.ofList parts.1, String.ofList parts.2,
          List.cons_ne_nil _ _, rfl, ?_, (Except.ok.inj h).symm⟩
        rw [String.toList_ofList, String.toList_ofList]
    all_goals
      rw [hleft] at h
      cases h
  · rintro ⟨first, wanted, path, key, text, hpath, hleft, hentry, rfl⟩
    obtain ⟨step, rest, rfl⟩ := List.exists_cons_of_ne_nil hpath
    simp only [hleft, hentry, String.ofList_toList]

/-- A text with two or three clauses is read by these, and no other is read. -/
theorem parse_eq_ok_iff {query : String} {s : Selector} :
    parse query = .ok s ↔
      (∃ left right, clauses query = [left, right] ∧ parsePair query left right = .ok s) ∨
      ∃ left entry right, clauses query = [left, entry, right] ∧
        parseTriple query left entry right = .ok s := by
  rw [parse]
  rcases clauses query with _ | ⟨first, _ | ⟨second, _ | ⟨third, _ | ⟨fourth, rest⟩⟩⟩⟩ <;> simp

/-- An entry is read as its key and its text if it is the two with a dot between them. -/
theorem splitOnce_entry_iff {entry key text : String} :
    Text.splitOnce '.' entry.toList = some (key.toList, text.toList) ↔
      entry = key ++ "." ++ text ∧ '.' ∉ key.toList := by
  rw [Text.splitOnce_eq_some_iff, ← String.toList_inj]
  simp

/-- A text that is read as a selector has the clauses that this is written with, up to the first
segment, and none of the strings that stand between dots holds one. -/
theorem clauses_of_parse {query : String} {s : Selector} (h : parse query = .ok s) :
    (∀ p ∈ s.paths, p ≠ []) ∧ (∀ t ∈ s.segments, '.' ∉ t.toList) ∧
      ∃ first, '.' ∉ first.toList ∧ clauses query = s.clausesFrom first := by
  obtain ⟨left, right, hclauses, h⟩ | ⟨left, entry, right, hclauses, h⟩ := parse_eq_ok_iff.mp h
  · obtain ⟨hright, hfield⟩ := Path.join_split right
    have hne := Path.split_ne_nil right
    obtain ⟨first, wanted, hleft, rfl⟩ | ⟨first, wanted, path, text, hpath, hleft, rfl⟩ :=
      parsePair_eq_ok_iff.mp h
    · obtain ⟨rfl, hdots⟩ := (Path.split_eq_iff (List.cons_ne_nil _ _)).mp hleft
      simp only [List.forall_mem_cons] at hdots
      obtain ⟨hfirst, hwanted, -⟩ := hdots
      refine ⟨List.forall_mem_singleton.mpr hne, ?_, first, hfirst, ?_⟩
      · exact List.forall_mem_cons.mpr ⟨hwanted, hfield⟩
      · rw [hclauses, clausesFrom, laterClauses, hright, steps]
    · obtain ⟨rfl, hdots⟩ := (Path.split_eq_iff (List.cons_ne_nil _ _)).mp hleft
      simp only [List.forall_mem_cons, List.forall_mem_append] at hdots
      obtain ⟨hfirst, hwanted, hnone, htext, -⟩ := hdots
      refine ⟨?_, ?_, first, hfirst, ?_⟩
      · exact List.forall_mem_cons.mpr ⟨hpath, List.forall_mem_singleton.mpr hne⟩
      · simp only [segments, List.forall_mem_cons, List.forall_mem_append]
        exact ⟨hwanted, hnone, htext, hfield⟩
      · rw [hclauses, clausesFrom, laterClauses, hright, steps]
  · obtain ⟨hright, hfield⟩ := Path.join_split right
    have hne := Path.split_ne_nil right
    obtain ⟨first, wanted, path, key, text, hpath, hleft, hentry, rfl⟩ :=
      parseTriple_eq_ok_iff.mp h
    obtain ⟨rfl, hdots⟩ := (Path.split_eq_iff (List.cons_ne_nil _ _)).mp hleft
    obtain ⟨rfl, hkey⟩ := splitOnce_entry_iff.mp hentry
    simp only [List.forall_mem_cons] at hdots
    obtain ⟨hfirst, hwanted, hnone⟩ := hdots
    refine ⟨?_, ?_, first, hfirst, ?_⟩
    · exact List.forall_mem_cons.mpr ⟨hpath, List.forall_mem_singleton.mpr hne⟩
    · simp only [segments, List.forall_mem_cons, List.forall_mem_append]
      exact ⟨hwanted, hnone, hkey, hfield⟩
    · rw [hclauses, clausesFrom, laterClauses, hright, steps]

/-- The segments of the left clause stand between dots. -/
theorem steps_subset_segments (s : Selector) : s.steps ⊆ s.segments := by
  cases s <;> simp [steps, segments]

/-- The segments of the field stand between dots. -/
theorem field_subset_segments (s : Selector) : s.field ⊆ s.segments := by
  intro t ht
  cases s <;>
    · rw [field] at ht
      simp [segments, ht]

/-- The field is a path. -/
theorem field_mem_paths (s : Selector) : s.field ∈ s.paths := by
  cases s <;> simp [field, paths]

/-- A text with the clauses that a selector is written with, up to the first segment, is read as the
selector, if no path is empty and none of the strings that stand between dots holds one. -/
theorem parse_of_clauses {query first : String} {s : Selector} (hpaths : ∀ p ∈ s.paths, p ≠ [])
    (hdots : ∀ t ∈ s.segments, '.' ∉ t.toList) (hfirst : '.' ∉ first.toList)
    (hclauses : clauses query = s.clausesFrom first) : parse query = .ok s := by
  have hleft : Path.split (Path.join (first :: s.steps)) = first :: s.steps := by
    refine Path.split_join (List.cons_ne_nil _ _) (List.forall_mem_cons.mpr ⟨hfirst, ?_⟩)
    exact fun t ht => hdots t (s.steps_subset_segments ht)
  have hright : Path.split (Path.join s.field) = s.field := by
    refine Path.split_join (hpaths _ s.field_mem_paths) ?_
    exact fun t ht => hdots t (s.field_subset_segments ht)
  rw [parse_eq_ok_iff]
  cases s with
  | kind wanted field =>
    refine .inl ⟨_, _, hclauses, parsePair_eq_ok_iff.mpr (.inl ⟨first, wanted, hleft, ?_⟩)⟩
    exact congrArg _ hright.symm
  | «attribute» wanted path text field =>
    have hpath : path ≠ [] := hpaths path List.mem_cons_self
    refine .inl ⟨_, _, hclauses, parsePair_eq_ok_iff.mpr
      (.inr ⟨first, wanted, path, text, hpath, hleft, ?_⟩)⟩
    exact congrArg _ hright.symm
  | mapEntry wanted path key text field =>
    have hpath : path ≠ [] := hpaths path List.mem_cons_self
    have hkey : '.' ∉ key.toList := hdots key (by simp [segments])
    have hentry : Text.splitOnce '.' (key ++ "." ++ text).toList = some (key.toList, text.toList) :=
      splitOnce_entry_iff.mpr ⟨rfl, hkey⟩
    refine .inr ⟨_, _, _, hclauses, parseTriple_eq_ok_iff.mpr
      ⟨first, wanted, path, key, text, hpath, hleft, hentry, ?_⟩⟩
    exact congrArg _ hright.symm

/-- The clauses of a text are those that it holds between ampersands, with white space around them. -/
theorem clauses_eq_iff {query : String} {cs : List String} (hne : cs ≠ []) :
    clauses query = cs ↔
      (∀ c ∈ cs, '&' ∉ c.toList) ∧ (∀ c ∈ cs, Text.IsTrimmed c.toList) ∧ HoldsClauses query cs := by
  have htrimmed : ∀ pieces : List (List Char),
      cs = pieces.map (fun piece => String.ofList (Text.trim piece)) ↔
        (∀ c ∈ cs, Text.IsTrimmed c.toList) ∧
          List.Forall₂ (fun clause piece => Text.Pads piece clause.toList) cs pieces := by
    intro pieces
    rw [← List.forall₂_eq_eq_eq, List.forall₂_map_right_iff, ← List.forall₂_and_left]
    simp only [← String.toList_inj, String.toList_ofList, ← Text.trim_eq_iff, eq_comm]
  have hnone : ∀ pieces : List (List Char),
      cs = pieces.map (fun piece => String.ofList (Text.trim piece)) →
        ((∀ c ∈ cs, '&' ∉ c.toList) ↔ ∀ piece ∈ pieces, '&' ∉ piece) := by
    rintro pieces rfl
    simp only [List.forall_mem_map, String.toList_ofList, Text.notMem_trim_iff (c := '&') (by decide)]
  rw [clauses, eq_comm]
  constructor
  · intro hcs
    obtain ⟨htrim, hpads⟩ := (htrimmed _).mp hcs
    have hpieces : Text.splitAt '&' query.toList ≠ [] := by
      intro hnil
      rw [hnil] at hcs
      exact hne hcs
    obtain ⟨hquery, hamp⟩ := (Text.splitAt_eq_iff hpieces).mp rfl
    exact ⟨(hnone _ hcs).mpr hamp, htrim, _, hquery, hpads⟩
  · rintro ⟨hamp, htrim, pieces, hquery, hpads⟩
    have hcs := (htrimmed pieces).mpr ⟨htrim, hpads⟩
    have hpieces : pieces ≠ [] := by
      rintro rfl
      exact hne hcs
    rw [(Text.splitAt_eq_iff hpieces).mpr ⟨hquery, (hnone pieces hcs).mp hamp⟩]
    exact hcs

/-- There is no ampersand in the clauses if there is none in the first segment and none in the
strings of the selector. -/
theorem ampersand_notMem_clausesFrom_iff {first : String} {s : Selector} :
    (∀ c ∈ s.clausesFrom first, '&' ∉ c.toList) ↔
      '&' ∉ first.toList ∧ ∀ t ∈ s.strings, '&' ∉ t.toList := by
  have hjoin := Path.notMem_join_iff (c := '&') (by decide)
  have hentry : ∀ key text : String, '&' ∉ (key ++ "." ++ text).toList ↔
      '&' ∉ key.toList ∧ '&' ∉ text.toList := by
    intro key text
    simp
  cases s <;>
    simp only [clausesFrom, steps, laterClauses, strings, hjoin, hentry, List.forall_mem_cons,
      List.forall_mem_append, List.not_mem_nil, IsEmpty.forall_iff, implies_true, and_true, and_assoc]

/-- A clause is trimmed if its first segment does not begin with white space and what follows does
not end with it. -/
theorem isTrimmed_join_cons_iff {first : String} {rest : List String} (hrest : rest ≠ []) :
    Text.IsTrimmed (Path.join (first :: rest)).toList ↔
      (∀ c, first.toList.head? = some c → Text.isBlank c = false) ∧
        ∀ c, ('.' :: (Path.join rest).toList).getLast? = some c → Text.isBlank c = false := by
  rw [Path.toList_join_cons first hrest]
  constructor
  · intro h
    refine ⟨fun c hc => h.head c ?_, fun c hc => h.last c ?_⟩
    · rw [List.head?_append, hc, Option.some_or]
    · rw [List.getLast?_append, hc, Option.some_or]
  · rintro ⟨hhead, hlast⟩
    refine ⟨fun c hc => ?_, fun c hc => hlast c ?_⟩
    · rw [List.head?_append, Option.or_eq_some_iff] at hc
      obtain hc | ⟨-, ⟨⟩⟩ := hc
      · exact hhead c hc
      · decide
    · rwa [List.getLast?_append_of_ne_nil _ (List.cons_ne_nil _ _)] at hc

/-- The clauses are trimmed if they are so for some first segment, and this one does not begin with
white space. -/
theorem isTrimmed_clausesFrom_iff {first : String} {s : Selector} :
    (∀ c ∈ s.clausesFrom first, Text.IsTrimmed c.toList) ↔
      (∀ c, first.toList.head? = some c → Text.isBlank c = false) ∧
        ∀ c ∈ s.clausesFrom "kind", Text.IsTrimmed c.toList := by
  have hsteps : s.steps ≠ [] := by cases s <;> exact List.cons_ne_nil _ _
  have hkind : ∀ c, "kind".toList.head? = some c → Text.isBlank c = false := by
    rintro c ⟨⟩
    decide
  rw [clausesFrom, clausesFrom, List.forall_mem_cons, List.forall_mem_cons,
    isTrimmed_join_cons_iff hsteps, isTrimmed_join_cons_iff hsteps, and_iff_right hkind, and_assoc]

/-- Clauses that are written one after the other, with an ampersand between spaces in between, are
the clauses that the text holds. -/
theorem holdsClauses_intercalate {clauses : List String} (hne : clauses ≠ []) :
    HoldsClauses (" & ".intercalate clauses) clauses := by
  have hspace : ∀ c ∈ [' '], Text.isBlank c = true := List.forall_mem_singleton.mpr rfl
  -- The space behind an ampersand belongs to the next piece, so there may be one before the first.
  have hspaced : ∀ before : List Char, (∀ c ∈ before, Text.isBlank c = true) →
      ∃ pieces, pieces ≠ [] ∧
        before ++ (" & ".intercalate clauses).toList = ['&'].intercalate pieces ∧
        List.Forall₂ (fun clause piece => Text.Pads piece clause.toList) clauses pieces := by
    induction clauses with
    | nil => exact absurd rfl hne
    | cons first rest ih =>
      intro before hbefore
      cases rest with
      | nil =>
        refine ⟨[before ++ first.toList], List.cons_ne_nil _ _, by simp, .cons ?_ .nil⟩
        exact ⟨before, [], by rw [List.append_nil], hbefore, nofun⟩
      | cons second rest =>
        obtain ⟨pieces, hpieces, hjoined, hpads⟩ := ih (List.cons_ne_nil _ _) [' '] hspace
        refine ⟨(before ++ (first.toList ++ [' '])) :: pieces, List.cons_ne_nil _ _, ?_,
          .cons ⟨before, [' '], rfl, hbefore, hspace⟩ hpads⟩
        obtain ⟨piece, pieces, rfl⟩ := List.exists_cons_of_ne_nil hpieces
        rw [List.intercalate_cons_cons, ← hjoined, String.intercalate_cons_cons]
        simp
  obtain ⟨pieces, -, hjoined, hpads⟩ := hspaced [] nofun
  exact ⟨pieces, hjoined, hpads⟩

/-- What a selector is written as spells it. -/
theorem spells_written (s : Selector) : Spells s.written s := by
  refine ⟨"kind", ⟨by decide, by decide, ?_⟩, holdsClauses_intercalate (List.cons_ne_nil _ _)⟩
  rintro c ⟨⟩
  decide

/-- What a selector is written as is read back as the selector if and only if it can be written. Only
such selectors are read from any text, and a text is read as a selector exactly if it is what the
selector is written as, up to the first segment of the left clause and white space around the
clauses. -/
theorem parse_iff_spells (s : Selector) :
    (parse s.written = .ok s ↔ s.IsWritable) ∧
    ∀ query, parse query = .ok s ↔ s.IsWritable ∧ Spells query s := by
  have hread : ∀ query, parse query = .ok s ↔ s.IsWritable ∧ Spells query s := by
    intro query
    constructor
    · intro h
      obtain ⟨hpaths, hdots, first, hfirst, hclauses⟩ := clauses_of_parse h
      obtain ⟨hamp, htrim, hholds⟩ := (clauses_eq_iff (List.cons_ne_nil _ _)).mp hclauses
      obtain ⟨hamp, hstrings⟩ := ampersand_notMem_clausesFrom_iff.mp hamp
      obtain ⟨hhead, htrim⟩ := isTrimmed_clausesFrom_iff.mp htrim
      exact ⟨⟨hpaths, hstrings, hdots, htrim⟩, first, ⟨hamp, hfirst, hhead⟩, hholds⟩
    · rintro ⟨⟨hpaths, hstrings, hdots, htrim⟩, first, ⟨hamp, hfirst, hhead⟩, hholds⟩
      refine parse_of_clauses hpaths hdots hfirst
        ((clauses_eq_iff (List.cons_ne_nil _ _)).mpr ⟨?_, ?_, hholds⟩)
      · exact ampersand_notMem_clausesFrom_iff.mpr ⟨hamp, hstrings⟩
      · exact isTrimmed_clausesFrom_iff.mpr ⟨hhead, htrim⟩
  exact ⟨(hread s.written).trans (and_iff_left s.spells_written), hread⟩

/-- A query with another first segment, with other white space and with a dot in the text of an entry
is read as a selector that is written with the usual ones. -/
example :
    parse "\tmy.ConfigMap.data&mode.v1.2 & spec. " =
      .ok (.mapEntry "ConfigMap" ["data"] "mode" "v1.2" ["spec", ""]) ∧
    (mapEntry "ConfigMap" ["data"] "mode" "v1.2" ["spec", ""]).written =
      "kind.ConfigMap.data & mode.v1.2 & spec." :=
  ⟨rfl, by decide +kernel⟩

end Selector

end ManifestRules
