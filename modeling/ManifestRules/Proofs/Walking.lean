import ManifestRules.Proofs.Naming
/-!
# Walks segment by segment

A segment leads from a value to one of its parts (`Value.Leads`), or it cannot be followed
(`Value.Stops`); which of the two it is depends on the value alone. So a walk can be cut anywhere, it
ends at the first segment that cannot be followed, and a walk from a mapping that is not put into a
value shows the same as one from the value (`Path.walk_by_segments`).
-/

namespace ManifestRules

namespace Value

/-- A segment leads from a value, looked at without its tags, to one of its parts. -/
inductive Leads (v : Value) (segment : String) : Value → Prop where
  /-- It is the name of an entry. -/
  | entry {m : Mapping} {next : Value} (hv : v.untagged = .mapping m)
    (hnext : m.getByName? segment = some next) : Leads v segment next
  /-- It is the index of an item. -/
  | item {items : List Value} {i : Nat} {next : Value} (hv : v.untagged = .sequence items)
    (hi : Path.readIndex? segment = some i) (hnext : items[i]? = some next) : Leads v segment next

/-- A segment cannot be followed from a value, and the outcome says so. -/
inductive Stops (v : Value) (segment : String) : Lookup → Prop where
  /-- No entry has the name. -/
  | missing {m : Mapping} (hv : v.untagged = .mapping m) (hnone : m.getByName? segment = none) :
    Stops v segment (.missing segment)
  /-- It is no index, or there are not so many items. -/
  | invalidIndex {items : List Value} (hv : v.untagged = .sequence items)
    (hnone : ∀ i, Path.readIndex? segment = some i → items.length ≤ i) :
    Stops v segment (.invalidIndex segment)
  /-- The value has no parts. -/
  | unexpectedNode (hmapping : ∀ m, v.untagged ≠ .mapping m)
    (hsequence : ∀ items, v.untagged ≠ .sequence items) : Stops v segment (.unexpectedNode segment)

/-- The segments of a path lead to a value, one after the other. -/
inductive LeadsAlong : Value → List String → Value → Prop where
  /-- No segment leads away. -/
  | nil (v : Value) : LeadsAlong v [] v
  /-- The first segment leads to a value from which the others lead on. -/
  | cons {v next w : Value} {segment : String} {rest : List String} (hfirst : v.Leads segment next)
    (hrest : LeadsAlong next rest w) : LeadsAlong v (segment :: rest) w

/-- How a walk ends: with the value that the path leads to, or at its first segment that cannot be
followed. -/
inductive Ends (v : Value) (path : List String) : Lookup → Prop where
  /-- All segments are followed. -/
  | found {w : Value} (hpath : v.LeadsAlong path w) : Ends v path (.found w)
  /-- The segments before one are followed, and that one is not. -/
  | stop {before behind : List String} {segment : String} {w : Value} {outcome : Lookup}
    (hpath : path = before ++ segment :: behind) (hbefore : v.LeadsAlong before w)
    (hstop : w.Stops segment outcome) : Ends v path outcome

/-- A segment leads to a part of a value, or it cannot be followed from there. -/
theorem leads_or_stops (v : Value) (segment : String) :
    (∃ next, v.Leads segment next) ∨ ∃ stop, v.Stops segment stop := by
  cases hv : v.untagged with
  | mapping m =>
    cases hnext : Mapping.getByName? m segment with
    | some next => exact .inl ⟨next, .entry hv hnext⟩
    | none => exact .inr ⟨.missing segment, .missing hv hnext⟩
  | sequence items =>
    cases hi : Path.readIndex? segment with
    | some i =>
      cases hnext : items[i]? with
      | some next => exact .inl ⟨next, .item hv hi hnext⟩
      | none =>
        refine .inr ⟨.invalidIndex segment, .invalidIndex hv fun j hj => ?_⟩
        cases hi.symm.trans hj
        exact List.getElem?_eq_none_iff.mp hnext
    | none =>
      exact .inr ⟨.invalidIndex segment, .invalidIndex hv fun j hj => nomatch hi.symm.trans hj⟩
  | _ => exact .inr ⟨.unexpectedNode segment, .unexpectedNode (by simp [hv]) (by simp [hv])⟩

/-- A path ends as it does behind its first segment, if that one leads on. -/
theorem Ends.cons {v next : Value} {segment : String} {rest : List String} {outcome : Lookup}
    (hfirst : v.Leads segment next) (hrest : next.Ends rest outcome) :
    v.Ends (segment :: rest) outcome := by
  cases hrest with
  | found hpath => exact .found (.cons hfirst hpath)
  | stop hpath hbefore hstop =>
    exact .stop (congrArg (segment :: ·) hpath) (.cons hfirst hbefore) hstop

end Value

namespace Path

/-- A walk follows a segment that leads on. -/
theorem walk_cons_of_leads {v next : Value} {segment : String} (h : v.Leads segment next)
    (rest : List String) : walk v (segment :: rest) = walk next rest := by
  cases h with
  | entry hv hnext => simp only [walk, hv, hnext]
  | item hv hi hnext => simp only [walk, hv, hi, Option.bind_some, hnext]

/-- A walk ends at a segment that cannot be followed. -/
theorem walk_cons_of_stops {v : Value} {segment : String} {stop : Lookup}
    (h : v.Stops segment stop) (rest : List String) : walk v (segment :: rest) = stop := by
  cases h with
  | missing hv hnone => simp only [walk, hv, hnone]
  | @invalidIndex items hv hnone =>
    have hitem : ((readIndex? segment).bind fun i => items[i]?) = none := by
      rw [Option.bind_eq_none_iff]
      intro i hi
      exact List.getElem?_eq_none (hnone i hi)
    simp only [walk, hv, hitem]
  | unexpectedNode hmapping hsequence =>
    rw [walk]
    split
    · exact absurd ‹_› (hmapping _)
    · exact absurd ‹_› (hsequence _)
    · rfl

/-- A walk goes on behind the segments that lead to a value. -/
theorem walk_append_of_leadsAlong {v w : Value} {path : List String} (h : v.LeadsAlong path w)
    (more : List String) : walk v (path ++ more) = walk w more := by
  induction h with
  | nil v => rfl
  | cons hfirst _ ih => rw [List.cons_append, walk_cons_of_leads hfirst, ih]

/-- Every walk ends with the value that the path leads to, or at its first segment that cannot be
followed. -/
theorem ends_walk (v : Value) (path : List String) : v.Ends path (walk v path) := by
  induction path generalizing v with
  | nil => exact .found (.nil v)
  | cons segment rest ih =>
    obtain ⟨next, hnext⟩ | ⟨stop, hstop⟩ := v.leads_or_stops segment
    · rw [walk_cons_of_leads hnext]
      exact (ih next).cons hnext
    · rw [walk_cons_of_stops hstop]
      exact .stop (List.nil_append _).symm (.nil v) hstop

/-- The outcome of a walk is the one that it ends with. -/
theorem walk_eq_iff_ends {v : Value} {path : List String} {outcome : Lookup} :
    walk v path = outcome ↔ v.Ends path outcome := by
  constructor
  · rintro rfl
    exact ends_walk v path
  · intro h
    cases h with
    | found hpath =>
      have hwalk := walk_append_of_leadsAlong hpath []
      rwa [List.append_nil] at hwalk
    | stop hpath hbefore hstop =>
      rw [hpath, walk_append_of_leadsAlong hbefore, walk_cons_of_stops hstop]

/-- A walk along two paths goes on from where the first one leads, and ends where that ends. -/
theorem walk_append (v : Value) (path more : List String) :
    walk v (path ++ more) =
      match walk v path with
      | .found w => walk w more
      | stop => stop := by
  cases hwalk : walk v path with
  | found w =>
    cases walk_eq_iff_ends.mp hwalk with
    | found hpath => exact walk_append_of_leadsAlong hpath more
    | stop _ _ hstop => cases hstop
  | _ =>
    cases walk_eq_iff_ends.mp hwalk with
    | stop hpath hbefore hstop =>
      rw [hpath, List.append_assoc, walk_append_of_leadsAlong hbefore, List.cons_append,
        walk_cons_of_stops hstop]

/-- A walk from a mapping, also along the empty path, shows the same value as a walk from the mapping
as a value. -/
theorem value_walkMapping (m : Mapping) (path : List String) :
    (walkMapping m path).value = (walk (.mapping m) path).value := by
  cases path with
  | nil => rfl
  | cons segment rest => rw [walk_mapping_of_ne_nil m (List.cons_ne_nil segment rest)]

/-- A walk from a mapping, also along the empty path, shows the same text as a walk from the mapping
as a value. -/
theorem text_walkMapping (m : Mapping) (path : List String) :
    (walkMapping m path).text = (walk (.mapping m) path).text := by
  cases path with
  | nil => rfl
  | cons segment rest => rw [walk_mapping_of_ne_nil m (List.cons_ne_nil segment rest)]

/-- Walks are made of their segments. A walk along two paths is the walk along the second from where
the first one leads, and the outcome of the first where it does not lead to a value. A walk has an
outcome exactly if all its segments lead on to the value found, or if all segments before one do
and the outcome names that one, which cannot be followed. And a walk from a mapping, also along the
empty path, shows the same value and the same text as a walk from the mapping as a value. -/
theorem walk_by_segments :
    (∀ v path more, walk v (path ++ more) =
      match walk v path with
      | .found w => walk w more
      | stop => stop) ∧
    (∀ v path outcome, walk v path = outcome ↔ v.Ends path outcome) ∧
    ∀ (m : Mapping) (path : List String),
      (walkMapping m path).value = (walk (.mapping m) path).value ∧
        (walkMapping m path).text = (walk (.mapping m) path).text := by
  refine ⟨walk_append, fun v path outcome => walk_eq_iff_ends, fun m path => ?_⟩
  exact ⟨value_walkMapping m path, text_walkMapping m path⟩

end Path

end ManifestRules
