import ManifestRules.Proofs.KeyPath
/-!
# Fragments as patterns

Merging looks a key up as it is, and compares shapes; matching looks it up as it is or by its
name, and compares texts. Nevertheless a fragment that was merged into a mapping is a pattern that
the mapping contains (`Mapping.contains_merge_of_listsApart`), unless a sequence met a sequence
at the end of some path of keys (`Mapping.ListsApart`): then the text of both together is not the
text of the second one. So every mapping contains itself, and a fragment without sequences is
contained wherever it was merged.
-/

namespace ManifestRules

/-- No path of keys leads to a sequence in both mappings. -/
def Mapping.ListsApart (target source : Mapping) : Prop :=
  ∀ path v w, (∀ key ∈ path, key.hasDistinctKeys = true) →
    (Value.mapping target).along path = some v → (Value.mapping source).along path = some w →
    ∀ items more, v.untagged = .sequence items → w.untagged ≠ .sequence more

namespace Value

/-- Tags of the incoming value do not count for the sequences that it extends. -/
theorem extendsSequence_untagged (v existing : Value) :
    v.untagged.extendsSequence existing = v.extendsSequence existing :=
  apply_untagged (f := (extendsSequence · existing)) (fun _ _ => rfl) v

/-- Entries extend a sequence if one of them does in the value that its key finds. -/
theorem entriesExtendSequence_iff (es : List (Value × Value)) (target : Mapping) :
    entriesExtendSequence es target = true ↔ ∃ e ∈ es, ∃ existing,
      target.get? e.1 = some existing ∧ e.2.extendsSequence existing = true := by
  induction es with
  | nil => simp [entriesExtendSequence]
  | cons e es ih =>
    obtain ⟨k, v⟩ := e
    rw [entriesExtendSequence, Bool.or_eq_true, ih]
    cases hk : target.get? k <;> simp [hk]

/-- Where an incoming value extends a sequence, some path of keys leads to a sequence in both
values. -/
theorem exists_sequences_of_extendsSequence {v existing : Value} (hv : v.hasDistinctKeys = true)
    (h : v.extendsSequence existing = true) :
    ∃ path x y items more, (∀ key ∈ path, key.hasDistinctKeys = true) ∧
      existing.along path = some x ∧ v.along path = some y ∧
      x.untagged = .sequence items ∧ y.untagged = .sequence more := by
  rw [← extendsSequence_untagged] at h
  cases hshape : v.untagged with
  | sequence more =>
    rw [hshape, extendsSequence] at h
    split at h
    · exact ⟨[], existing, v, _, more, by simp, rfl, rfl, ‹_›, hshape⟩
    · cases h
  | mapping entries =>
    rw [hshape, extendsSequence] at h
    split at h
    · rename_i target htarget
      obtain ⟨e, he, below, hbelow, hextends⟩ := (entriesExtendSequence_iff entries target).mp h
      rw [← hasDistinctKeys_untagged, hshape] at hv
      have hparts := Mapping.hasDistinctKeys_of_mem hv he
      have hsmaller := sizeOf_lt_of_untagged hshape he
      obtain ⟨path, x, y, items, more, hpath, hx, hy, hsequences⟩ :=
        exists_sequences_of_extendsSequence hparts.2 hextends
      refine ⟨e.1 :: path, x, y, items, more, List.forall_mem_cons.mpr ⟨hparts.1, hpath⟩, ?_, ?_,
        hsequences⟩
      · rw [along_cons_of_untagged htarget, along_mapping_cons, hbelow, Option.bind_some, hx]
      · rw [along_cons_of_untagged hshape, along_mapping_cons, Mapping.get?_of_mem hv he,
          Option.bind_some, hy]
    · cases h
  | tagged tag inner => exact absurd hshape (untagged_ne_tagged v tag inner)
  | _ =>
    rw [hshape] at h
    cases h
termination_by sizeOf v

/-- Where a path of keys leads to a sequence in both values, the incoming one extends a sequence. -/
theorem extendsSequence_of_along {v existing x y : Value} {path items more : List Value}
    (hv : v.hasDistinctKeys = true) (hexisting : existing.hasDistinctKeys = true)
    (hpath : ∀ key ∈ path, key.hasDistinctKeys = true) (hx : existing.along path = some x)
    (hy : v.along path = some y) (hitems : x.untagged = .sequence items)
    (hmore : y.untagged = .sequence more) : v.extendsSequence existing = true := by
  rw [← extendsSequence_untagged]
  induction path generalizing v existing with
  | nil =>
    cases hx
    cases hy
    rw [hmore, extendsSequence, hitems]
  | cons key rest ih =>
    obtain ⟨hkey, hrest⟩ := List.forall_mem_cons.mp hpath
    obtain ⟨entries, hentries⟩ := exists_untagged_of_along_cons hy
    obtain ⟨target, htarget⟩ := exists_untagged_of_along_cons hx
    rw [along_cons_of_untagged hentries, along_mapping_cons] at hy
    rw [along_cons_of_untagged htarget, along_mapping_cons] at hx
    obtain ⟨above, habove, hy⟩ := Option.bind_eq_some_iff.mp hy
    obtain ⟨below, hbelow, hx⟩ := Option.bind_eq_some_iff.mp hx
    rw [← hasDistinctKeys_untagged, hentries] at hv
    rw [← hasDistinctKeys_untagged, htarget] at hexisting
    obtain ⟨e, he, hsame, rfl⟩ := Mapping.exists_of_get? habove
    have hparts := Mapping.hasDistinctKeys_of_mem hv he
    have hfound := Mapping.get?_congr hexisting hkey hparts.1 hsame
    rw [hentries, extendsSequence, htarget]
    refine (entriesExtendSequence_iff entries target).mpr ⟨e, he, below, hfound ▸ hbelow, ?_⟩
    rw [← extendsSequence_untagged]
    exact ih hparts.2 (Mapping.hasDistinctKeys_of_get? hexisting hbelow) hrest hx hy

end Value

namespace Mapping

variable {target source : Mapping}

/-- Sequences that are apart are not extended. -/
theorem ListsApart.entriesExtendSequence_eq_false (h : ListsApart target source)
    (hsource : source.hasDistinctKeys = true) :
    Value.entriesExtendSequence source target = false := by
  by_contra hextends
  rw [Bool.not_eq_false] at hextends
  have hvalue : (Value.mapping source).extendsSequence (.mapping target) = true := hextends
  obtain ⟨path, x, y, items, more, hpath, hx, hy, hitems, hmore⟩ :=
    Value.exists_sequences_of_extendsSequence (v := .mapping source) hsource hvalue
  exact h path x y hpath hx hy items more hitems hmore

/-- Whether sequences are apart can be found out by going through the entries of the fragment. -/
theorem listsApart_iff (htarget : target.hasDistinctKeys = true)
    (hsource : source.hasDistinctKeys = true) :
    ListsApart target source ↔ Value.entriesExtendSequence source target = false := by
  refine ⟨fun h => h.entriesExtendSequence_eq_false hsource, ?_⟩
  intro hextends path v w hpath hv hw items more hitems hmore
  have hvalue : (Value.mapping source).extendsSequence (.mapping target) = true :=
    Value.extendsSequence_of_along (v := .mapping source) hsource htarget hpath hv hw hitems hmore
  have hentries : Value.entriesExtendSequence source target = true := hvalue
  rw [hextends] at hentries
  cases hentries

/-- A fragment is established as a pattern: if no path of keys leads to a sequence both in a mapping
and in a fragment, then the mapping contains the fragment once this is merged into it. So every
mapping contains itself, and every fragment without sequences is contained where it was merged. -/
theorem contains_merge_of_listsApart {source : Mapping} (hsource : source.hasDistinctKeys = true) :
    (∀ target, ListsApart target source → (target.merge source).contains source = true) ∧
    source.contains source = true ∧
    (source.sequenceFree = true →
      ∀ target : Mapping, (target.merge source).contains source = true) := by
  refine ⟨?_, ?_, ?_⟩
  · intro target hapart
    exact contains_merge hsource (hapart.entriesExtendSequence_eq_false hsource)
  · exact Value.agrees_self (.mapping source) hsource
  · intro hfree target
    exact contains_merge_of_sequenceFree hsource hfree target

/-- Where sequences have met, the fragment is no pattern that the result contains. -/
example :
    let openPorts : Mapping := [(.string "ports", .sequence [.bool true])]
    (openPorts.merge openPorts).contains openPorts = false := by decide +kernel

/-- What closes the service: a list in place of a text, and a text in place of a list. -/
def closing : Mapping :=
  [(.number (.int 80), .tagged ⟨"steps"⟩ (.sequence [.string "closed", .null])),
    (.string "about", .tagged ⟨"web"⟩ (.mapping
      [(.string "ports", .string "none"), (.bool true, .mapping [])]))]

/-- What takes away the description of the service. -/
def removal : Mapping := [(.string "about", .tagged ⟨"gone"⟩ .null)]

/-- The closed service contains what closed it, the service contains itself, and without its
description it contains that this is gone. -/
theorem service_contains_closing :
    closing.hasDistinctKeys = true ∧ ListsApart service closing ∧
    (service.merge closing).contains closing = true ∧
    service.hasDistinctKeys = true ∧ service.contains service = true ∧
    removal.hasDistinctKeys = true ∧ removal.sequenceFree = true ∧
    (service.merge removal).contains removal = true := by
  have hservice : service.hasDistinctKeys = true := by decide
  have hclosing : closing.hasDistinctKeys = true := by decide
  have hremoval : removal.hasDistinctKeys = true := by decide
  have hfree : removal.sequenceFree = true := by decide
  have hapart : ListsApart service closing := (listsApart_iff hservice hclosing).mpr (by decide)
  obtain ⟨hmerged, -, -⟩ := contains_merge_of_listsApart hclosing
  obtain ⟨-, hself, -⟩ := contains_merge_of_listsApart hservice
  obtain ⟨-, -, hremoved⟩ := contains_merge_of_listsApart hremoval
  exact ⟨hclosing, hapart, hmerged service hapart, hservice, hself, hremoval, hfree,
    hremoved hfree service⟩

end Mapping

end ManifestRules
