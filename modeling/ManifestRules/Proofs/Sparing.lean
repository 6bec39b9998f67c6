import ManifestRules.Proofs.Chaining
/-!
# Fragments that spare a pattern

A fragment spares a pattern if it has no value where the pattern has one, except mappings where the
pattern has mappings, and these spare each other again (`Mapping.spares`). Merging such a fragment
may add entries beside those that the pattern asks for, at every depth, and replace or extend all
that it does not ask for; a document that contained the pattern contains it still
(`Mapping.contains_merge_of_spares`).
-/

namespace ManifestRules

mutual
/-- An incoming value spares what a pattern has for the same key if both are mappings, perhaps under
tags, and the one spares the other. -/
def Value.spares : Value → Value → Bool
  | .tagged _ inner, expected => inner.spares expected
  | .mapping source, expected =>
    match expected.untagged with
    | .mapping pattern => entriesSpare source pattern
    | _ => false
  | _, _ => false
termination_by structural v => v
/-- Entries spare a pattern if each of them does whose key the pattern has. -/
def Value.entriesSpare : List (Value × Value) → Mapping → Bool
  | [], _ => true
  | (k, v) :: es, pattern =>
    (match pattern.get? k with
      | some expected => v.spares expected
      | none => true) && entriesSpare es pattern
termination_by structural es => es
end

/-- A fragment spares a pattern if both have mappings for every key that both have, and these spare
each other by the same rule. -/
def Mapping.spares (source pattern : Mapping) : Bool := Value.entriesSpare source pattern

/-- What is asked of a fragment that spares a pattern, entry by entry. -/
theorem Mapping.spares_iff {source pattern : Mapping} :
    source.spares pattern = true ↔
      ∀ e ∈ source, ∀ expected, pattern.get? e.1 = some expected → e.2.spares expected = true := by
  rw [spares]
  induction source with
  | nil => simp [Value.entriesSpare]
  | cons e source ih =>
    obtain ⟨k, v⟩ := e
    rw [Value.entriesSpare, List.forall_mem_cons, Bool.and_eq_true, ih]
    cases pattern.get? k <;> simp

/-- A value that spares another one is a mapping, and so is the other one. -/
theorem Value.exists_of_spares {v expected : Value} (h : v.spares expected = true) :
    ∃ source pattern, v.untagged = .mapping source ∧ expected.untagged = .mapping pattern ∧
      Mapping.spares source pattern = true := by
  match v with
  | .tagged _ inner => exact exists_of_spares (v := inner) h
  | .mapping source =>
    rw [spares] at h
    split at h
    · exact ⟨source, _, rfl, ‹_›, h⟩
    · cases h
  | .sequence _ | .null | .bool _ | .number _ | .string _ => cases h

namespace Mapping

/-- A document that contains a pattern contains it still when a fragment is merged that spares the
pattern. -/
theorem contains_merge_of_spares {target source pattern : Mapping}
    (htarget : target.hasDistinctKeys = true) (hsource : source.hasDistinctKeys = true)
    (hpattern : pattern.hasDistinctKeys = true) (hplain : target.hasPlainKeys = true)
    (hasked : pattern.hasPlainKeys = true) (hspares : source.spares pattern = true)
    (h : target.contains pattern = true) : (target.merge source).contains pattern = true := by
  refine contains_of_forall hasked ?_
  intro name e hmem _
  obtain ⟨f, hf, hagrees⟩ := exists_of_contains hplain h hmem
  have hkey : (Value.string name).hasDistinctKeys = true := rfl
  cases hget : source.get? (.string name) with
  | none =>
    have hkept := get?_merge_of_absent htarget hsource hkey hget
    exact ⟨f, counterpart?_of_get? (hkept.trans hf), hagrees⟩
  | some incoming =>
    -- The fragment has the key as well, so there are mappings on all three sides.
    have hexpected := get?_of_mem hpattern hmem
    have hincoming := spares_iff.mp hspares _ (mem_of_get?_string hget) e hexpected
    obtain ⟨above, asked, habove, hinner, hrest⟩ := Value.exists_of_spares hincoming
    obtain ⟨below, hbelow, hcontains⟩ := (Value.agrees_iff_of_mapping e f hinner).mp hagrees
    have hsmaller := sizeOf_lt_of_get? hexpected hinner
    have hmerged : Mapping.contains (Mapping.merge below above) asked = true :=
      contains_merge_of_spares (hasDistinctKeys_untagged_of_get? htarget hf hbelow)
        (hasDistinctKeys_untagged_of_get? hsource hget habove)
        (hasDistinctKeys_untagged_of_get? hpattern hexpected hinner)
        (hasPlainKeys_untagged_of_get? hplain hf hbelow)
        (hasPlainKeys_untagged_of_get? hasked hexpected hinner) hrest hcontains
    have hcommon := get?_merge_of_common htarget hsource hkey hf hget
    rw [Value.mergeInto_of_mappings hbelow habove] at hcommon
    refine ⟨_, counterpart?_of_get? hcommon, (Value.agrees_iff_of_mapping e _ hinner).mpr ?_⟩
    exact ⟨Mapping.merge below above, Value.untagged_mapUntagged f _, hmerged⟩
termination_by sizeOf pattern

/-- A key that a pattern only reads like is not spared with the pattern. -/
example :
    let door : Mapping := [(.number (.int 80), .string "open")]
    let lock : Mapping := [(.number (.int 80), .string "shut")]
    let asked : Mapping := [(.string "80", .string "open")]
    door.contains asked = true ∧ lock.spares asked = true ∧
      (door.merge lock).contains asked = false := by decide +kernel

/-- A document with labels under a tag. -/
def labelled : Mapping :=
  [(.string "kind", .string "Deployment"),
    (.string "metadata", .mapping
      [(.string "name", .string "app"),
        (.string "labels", .tagged ⟨"set"⟩ (.mapping [(.string "tier", .string "web")]))]),
    (.string "ports", .sequence [.number (.int 80)])]

/-- A pattern that asks for one of the labels. -/
def tierAsked : Mapping :=
  [(.string "metadata", .mapping
      [(.string "labels", .mapping [(.string "tier", .tagged ⟨"text"⟩ (.string "web"))])]),
    (.string "kind", .string "Deployment")]

/-- A fragment with another label, a new name and one more port. -/
def relabelling : Mapping :=
  [(.string "ports", .sequence [.number (.int 443)]),
    (.string "metadata", .tagged ⟨"more"⟩ (.mapping
      [(.string "labels", .mapping [(.string "managed", .bool true)]),
        (.string "name", .mapping [(.string "was", .string "app")])]))]

/-- The document has its label still when the other one is merged beside it. -/
theorem labelled_contains_tierAsked :
    labelled.hasDistinctKeys = true ∧ relabelling.hasDistinctKeys = true ∧
    tierAsked.hasDistinctKeys = true ∧ labelled.hasPlainKeys = true ∧
    tierAsked.hasPlainKeys = true ∧ relabelling.spares tierAsked = true ∧
    labelled.contains tierAsked = true ∧
    (labelled.merge relabelling).contains tierAsked = true := by
  have htarget : labelled.hasDistinctKeys = true := by decide
  have hsource : relabelling.hasDistinctKeys = true := by decide
  have hpattern : tierAsked.hasDistinctKeys = true := by decide
  have hplain : labelled.hasPlainKeys = true := by decide
  have hasked : tierAsked.hasPlainKeys = true := by decide
  have hspares : relabelling.spares tierAsked = true := by decide
  have hcontains : labelled.contains tierAsked = true := by decide +kernel
  exact ⟨htarget, hsource, hpattern, hplain, hasked, hspares, hcontains,
    contains_merge_of_spares htarget hsource hpattern hplain hasked hspares hcontains⟩

end Mapping

end ManifestRules
