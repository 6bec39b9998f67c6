import ManifestRules.Pattern
import ManifestRules.Proofs.Merging
/-!
# Matching what was merged

A fragment that has been merged into a mapping is a pattern that the mapping
contains (`Mapping.contains_merge`), unless items of a sequence have been put behind
others, which changes the text they are compared by.
-/

namespace ManifestRules

mutual
/-- Merging an incoming value into one that is there puts items of a sequence behind others. -/
def Value.extendsSequence : Value → Value → Bool
  | .tagged _ inner, existing => inner.extendsSequence existing
  | .sequence _, existing =>
    match existing.untagged with
    | .sequence _ => true
    | _ => false
  | .mapping source, existing =>
    match existing.untagged with
    | .mapping entries => entriesExtendSequence source entries
    | _ => false
  | _, _ => false
termination_by structural v => v
/-- Merging entries into a mapping puts items of a sequence behind others. -/
def Value.entriesExtendSequence : List (Value × Value) → Mapping → Bool
  | [], _ => false
  | (k, v) :: es, target =>
    (match target.get? k with
      | some existing => v.extendsSequence existing
      | none => false) || entriesExtendSequence es target
termination_by structural es => es
end

mutual
/-- There is no sequence in a value, nor in a value of its mappings. -/
def Value.sequenceFree : Value → Bool
  | .tagged _ inner => inner.sequenceFree
  | .sequence _ => false
  | .mapping entries => entriesSequenceFree entries
  | _ => true
/-- There is no sequence in the values of entries. -/
def Value.entriesSequenceFree : List (Value × Value) → Bool
  | [] => true
  | (_, v) :: es => v.sequenceFree && entriesSequenceFree es
end

/-- There is no sequence in the values of a mapping. -/
def Mapping.sequenceFree (m : Mapping) : Bool :=
  Value.entriesSequenceFree m

namespace Value

mutual
/-- A value without sequences extends none. -/
theorem extendsSequence_of_sequenceFree (v existing : Value) (hv : v.sequenceFree = true) :
    v.extendsSequence existing = false := by
  match v with
  | .tagged _ inner => exact extendsSequence_of_sequenceFree inner existing hv
  | .sequence _ => cases hv
  | .mapping source =>
    rw [extendsSequence]
    split
    · exact entriesExtendSequence_of_sequenceFree source _ hv
    · rfl
  | .null | .bool _ | .number _ | .string _ => rfl
/-- Entries without sequences extend none. -/
theorem entriesExtendSequence_of_sequenceFree (es : List (Value × Value)) (target : Mapping)
    (hes : entriesSequenceFree es = true) : entriesExtendSequence es target = false := by
  match es with
  | [] => rfl
  | (k, v) :: es =>
    rw [entriesSequenceFree, Bool.and_eq_true] at hes
    rw [entriesExtendSequence, Bool.or_eq_false_iff]
    refine ⟨?_, entriesExtendSequence_of_sequenceFree es target hes.2⟩
    split
    · exact extendsSequence_of_sequenceFree v _ hes.1
    · rfl
end

/-- Every entry of a pattern has to have an agreeing counterpart. -/
theorem entriesAgree_iff (pattern : List (Value × Value)) (actual : Mapping) :
    entriesAgree pattern actual = true ↔ ∀ e ∈ pattern, ∃ found,
      Mapping.counterpart? actual e.1 = some found ∧ e.2.agrees found = true := by
  induction pattern with
  | nil => simp [entriesAgree]
  | cons e pattern ih =>
    obtain ⟨k, v⟩ := e
    rw [entriesAgree, List.forall_mem_cons, Bool.and_eq_true, ih]
    cases Mapping.counterpart? actual k <;> simp

/-- A mapping under tags is the mapping that replaces what is under them. -/
@[simp] theorem asMapping?_mapUntagged (v : Value) (m : Mapping) :
    (v.mapUntagged fun _ => .mapping m).asMapping? = some m :=
  apply_mapUntagged (fun _ _ => rfl) _ v

/-- A tag of the value that is found does not count. -/
theorem agrees_tagged (v : Value) (tag : Tag) (found : Value) :
    v.agrees (.tagged tag found) = v.agrees found := by
  match v with
  | .tagged _ inner => exact agrees_tagged inner tag found
  | .mapping _ | .sequence _ | .null | .bool _ | .number _ | .string _ =>
    simp only [agrees, asMapping?, untagged, text]

end Value

/-- What is found by the key itself is the counterpart. -/
theorem Mapping.counterpart?_of_get? {m : Mapping} {key v : Value} (hv : m.get? key = some v) :
    m.counterpart? key = some v := by
  rw [counterpart?, hv, Option.some_or]

namespace Value

mutual
/-- A value with distinct keys agrees with itself. -/
theorem agrees_self (v : Value) (hv : v.hasDistinctKeys = true) : v.agrees v = true := by
  match v with
  | .tagged tag inner =>
    rw [agrees, agrees_tagged]
    exact agrees_self inner hv
  | .mapping entries =>
    refine (entriesAgree_iff entries entries).mpr ?_
    intro e he
    exact ⟨e.2, Mapping.counterpart?_of_get? (Mapping.get?_of_mem hv he),
      agrees_self_of_mem entries hv e he⟩
  | .sequence _ | .null | .bool _ | .number _ | .string _ => simp only [agrees, text, beq_self_eq_true]
/-- The values of entries with distinct keys agree with themselves. -/
theorem agrees_self_of_mem (es : List (Value × Value)) (hes : entriesHaveDistinctKeys es = true) :
    ∀ e ∈ es, e.2.agrees e.2 = true := by
  match es with
  | [] => simp
  | (k, v) :: es =>
    rw [entriesHaveDistinctKeys, Bool.and_eq_true, Bool.and_eq_true, Bool.and_eq_true] at hes
    exact List.forall_mem_cons.mpr ⟨agrees_self v hes.1.2.2, agrees_self_of_mem es hes.2⟩
end

mutual
/-- An incoming value agrees with what it comes to if it does so where it stays whole. -/
theorem agrees_mergeInto (whole bare existing : Value) (hkeys : bare.hasDistinctKeys = true)
    (hextends : bare.extendsSequence existing = false) (hwhole : bare.agrees whole = true) :
    bare.agrees (mergeInto whole bare existing) = true := by
  match bare with
  | .tagged _ inner => exact agrees_mergeInto whole inner existing hkeys hextends hwhole
  | .mapping source =>
    rw [mergeInto]
    rw [extendsSequence] at hextends
    cases hexisting : existing.untagged with
    | mapping entries =>
      rw [hexisting] at hextends
      rw [agrees, asMapping?_mapUntagged]
      refine (entriesAgree_iff ..).mpr ?_
      intro e he
      exact ⟨_, Mapping.counterpart?_of_get? (Mapping.get?_mergeEntries hkeys entries e he),
        agrees_merged_of_mem source entries hkeys hextends e he⟩
    | _ => exact hwhole
  | .sequence items =>
    rw [mergeInto]
    rw [extendsSequence] at hextends
    cases hexisting : existing.untagged with
    | sequence _ => simp [hexisting] at hextends
    | _ => exact hwhole
  | .null | .bool _ | .number _ | .string _ => exact hwhole
/-- The entries of a fragment agree with what they come to. -/
theorem agrees_merged_of_mem (source : List (Value × Value)) (target : Mapping)
    (hkeys : entriesHaveDistinctKeys source = true)
    (hextends : entriesExtendSequence source target = false) :
    ∀ e ∈ source, e.2.agrees (target.merged e.1 e.2) = true := by
  match source with
  | [] => simp
  | (k, v) :: rest =>
    rw [entriesHaveDistinctKeys, Bool.and_eq_true, Bool.and_eq_true, Bool.and_eq_true] at hkeys
    rw [entriesExtendSequence, Bool.or_eq_false_iff] at hextends
    refine List.forall_mem_cons.mpr ⟨?_, agrees_merged_of_mem rest target hkeys.2 hextends.2⟩
    have hself := agrees_self v hkeys.1.2.2
    rw [Mapping.merged]
    cases hget : target.get? k with
    | none => exact hself
    | some existing =>
      have hfirst := hextends.1
      rw [hget] at hfirst
      exact agrees_mergeInto v v existing hkeys.1.2.2 hfirst hself
end

end Value

namespace Mapping

/-- A mapping contains a fragment that was merged into it, if no sequence has been extended. -/
theorem contains_merge {target source : Mapping} (hkeys : source.hasDistinctKeys = true)
    (hextends : Value.entriesExtendSequence source target = false) :
    (target.merge source).contains source = true := by
  refine (Value.entriesAgree_iff ..).mpr ?_
  intro e he
  exact ⟨_, counterpart?_of_get? (get?_mergeEntries hkeys target e he),
    Value.agrees_merged_of_mem source target hkeys hextends e he⟩

/-- A mapping contains every fragment without sequences that was merged into it. -/
theorem contains_merge_of_sequenceFree {source : Mapping} (hkeys : source.hasDistinctKeys = true)
    (hfree : source.sequenceFree = true) (target : Mapping) :
    (target.merge source).contains source = true :=
  contains_merge hkeys (Value.entriesExtendSequence_of_sequenceFree source target hfree)

end Mapping

end ManifestRules
