import ManifestRules.Proofs.KeyPath
/-!
# The same fragment again

What a fragment brings is settled by its first merge, except that sequences are joined every time.
So a second merge of the same fragment puts the items of its sequences behind the others once more
and changes nothing else (`Mapping.RepeatsLists`). This is stated for every path of keys and
determines the result (`Mapping.merge_merge_self`): a fragment without sequences may be merged
again without effect, and a mapping that is merged into itself has its sequences doubled.
-/

namespace ManifestRules

/-- What a mapping is behind that had a fragment merged into it before and gets the items of the
sequences of the fragment once more. -/
structure Mapping.RepeatsLists (source before after : Mapping) : Prop where
  /-- Where the fragment has a sequence, there is one that ends with its items; these follow once
  more, under the tags that are there. -/
  repeated : ∀ path v more, (∀ key ∈ path, key.hasDistinctKeys = true) →
    (Value.mapping source).along path = some v → v.untagged = .sequence more →
    ∃ w earlier, (Value.mapping before).along path = some w ∧
      w.untagged = .sequence (earlier ++ more) ∧
      (Value.mapping after).along path =
        some (w.mapUntagged fun _ => .sequence (earlier ++ more ++ more))
  /-- Where the fragment has none, tags, keys and their order, and any value that is no mapping are
  what they were, or there is nothing as before. -/
  kept : ∀ path, (∀ key ∈ path, key.hasDistinctKeys = true) →
    (∀ v more, (Value.mapping source).along path = some v → v.untagged ≠ .sequence more) →
    ((Value.mapping after).along path).map Value.surface =
      ((Value.mapping before).along path).map Value.surface

mutual
/-- The value with its sequence twice, or with the sequences of its mappings twice at every depth.
There is no doubling within keys or items. -/
def Value.doubled : Value → Value
  | .sequence items => .sequence (items ++ items)
  | .mapping entries => .mapping (entriesDoubled entries)
  | .tagged tag inner => .tagged tag inner.doubled
  | .null => .null
  | .bool b => .bool b
  | .number n => .number n
  | .string s => .string s
/-- The entries with the sequences of their values twice. -/
def Value.entriesDoubled : List (Value × Value) → List (Value × Value)
  | [] => []
  | (k, v) :: es => (k, v.doubled) :: entriesDoubled es
end

/-- The mapping with its sequences twice. -/
def Mapping.doubled (m : Mapping) : Mapping := Value.entriesDoubled m

namespace Value

/-- Tags do not count for the absence of sequences. -/
@[simp] theorem sequenceFree_untagged (v : Value) : v.untagged.sequenceFree = v.sequenceFree :=
  apply_untagged (fun _ _ => rfl) v

/-- Entries are without sequences if all their values are. -/
theorem entriesSequenceFree_iff (es : List (Value × Value)) :
    entriesSequenceFree es = true ↔ ∀ e ∈ es, e.2.sequenceFree = true := by
  induction es with
  | nil => simp [entriesSequenceFree]
  | cons e es ih =>
    obtain ⟨k, v⟩ := e
    rw [entriesSequenceFree, Bool.and_eq_true, ih, List.forall_mem_cons]

/-- No path of keys leads from a value without sequences to a sequence. -/
theorem untagged_ne_sequence_of_along {v w : Value} {path : List Value}
    (hv : v.sequenceFree = true) (hw : v.along path = some w) (items : List Value) :
    w.untagged ≠ .sequence items := by
  induction path generalizing v with
  | nil =>
    cases hw
    intro hitems
    rw [← sequenceFree_untagged, hitems] at hv
    cases hv
  | cons key rest ih =>
    obtain ⟨m, hm, hrest⟩ := Option.bind_eq_some_iff.mp hw
    obtain ⟨x, hx, hxw⟩ := Option.bind_eq_some_iff.mp hrest
    obtain ⟨e, he, -, rfl⟩ := Mapping.exists_of_get? hx
    rw [← sequenceFree_untagged, asMapping?_eq_some_iff.mp hm] at hv
    exact ih ((entriesSequenceFree_iff m).mp hv e he) hxw

/-- Entries are doubled one by one. -/
theorem entriesDoubled_eq_map (es : List (Value × Value)) :
    entriesDoubled es = es.map fun e => (e.1, e.2.doubled) := by
  induction es with
  | nil => rfl
  | cons e es ih => rw [entriesDoubled, ih, List.map_cons]

mutual
/-- Doubling keeps keys distinct. -/
theorem hasDistinctKeys_doubled (v : Value) : v.doubled.hasDistinctKeys = v.hasDistinctKeys := by
  match v with
  | .sequence items =>
    rw [doubled, hasDistinctKeys, hasDistinctKeys, Bool.eq_iff_iff, itemsHaveDistinctKeys_iff,
      itemsHaveDistinctKeys_iff]
    simp
  | .mapping entries => exact entriesHaveDistinctKeys_doubled entries
  | .tagged _ inner => exact hasDistinctKeys_doubled inner
  | .null | .bool _ | .number _ | .string _ => rfl
/-- Doubling keeps the keys of entries distinct. -/
theorem entriesHaveDistinctKeys_doubled (es : List (Value × Value)) :
    entriesHaveDistinctKeys (entriesDoubled es) = entriesHaveDistinctKeys es := by
  match es with
  | [] => rfl
  | (k, v) :: es =>
    rw [entriesDoubled, entriesHaveDistinctKeys, entriesHaveDistinctKeys, hasDistinctKeys_doubled v,
      entriesHaveDistinctKeys_doubled es, entriesDoubled_eq_map, List.all_map]
    rfl
end

end Value

namespace Mapping

/-- A fragment is what comes of merging it into the empty mapping. -/
theorem nil_merge {source : Mapping} (hsource : source.hasDistinctKeys = true) :
    merge [] source = source := by
  have hkeys : keys (merge [] source) = source.keys := by
    rw [keys_merge hsource]
    exact List.filter_eq_self.mpr fun key _ => rfl
  refine eq_of_keys_eq (hasDistinctKeys_merge rfl hsource) hsource hkeys ?_
  intro key hkey
  obtain ⟨v, -, hmem⟩ := exists_get?_of_mem_keys hsource (hkeys ▸ hkey)
  exact get?_merge_of_new rfl hsource (hasDistinctKeys_of_mem hsource hmem).1 rfl

section Merged

variable (target : Mapping) (key : Value) {incoming : Value}

/-- Where a fragment has a mapping, a mapping comes of merging it into another one, which may be
empty. -/
theorem exists_merge_of_merged (htarget : target.hasDistinctKeys = true) {above : Mapping}
    (habove : above.hasDistinctKeys = true) (hincoming : incoming.untagged = .mapping above) :
    ∃ below : Mapping, below.hasDistinctKeys = true ∧
      (target.merged key incoming).untagged = .mapping (below.merge above) := by
  have hfresh : incoming.untagged = .mapping (merge [] above) := by rw [nil_merge habove, hincoming]
  rw [merged]
  cases hget : target.get? key with
  | none => exact ⟨[], rfl, hfresh⟩
  | some existing =>
    simp only [Value.mergeInto_eq, hincoming]
    cases hexisting : existing.untagged with
    | mapping below =>
      exact ⟨below, hasDistinctKeys_untagged_of_get? htarget hget hexisting,
        Value.untagged_mapUntagged existing _⟩
    | _ => exact ⟨[], rfl, hfresh⟩

/-- Where a fragment has a sequence, a sequence comes of it that ends with the same items. -/
theorem exists_append_of_merged {more : List Value}
    (hincoming : incoming.untagged = .sequence more) :
    ∃ earlier, (target.merged key incoming).untagged = .sequence (earlier ++ more) := by
  rw [merged]
  cases target.get? key with
  | none => exact ⟨[], hincoming⟩
  | some existing =>
    simp only [Value.mergeInto_eq, hincoming]
    cases existing.untagged with
    | sequence items => exact ⟨items, Value.untagged_mapUntagged existing _⟩
    | _ => exact ⟨[], hincoming⟩

/-- Where a fragment has neither, its value is all that comes of it. -/
theorem merged_eq_self (hmapping : ∀ m, incoming.untagged ≠ .mapping m)
    (hsequence : ∀ items, incoming.untagged ≠ .sequence items) :
    target.merged key incoming = incoming := by
  rw [merged]
  cases target.get? key with
  | none => rfl
  | some existing =>
    simp only [Value.mergeInto_eq]
    split
    · exact absurd ‹_› (hmapping _)
    · exact absurd ‹_› (hsequence _)
    · rfl

end Merged

/-- There is only one mapping that repeats the lists of a fragment behind a given one. -/
theorem RepeatsLists.unique {source before after other : Mapping}
    (h : RepeatsLists source before after) (h' : RepeatsLists source before other)
    (hafter : after.hasDistinctKeys = true) (hother : other.hasDistinctKeys = true) :
    after = other := by
  refine Value.mapping.inj (Value.eq_of_surface hafter hother ?_)
  intro path hpath
  by_cases hlist : ∃ v more, (Value.mapping source).along path = some v ∧
      v.untagged = .sequence more
  · obtain ⟨v, more, hv, hmore⟩ := hlist
    obtain ⟨w, earlier, hw, hitems, hend⟩ := h.repeated path v more hpath hv hmore
    obtain ⟨w', earlier', hw', hitems', hend'⟩ := h'.repeated path v more hpath hv hmore
    obtain rfl := Option.some.inj (hw.symm.trans hw')
    have hsame := Value.sequence.inj (hitems.symm.trans hitems')
    rw [hend, hend', hsame]
  · have hnone : ∀ v more, (Value.mapping source).along path = some v →
        v.untagged ≠ .sequence more :=
      fun v more hv hmore => hlist ⟨v, more, hv, hmore⟩
    rw [h.kept path hpath hnone, h'.kept path hpath hnone]

section Again

variable {target source : Mapping} (htarget : target.hasDistinctKeys = true)
  (hsource : source.hasDistinctKeys = true)

include htarget hsource

/-- A second merge of a fragment has what came of the first one as its target. -/
theorem get?_merge_merge {key incoming : Value} (hkey : key.hasDistinctKeys = true)
    (hincoming : source.get? key = some incoming) :
    (target.merge source).get? key = some (target.merged key incoming) ∧
      ((target.merge source).merge source).get? key =
        some (Value.mergeInto incoming incoming (target.merged key incoming)) := by
  have honce : (target.merge source).get? key = some (target.merged key incoming) := by
    rw [get?_merge htarget hsource hkey, hincoming, Option.map_some, Option.some_or]
  exact ⟨honce, get?_merge_of_common (hasDistinctKeys_merge htarget hsource) hsource hkey honce
    hincoming⟩

/-- A second merge of a fragment brings no key. -/
theorem keys_merge_merge :
    ((target.merge source).merge source).keys = (target.merge source).keys := by
  have hnone : source.keys.filter (fun key => ((target.merge source).get? key).isNone) = [] := by
    refine List.filter_eq_nil_iff.mpr ?_
    intro key hkey
    obtain ⟨incoming, hincoming, hmem⟩ := exists_get?_of_mem_keys hsource hkey
    have hkey := (hasDistinctKeys_of_mem hsource hmem).1
    simp [(get?_merge_merge htarget hsource hkey hincoming).1]
  rw [keys_merge hsource, hnone, List.append_nil]

/-- Where the fragment has a sequence, its items are put behind those that are there. -/
theorem repeated_merge {path : List Value} {v : Value} {more : List Value}
    (hpath : ∀ key ∈ path, key.hasDistinctKeys = true)
    (hv : (Value.mapping source).along path = some v) (hmore : v.untagged = .sequence more) :
    ∃ w earlier, (Value.mapping (target.merge source)).along path = some w ∧
      w.untagged = .sequence (earlier ++ more) ∧
      (Value.mapping ((target.merge source).merge source)).along path =
        some (w.mapUntagged fun _ => .sequence (earlier ++ more ++ more)) := by
  induction path generalizing target source with
  | nil =>
    cases hv
    cases hmore
  | cons key rest ih =>
    obtain ⟨hkey, hrest⟩ := List.forall_mem_cons.mp hpath
    rw [Value.along_mapping_cons] at hv
    obtain ⟨incoming, hincoming, halong⟩ := Option.bind_eq_some_iff.mp hv
    obtain ⟨honce, htwice⟩ := get?_merge_merge htarget hsource hkey hincoming
    simp only [Value.along_mapping_cons, honce, htwice, Option.bind_some]
    cases rest with
    | nil =>
      cases halong
      obtain ⟨earlier, hearlier⟩ := exists_append_of_merged target key hmore
      refine ⟨_, earlier, rfl, hearlier, ?_⟩
      rw [Value.along, Value.mergeInto_of_sequences hearlier hmore]
    | cons next rest =>
      -- Under this key the two results are again those of a first and of a second merge.
      obtain ⟨above, habove⟩ := Value.exists_untagged_of_along_cons halong
      have hdistinct := hasDistinctKeys_untagged_of_get? hsource hincoming habove
      obtain ⟨below, hbelow, hmerged⟩ := exists_merge_of_merged target key htarget hdistinct habove
      have hagain := Value.untagged_mapUntagged (target.merged key incoming)
        (.mapping ((below.merge above).merge above))
      rw [Value.along_cons_of_untagged habove] at halong
      rw [Value.mergeInto_of_mappings hmerged habove, Value.along_cons_of_untagged hmerged,
        Value.along_cons_of_untagged hagain]
      exact ih hbelow hdistinct hrest halong

/-- Where the fragment has no sequence, nothing changes that is seen there. -/
theorem kept_merge {path : List Value} (hpath : ∀ key ∈ path, key.hasDistinctKeys = true)
    (hnone : ∀ v more, (Value.mapping source).along path = some v → v.untagged ≠ .sequence more) :
    ((Value.mapping ((target.merge source).merge source)).along path).map Value.surface =
      ((Value.mapping (target.merge source)).along path).map Value.surface := by
  induction path generalizing target source with
  | nil =>
    exact congrArg some (Value.surface_mapping_eq_iff.mpr (keys_merge_merge htarget hsource))
  | cons key rest ih =>
    obtain ⟨hkey, hrest⟩ := List.forall_mem_cons.mp hpath
    rw [Value.along_mapping_cons, Value.along_mapping_cons]
    cases hincoming : source.get? key with
    | none =>
      rw [get?_merge_of_absent (hasDistinctKeys_merge htarget hsource) hsource hkey hincoming]
    | some incoming =>
      obtain ⟨honce, htwice⟩ := get?_merge_merge htarget hsource hkey hincoming
      rw [Value.along_mapping_cons, hincoming, Option.bind_some] at hnone
      rw [honce, htwice, Option.bind_some, Option.bind_some]
      cases hshape : incoming.untagged with
      | mapping above =>
        have hdistinct := hasDistinctKeys_untagged_of_get? hsource hincoming hshape
        obtain ⟨below, hbelow, hmerged⟩ :=
          exists_merge_of_merged target key htarget hdistinct hshape
        rw [Value.mergeInto_of_mappings hmerged hshape]
        refine Value.surface_along_mapUntagged hmerged (ih hbelow hdistinct hrest ?_)
        intro v more hv
        cases rest with
        | nil =>
          cases hv
          nofun
        | cons next rest =>
          rw [← Value.along_cons_of_untagged hshape] at hv
          exact hnone v more hv
      | sequence more =>
        cases rest with
        | nil => exact absurd hshape (hnone incoming more rfl)
        | cons next rest =>
          -- No key leads on from a sequence, neither before nor afterwards.
          obtain ⟨earlier, hearlier⟩ := exists_append_of_merged target key hshape
          rw [Value.mergeInto_of_sequences hearlier hshape, Value.along, Value.along,
            Value.asMapping?, Value.asMapping?, Value.untagged_mapUntagged, hearlier]
          rfl
      | _ =>
        have hself : target.merged key incoming = incoming :=
          merged_eq_self target key (by simp [hshape]) (by simp [hshape])
        rw [hself, Value.mergeInto_eq, hshape]

/-- The result of a second merge is the only one that repeats the lists of the fragment. -/
theorem repeatsLists_iff (result : Mapping) :
    (result.hasDistinctKeys = true ∧ RepeatsLists source (target.merge source) result) ↔
      result = (target.merge source).merge source := by
  have hagain := hasDistinctKeys_merge (hasDistinctKeys_merge htarget hsource) hsource
  have hmerge : RepeatsLists source (target.merge source) ((target.merge source).merge source) :=
    ⟨fun _ _ _ hpath => repeated_merge htarget hsource hpath,
      fun _ hpath => kept_merge htarget hsource hpath⟩
  constructor
  · rintro ⟨hresult, h⟩
    exact h.unique hmerge hresult hagain
  · rintro rfl
    exact ⟨hagain, hmerge⟩

/-- A fragment without sequences may be merged again without effect. -/
theorem merge_merge_of_sequenceFree (hfree : source.sequenceFree = true) :
    (target.merge source).merge source = target.merge source := by
  refine ((repeatsLists_iff htarget hsource _).mp ⟨hasDistinctKeys_merge htarget hsource, ?_⟩).symm
  constructor
  · intro path v more _ hv hmore
    have hsource : (Value.mapping source).sequenceFree = true := hfree
    exact absurd hmore (Value.untagged_ne_sequence_of_along hsource hv more)
  · exact fun _ _ _ => rfl

end Again

/-- Doubling keeps the keys and their order. -/
theorem keys_doubled (m : Mapping) : m.doubled.keys = m.keys := by
  rw [doubled, Value.entriesDoubled_eq_map, keys, keys, List.map_map]
  rfl

/-- A key finds the same value, doubled. -/
theorem get?_doubled (m : Mapping) (key : Value) :
    m.doubled.get? key = (m.get? key).map Value.doubled := by
  rw [doubled, Value.entriesDoubled_eq_map, get?, get?, List.find?_map, Option.map_map,
    Option.map_map]
  rfl

end Mapping

mutual
/-- What a value comes to when it is merged into itself. -/
theorem Value.mergeInto_self (v : Value) (hv : v.hasDistinctKeys = true) :
    Value.mergeInto v v v = v.doubled := by
  match v with
  | .tagged tag inner =>
    rw [Value.doubled, ← Value.mergeInto_self inner hv, Value.mergeInto_eq, Value.mergeInto_eq,
      Value.untagged]
    cases inner.untagged <;> rfl
  | .mapping entries => exact congrArg Value.mapping (Mapping.merge_self entries hv)
  | .sequence _ | .null | .bool _ | .number _ | .string _ => rfl
termination_by sizeOf v
/-- A mapping that is merged into itself is doubled. -/
theorem Mapping.merge_self (m : Mapping) (hm : m.hasDistinctKeys = true) :
    m.merge m = m.doubled := by
  have hdoubled : m.doubled.hasDistinctKeys = true :=
    (Value.entriesHaveDistinctKeys_doubled m).trans hm
  have hkeys : Mapping.keys (m.merge m) = m.doubled.keys := by
    have hempty : Mapping.hasDistinctKeys [] = true := rfl
    have hmerged := Mapping.keys_merge_merge hempty hm
    rwa [Mapping.nil_merge hm, ← Mapping.keys_doubled m] at hmerged
  refine Mapping.eq_of_keys_eq (Mapping.hasDistinctKeys_merge hm hm) hdoubled hkeys ?_
  intro key hkey
  rw [hkeys, Mapping.keys_doubled] at hkey
  obtain ⟨v, hv, hmem⟩ := Mapping.exists_get?_of_mem_keys hm hkey
  have hparts := Mapping.hasDistinctKeys_of_mem hm hmem
  have hsmaller := Mapping.sizeOf_lt_of_mem hmem
  rw [Mapping.get?_merge_of_common hm hm hparts.1 hv hv, Mapping.get?_doubled, hv, Option.map_some,
    Value.mergeInto_self v hparts.2]
termination_by sizeOf m
end

namespace Mapping

/-- A fragment that is merged again repeats its lists. The mapping that comes of the second merge is
the only one that is, at the end of every path of keys, what came of the first, except where the
fragment has a sequence: there its items follow once more. So a fragment without sequences may be
merged again without effect; and a mapping that is merged into itself has every sequence of its own
twice, and is otherwise as it was. -/
theorem merge_again {source : Mapping} (hsource : source.hasDistinctKeys = true) :
    (∀ target : Mapping, target.hasDistinctKeys = true →
      (∀ result : Mapping,
        (result.hasDistinctKeys = true ∧ RepeatsLists source (target.merge source) result) ↔
          result = (target.merge source).merge source) ∧
      (source.sequenceFree = true →
        (target.merge source).merge source = target.merge source)) ∧
    source.merge source = source.doubled := by
  refine ⟨?_, merge_self source hsource⟩
  intro target htarget
  exact ⟨repeatsLists_iff htarget hsource, merge_merge_of_sequenceFree htarget hsource⟩

/-- A label for the description of the service. -/
def label : Mapping :=
  [(.string "about", .mapping [(.string "tier", .tagged ⟨"zone"⟩ (.string "front"))])]

/-- When the service is changed again, the port of the change is there twice, while the mapping that
took the place of a text stays. When the change is merged into itself, its port is there twice under
its tag. The label may be put on again without effect. -/
theorem service_merge_again :
    change.hasDistinctKeys = true ∧ service.hasDistinctKeys = true ∧
    RepeatsLists change (service.merge change)
      [(.string "about", .tagged ⟨"web"⟩ (.mapping
          [(.string "name", .string "api"),
            (.string "ports",
              .sequence [.number (.int 80), .number (.int 443), .number (.int 443)]),
            (.string "tier", .tagged ⟨"zone"⟩ (.string "front"))])),
        (.number (.int 80), .mapping [(.string "to", .number (.int 8080))])] ∧
    change.merge change =
      [(.number (.int 80), .mapping [(.string "to", .number (.int 8080))]),
        (.string "about", .mapping
          [(.string "tier", .tagged ⟨"zone"⟩ (.string "front")),
            (.string "ports", .tagged ⟨"more"⟩
              (.sequence [.number (.int 443), .number (.int 443)]))])] ∧
    label.hasDistinctKeys = true ∧ label.sequenceFree = true ∧
    (service.merge label).merge label = service.merge label := by
  have hchange : change.hasDistinctKeys = true := by decide
  have hservice : service.hasDistinctKeys = true := by decide
  have hlabel : label.hasDistinctKeys = true := by decide
  have hfree : label.sequenceFree = true := by decide
  obtain ⟨hagain, hself⟩ := merge_again hchange
  have hrepeats := (((hagain service hservice).1 _).mpr rfl).2
  have hlabelled := ((merge_again hlabel).1 service hservice).2 hfree
  exact ⟨hchange, hservice, hrepeats, hself, hlabel, hfree, hlabelled⟩

end Mapping

end ManifestRules
