import ManifestRules.Proofs.Matching
/-!
# A fragment over a mapping

Entry by entry, the loop of a merge comes to a law without any order of steps (`Mapping.Overlay`):
the keys of the mapping come first and the new keys of the fragment behind them, a key of one side
only has its value from there, and where both have one, mappings are merged by the same law again,
sequences are joined, and any other value of the fragment replaces the one that is there. This holds
for all mappings without a key twice (`Mapping.overlay_merge`), and so a path that leaves the
fragment leads to what it led to before.
-/

namespace ManifestRules

namespace Value

/-- Both values are mappings, or both are sequences; tags do not count. -/
def sameShape (v w : Value) : Bool :=
  match v.untagged, w.untagged with
  | .mapping _, .mapping _ => true
  | .sequence _, .sequence _ => true
  | _, _ => false

/-- The value to which keys lead from mapping to mapping; tags on the way do not count. -/
def along (v : Value) : List Value → Option Value
  | [] => some v
  | key :: rest => v.asMapping?.bind fun m => (m.get? key).bind fun w => w.along rest

end Value

mutual
/-- What a mapping is after a fragment has been merged into it, by its keys and their values. -/
inductive Mapping.Overlay : (target source result : Mapping) → Prop where
  /-- The keys are those that were there, in their order, and behind them those of the fragment that
  were not, in theirs. No key is there twice. The value of a key that only one side has is the one
  from there, and the values of a key that both have meet. -/
  | intro {target source result : Mapping}
    (keys : result.keys = target.keys ++ source.keys.filter fun key => (target.get? key).isNone)
    (distinct : result.hasDistinctKeys = true)
    (kept : ∀ key, key.hasDistinctKeys = true → source.get? key = none →
      result.get? key = target.get? key)
    (added : ∀ key, key.hasDistinctKeys = true → target.get? key = none →
      result.get? key = source.get? key)
    (present : ∀ key, key.hasDistinctKeys = true → (target.get? key).isSome = true →
      (result.get? key).isSome = true)
    (met : ∀ key existing incoming v, key.hasDistinctKeys = true →
      target.get? key = some existing → source.get? key = some incoming →
      result.get? key = some v → Value.Overlay existing incoming v) :
    Mapping.Overlay target source result
/-- What the values of a key come to that both sides have. -/
inductive Value.Overlay : (existing incoming result : Value) → Prop where
  /-- Two mappings merge by the same law, under the tags of the one that was there. -/
  | mappings {existing incoming : Value} {target source result : Mapping}
    (hexisting : existing.untagged = .mapping target)
    (hincoming : incoming.untagged = .mapping source)
    (inner : Mapping.Overlay target source result) :
    Value.Overlay existing incoming (existing.mapUntagged fun _ => .mapping result)
  /-- The items of two sequences follow each other, under the tags of the one that was there. -/
  | sequences {existing incoming : Value} {items more : List Value}
    (hexisting : existing.untagged = .sequence items)
    (hincoming : incoming.untagged = .sequence more) :
    Value.Overlay existing incoming (existing.mapUntagged fun _ => .sequence (items ++ more))
  /-- Any other value of the fragment replaces the one that was there, with its own tags. -/
  | replaced {existing incoming : Value} (hshape : existing.sameShape incoming = false) :
    Value.Overlay existing incoming incoming
end

/-- A path of keys leaves a fragment: its next key is not in the fragment, or it leads to mappings
on both sides and leaves the fragment there. -/
inductive Mapping.Leaves : (target source : Mapping) → List Value → Prop where
  /-- The next key is not in the fragment. -/
  | absent {target source : Mapping} {key : Value} (rest : List Value)
    (hsource : source.get? key = none) : Leaves target source (key :: rest)
  /-- The next key leads to mappings on both sides. -/
  | inner {target source below above : Mapping} {key existing incoming : Value} {rest : List Value}
    (htarget : target.get? key = some existing) (hbelow : existing.asMapping? = some below)
    (hsource : source.get? key = some incoming) (habove : incoming.asMapping? = some above)
    (hrest : Leaves below above rest) : Leaves target source (key :: rest)

namespace Value

/-- Without tags a value is no larger. -/
theorem sizeOf_untagged_le (v : Value) : sizeOf v.untagged ≤ sizeOf v := by
  match v with
  | .tagged tag inner =>
    have hinner := sizeOf_untagged_le inner
    rw [untagged, tagged.sizeOf_spec]
    omega
  | .null | .bool _ | .number _ | .string _ | .sequence _ | .mapping _ => exact Nat.le_refl _

/-- Tags have no keys. -/
@[simp] theorem hasDistinctKeys_untagged (v : Value) :
    v.untagged.hasDistinctKeys = v.hasDistinctKeys :=
  apply_untagged (fun _ _ => rfl) v

/-- What replaces the value under the tags brings its keys with it. -/
@[simp] theorem hasDistinctKeys_mapUntagged (v w : Value) :
    (v.mapUntagged fun _ => w).hasDistinctKeys = w.hasDistinctKeys :=
  apply_mapUntagged (fun _ _ => rfl) _ v

/-- What replaces the value under the tags is all that is under them. -/
@[simp] theorem untagged_mapUntagged (v w : Value) :
    (v.mapUntagged fun _ => w).untagged = w.untagged :=
  apply_mapUntagged (fun _ _ => rfl) _ v

/-- A value that is a mapping under its tags. -/
theorem asMapping?_eq_some_iff {v : Value} {m : Mapping} :
    v.asMapping? = some m ↔ v.untagged = .mapping m := by
  unfold asMapping?
  cases v.untagged <;> simp

/-- Among values with distinct keys the order of two keys does not count. -/
theorem sameKey_comm {v w : Value} (hv : v.hasDistinctKeys = true) (hw : w.hasDistinctKeys = true) :
    v.sameKey w = w.sameKey v := by
  rw [Bool.eq_iff_iff]
  exact ⟨fun h => sameKey_of_common hw hv (w.sameKey_self hw) h,
    fun h => sameKey_of_common hv hw (v.sameKey_self hv) h⟩

/-- The same keys are the same as the same others. -/
theorem sameKey_congr {v w u : Value} (hv : v.hasDistinctKeys = true)
    (hw : w.hasDistinctKeys = true) (hu : u.hasDistinctKeys = true) (hvw : v.sameKey w = true) :
    v.sameKey u = w.sameKey u := by
  have hwv : w.sameKey v = true := (sameKey_comm hv hw).symm.trans hvw
  rw [Bool.eq_iff_iff]
  constructor
  · intro h
    exact sameKey_of_common hw hu hwv ((sameKey_comm hv hu).symm.trans h)
  · intro h
    exact sameKey_of_common hv hu hvw ((sameKey_comm hw hu).symm.trans h)

/-- Merging an incoming value: two mappings merge and two sequences are joined under the tags of the
one that is there; otherwise the incoming value is taken as a whole. -/
theorem mergeInto_eq (whole bare existing : Value) :
    mergeInto whole bare existing =
      match existing.untagged, bare.untagged with
      | .mapping target, .mapping source =>
        existing.mapUntagged fun _ => .mapping (Mapping.merge target source)
      | .sequence items, .sequence more => existing.mapUntagged fun _ => .sequence (items ++ more)
      | _, _ => whole := by
  match bare with
  | .tagged _ inner => exact mergeInto_eq whole inner existing
  | .mapping source | .sequence more => rw [mergeInto]; cases existing.untagged <;> rfl
  | .null | .bool _ | .number _ | .string _ => cases existing.untagged <;> rfl

/-- Two mappings merge under the tags of the one that is there. -/
theorem mergeInto_of_mappings {existing incoming : Value} {target source : Mapping}
    (hexisting : existing.untagged = .mapping target)
    (hincoming : incoming.untagged = .mapping source) :
    mergeInto incoming incoming existing =
      existing.mapUntagged fun _ => .mapping (Mapping.merge target source) := by
  rw [mergeInto_eq, hexisting, hincoming]

/-- Two sequences are joined under the tags of the one that is there. -/
theorem mergeInto_of_sequences {existing incoming : Value} {items more : List Value}
    (hexisting : existing.untagged = .sequence items)
    (hincoming : incoming.untagged = .sequence more) :
    mergeInto incoming incoming existing =
      existing.mapUntagged fun _ => .sequence (items ++ more) := by
  rw [mergeInto_eq, hexisting, hincoming]

end Value

namespace Mapping

variable {m target source : Mapping}

/-- Whether a key is missing depends on the keys alone. -/
theorem isNone_get? (m : Mapping) (key : Value) :
    (m.get? key).isNone = m.keys.all fun k => !key.sameKey k := by
  induction m with
  | nil => rfl
  | cons e m ih =>
    obtain ⟨k, v⟩ := e
    rw [get?_cons]
    cases hk : key.sameKey k <;> simp [keys, hk] at ih ⊢
    exact ih

/-- What is found by a key is the value of an entry with the same key. -/
theorem exists_of_get? {key v : Value} (hv : m.get? key = some v) :
    ∃ e ∈ m, key.sameKey e.1 = true ∧ e.2 = v := by
  obtain ⟨e, he, rfl⟩ := Option.map_eq_some_iff.mp hv
  exact ⟨e, List.mem_of_find?_eq_some he, Value.sameKey_of_find? he, rfl⟩

/-- Nothing is found by a key that is the same as no other. -/
theorem get?_eq_none_iff {key : Value} :
    m.get? key = none ↔ ∀ e ∈ m, key.sameKey e.1 = false := by
  rw [get?, Option.map_eq_none_iff, List.find?_eq_none]
  simp

/-- The keys of a mapping with distinct keys, and its values, have distinct keys. -/
theorem hasDistinctKeys_of_mem (hm : m.hasDistinctKeys = true) {e : Value × Value} (he : e ∈ m) :
    e.1.hasDistinctKeys = true ∧ e.2.hasDistinctKeys = true :=
  ((Value.entriesHaveDistinctKeys_iff m).mp hm).2 e he

/-- What is found in a mapping with distinct keys has distinct keys. -/
theorem hasDistinctKeys_of_get? (hm : m.hasDistinctKeys = true) {key v : Value}
    (hv : m.get? key = some v) : v.hasDistinctKeys = true := by
  obtain ⟨e, he, -, rfl⟩ := exists_of_get? hv
  exact (hasDistinctKeys_of_mem hm he).2

/-- The same keys find the same. -/
theorem get?_congr (hm : m.hasDistinctKeys = true) {key other : Value}
    (hkey : key.hasDistinctKeys = true) (hother : other.hasDistinctKeys = true)
    (hsame : key.sameKey other = true) : m.get? key = m.get? other := by
  have hall : ∀ e ∈ m, key.sameKey e.1 = other.sameKey e.1 := fun e he =>
    Value.sameKey_congr hkey hother (hasDistinctKeys_of_mem hm he).1 hsame
  clear hm
  induction m with
  | nil => rfl
  | cons e m ih =>
    obtain ⟨hfirst, hrest⟩ := List.forall_mem_cons.mp hall
    obtain ⟨k, v⟩ := e
    rw [get?_cons, get?_cons, hfirst, ih hrest]

/-- An inserted key goes behind all others unless it is there. -/
theorem keys_insert (m : Mapping) (key v : Value) :
    (m.insert key v).keys = m.keys ++ if (m.get? key).isNone then [key] else [] := by
  induction m with
  | nil => rfl
  | cons e m ih =>
    obtain ⟨k, w⟩ := e
    rw [insert, get?_cons]
    split
    · simp [keys]
    · simp only [keys, List.map_cons, List.cons_append] at ih ⊢
      rw [ih]

/-- An entry behind an insertion is the new one, or it is an old one, perhaps with the new value. -/
theorem mem_insert {key v : Value} {e : Value × Value} (he : e ∈ m.insert key v) :
    e = (key, v) ∨ ∃ f ∈ m, e.1 = f.1 ∧ (e.2 = f.2 ∨ e.2 = v) := by
  induction m with
  | nil => exact .inl (List.mem_singleton.mp he)
  | cons f m ih =>
    obtain ⟨k, w⟩ := f
    rw [insert] at he
    split at he
    · rcases List.mem_cons.mp he with rfl | he
      · exact .inr ⟨_, List.mem_cons_self, rfl, .inr rfl⟩
      · exact .inr ⟨e, List.mem_cons_of_mem _ he, rfl, .inl rfl⟩
    · rcases List.mem_cons.mp he with rfl | he
      · exact .inr ⟨_, List.mem_cons_self, rfl, .inl rfl⟩
      · refine (ih he).imp_right ?_
        rintro ⟨f, hf, hparts⟩
        exact ⟨f, List.mem_cons_of_mem _ hf, hparts⟩

/-- Keys stay distinct under insertions. -/
theorem hasDistinctKeys_insert (hm : m.hasDistinctKeys = true) {key v : Value}
    (hkey : key.hasDistinctKeys = true) (hv : v.hasDistinctKeys = true) :
    (m.insert key v).hasDistinctKeys = true := by
  cases hget : m.get? key with
  | none =>
    rw [insert_of_get?_eq_none hget]
    exact hasDistinctKeys_append hm hkey hv hget
  | some w =>
    have hapart : m.keys.Pairwise fun k l => l.sameKey k = false :=
      List.pairwise_map.mpr ((Value.entriesHaveDistinctKeys_iff m).mp hm).1
    have hkeys : (m.insert key v).keys = m.keys := by simp [keys_insert, hget]
    rw [← hkeys] at hapart
    refine (Value.entriesHaveDistinctKeys_iff _).mpr ⟨List.pairwise_map.mp hapart, ?_⟩
    intro e he
    obtain rfl | ⟨f, hf, hfirst, hsecond⟩ := mem_insert he
    · exact ⟨hkey, hv⟩
    · obtain ⟨hfkey, hfvalue⟩ := hasDistinctKeys_of_mem hm hf
      refine ⟨hfirst ▸ hfkey, ?_⟩
      rcases hsecond with hsecond | hsecond
      · exact hsecond ▸ hfvalue
      · exact hsecond ▸ hv

/-- After a merge, the keys are those that were there and behind them the new ones of the fragment,
both in their order. -/
theorem keys_merge (hsource : source.hasDistinctKeys = true) (target : Mapping) :
    (target.merge source).keys =
      target.keys ++ source.keys.filter fun key => (target.get? key).isNone := by
  have hapart := ((Value.entriesHaveDistinctKeys_iff source).mp hsource).1
  clear hsource
  rw [merge]
  induction source generalizing target with
  | nil => simp [Value.mergeEntries, keys]
  | cons e source ih =>
    obtain ⟨key, incoming⟩ := e
    obtain ⟨hfirst, hapart⟩ := List.pairwise_cons.mp hapart
    -- A later key of the fragment is missing behind the insertion if it was missing before.
    have hlater : ∀ k ∈ keys source,
        ((target.insert key (target.merged key incoming)).get? k).isNone =
          (target.get? k).isNone := by
      intro k hk
      obtain ⟨e, he, rfl⟩ := List.mem_map.mp hk
      rw [isNone_get?, isNone_get?, keys_insert, List.all_append]
      split <;> simp [hfirst e he]
    rw [mergeEntries_cons, ih _ hapart, keys_insert, List.filter_congr hlater, List.append_assoc]
    have hcons : keys ((key, incoming) :: source) = key :: keys source := rfl
    rw [hcons, List.filter_cons]
    split <;> simp

end Mapping

namespace Value

mutual
/-- What an incoming value comes to has distinct keys if both values have. -/
theorem hasDistinctKeys_mergeInto (whole bare existing : Value)
    (hwhole : whole.hasDistinctKeys = true) (hbare : bare.hasDistinctKeys = true)
    (hexisting : existing.hasDistinctKeys = true) :
    (mergeInto whole bare existing).hasDistinctKeys = true := by
  match bare with
  | .tagged _ inner => exact hasDistinctKeys_mergeInto whole inner existing hwhole hbare hexisting
  | .mapping source =>
    rw [mergeInto]
    rw [← hasDistinctKeys_untagged] at hexisting
    split
    · rename_i entries hentries
      rw [hentries] at hexisting
      rw [hasDistinctKeys_mapUntagged]
      exact hasDistinctKeys_mergeEntries source entries hbare hexisting
    · exact hwhole
  | .sequence source =>
    rw [mergeInto]
    rw [← hasDistinctKeys_untagged] at hexisting
    split
    · rename_i items hitems
      rw [hitems] at hexisting
      rw [hasDistinctKeys_mapUntagged]
      refine (itemsHaveDistinctKeys_iff _).mpr ?_
      intro v hv
      rcases List.mem_append.mp hv with hv | hv
      · exact (itemsHaveDistinctKeys_iff items).mp hexisting v hv
      · exact (itemsHaveDistinctKeys_iff source).mp hbare v hv
    · exact hwhole
  | .null | .bool _ | .number _ | .string _ => exact hwhole
/-- Merging entries keeps keys distinct. -/
theorem hasDistinctKeys_mergeEntries (source : List (Value × Value)) (target : Mapping)
    (hsource : entriesHaveDistinctKeys source = true) (htarget : target.hasDistinctKeys = true) :
    Mapping.hasDistinctKeys (mergeEntries source target) = true := by
  match source with
  | [] => exact htarget
  | (key, incoming) :: rest =>
    rw [entriesHaveDistinctKeys, Bool.and_eq_true, Bool.and_eq_true, Bool.and_eq_true] at hsource
    obtain ⟨⟨-, hkey, hincoming⟩, hrest⟩ := hsource
    have hmerged : (Mapping.merged target key incoming).hasDistinctKeys = true := by
      rw [Mapping.merged]
      cases hget : target.get? key with
      | none => exact hincoming
      | some existing =>
        exact hasDistinctKeys_mergeInto incoming incoming existing hincoming hincoming
          (Mapping.hasDistinctKeys_of_get? htarget hget)
    rw [Mapping.mergeEntries_cons]
    exact hasDistinctKeys_mergeEntries rest _ hrest
      (Mapping.hasDistinctKeys_insert htarget hkey hmerged)
end

end Value

namespace Mapping

variable {target source : Mapping}

/-- A merge keeps keys distinct. -/
theorem hasDistinctKeys_merge (htarget : target.hasDistinctKeys = true)
    (hsource : source.hasDistinctKeys = true) : (target.merge source).hasDistinctKeys = true :=
  Value.hasDistinctKeys_mergeEntries source target hsource htarget

/-- After a merge, a key finds what it found before, unless the fragment has it; then it finds what
the value of the fragment comes to. -/
theorem get?_merge (htarget : target.hasDistinctKeys = true)
    (hsource : source.hasDistinctKeys = true) {key : Value} (hkey : key.hasDistinctKeys = true) :
    (target.merge source).get? key =
      ((source.get? key).map (target.merged key)).or (target.get? key) := by
  cases hget : source.get? key with
  | none =>
    have hnone := get?_eq_none_iff.mp hget
    refine get?_mergeEntries_of_apart hnone ?_ target
    intro e he c hc
    have hekey := (hasDistinctKeys_of_mem hsource he).1
    have hapart := (Value.sameKey_comm hekey hkey).trans (hnone e he)
    exact Value.apart_of_common hekey hkey hapart hc
  | some incoming =>
    obtain ⟨e, he, hsame, rfl⟩ := exists_of_get? hget
    have hekey := (hasDistinctKeys_of_mem hsource he).1
    have hmerged : target.merged key e.2 = target.merged e.1 e.2 := by
      rw [merged, merged, get?_congr htarget hkey hekey hsame]
    rw [get?_congr (hasDistinctKeys_merge htarget hsource) hkey hekey hsame, Option.map_some,
      hmerged]
    exact get?_mergeEntries hsource target e he

section Lookup

variable (htarget : target.hasDistinctKeys = true) (hsource : source.hasDistinctKeys = true)
  {key : Value} (hkey : key.hasDistinctKeys = true)

include htarget hsource hkey

/-- A key that is not in the fragment finds what it found before. -/
theorem get?_merge_of_absent (habsent : source.get? key = none) :
    (target.merge source).get? key = target.get? key := by
  rw [get?_merge htarget hsource hkey, habsent]
  rfl

/-- A key that was not there finds what it finds in the fragment. -/
theorem get?_merge_of_new (hnew : target.get? key = none) :
    (target.merge source).get? key = source.get? key := by
  have hmerged : target.merged key = id := by
    funext incoming
    rw [merged, hnew]
    rfl
  rw [get?_merge htarget hsource hkey, hnew, hmerged, Option.map_id_fun, id, Option.or_none]

/-- A key of both sides finds what the value of the fragment comes to. -/
theorem get?_merge_of_common {existing incoming : Value}
    (hexisting : target.get? key = some existing) (hincoming : source.get? key = some incoming) :
    (target.merge source).get? key = some (Value.mergeInto incoming incoming existing) := by
  rw [get?_merge htarget hsource hkey, hincoming, Option.map_some, Option.some_or, merged,
    hexisting]

end Lookup

/-- What is found under the tags of a value in a mapping with distinct keys has distinct keys. -/
theorem hasDistinctKeys_untagged_of_get? {m : Mapping} (hm : m.hasDistinctKeys = true)
    {key v w : Value} (hv : m.get? key = some v) (hw : v.untagged = w) :
    w.hasDistinctKeys = true := by
  rw [← hw, Value.hasDistinctKeys_untagged]
  exact hasDistinctKeys_of_get? hm hv

/-- A mapping under the tags of a value is smaller than the mapping in which the value is found. -/
theorem sizeOf_lt_of_get? {m inner : Mapping} {key v : Value} (hv : m.get? key = some v)
    (hinner : v.untagged = .mapping inner) : sizeOf inner < sizeOf m := by
  obtain ⟨e, he, -, rfl⟩ := exists_of_get? hv
  have hle := e.2.sizeOf_untagged_le
  have hlt := (Value.sizeOf_lt_of_mem he).2
  rw [hinner, Value.mapping.sizeOf_spec] at hle
  rw [Value.mapping.sizeOf_spec] at hlt
  omega

/-- A merge obeys the law of overlays, at every depth. -/
theorem overlay_merge {target source : Mapping} (htarget : target.hasDistinctKeys = true)
    (hsource : source.hasDistinctKeys = true) : Overlay target source (target.merge source) := by
  refine .intro (keys_merge hsource target) (hasDistinctKeys_merge htarget hsource) ?_ ?_ ?_ ?_
  · intro key hkey habsent
    exact get?_merge_of_absent htarget hsource hkey habsent
  · intro key hkey hnew
    exact get?_merge_of_new htarget hsource hkey hnew
  · intro key hkey hsome
    rw [get?_merge htarget hsource hkey, Option.isSome_or, hsome, Bool.or_true]
  · intro key existing incoming v hkey hexisting hincoming hv
    have hcommon := get?_merge_of_common htarget hsource hkey hexisting hincoming
    obtain rfl := Option.some.inj (hv.symm.trans hcommon)
    rw [Value.mergeInto_eq]
    split
    · rename_i below above hd hs
      have hsmaller := sizeOf_lt_of_get? hincoming hs
      exact .mappings hd hs (overlay_merge (hasDistinctKeys_untagged_of_get? htarget hexisting hd)
        (hasDistinctKeys_untagged_of_get? hsource hincoming hs))
    · exact .sequences ‹_› ‹_›
    · rename_i hmappings hsequences
      refine .replaced ?_
      unfold Value.sameShape
      split
      · exact absurd ‹_› (hmappings _ _ ‹_›)
      · exact absurd ‹_› (hsequences _ _ ‹_›)
      · rfl
termination_by sizeOf source

/-- Mappings with distinct keys are equal if they have the same keys in the same order, and each
finds the same in both. -/
theorem eq_of_keys_eq {m n : Mapping} (hm : m.hasDistinctKeys = true)
    (hn : n.hasDistinctKeys = true) (hkeys : m.keys = n.keys)
    (hget : ∀ key ∈ m.keys, m.get? key = n.get? key) : m = n := by
  have hentries : ∀ {m : Mapping}, m.hasDistinctKeys = true →
      m.map (fun e => (e.1, some e.2)) = m.keys.map fun key => (key, m.get? key) := by
    intro m hm
    rw [keys, List.map_map]
    refine List.map_congr_left ?_
    intro e he
    rw [Function.comp_apply, get?_of_mem hm he]
  have hmaps : m.map (fun e => (e.1, some e.2)) = n.map fun e => (e.1, some e.2) := by
    rw [hentries hm, hentries hn, ← hkeys]
    refine List.map_congr_left ?_
    intro key hkey
    rw [hget key hkey]
  refine List.map_injective_iff.mpr ?_ hmaps
  rintro ⟨k, v⟩ ⟨l, w⟩ h
  simpa using h

/-- A path that leaves a fragment has a key. -/
theorem Leaves.ne_nil {path : List Value} (h : Leaves target source path) : path ≠ [] := by
  cases h <;> exact List.cons_ne_nil _ _

end Mapping

mutual
/-- The law of overlays determines the result, which is that of a merge. -/
theorem Mapping.Overlay.eq_merge {target source result : Mapping}
    (h : Mapping.Overlay target source result) (htarget : target.hasDistinctKeys = true)
    (hsource : source.hasDistinctKeys = true) : result = target.merge source := by
  match h with
  | .intro keys distinct kept added present met =>
    have hmerge := Mapping.hasDistinctKeys_merge htarget hsource
    refine Mapping.eq_of_keys_eq distinct hmerge (keys.trans (Mapping.keys_merge hsource _).symm) ?_
    intro key hmem
    obtain ⟨e, he, rfl⟩ := List.mem_map.mp hmem
    have hkey := (Mapping.hasDistinctKeys_of_mem distinct he).1
    have hfound := Mapping.get?_of_mem distinct he
    cases hincoming : source.get? e.1 with
    | none =>
      rw [kept e.1 hkey hincoming, Mapping.get?_merge_of_absent htarget hsource hkey hincoming]
    | some incoming =>
      cases hexisting : target.get? e.1 with
      | none =>
        rw [added e.1 hkey hexisting, Mapping.get?_merge_of_new htarget hsource hkey hexisting]
      | some existing =>
        have hmerged := (met e.1 existing incoming e.2 hkey hexisting hincoming hfound).eq_mergeInto
          (Mapping.hasDistinctKeys_of_get? htarget hexisting)
          (Mapping.hasDistinctKeys_of_get? hsource hincoming)
        rw [hfound, Mapping.get?_merge_of_common htarget hsource hkey hexisting hincoming, hmerged]
/-- What two values come to by the law is what the incoming one comes to in a merge. -/
theorem Value.Overlay.eq_mergeInto {existing incoming v : Value}
    (h : Value.Overlay existing incoming v) (hexisting : existing.hasDistinctKeys = true)
    (hincoming : incoming.hasDistinctKeys = true) :
    v = Value.mergeInto incoming incoming existing := by
  match h with
  | .mappings hd hs inner =>
    rw [← Value.hasDistinctKeys_untagged, hd] at hexisting
    rw [← Value.hasDistinctKeys_untagged, hs] at hincoming
    rw [Value.mergeInto_eq, hd, hs, inner.eq_merge hexisting hincoming]
  | .sequences hd hs => rw [Value.mergeInto_eq, hd, hs]
  | .replaced hshape =>
    rw [Value.mergeInto_eq]
    unfold Value.sameShape at hshape
    split at hshape <;> simp_all
end

/-- A path with a key leads from a value to what it leads to from the mapping under its tags. -/
theorem Value.along_of_asMapping? {v : Value} {m : Mapping} (hv : v.asMapping? = some m)
    {path : List Value} (hpath : path ≠ []) : v.along path = (Value.mapping m).along path := by
  cases path with
  | nil => exact absurd rfl hpath
  | cons key rest =>
    rw [along, along, hv]
    rfl

/-- A path that leaves the fragment leads to what it led to before. -/
theorem Mapping.along_merge_of_leaves {target source : Mapping} {path : List Value}
    (hpath : Leaves target source path) (htarget : target.hasDistinctKeys = true)
    (hsource : source.hasDistinctKeys = true) (hkeys : ∀ key ∈ path, key.hasDistinctKeys = true) :
    (Value.mapping (target.merge source)).along path = (Value.mapping target).along path := by
  have hcons : ∀ (m : Mapping) key rest, (Value.mapping m).along (key :: rest) =
      (m.get? key).bind fun w => w.along rest := fun m key rest => rfl
  induction hpath with
  | absent rest habsent =>
    rw [hcons, hcons, get?_merge_of_absent htarget hsource (hkeys _ List.mem_cons_self) habsent]
  | @inner target source below above key existing incoming rest hexisting hbelow hincoming habove
      hrest ih =>
    obtain ⟨hkey, hkeys⟩ := List.forall_mem_cons.mp hkeys
    have hd := Value.asMapping?_eq_some_iff.mp hbelow
    have hs := Value.asMapping?_eq_some_iff.mp habove
    have hmerged := get?_merge_of_common htarget hsource hkey hexisting hincoming
    rw [Value.mergeInto_eq, hd, hs] at hmerged
    rw [hcons, hcons, hmerged, hexisting, Option.bind_some, Option.bind_some,
      Value.along_of_asMapping? (Value.asMapping?_mapUntagged existing _) hrest.ne_nil,
      Value.along_of_asMapping? hbelow hrest.ne_nil]
    exact ih (hasDistinctKeys_untagged_of_get? htarget hexisting hd)
      (hasDistinctKeys_untagged_of_get? hsource hincoming hs) hkeys

namespace Mapping

/-- A merge is pointwise. For mappings without a key twice its result is the only one that obeys
the law of overlays: key by key and at every depth, the keys that were there stay in front, what
only one side has is taken from there, mappings merge and sequences are joined under the tags that
are there, and anything else is replaced. So a path that leaves the fragment leads to the very value
to which it led before. -/
theorem merge_pointwise {target source : Mapping} (htarget : target.hasDistinctKeys = true)
    (hsource : source.hasDistinctKeys = true) :
    (∀ result, Overlay target source result ↔ result = target.merge source) ∧
    ∀ path, (∀ key ∈ path, key.hasDistinctKeys = true) → Leaves target source path →
      (Value.mapping (target.merge source)).along path = (Value.mapping target).along path := by
  refine ⟨?_, fun path hkeys hpath => along_merge_of_leaves hpath htarget hsource hkeys⟩
  intro result
  constructor
  · intro h
    exact h.eq_merge htarget hsource
  · rintro rfl
    exact overlay_merge htarget hsource

/-- A service whose description stands under a tag. -/
def service : Mapping :=
  [(.string "about", .tagged ⟨"web"⟩ (.mapping
      [(.string "name", .string "api"), (.string "ports", .sequence [.number (.int 80)])])),
    (.number (.int 80), .string "open")]

/-- What is to be changed in the service. -/
def change : Mapping :=
  [(.number (.int 80), .mapping [(.string "to", .number (.int 8080))]),
    (.string "about", .mapping
      [(.string "tier", .tagged ⟨"zone"⟩ (.string "front")),
        (.string "ports", .tagged ⟨"more"⟩ (.sequence [.number (.int 443)]))])]

/-- The changed service keeps its keys in their order and the tag of its description; a mapping
takes the place of a text; and the name, which the change does not reach, stays. -/
theorem service_merge_pointwise :
    service.hasDistinctKeys = true ∧ change.hasDistinctKeys = true ∧
    Overlay service change
      [(.string "about", .tagged ⟨"web"⟩ (.mapping
          [(.string "name", .string "api"),
            (.string "ports", .sequence [.number (.int 80), .number (.int 443)]),
            (.string "tier", .tagged ⟨"zone"⟩ (.string "front"))])),
        (.number (.int 80), .mapping [(.string "to", .number (.int 8080))])] ∧
    (∀ key ∈ [Value.string "about", .string "name"], key.hasDistinctKeys = true) ∧
    Leaves service change [.string "about", .string "name"] ∧
    (Value.mapping (service.merge change)).along [.string "about", .string "name"] =
      some (.string "api") := by
  have hservice : service.hasDistinctKeys = true := by decide
  have hchange : change.hasDistinctKeys = true := by decide
  have hkeys : ∀ key ∈ [Value.string "about", .string "name"], key.hasDistinctKeys = true := by
    simp [Value.hasDistinctKeys]
  have hleaves : Leaves service change [.string "about", .string "name"] :=
    .inner rfl rfl rfl rfl (.absent [] rfl)
  obtain ⟨hlaw, hpath⟩ := merge_pointwise hservice hchange
  exact ⟨hservice, hchange, (hlaw _).mpr rfl, hkeys, hleaves, hpath _ hkeys hleaves⟩

end Mapping

end ManifestRules
