import ManifestRules.Proofs.KeyPath
/-!
# Fragments in layers

Three layers may be merged from the bottom or from the top. The result is the same tree
(`Mapping.merge_assoc_of_layered`) if the middle layer does not come between the outer ones: where
both of these have a mapping, or both a sequence, and the middle layer has a value, it is of the
same shape (`Mapping.Layered`). Otherwise the middle layer replaces what is below it, or is itself
replaced before it can.
-/

namespace ManifestRules

/-- At the end of every path of keys that leads somewhere in all three layers, the middle layer has
a mapping if the outer ones both have one, and a sequence if they both have one. -/
def Mapping.Layered (lower middle upper : Mapping) : Prop :=
  ∀ path x y z, (∀ key ∈ path, key.hasDistinctKeys = true) →
    (Value.mapping lower).along path = some x → (Value.mapping middle).along path = some y →
    (Value.mapping upper).along path = some z →
    x.sameShape z = true → x.sameShape y = true

namespace Value

/-- Two values of one shape are of the same shape as the same others. -/
theorem sameShape_congr {v w : Value} (hvw : v.sameShape w = true) (u : Value) :
    v.sameShape u = w.sameShape u := by
  unfold sameShape at hvw ⊢
  split at hvw
  · rename_i hv hw
    rw [hv, hw]
    cases u.untagged <;> rfl
  · rename_i hv hw
    rw [hv, hw]
    cases u.untagged <;> rfl
  · cases hvw

/-- It does not matter which of two values is named first. -/
theorem sameShape_comm (v w : Value) : v.sameShape w = w.sameShape v := by
  unfold sameShape
  cases v.untagged <;> cases w.untagged <;> rfl

/-- Values of one shape are two mappings or two sequences. -/
theorem sameShape_cases {v w : Value} (hvw : v.sameShape w = true) :
    (∃ m n, v.untagged = .mapping m ∧ w.untagged = .mapping n) ∨
      ∃ xs ys, v.untagged = .sequence xs ∧ w.untagged = .sequence ys := by
  unfold sameShape at hvw
  split at hvw
  · exact .inl ⟨_, _, ‹_›, ‹_›⟩
  · exact .inr ⟨_, _, ‹_›, ‹_›⟩
  · cases hvw

/-- An incoming value of another shape replaces the one that is there. -/
theorem mergeInto_of_not_sameShape {incoming existing : Value}
    (h : existing.sameShape incoming = false) :
    mergeInto incoming incoming existing = incoming := by
  rw [mergeInto_eq]
  unfold sameShape at h
  split at h
  · cases h
  · cases h
  · rfl

/-- What an incoming value comes to has its shape. -/
theorem sameShape_mergeInto (incoming existing other : Value) :
    (mergeInto incoming incoming existing).sameShape other = incoming.sameShape other := by
  cases h : existing.sameShape incoming with
  | false => rw [mergeInto_of_not_sameShape h]
  | true =>
    rw [← sameShape_congr h, mergeInto_eq]
    unfold sameShape
    obtain ⟨m, n, hm, hn⟩ | ⟨xs, ys, hxs, hys⟩ := sameShape_cases h
    · rw [hm, hn]
      simp only [untagged_mapUntagged]
      cases other.untagged <;> rfl
    · rw [hxs, hys]
      simp only [untagged_mapUntagged]
      cases other.untagged <;> rfl

/-- Under tags that stay, what is there may be replaced step by step. -/
theorem mapUntagged_mapUntagged (v w : Value) (f : Value → Value) :
    (v.mapUntagged fun _ => w).mapUntagged f = v.mapUntagged fun _ => w.mapUntagged f := by
  match v with
  | .tagged tag inner => exact congrArg (tagged tag) (mapUntagged_mapUntagged inner w f)
  | .null | .bool _ | .number _ | .string _ | .sequence _ | .mapping _ => rfl

/-- Three values of a key may be merged from the bottom or from the top, if the middle one is of the
shape in which the outer ones meet, and the same holds for the mappings under their tags. -/
theorem mergeInto_assoc {x y z : Value} (hshape : x.sameShape z = true → x.sameShape y = true)
    (hinner : ∀ l m u, x.untagged = .mapping l → y.untagged = .mapping m → z.untagged = .mapping u →
      Mapping.merge (Mapping.merge l m) u = Mapping.merge l (Mapping.merge m u)) :
    mergeInto z z (mergeInto y y x) = mergeInto (mergeInto z z y) (mergeInto z z y) x := by
  cases hyz : y.sameShape z with
  | false =>
    -- The upper value replaces the middle one, before or after this has met the lower one.
    have hupper : (mergeInto y y x).sameShape z = false := (sameShape_mergeInto y x z).trans hyz
    have hlower : x.sameShape z = false := by
      by_contra hxz
      rw [Bool.not_eq_false] at hxz
      rw [← sameShape_congr (hshape hxz), hxz] at hyz
      cases hyz
    rw [mergeInto_of_not_sameShape hyz, mergeInto_of_not_sameShape hupper,
      mergeInto_of_not_sameShape hlower]
  | true =>
    cases hxy : x.sameShape y with
    | false =>
      -- The middle value replaces the lower one, before or after it has met the upper one.
      have hlower : x.sameShape (mergeInto z z y) = false := by
        rw [sameShape_comm, sameShape_mergeInto, ← sameShape_congr hyz, sameShape_comm, hxy]
      rw [mergeInto_of_not_sameShape hxy, mergeInto_of_not_sameShape hlower]
    | true =>
      obtain ⟨l, m, hl, hm⟩ | ⟨ls, ms, hls, hms⟩ := sameShape_cases hxy
      · obtain ⟨_, u, hm', hu⟩ | ⟨ms, us, hms, -⟩ := sameShape_cases hyz
        · obtain rfl := mapping.inj (hm.symm.trans hm')
          have hlower := untagged_mapUntagged x (mapping (Mapping.merge l m))
          have hupper := untagged_mapUntagged y (mapping (Mapping.merge m u))
          rw [mergeInto_of_mappings hl hm, mergeInto_of_mappings hm hu,
            mergeInto_of_mappings hlower hu, mergeInto_of_mappings hl hupper,
            mapUntagged_mapUntagged, ← hinner l m u hl hm hu]
          rfl
        · cases hm.symm.trans hms
      · obtain ⟨m, _, hm, -⟩ | ⟨ms', us, hms', hus⟩ := sameShape_cases hyz
        · cases hms.symm.trans hm
        · obtain rfl := sequence.inj (hms.symm.trans hms')
          have hlower := untagged_mapUntagged x (sequence (ls ++ ms))
          have hupper := untagged_mapUntagged y (sequence (ms ++ us))
          rw [mergeInto_of_sequences hls hms, mergeInto_of_sequences hms hus,
            mergeInto_of_sequences hlower hus, mergeInto_of_sequences hls hupper,
            mapUntagged_mapUntagged, ← List.append_assoc]
          rfl

end Value

namespace Mapping

variable {lower middle upper : Mapping}

/-- The middle layer has a shape under a key in which the outer ones meet there. -/
theorem Layered.shape (h : Layered lower middle upper) {key x y z : Value}
    (hkey : key.hasDistinctKeys = true) (hx : lower.get? key = some x)
    (hy : middle.get? key = some y) (hz : upper.get? key = some z)
    (hshape : x.sameShape z = true) : x.sameShape y = true := by
  refine h [key] x y z (List.forall_mem_singleton.mpr hkey) ?_ ?_ ?_ hshape
  · rw [Value.along_mapping_cons, hx]
    rfl
  · rw [Value.along_mapping_cons, hy]
    rfl
  · rw [Value.along_mapping_cons, hz]
    rfl

/-- Layers are in order below a key that leads to mappings in all of them. -/
theorem Layered.inner (h : Layered lower middle upper) {key x y z : Value} {l m u : Mapping}
    (hkey : key.hasDistinctKeys = true) (hx : lower.get? key = some x)
    (hy : middle.get? key = some y) (hz : upper.get? key = some z) (hl : x.untagged = .mapping l)
    (hm : y.untagged = .mapping m) (hu : z.untagged = .mapping u) : Layered l m u := by
  intro path v w t hpath hv hw ht hshape
  cases path with
  | nil =>
    cases hv
    cases hw
    rfl
  | cons next rest =>
    rw [← Value.along_cons_of_untagged hl] at hv
    rw [← Value.along_cons_of_untagged hm] at hw
    rw [← Value.along_cons_of_untagged hu] at ht
    refine h (key :: next :: rest) v w t (List.forall_mem_cons.mpr ⟨hkey, hpath⟩) ?_ ?_ ?_ hshape
    · rw [Value.along_mapping_cons, hx, Option.bind_some, hv]
    · rw [Value.along_mapping_cons, hy, Option.bind_some, hw]
    · rw [Value.along_mapping_cons, hz, Option.bind_some, ht]

/-- A key is missing behind a merge if it is missing on both sides. -/
theorem isNone_get?_merge {target source : Mapping} (htarget : target.hasDistinctKeys = true)
    (hsource : source.hasDistinctKeys = true) {key : Value} (hkey : key.hasDistinctKeys = true) :
    ((target.merge source).get? key).isNone =
      ((target.get? key).isNone && (source.get? key).isNone) := by
  rw [get?_merge htarget hsource hkey]
  cases source.get? key <;> cases target.get? key <;> rfl

/-- Layers have the same keys in the same order, whether they are merged from the bottom or from
the top. -/
theorem keys_merge_assoc (hlower : lower.hasDistinctKeys = true)
    (hmiddle : middle.hasDistinctKeys = true) (hupper : upper.hasDistinctKeys = true) :
    ((lower.merge middle).merge upper).keys = (lower.merge (middle.merge upper)).keys := by
  have hmissing : ∀ key ∈ upper.keys, ((lower.merge middle).get? key).isNone =
      ((lower.get? key).isNone && (middle.get? key).isNone) := by
    intro key hkey
    obtain ⟨z, -, hmem⟩ := exists_get?_of_mem_keys hupper hkey
    exact isNone_get?_merge hlower hmiddle (hasDistinctKeys_of_mem hupper hmem).1
  rw [keys_merge hupper, keys_merge hmiddle, keys_merge (hasDistinctKeys_merge hmiddle hupper),
    keys_merge hupper, List.filter_append, List.filter_filter, List.filter_congr hmissing,
    List.append_assoc]

/-- Layers have the same value under a key in either order of merging, if its values in all three of
them may themselves be merged from the bottom or from the top. -/
theorem get?_merge_assoc (hlower : lower.hasDistinctKeys = true)
    (hmiddle : middle.hasDistinctKeys = true) (hupper : upper.hasDistinctKeys = true) {key : Value}
    (hkey : key.hasDistinctKeys = true)
    (hvalues : ∀ x y z, lower.get? key = some x → middle.get? key = some y →
      upper.get? key = some z → Value.mergeInto z z (Value.mergeInto y y x) =
        Value.mergeInto (Value.mergeInto z z y) (Value.mergeInto z z y) x) :
    ((lower.merge middle).merge upper).get? key = (lower.merge (middle.merge upper)).get? key := by
  have hbelow := hasDistinctKeys_merge hlower hmiddle
  have habove := hasDistinctKeys_merge hmiddle hupper
  cases hz : upper.get? key with
  | none =>
    rw [get?_merge_of_absent hbelow hupper hkey hz, get?_merge hlower habove hkey,
      get?_merge hlower hmiddle hkey, get?_merge_of_absent hmiddle hupper hkey hz]
  | some z =>
    cases hy : middle.get? key with
    | none =>
      have hsame := get?_merge_of_absent hlower hmiddle hkey hy
      rw [get?_merge hbelow hupper hkey, get?_merge hlower habove hkey,
        get?_merge_of_new hmiddle hupper hkey hy, hz, Option.map_some, Option.map_some,
        merged_congr hsame, Option.some_or, Option.some_or]
    | some y =>
      have hjoined := get?_merge_of_common hmiddle hupper hkey hy hz
      cases hx : lower.get? key with
      | none =>
        have hnew := (get?_merge_of_new hlower hmiddle hkey hx).trans hy
        rw [get?_merge_of_common hbelow hupper hkey hnew hz,
          get?_merge_of_new hlower habove hkey hx, hjoined]
      | some x =>
        have hcommon := get?_merge_of_common hlower hmiddle hkey hx hy
        rw [get?_merge_of_common hbelow hupper hkey hcommon hz,
          get?_merge_of_common hlower habove hkey hx hjoined, hvalues x y z hx hy hz]

/-- Layers compose: if the middle layer does not come between the outer ones, then merging the upper
layer into the other two, and merging the upper two into the lower one, give the same tree, with the
same keys in the same order and the same tags. -/
theorem merge_assoc_of_layered {lower middle upper : Mapping}
    (hlower : lower.hasDistinctKeys = true) (hmiddle : middle.hasDistinctKeys = true)
    (hupper : upper.hasDistinctKeys = true) (h : Layered lower middle upper) :
    (lower.merge middle).merge upper = lower.merge (middle.merge upper) := by
  have hleft := hasDistinctKeys_merge (hasDistinctKeys_merge hlower hmiddle) hupper
  have hright := hasDistinctKeys_merge hlower (hasDistinctKeys_merge hmiddle hupper)
  refine eq_of_keys_eq hleft hright (keys_merge_assoc hlower hmiddle hupper) ?_
  intro key hmem
  obtain ⟨v, -, hentry⟩ := exists_get?_of_mem_keys hleft hmem
  have hkey := (hasDistinctKeys_of_mem hleft hentry).1
  refine get?_merge_assoc hlower hmiddle hupper hkey ?_
  intro x y z hx hy hz
  refine Value.mergeInto_assoc (h.shape hkey hx hy hz) ?_
  -- Mappings below the key are layers again, and the lowest of them is smaller.
  intro l m u hl hm hu
  have hsmaller := sizeOf_lt_of_get? hx hl
  exact merge_assoc_of_layered (hasDistinctKeys_untagged_of_get? hlower hx hl)
    (hasDistinctKeys_untagged_of_get? hmiddle hy hm)
    (hasDistinctKeys_untagged_of_get? hupper hz hu) (h.inner hkey hx hy hz hl hm hu)
termination_by sizeOf lower

/-- A middle layer of another shape takes away what is below it, or is itself taken away before it
can. -/
example :
    let lower : Mapping := [(.string "a", .mapping [(.string "x", .null)])]
    let middle : Mapping := [(.string "a", .bool true)]
    let upper : Mapping := [(.string "a", .mapping [(.string "y", .null)])]
    (lower.merge middle).merge upper = upper ∧
      lower.merge (middle.merge upper) =
        [(.string "a", .mapping [(.string "x", .null), (.string "y", .null)])] :=
  ⟨rfl, rfl⟩

/-- What is to be added to the change of the service. -/
def addition : Mapping :=
  [(.string "about", .tagged ⟨"late"⟩ (.mapping [(.string "ports", .sequence [.string "any"])]))]

/-- The change of the service does not come between the service and the addition. -/
theorem layered_addition : Layered service change addition := by
  have honly : ∀ {name : String} {v w key : Value},
      get? [(.string name, v)] key = some w → key = .string name ∧ w = v := by
    intro name v w key hw
    obtain ⟨e, he, hkey, rfl⟩ := exists_of_get? hw
    obtain rfl := List.mem_singleton.mp he
    exact ⟨Value.sameKey_string_iff.mp hkey, rfl⟩
  intro path x y z _ hx hy hz _
  match path with
  | [] =>
    cases hx
    cases hy
    rfl
  | key :: rest =>
    rw [Value.along_mapping_cons] at hz
    obtain ⟨about, habout, hz⟩ := Option.bind_eq_some_iff.mp hz
    obtain ⟨rfl, rfl⟩ := honly habout
    match rest with
    | [] =>
      cases hx
      cases hy
      rfl
    | next :: rest =>
      rw [Value.along_cons_of_untagged rfl, Value.along_mapping_cons] at hz
      obtain ⟨ports, hports, hz⟩ := Option.bind_eq_some_iff.mp hz
      obtain ⟨rfl, rfl⟩ := honly hports
      match rest with
      | [] =>
        cases hx
        cases hy
        rfl
      | _ :: _ => cases hz

/-- The service, its change and the addition give the same service in either order of merging; the
ports of all three are joined, and the description keeps its tag. -/
theorem service_merge_assoc :
    service.hasDistinctKeys = true ∧ change.hasDistinctKeys = true ∧
    addition.hasDistinctKeys = true ∧ Layered service change addition ∧
    (service.merge change).merge addition = service.merge (change.merge addition) ∧
    service.merge (change.merge addition) =
      [(.string "about", .tagged ⟨"web"⟩ (.mapping
          [(.string "name", .string "api"),
            (.string "ports", .sequence [.number (.int 80), .number (.int 443), .string "any"]),
            (.string "tier", .tagged ⟨"zone"⟩ (.string "front"))])),
        (.number (.int 80), .mapping [(.string "to", .number (.int 8080))])] := by
  have hservice : service.hasDistinctKeys = true := by decide
  have hchange : change.hasDistinctKeys = true := by decide
  have haddition : addition.hasDistinctKeys = true := by decide
  exact ⟨hservice, hchange, haddition, layered_addition,
    merge_assoc_of_layered hservice hchange haddition layered_addition, rfl⟩

end Mapping

end ManifestRules
