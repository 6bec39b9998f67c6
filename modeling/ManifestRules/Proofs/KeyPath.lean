import ManifestRules.Proofs.Overlay
/-!
# Paths of keys

A path of keys leads from mapping to mapping (`Value.along`). Its end shows its surface
(`Value.surface`): tags, the keys of a mapping in order, and any other value as a whole. Values
without a key twice that show the same surface at the end of every path are equal
(`Value.eq_of_surface`), so what is said about all paths determines a value.
-/

namespace ManifestRules

/-- What a value shows before any key is followed: its tags, the keys of a mapping in order, and
any other value as a whole. -/
def Value.surface : Value → Value
  | .tagged tag inner => .tagged tag inner.surface
  | .mapping entries => .mapping (entries.map fun e => (e.1, .null))
  | .sequence items => .sequence items
  | .null => .null
  | .bool b => .bool b
  | .number n => .number n
  | .string s => .string s

namespace Value

/-- The first key of a path is looked up in the mapping. -/
theorem along_mapping_cons (m : Mapping) (key : Value) (rest : List Value) :
    (mapping m).along (key :: rest) = (m.get? key).bind fun w => w.along rest := rfl

/-- From a value that is a mapping under its tags, a key leads where it leads from the mapping. -/
theorem along_cons_of_untagged {v : Value} {m : Mapping} (hv : v.untagged = mapping m) (key : Value)
    (rest : List Value) : v.along (key :: rest) = (mapping m).along (key :: rest) :=
  along_of_asMapping? (asMapping?_eq_some_iff.mpr hv) (List.cons_ne_nil key rest)

/-- A path leads on by a key from nothing but a mapping under tags. -/
theorem exists_untagged_of_along_cons {v w key : Value} {rest : List Value}
    (hw : v.along (key :: rest) = some w) : ∃ m, v.untagged = mapping m := by
  obtain ⟨m, hm, -⟩ := Option.bind_eq_some_iff.mp hw
  exact ⟨m, asMapping?_eq_some_iff.mp hm⟩

/-- A path of two parts leads where the second part leads from the end of the first. -/
theorem along_append (v : Value) (path rest : List Value) :
    v.along (path ++ rest) = (v.along path).bind fun w => w.along rest := by
  induction path generalizing v with
  | nil => rfl
  | cons key path ih =>
    rw [List.cons_append, along, along]
    cases v.asMapping? with
    | none => rfl
    | some m =>
      rw [Option.bind_some, Option.bind_some]
      cases m.get? key with
      | none => rfl
      | some w => exact ih w

/-- Of a mapping the surface shows the keys. -/
theorem surface_mapping_eq_iff {m n : Mapping} :
    (mapping m).surface = (mapping n).surface ↔ m.keys = n.keys := by
  have hmap : ∀ l : Mapping, l.map (fun e => (e.1, null)) = l.keys.map fun key => (key, null) := by
    intro l
    rw [Mapping.keys, List.map_map]
    rfl
  have hinjective : Function.Injective fun key : Value => (key, null) := by
    intro k l hkl
    exact (Prod.mk.inj hkl).1
  rw [surface, surface, mapping.injEq, hmap, hmap, (List.map_injective_iff.mpr hinjective).eq_iff]

end Value

/-- A key that is there finds the value of an entry. -/
theorem Mapping.exists_get?_of_mem_keys {m : Mapping} (hm : m.hasDistinctKeys = true) {key : Value}
    (hkey : key ∈ m.keys) : ∃ v, m.get? key = some v ∧ (key, v) ∈ m := by
  obtain ⟨e, he, rfl⟩ := List.mem_map.mp hkey
  exact ⟨e.2, get?_of_mem hm he, he⟩

/-- The value of an entry is smaller than the entries of a mapping. -/
theorem Mapping.sizeOf_lt_of_mem {m : Mapping} {key v : Value} (h : (key, v) ∈ m) :
    sizeOf v < sizeOf m := by
  have hlt := List.sizeOf_lt_of_mem h
  rw [Prod.mk.sizeOf_spec] at hlt
  omega

namespace Value

/-- The value of an entry is smaller than a value that has the mapping of this entry under tags. -/
theorem sizeOf_lt_of_untagged {v : Value} {m : Mapping} {e : Value × Value}
    (hv : v.untagged = mapping m) (he : e ∈ m) : sizeOf e.2 < sizeOf v := by
  have hle := sizeOf_untagged_le v
  have hlt := (sizeOf_lt_of_mem he).2
  rw [hv] at hle
  omega

/-- Two values with distinct keys are equal if every path of keys ends in the same surface in both
of them, or in neither. -/
theorem eq_of_surface {v w : Value} (hv : v.hasDistinctKeys = true) (hw : w.hasDistinctKeys = true)
    (h : ∀ path, (∀ key ∈ path, key.hasDistinctKeys = true) →
      (v.along path).map surface = (w.along path).map surface) : v = w := by
  have hroot : v.surface = w.surface := Option.some.inj (h [] (by simp))
  match v with
  | .tagged tag inner =>
    cases w with
    | tagged tag' inner' =>
      obtain ⟨rfl, hinner⟩ := tagged.inj hroot
      refine congrArg (tagged tag) (eq_of_surface (v := inner) hv hw ?_)
      intro path hpath
      cases path with
      | nil => exact congrArg some hinner
      | cons key rest => exact h (key :: rest) hpath
    | _ => cases hroot
  | .mapping m =>
    cases w with
    | mapping n =>
      have hkeys : Mapping.keys m = Mapping.keys n := surface_mapping_eq_iff.mp hroot
      refine congrArg mapping (Mapping.eq_of_keys_eq hv hw hkeys ?_)
      intro key hkey
      obtain ⟨x, hx, hmem⟩ := Mapping.exists_get?_of_mem_keys hv hkey
      obtain ⟨y, hy, hmem'⟩ := Mapping.exists_get?_of_mem_keys hw (hkeys ▸ hkey)
      have hparts := Mapping.hasDistinctKeys_of_mem hv hmem
      have hsmaller := Mapping.sizeOf_lt_of_mem hmem
      have hxy : x = y := by
        refine eq_of_surface hparts.2 (Mapping.hasDistinctKeys_of_mem hw hmem').2 ?_
        intro path hpath
        have hbelow := h (key :: path) (List.forall_mem_cons.mpr ⟨hparts.1, hpath⟩)
        rwa [along_mapping_cons, along_mapping_cons, hx, hy] at hbelow
      rw [hx, hy, hxy]
    | _ => cases hroot
  | .sequence _ | .null | .bool _ | .number _ | .string _ =>
    cases w with
    | tagged _ _ | mapping _ => cases hroot
    | _ => exact hroot
termination_by sizeOf v

/-- A mapping takes the place of another under tags: if a path ends in the same surface in both, it
does so with the tags around them. -/
theorem surface_along_mapUntagged {v : Value} {m n : Mapping} {path : List Value}
    (hv : v.untagged = mapping m)
    (hpath : ((mapping n).along path).map surface = ((mapping m).along path).map surface) :
    ((v.mapUntagged fun _ => mapping n).along path).map surface =
      (v.along path).map surface := by
  match v with
  | .tagged tag inner =>
    have hinner := surface_along_mapUntagged (v := inner) hv hpath
    cases path with
    | nil => exact congrArg (Option.map (tagged tag)) hinner
    | cons key rest => exact hinner
  | .mapping _ =>
    cases hv
    exact hpath
  | .sequence _ | .null | .bool _ | .number _ | .string _ => cases hv

end Value

end ManifestRules
