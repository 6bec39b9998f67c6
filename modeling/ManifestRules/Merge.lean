import ManifestRules.Value
/-!
# Merging mappings

A fragment is merged into a mapping entry by entry. A new key goes to the end;
two mappings merge by the same rule, the items of a sequence follow those that
are there, and any other value replaces the one that is there. Tags are looked
through, and the tag that is there stays. No key is ever removed.
-/

namespace ManifestRules

mutual
/-- What an entry holds after a fragment's value has been merged into it.
`bare` is the incoming value seen through its tags; where nothing merges, the
whole incoming value replaces the old one. -/
def Value.mergeInto (whole bare existing : Value) : Value :=
  match bare with
  | .tagged _ inner => Value.mergeInto whole inner existing
  | .mapping source =>
    match existing.untagged with
    | .mapping entries => existing.mapUntagged fun _ => .mapping (Value.mergeEntries source entries)
    | _ => whole
  | .sequence source =>
    match existing.untagged with
    | .sequence items => existing.mapUntagged fun _ => .sequence (items ++ source)
    | _ => whole
  | _ => whole
termination_by structural bare
/-- Merge the entries of a fragment one after another. -/
def Value.mergeEntries (source : List (Value × Value)) (target : Mapping) : Mapping :=
  match source with
  | [] => target
  | (key, incoming) :: rest =>
    let next :=
      match Mapping.get? target key with
      | some existing => Mapping.insert target key (Value.mergeInto incoming incoming existing)
      | none => target ++ [(key, incoming)]
    Value.mergeEntries rest next
termination_by structural source
end

/-- Merge a fragment into a mapping. -/
def Mapping.merge (target source : Mapping) : Mapping :=
  Value.mergeEntries source target

end ManifestRules
