import ManifestRules.Graph
import ManifestRules.Proofs.Keys
import Mathlib.Data.List.Infix
/-!
# Merging fragments

A merge inserts what comes of every entry of the fragment (`mergeEntries_cons`). It keeps every
key of the mapping it goes into, in its place (`keys_prefix_mergeEntries`), and what is
then found by a key of the fragment depends on this entry alone (`get?_mergeEntries`).
-/

namespace ManifestRules

namespace Value

/-- There is no tag around what is under all tags. -/
theorem untagged_ne_tagged (v : Value) (tag : Tag) (inner : Value) :
    v.untagged ≠ .tagged tag inner := by
  match v with
  | .tagged _ w => exact untagged_ne_tagged w tag inner
  | .null | .bool _ | .number _ | .string _ | .sequence _ | .mapping _ => nofun

end Value

/-- The keys of a mapping in order. -/
def Mapping.keys (m : Mapping) : List Value := m.map (·.1)

namespace Mapping

/-- An inserted entry keeps its key or goes behind all others. -/
theorem keys_prefix_insert (m : Mapping) (key v : Value) : m.keys <+: (m.insert key v).keys := by
  induction m with
  | nil => exact List.nil_prefix
  | cons entry rest ih =>
    obtain ⟨k, w⟩ := entry
    rw [insert]
    split
    · exact List.prefix_refl _
    · exact (List.prefix_cons_inj k).mpr ih

/-- What an entry of a fragment comes to in a mapping. -/
def merged (target : Mapping) (key incoming : Value) : Value :=
  match target.get? key with
  | some existing => Value.mergeInto incoming incoming existing
  | none => incoming

/-- What an entry comes to depends on nothing but what its key finds. -/
theorem merged_congr {m n : Mapping} {key : Value} (hget : m.get? key = n.get? key)
    (incoming : Value) : m.merged key incoming = n.merged key incoming := by
  rw [merged, merged, hget]

/-- Merging inserts what an entry comes to and goes on. -/
theorem mergeEntries_cons (target : Mapping) (key incoming : Value) (rest : List (Value × Value)) :
    Value.mergeEntries ((key, incoming) :: rest) target =
      Value.mergeEntries rest (target.insert key (target.merged key incoming)) := by
  rw [Value.mergeEntries, merged]
  cases hm : target.get? key with
  | none => rw [insert_of_get?_eq_none hm]
  | some existing => rfl

/-- Merging a fragment keeps the keys and their order. -/
theorem keys_prefix_mergeEntries (source : List (Value × Value)) (target : Mapping) :
    target.keys <+: Mapping.keys (Value.mergeEntries source target) := by
  induction source generalizing target with
  | nil => exact List.prefix_refl _
  | cons entry rest ih =>
    obtain ⟨key, incoming⟩ := entry
    rw [mergeEntries_cons]
    exact (keys_prefix_insert target key _).trans (ih _)

/-- Merging does not change what is found by a key that has nothing in common with those of
the fragment. -/
theorem get?_mergeEntries_of_apart {source : List (Value × Value)} {other : Value}
    (hkeys : ∀ e ∈ source, other.sameKey e.1 = false)
    (hapart : ∀ e ∈ source, ∀ c, e.1.sameKey c = true → other.sameKey c = false)
    (target : Mapping) : get? (Value.mergeEntries source target) other = target.get? other := by
  induction source generalizing target with
  | nil => rfl
  | cons entry rest ih =>
    obtain ⟨key, incoming⟩ := entry
    obtain ⟨hkey, hkeys⟩ := List.forall_mem_cons.mp hkeys
    obtain ⟨hother, hapart⟩ := List.forall_mem_cons.mp hapart
    rw [mergeEntries_cons, ih hkeys hapart, get?_insert_of_apart target hkey hother]

/-- After a merge, a key of the fragment finds what its entry comes to in the mapping as it
was: entries of other keys do not interfere. -/
theorem get?_mergeEntries {source : List (Value × Value)}
    (hsource : Value.entriesHaveDistinctKeys source = true) (target : Mapping) :
    ∀ e ∈ source, get? (Value.mergeEntries source target) e.1 = some (target.merged e.1 e.2) := by
  induction source generalizing target with
  | nil => simp
  | cons entry rest ih =>
    obtain ⟨key, incoming⟩ := entry
    have hself := Value.sameKey_self_of_mem _ hsource
    obtain ⟨hpair, hkeys⟩ := (Value.entriesHaveDistinctKeys_iff _).mp hsource
    obtain ⟨hdiffer, hpair⟩ := List.pairwise_cons.mp hpair
    obtain ⟨⟨hkey, -⟩, hkeys⟩ := List.forall_mem_cons.mp hkeys
    have hrest : Value.entriesHaveDistinctKeys rest = true :=
      (Value.entriesHaveDistinctKeys_iff rest).mpr ⟨hpair, hkeys⟩
    have hselfkey := (hself (key, incoming) List.mem_cons_self).1
    intro e he
    rw [mergeEntries_cons]
    rcases List.mem_cons.mp he with rfl | he
    · -- What the first entry comes to is not touched by those of other keys behind it.
      have hapart : ∀ f ∈ rest, ∀ c, f.1.sameKey c = true → key.sameKey c = false :=
        fun f hf c => Value.apart_of_common (hkeys f hf).1 hkey (hdiffer f hf)
      have hrestself := fun f hf => (hself f (List.mem_cons_of_mem _ hf)).1
      rw [get?_mergeEntries_of_apart (fun f hf => hapart f hf f.1 (hrestself f hf)) hapart,
        get?_insert_self target hselfkey]
    · -- What a later key finds is not touched by the first entry.
      have hapart : ∀ c, key.sameKey c = true → e.1.sameKey c = false := by
        intro c hc
        by_contra hec
        rw [Bool.not_eq_false] at hec
        rw [Value.apart_of_common (hkeys e he).1 hkey (hdiffer e he) hec] at hc
        cases hc
      have hnew := hapart key hselfkey
      rw [ih hrest _ e he, merged_congr (get?_insert_of_apart target hnew hapart _)]

end Mapping

/-- Merge fragments one after another. -/
def Document.mergeAll (d : Document) (fragments : List Mapping) : Document :=
  fragments.foldl Document.merge d

/-- Merges do not touch the captured kind. -/
@[simp] theorem Document.mergeAll_kind (d : Document) (fragments : List Mapping) :
    (d.mergeAll fragments).kind = d.kind := by
  induction fragments generalizing d with
  | nil => rfl
  | cons fragment fragments ih => exact ih (d.merge fragment)

/-- Fragments may be merged in two portions. -/
theorem Document.mergeAll_append (d : Document) (fs gs : List Mapping) :
    d.mergeAll (fs ++ gs) = (d.mergeAll fs).mergeAll gs :=
  List.foldl_append

/-- Merging fragments keeps the keys of a document and their order. -/
theorem Document.keys_prefix_mergeAll (d : Document) (fragments : List Mapping) :
    Mapping.keys d.body <+: Mapping.keys (d.mergeAll fragments).body := by
  induction fragments generalizing d with
  | nil => exact List.prefix_refl _
  | cons fragment fragments ih =>
    exact (Mapping.keys_prefix_mergeEntries fragment d.body).trans (ih (d.merge fragment))

end ManifestRules
