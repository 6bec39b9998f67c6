import ManifestRules.Value
import Mathlib.Data.List.Forall2
import Mathlib.Data.List.Pairwise
/-!
# Keys

In a mapping that was built by insertions no key is the same as another, and so at every
depth (`Value.hasDistinctKeys`). Among such values, being the same key is an equivalence, although
the entries of a mapping are compared without regard to their order: two keys that are
both the same as a third one are the same (`Value.sameKey_of_common`).
-/

namespace ManifestRules

mutual
/-- No mapping in a value has the same key twice. -/
def Value.hasDistinctKeys : Value → Bool
  | .sequence items => itemsHaveDistinctKeys items
  | .mapping entries => entriesHaveDistinctKeys entries
  | .tagged _ inner => inner.hasDistinctKeys
  | _ => true
/-- No mapping in any of the items has the same key twice. -/
def Value.itemsHaveDistinctKeys : List Value → Bool
  | [] => true
  | v :: vs => v.hasDistinctKeys && itemsHaveDistinctKeys vs
/-- No later key is the same as an earlier one, and the same holds in all keys and values. -/
def Value.entriesHaveDistinctKeys : List (Value × Value) → Bool
  | [] => true
  | (k, v) :: es =>
    es.all (fun e => !e.1.sameKey k) && (k.hasDistinctKeys && v.hasDistinctKeys) &&
      entriesHaveDistinctKeys es
end

/-- No mapping in a mapping, nor itself, has the same key twice. -/
def Mapping.hasDistinctKeys (m : Mapping) : Bool :=
  Value.entriesHaveDistinctKeys m

/-- A floating-point number is the same key as itself, even if it is not a number. -/
theorem Double.sameKey_self (x : Double) : x.sameKey x = true := by
  cases hx : x.isNaN <;> simp [sameKey, numEq, hx]

/-- Floating-point numbers that are the same key as a third one are the same key. -/
theorem Double.sameKey_of_common {x y z : Double} (hx : x.sameKey z = true)
    (hy : y.sameKey z = true) : x.sameKey y = true := by
  simp only [sameKey, numEq, Bool.or_eq_true, Bool.and_eq_true, Bool.not_eq_true',
    beq_iff_eq] at hx hy ⊢
  grind

/-- A number is the same key as itself. -/
theorem Number.sameKey_self (n : Number) : n.sameKey n = true := by
  cases n with
  | int i => exact beq_self_eq_true i
  | float x => exact x.sameKey_self

/-- Numbers that are the same key as a third one are the same key. -/
theorem Number.sameKey_of_common {m n k : Number} (hm : m.sameKey k = true)
    (hn : n.sameKey k = true) : m.sameKey n = true := by
  cases m <;> cases n <;> cases k <;> simp only [sameKey, beq_iff_eq, Bool.false_eq_true] at hm hn ⊢
  · rw [hm, hn]
  · exact Double.sameKey_of_common hm hn

namespace Value

/-- Items agree place by place. -/
theorem sameKeyItems_iff (vs ws : List Value) :
    sameKeyItems vs ws = true ↔ List.Forall₂ (fun v w => v.sameKey w = true) vs ws := by
  induction vs generalizing ws with
  | nil => cases ws <;> simp [sameKeyItems]
  | cons v vs ih => cases ws <;> simp [sameKeyItems, ih]

/-- Entries agree if the first one found for every key has the same value. -/
theorem sameKeyEntries_iff (es fs : List (Value × Value)) :
    sameKeyEntries es fs = true ↔ ∀ e ∈ es, ∃ f,
      fs.find? (fun f => e.1.sameKey f.1) = some f ∧ e.2.sameKey f.2 = true := by
  induction es with
  | nil => simp [sameKeyEntries]
  | cons e es ih =>
    obtain ⟨k, v⟩ := e
    rw [sameKeyEntries, List.forall_mem_cons]
    cases fs.find? fun f => k.sameKey f.1 <;> simp [ih]

/-- Items have distinct keys if each of them has. -/
theorem itemsHaveDistinctKeys_iff (vs : List Value) :
    itemsHaveDistinctKeys vs = true ↔ ∀ v ∈ vs, v.hasDistinctKeys = true := by
  induction vs with
  | nil => simp [itemsHaveDistinctKeys]
  | cons v vs ih => simp [itemsHaveDistinctKeys, ih]

/-- Entries have distinct keys if no key is found among those before it, and every key and
every value has distinct keys. -/
theorem entriesHaveDistinctKeys_iff (es : List (Value × Value)) :
    entriesHaveDistinctKeys es = true ↔ es.Pairwise (fun e f => f.1.sameKey e.1 = false) ∧
      ∀ e ∈ es, e.1.hasDistinctKeys = true ∧ e.2.hasDistinctKeys = true := by
  induction es with
  | nil => simp [entriesHaveDistinctKeys]
  | cons e es ih =>
    obtain ⟨k, v⟩ := e
    rw [entriesHaveDistinctKeys, List.pairwise_cons, List.forall_mem_cons]
    simp only [Bool.and_eq_true, List.all_eq_true, Bool.not_eq_true', ih]
    exact and_and_and_comm

/-- Of an entry there is only one in a mapping with distinct keys. -/
theorem eq_of_sameKey {es : List (Value × Value)} (hes : entriesHaveDistinctKeys es = true)
    {e f : Value × Value} (he : e ∈ es) (hf : f ∈ es) (hef : e.1.sameKey f.1 = true)
    (hfe : f.1.sameKey e.1 = true) : e = f := by
  have hpair := ((entriesHaveDistinctKeys_iff es).mp hes).1
  have hapart : es.Pairwise fun e f => e.1.sameKey f.1 = false ∨ f.1.sameKey e.1 = false :=
    hpair.imp fun h => .inr h
  have hsymm : Std.Symm fun e f : Value × Value =>
      e.1.sameKey f.1 = false ∨ f.1.sameKey e.1 = false := ⟨fun _ _ h => h.symm⟩
  by_contra hne
  have hcase := hapart.forall he hf hne
  simp [hef, hfe] at hcase

/-- If every item on the left has a partner on the right, no two share one, and there are
equally many, then every item on the right has a partner. -/
theorem exists_partner {α β : Type} {R : α → β → Prop} {xs : List α} {zs : List β}
    (hlength : xs.length = zs.length) (htotal : ∀ x ∈ xs, ∃ z ∈ zs, R x z)
    (hapart : xs.Pairwise fun x y => ∀ z, R x z → ¬ R y z) : ∀ z ∈ zs, ∃ x ∈ xs, R x z := by
  induction xs generalizing zs with
  | nil =>
    intro z hz
    rw [List.eq_nil_of_length_eq_zero hlength.symm] at hz
    exact absurd hz List.not_mem_nil
  | cons x xs ih =>
    obtain ⟨hx, hxs⟩ := List.pairwise_cons.mp hapart
    obtain ⟨z₀, hz₀, hR⟩ := htotal x List.mem_cons_self
    obtain ⟨before, later, rfl⟩ := List.append_of_mem hz₀
    have hother : ∀ y ∈ xs, ∃ z ∈ before ++ later, R y z := by
      intro y hy
      obtain ⟨z, hz, hyz⟩ := htotal y (List.mem_cons_of_mem x hy)
      refine ⟨z, ?_, hyz⟩
      rw [List.mem_append, List.mem_cons] at hz
      obtain hz | rfl | hz := hz
      · exact List.mem_append_left later hz
      · exact absurd hyz (hx y hy z hR)
      · exact List.mem_append_right before hz
    have hrest := ih (by simp at hlength ⊢; omega) hother hxs
    intro z hz
    rw [List.mem_append, List.mem_cons] at hz
    obtain hz | rfl | hz := hz
    · obtain ⟨y, hy, hyz⟩ := hrest z (List.mem_append_left later hz)
      exact ⟨y, List.mem_cons_of_mem x hy, hyz⟩
    · exact ⟨x, List.mem_cons_self, hR⟩
    · obtain ⟨y, hy, hyz⟩ := hrest z (List.mem_append_right before hz)
      exact ⟨y, List.mem_cons_of_mem x hy, hyz⟩

/-- What is found by a key has the same key. -/
theorem sameKey_of_find? {es : List (Value × Value)} {key : Value} {e : Value × Value}
    (he : es.find? (fun f => key.sameKey f.1) = some e) : key.sameKey e.1 = true := by
  have hsome := List.find?_some he
  exact hsome

/-- An entry whose key is the same as itself is found by this key, as it is not the same as
any before it. -/
theorem find?_self {es : List (Value × Value)} (hes : entriesHaveDistinctKeys es = true)
    {e : Value × Value} (he : e ∈ es) (hself : e.1.sameKey e.1 = true) :
    es.find? (fun f => e.1.sameKey f.1) = some e := by
  have hpair := ((entriesHaveDistinctKeys_iff es).mp hes).1
  obtain ⟨before, later, rfl⟩ := List.append_of_mem he
  refine List.find?_eq_some_iff_append.mpr ⟨hself, before, later, rfl, ?_⟩
  intro f hf
  rw [(List.pairwise_append.mp hpair).2.2 f hf e List.mem_cons_self]
  rfl

mutual
/-- A value with distinct keys is the same key as itself. -/
theorem sameKey_self (v : Value) (hv : v.hasDistinctKeys = true) : v.sameKey v = true := by
  match v with
  | .null => rfl
  | .bool b => exact beq_self_eq_true b
  | .number n => exact n.sameKey_self
  | .string s => exact beq_self_eq_true s
  | .sequence items => exact sameKeyItems_self items hv
  | .mapping entries =>
    rw [sameKey, Bool.and_eq_true]
    refine ⟨beq_self_eq_true _, (sameKeyEntries_iff ..).mpr ?_⟩
    intro e he
    obtain ⟨hkey, hvalue⟩ := sameKey_self_of_mem entries hv e he
    exact ⟨e, find?_self hv he hkey, hvalue⟩
  | .tagged tag inner =>
    rw [sameKey, Bool.and_eq_true]
    exact ⟨beq_self_eq_true tag, sameKey_self inner hv⟩
/-- Items with distinct keys agree with themselves. -/
theorem sameKeyItems_self (vs : List Value) (hvs : itemsHaveDistinctKeys vs = true) :
    sameKeyItems vs vs = true := by
  match vs with
  | [] => rfl
  | v :: vs =>
    rw [itemsHaveDistinctKeys, Bool.and_eq_true] at hvs
    rw [sameKeyItems, Bool.and_eq_true]
    exact ⟨sameKey_self v hvs.1, sameKeyItems_self vs hvs.2⟩
/-- The keys and values of entries with distinct keys are the same as themselves. -/
theorem sameKey_self_of_mem (es : List (Value × Value)) (hes : entriesHaveDistinctKeys es = true) :
    ∀ e ∈ es, e.1.sameKey e.1 = true ∧ e.2.sameKey e.2 = true := by
  match es with
  | [] => simp
  | (k, v) :: es =>
    rw [entriesHaveDistinctKeys, Bool.and_eq_true, Bool.and_eq_true, Bool.and_eq_true] at hes
    obtain ⟨⟨-, hk, hv⟩, hrest⟩ := hes
    refine List.forall_mem_cons.mpr ⟨⟨sameKey_self k hk, sameKey_self v hv⟩, ?_⟩
    exact sameKey_self_of_mem es hrest
end

section Common

variable {P : Value → Prop} (hself : ∀ v, P v → v.sameKey v = true)
  (hcommon : ∀ v w u, P v → P w → v.sameKey u = true → w.sameKey u = true → v.sameKey w = true)

include hself hcommon

/-- Where common keys are the same, the order of two keys does not count. -/
theorem sameKey_comm_of_common {v w : Value} (hv : P v) (hw : P w) (h : v.sameKey w = true) :
    w.sameKey v = true :=
  hcommon w v w hw hv (hself w hw) h

omit hself in
/-- Items agree if they agree with common ones. -/
theorem sameKeyItems_of_common {vs ws us : List Value} (hvs : ∀ v ∈ vs, P v) (hws : ∀ w ∈ ws, P w)
    (hv : sameKeyItems vs us = true) (hw : sameKeyItems ws us = true) :
    sameKeyItems vs ws = true := by
  rw [sameKeyItems_iff] at hv hw ⊢
  induction hv generalizing ws with
  | nil =>
    cases hw
    exact .nil
  | @cons v u vs us huv _ ih =>
    cases hw with
    | @cons w _ ws _ huw hw =>
      obtain ⟨hPv, hvs⟩ := List.forall_mem_cons.mp hvs
      obtain ⟨hPw, hws⟩ := List.forall_mem_cons.mp hws
      exact .cons (hcommon v w u hPv hPw huv huw) (ih hvs hws hw)

/-- Entries agree if they agree with common ones: as there are equally many, every common
entry has a partner in both. -/
theorem sameKeyEntries_of_common {xs ys zs : List (Value × Value)}
    (hxs : ∀ x ∈ xs, P x.1 ∧ P x.2) (hys : ∀ y ∈ ys, P y.1 ∧ P y.2)
    (hdistinct : entriesHaveDistinctKeys ys = true) (hlength : ys.length = zs.length)
    (hx : sameKeyEntries xs zs = true) (hy : sameKeyEntries ys zs = true) :
    sameKeyEntries xs ys = true := by
  rw [sameKeyEntries_iff] at hx hy ⊢
  have hpartner : ∀ z ∈ zs, ∃ y ∈ ys, y.1.sameKey z.1 = true ∧ y.2.sameKey z.2 = true := by
    refine exists_partner hlength ?_ ?_
    · intro y hmem
      obtain ⟨z, hfind, hvalue⟩ := hy y hmem
      exact ⟨z, List.mem_of_find?_eq_some hfind, sameKey_of_find? hfind, hvalue⟩
    · have hpair := ((entriesHaveDistinctKeys_iff ys).mp hdistinct).1
      refine hpair.imp_of_mem ?_
      intro y w hmem hmem' hapart z hyz hwz
      have hsame := hcommon _ _ _ (hys w hmem').1 (hys y hmem).1 hwz.1 hyz.1
      simp [hapart] at hsame
  intro x hmem
  obtain ⟨z, hfind, hvalue⟩ := hx x hmem
  -- The two entries with a common partner are the same; it remains to see that this one is found.
  obtain ⟨y, hmem', hkey, hvalue'⟩ := hpartner z (List.mem_of_find?_eq_some hfind)
  have hPx := hxs x hmem
  have hPy := hys y hmem'
  have hxy := hcommon _ _ _ hPx.1 hPy.1 (sameKey_of_find? hfind) hkey
  refine ⟨y, ?_, hcommon _ _ _ hPx.2 hPy.2 hvalue hvalue'⟩
  have hfound : (ys.find? fun f => x.1.sameKey f.1).isSome = true :=
    List.find?_isSome.mpr ⟨y, hmem', hxy⟩
  obtain ⟨f, hf⟩ := Option.isSome_iff_exists.mp hfound
  have hmemf := List.mem_of_find?_eq_some hf
  have hPf := (hys f hmemf).1
  have hyx := sameKey_comm_of_common hself hcommon hPx.1 hPy.1 hxy
  have hfx := sameKey_comm_of_common hself hcommon hPx.1 hPf (sameKey_of_find? hf)
  have hfy := hcommon _ _ _ hPf hPy.1 hfx hyx
  have hyf := hcommon _ _ _ hPy.1 hPf hyx hfx
  rw [hf, eq_of_sameKey hdistinct hmemf hmem' hfy hyf]

end Common

/-- The key and the value of an entry are smaller than the mapping. -/
theorem sizeOf_lt_of_mem {es : List (Value × Value)} {e : Value × Value} (he : e ∈ es) :
    sizeOf e.1 < sizeOf (Value.mapping es) ∧ sizeOf e.2 < sizeOf (Value.mapping es) := by
  have hlt := List.sizeOf_lt_of_mem he
  obtain ⟨k, v⟩ := e
  simp only [Prod.mk.sizeOf_spec, mapping.sizeOf_spec] at hlt ⊢
  omega

/-- Values with distinct keys that are the same key as a third one are the same key. -/
theorem sameKey_of_common {v w u : Value} (hv : v.hasDistinctKeys = true)
    (hw : w.hasDistinctKeys = true) (hvu : v.sameKey u = true) (hwu : w.sameKey u = true) :
    v.sameKey w = true := by
  -- Comparing two mappings compares keys of one with each other, so the induction is on a
  -- bound for the sizes of both.
  obtain ⟨n, hn⟩ : ∃ n, sizeOf v ≤ n ∧ sizeOf w ≤ n := ⟨max (sizeOf v) (sizeOf w), by omega⟩
  induction n using Nat.strongRecOn generalizing v w u with
  | _ n ih =>
    have hself : ∀ x : Value, (sizeOf x < n ∧ x.hasDistinctKeys = true) → x.sameKey x = true :=
      fun x hx => x.sameKey_self hx.2
    have hcommon : ∀ x y z : Value, (sizeOf x < n ∧ x.hasDistinctKeys = true) →
        (sizeOf y < n ∧ y.hasDistinctKeys = true) → x.sameKey z = true → y.sameKey z = true →
        x.sameKey y = true := by
      intro x y z hx hy hxz hyz
      exact ih (max (sizeOf x) (sizeOf y)) (by omega) hx.2 hy.2 hxz hyz (by omega)
    cases v <;> cases u <;> simp only [sameKey, Bool.false_eq_true] at hvu <;>
      cases w <;> simp only [sameKey, Bool.false_eq_true] at hwu ⊢
    case bool => simp_all
    case number => exact Number.sameKey_of_common hvu hwu
    case string => simp_all
    case sequence vs us ws =>
      have hsize : ∀ {xs : List Value}, sizeOf (Value.sequence xs) ≤ n → ∀ x ∈ xs, sizeOf x < n := by
        intro xs hxs x hx
        have hlt := List.sizeOf_lt_of_mem hx
        rw [sequence.sizeOf_spec] at hxs
        omega
      refine sameKeyItems_of_common hcommon ?_ ?_ hvu hwu
      · exact fun x hx => ⟨hsize hn.1 x hx, (itemsHaveDistinctKeys_iff vs).mp hv x hx⟩
      · exact fun x hx => ⟨hsize hn.2 x hx, (itemsHaveDistinctKeys_iff ws).mp hw x hx⟩
    case mapping xs zs ys =>
      rw [Bool.and_eq_true, beq_iff_eq] at hvu hwu ⊢
      have hparts : ∀ {es : List (Value × Value)}, entriesHaveDistinctKeys es = true →
          sizeOf (Value.mapping es) ≤ n → ∀ e ∈ es,
            (sizeOf e.1 < n ∧ e.1.hasDistinctKeys = true) ∧
              (sizeOf e.2 < n ∧ e.2.hasDistinctKeys = true) := by
        intro es hes hsize e he
        obtain ⟨hkey, hvalue⟩ := sizeOf_lt_of_mem he
        obtain ⟨hdkey, hdvalue⟩ := ((entriesHaveDistinctKeys_iff es).mp hes).2 e he
        exact ⟨⟨by omega, hdkey⟩, ⟨by omega, hdvalue⟩⟩
      exact ⟨by rw [hvu.1, hwu.1], sameKeyEntries_of_common hself hcommon (hparts hv hn.1)
        (hparts hw hn.2) hw hwu.1 hvu.2 hwu.2⟩
    case tagged s x t z r y =>
      rw [Bool.and_eq_true, beq_iff_eq] at hvu hwu ⊢
      rw [tagged.sizeOf_spec, tagged.sizeOf_spec] at hn
      exact ⟨by rw [hvu.1, hwu.1], hcommon x y z ⟨by omega, hv⟩ ⟨by omega, hw⟩ hvu.2 hwu.2⟩

/-- A plain text is the same key as itself and nothing else. -/
theorem string_sameKey_iff {s : String} {v : Value} :
    (Value.string s).sameKey v = true ↔ .string s = v := by
  cases v <;> simp [sameKey]

/-- Nothing but a plain text itself is the same key as it. -/
theorem sameKey_string_iff {s : String} {v : Value} :
    v.sameKey (.string s) = true ↔ v = .string s := by
  cases v <;> simp [sameKey]

/-- No key is the same as two that differ. -/
theorem apart_of_common {v w u : Value} (hv : v.hasDistinctKeys = true)
    (hw : w.hasDistinctKeys = true) (hvw : v.sameKey w = false) (hvu : v.sameKey u = true) :
    w.sameKey u = false := by
  by_contra hwu
  rw [Bool.not_eq_false] at hwu
  simp [sameKey_of_common hv hw hvu hwu] at hvw

end Value

namespace Mapping

/-- The first entry decides whether it is the one that is looked up. -/
theorem get?_cons (k w : Value) (rest : Mapping) (key : Value) :
    get? ((k, w) :: rest) key = if key.sameKey k then some w else get? rest key := by
  rw [get?, List.find?_cons]
  cases key.sameKey k <;> rfl

/-- A mapping with distinct keys gives the value of each of its entries. -/
theorem get?_of_mem {m : Mapping} (hm : m.hasDistinctKeys = true) {e : Value × Value} (he : e ∈ m) :
    m.get? e.1 = some e.2 := by
  rw [get?, Value.find?_self hm he (Value.sameKey_self_of_mem m hm e he).1, Option.map_some]

/-- A key that is not there yet is inserted at the end. -/
theorem insert_of_get?_eq_none {m : Mapping} {key : Value} (hm : m.get? key = none) (v : Value) :
    m.insert key v = m ++ [(key, v)] := by
  induction m with
  | nil => rfl
  | cons e rest ih =>
    obtain ⟨k, w⟩ := e
    rw [get?_cons] at hm
    rw [insert]
    split at hm
    · cases hm
    · rw [if_neg ‹_›, ih hm]
      rfl

/-- An inserted value is found by its key. -/
theorem get?_insert_self (m : Mapping) {key : Value} (hkey : key.sameKey key = true) (v : Value) :
    (m.insert key v).get? key = some v := by
  induction m with
  | nil => rw [insert, get?_cons, if_pos hkey]
  | cons e rest ih =>
    obtain ⟨k, w⟩ := e
    rw [insert]
    split
    · rw [get?_cons, if_pos ‹_›]
    · rw [get?_cons, if_neg ‹_›, ih]

/-- Insertion does not change what is found by a key that has no key in common with it. -/
theorem get?_insert_of_apart (m : Mapping) {key other : Value} (hkey : other.sameKey key = false)
    (hapart : ∀ c, key.sameKey c = true → other.sameKey c = false) (v : Value) :
    (m.insert key v).get? other = m.get? other := by
  induction m with
  | nil => simp [insert, get?, hkey]
  | cons e rest ih =>
    obtain ⟨k, w⟩ := e
    rw [insert]
    split
    · have hother := hapart k ‹_›
      rw [get?_cons, get?_cons, hother]
      rfl
    · rw [get?_cons, get?_cons, ih]

/-- Keys stay distinct when an entry is appended whose key is not there yet. -/
theorem hasDistinctKeys_append {m : Mapping} (hm : m.hasDistinctKeys = true) {key v : Value}
    (hkey : key.hasDistinctKeys = true) (hv : v.hasDistinctKeys = true)
    (hnew : m.get? key = none) : Mapping.hasDistinctKeys (m ++ [(key, v)]) = true := by
  obtain ⟨hapart, hparts⟩ := (Value.entriesHaveDistinctKeys_iff m).mp hm
  refine (Value.entriesHaveDistinctKeys_iff _).mpr ⟨?_, ?_⟩
  · refine List.pairwise_append.mpr ⟨hapart, List.pairwise_singleton _ _, ?_⟩
    intro e he f hf
    rw [List.mem_singleton.mp hf]
    rw [get?, Option.map_eq_none_iff, List.find?_eq_none] at hnew
    exact Bool.not_eq_true _ ▸ hnew e he
  · intro e he
    rcases List.mem_append.mp he with he | he
    · exact hparts e he
    · rw [List.mem_singleton.mp he]
      exact ⟨hkey, hv⟩

end Mapping

end ManifestRules
