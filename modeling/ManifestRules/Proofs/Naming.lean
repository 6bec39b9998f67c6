import ManifestRules.Proofs.PatternWalk
import Mathlib.Data.List.Nodup
/-!
# Entries and their names

An entry of a mapping is addressed by the canonical text of its key, whatever type the key has. If no
two keys have the same text, the name leads to the entry, and a name that no key has leads nowhere
(`Mapping.name_leads_to_entry`). There is one exception: a text under a tag is not the plain text,
and the search by texts passes over it because it is a text.
-/

namespace ManifestRules

/-- A text under a tag. -/
def Value.isTaggedText : Value → Bool
  | .tagged _ inner => inner.isText
  | .null | .bool _ | .number _ | .string _ | .sequence _ | .mapping _ => false

/-- The names of the entries in order. -/
def Mapping.names (m : Mapping) : List String := m.map fun e => e.1.text

/-- No two entries have the same name. -/
def Mapping.HasDistinctNames (m : Mapping) : Prop := m.names.Nodup

/-- It can be tried out whether names are distinct. -/
instance (m : Mapping) : Decidable m.HasDistinctNames := inferInstanceAs (Decidable m.names.Nodup)

namespace Value

/-- A text that is under no tag is a plain one. -/
theorem exists_string_of_isText {v : Value} (hv : v.isText = true)
    (hplain : v.isTaggedText = false) : ∃ s, v = .string s := by
  cases v with
  | string s => exact ⟨s, rfl⟩
  | tagged tag inner =>
    have hinner : inner.isText = true := hv
    rw [isTaggedText, hinner] at hplain
    cases hplain
  | _ => cases hv

/-- What is no text is no text under a tag. -/
theorem isTaggedText_of_isText {v : Value} (hv : v.isText = false) : v.isTaggedText = false := by
  cases v with
  | tagged tag inner => exact hv
  | _ => rfl

end Value

/-- A walk of one segment from a mapping finds what the segment leads to as a name. -/
theorem Path.walkMapping_singleton (m : Mapping) (name : String) :
    walkMapping m [name] =
      match m.getByName? name with
      | some v => .found v
      | none => .missing name := rfl

namespace Mapping

variable {m : Mapping} {name : String} {v : Value}

/-- What a name leads to is the value of an entry with this name, whose key is no text under a
tag. -/
theorem exists_of_getByName? (hv : m.getByName? name = some v) :
    ∃ k, (k, v) ∈ m ∧ k.text = name ∧ k.isTaggedText = false := by
  rw [getByName?, Option.or_eq_some_iff] at hv
  obtain hv | ⟨-, hv⟩ := hv
  · exact ⟨.string name, mem_of_get?_string hv, rfl, rfl⟩
  · obtain ⟨⟨k, w⟩, he, rfl⟩ := Option.map_eq_some_iff.mp hv
    have hk := List.find?_some he
    rw [Bool.and_eq_true, Bool.not_eq_true', beq_iff_eq] at hk
    exact ⟨k, List.mem_of_find?_eq_some he, hk.2, Value.isTaggedText_of_isText hk.1⟩

/-- A name leads nowhere only if all entries that have it have a text under a tag for a key. -/
theorem getByName?_eq_none_iff :
    m.getByName? name = none ↔ ∀ e ∈ m, e.1.text = name → e.1.isTaggedText = true := by
  constructor
  · intro hnone e he hname
    rw [getByName?, Option.or_eq_none_iff, get?, Option.map_eq_none_iff, Option.map_eq_none_iff,
      List.find?_eq_none, List.find?_eq_none] at hnone
    obtain ⟨hexact, hscan⟩ := hnone
    by_contra hplain
    rw [Bool.not_eq_true] at hplain
    cases htext : e.1.isText with
    | true =>
      obtain ⟨s, hs⟩ := Value.exists_string_of_isText htext hplain
      rw [hs, Value.text] at hname
      exact hexact e he (by rw [hs, hname]; exact Value.string_sameKey_iff.mpr rfl)
    | false => exact hscan e he (by simp [htext, hname])
  · intro h
    cases hget : m.getByName? name with
    | none => rfl
    | some v =>
      obtain ⟨k, hk, hname, hplain⟩ := exists_of_getByName? hget
      simp [h (k, v) hk hname] at hplain

/-- Where names are distinct, a name leads to a value exactly if an entry of this name has it, and the
key of this entry is no text under a tag. -/
theorem getByName?_eq_some_iff (hm : m.HasDistinctNames) :
    m.getByName? name = some v ↔ ∃ k, (k, v) ∈ m ∧ k.text = name ∧ k.isTaggedText = false := by
  refine ⟨exists_of_getByName?, ?_⟩
  rintro ⟨k, hk, hname, hplain⟩
  cases hget : m.getByName? name with
  | none => simp [getByName?_eq_none_iff.mp hget (k, v) hk hname] at hplain
  | some w =>
    obtain ⟨l, hl, hname', -⟩ := exists_of_getByName? hget
    have hsame := List.inj_on_of_nodup_map hm hl hk (hname'.trans hname.symm)
    rw [(Prod.mk.inj hsame).2]

/-- In a mapping whose keys have different texts, the text of each key leads to the value of its
entry, by look-up and by a walk, unless the key is a text under a tag: such an entry has no name. A
text that no key has leads nowhere. -/
theorem name_leads_to_entry {m : Mapping} (hm : m.HasDistinctNames) :
    (∀ e ∈ m, e.1.isTaggedText = false →
      m.getByName? e.1.text = some e.2 ∧ Path.walkMapping m [e.1.text] = .found e.2 ∧
        ∀ v : Value, v.untagged = .mapping m → Path.walk v [e.1.text] = .found e.2) ∧
    (∀ e ∈ m, e.1.isTaggedText = true → m.getByName? e.1.text = none) ∧
    ∀ name, (∀ e ∈ m, e.1.text ≠ name) →
      m.getByName? name = none ∧ Path.walkMapping m [name] = .missing name := by
  refine ⟨?_, ?_, ?_⟩
  · intro e he hplain
    have hget : m.getByName? e.1.text = some e.2 :=
      (getByName?_eq_some_iff hm).mpr ⟨e.1, he, rfl, hplain⟩
    have hwalk : Path.walkMapping m [e.1.text] = .found e.2 := by
      rw [Path.walkMapping_singleton, hget]
    refine ⟨hget, hwalk, fun v hv => ?_⟩
    rw [Path.walk_cons_of_untagged hv, hwalk]
  · intro e he htagged
    refine getByName?_eq_none_iff.mpr fun f hf hname => ?_
    rw [List.inj_on_of_nodup_map hm hf he hname, htagged]
  · intro name hname
    have hget : m.getByName? name = none :=
      getByName?_eq_none_iff.mpr fun e he h => absurd h (hname e he)
    refine ⟨hget, ?_⟩
    rw [Path.walkMapping_singleton, hget]

/-- A mapping with a key of every type. -/
def keyring : Mapping :=
  [(.string "name", .string "text"), (.number (.int 80), .string "number"),
    (.bool true, .string "bool"), (.null, .string "null"),
    (.sequence [.string "a", .null], .string "sequence"),
    (.mapping [(.bool false, .string "b")], .string "mapping"),
    (.tagged ⟨"Port"⟩ (.number (.int 443)), .string "tagged")]

/-- Every key of the mapping leads to the value of its entry by its text. -/
theorem keyring_names_lead : keyring.HasDistinctNames ∧
    keyring.names = ["name", "80", "true", "null", "[a, null]", "\x7bfalse: b\x7d", "443"] ∧
    (∀ e ∈ keyring, e.1.isTaggedText = false) ∧
    (∀ e ∈ keyring, keyring.getByName? e.1.text = some e.2) ∧
    keyring.getByName? "port" = none := by
  have hdistinct : keyring.HasDistinctNames := by decide +kernel
  have hplain : ∀ e ∈ keyring, e.1.isTaggedText = false := by decide
  obtain ⟨hlead, -, hnone⟩ := name_leads_to_entry hdistinct
  refine ⟨hdistinct, by decide +kernel, hplain, fun e he => (hlead e he (hplain e he)).1, ?_⟩
  exact (hnone "port" (by decide +kernel)).1

/-- A mapping whose only key is a text under a tag. -/
def disguised : Mapping := [(.tagged ⟨"Env"⟩ (.string "name"), .string "web")]

/-- An entry whose key is a text under a tag is not found by the text of the key, though no other
entry has this name. -/
theorem taggedText_leads_nowhere : disguised.HasDistinctNames ∧ ∃ e ∈ disguised,
    e.1.text = "name" ∧ disguised.getByName? "name" = none ∧
      Path.walk (.mapping disguised) ["name"] = .missing "name" :=
  ⟨by decide, _, List.mem_singleton_self _, rfl, rfl, rfl⟩

end Mapping

end ManifestRules
