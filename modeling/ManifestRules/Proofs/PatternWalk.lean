import ManifestRules.Proofs.KeyPath
import ManifestRules.Selector
/-!
# Patterns and walks

A pattern whose keys are plain texts asks for something at the end of each of its paths: a mapping
where it has a mapping itself, and anywhere else the same canonical text. A mapping contains such a
pattern if and only if walks from it find all this (`Mapping.contains_iff_answersPaths`). A walk
also goes through sequences, by the indices of items, while a pattern does not; it makes no
difference, as the walks along the beginnings of a path have to find mappings.
-/

namespace ManifestRules

mutual
/-- All keys of a mapping are plain texts, and so in every mapping that is reached through mappings;
tags of values do not count. -/
def Value.hasPlainKeys : Value → Bool
  | .tagged _ inner => inner.hasPlainKeys
  | .mapping entries => entriesHavePlainKeys entries
  | .sequence _ | .null | .bool _ | .number _ | .string _ => true
/-- All keys of entries are plain texts, and so in their values. -/
def Value.entriesHavePlainKeys : List (Value × Value) → Bool
  | [] => true
  | (.string _, v) :: es => v.hasPlainKeys && entriesHavePlainKeys es
  | _ :: _ => false
end

/-- All keys of a mapping are plain texts, and so in every mapping that is reached through
mappings. -/
def Mapping.hasPlainKeys (m : Mapping) : Bool := Value.entriesHavePlainKeys m

/-- Walks from a mapping find what a pattern asks for. -/
structure Mapping.AnswersPaths (actual pattern : Mapping) : Prop where
  /-- Along a path that leads to a mapping in the pattern, the walk finds a mapping, perhaps under
  tags. -/
  nested : ∀ path e m, path ≠ [] → (Value.mapping pattern).along (path.map .string) = some e →
    e.untagged = .mapping m →
    ∃ v below, Path.walkMapping actual path = .found v ∧ v.untagged = .mapping below
  /-- Along a path that leads to any other value in the pattern, the walk finds a value of the same
  canonical text, and all shorter walks on the way lead to mappings. -/
  last : ∀ path e, (Value.mapping pattern).along (path.map .string) = some e →
    (∀ m, e.untagged ≠ .mapping m) →
    (∀ start, start <+: path → start ≠ path →
      ∃ below, Selector.entriesOf? (Path.walkMapping actual start) = some below) ∧
    ∃ v, Path.walkMapping actual path = .found v ∧ v.text = e.text

/-- A value is as a value of a pattern asks: a mapping for a mapping, and of the same canonical text
for any other value. -/
structure Value.Meets (expected found : Value) : Prop where
  /-- There is a mapping for a mapping. -/
  mapping : ∀ m, expected.untagged = .mapping m → ∃ below, found.untagged = .mapping below
  /-- Any other value is met by its text. -/
  text : (∀ m, expected.untagged ≠ .mapping m) → found.text = expected.text

namespace Value

/-- Entries have plain keys if every key is a text and every value has plain keys. -/
theorem entriesHavePlainKeys_iff (es : List (Value × Value)) :
    entriesHavePlainKeys es = true ↔
      ∀ e ∈ es, (∃ name, e.1 = .string name) ∧ e.2.hasPlainKeys = true := by
  induction es with
  | nil => simp [entriesHavePlainKeys]
  | cons e es ih =>
    obtain ⟨k, v⟩ := e
    cases k <;> simp [entriesHavePlainKeys, ih]

/-- Tags do not count for the keys. -/
theorem hasPlainKeys_untagged (v : Value) : v.untagged.hasPlainKeys = v.hasPlainKeys :=
  apply_untagged (fun _ _ => rfl) v

/-- A mapping that is expected agrees with a mapping whose entries agree. -/
theorem agrees_iff_of_mapping (expected found : Value) {entries : Mapping}
    (hexpected : expected.untagged = .mapping entries) :
    expected.agrees found = true ↔
      ∃ actual, found.untagged = .mapping actual ∧ entriesAgree entries actual = true := by
  match expected with
  | .tagged _ inner => exact agrees_iff_of_mapping inner found hexpected
  | .mapping _ =>
    cases hexpected
    rw [agrees]
    simp only [← asMapping?_eq_some_iff]
    cases found.asMapping? <;> simp
  | .sequence _ | .null | .bool _ | .number _ | .string _ => cases hexpected

/-- Any other value that is expected agrees with a value of the same text. -/
theorem agrees_iff_text (expected found : Value) (hexpected : ∀ m, expected.untagged ≠ .mapping m) :
    expected.agrees found = true ↔ found.text = expected.text := by
  match expected with
  | .tagged _ inner => exact agrees_iff_text inner found hexpected
  | .mapping m => exact absurd rfl (hexpected m)
  | .sequence _ | .null | .bool _ | .number _ | .string _ => exact beq_iff_eq

end Value

namespace Mapping

/-- A plain key is looked up by its name. -/
theorem counterpart?_string (m : Mapping) (name : String) :
    m.counterpart? (.string name) = m.getByName? name := by
  rw [counterpart?, Value.text, getByName?]
  cases m.get? (.string name) <;> rfl

/-- What is found by a plain key is the value of an entry with this very key. -/
theorem mem_of_get?_string {m : Mapping} {name : String} {v : Value}
    (hv : m.get? (.string name) = some v) : (.string name, v) ∈ m := by
  obtain ⟨⟨k, w⟩, he, hkey, rfl⟩ := exists_of_get? hv
  obtain rfl := Value.string_sameKey_iff.mp hkey
  exact he

end Mapping

namespace Path

/-- A walk from a value that is a mapping under its tags is a walk from the mapping. -/
theorem walk_cons_of_untagged {v : Value} {m : Mapping} (hv : v.untagged = .mapping m)
    (segment : String) (rest : List String) :
    walk v (segment :: rest) = walkMapping m (segment :: rest) := by
  rw [walk, hv]
  rfl

/-- A walk from a mapping that goes anywhere goes through its keys. -/
theorem walk_mapping_of_ne_nil (m : Mapping) {path : List String} (hpath : path ≠ []) :
    walk (.mapping m) path = walkMapping m path := by
  cases path with
  | nil => exact absurd rfl hpath
  | cons segment rest => exact walk_cons_of_untagged rfl segment rest

/-- A walk goes on from what the first segment names. -/
theorem walkMapping_cons_eq_found_iff {m : Mapping} {segment : String} {rest : List String}
    {v : Value} :
    walkMapping m (segment :: rest) = .found v ↔
      ∃ next, m.getByName? segment = some next ∧ walk next rest = .found v := by
  rw [walkMapping]
  cases m.getByName? segment <;> simp

end Path

namespace Value

/-- Along every path of an expected value, a walk from a value that it agrees with finds what is
asked for. -/
theorem meets_of_agrees {expected found e : Value} {path : List String}
    (h : expected.agrees found = true) (he : expected.along (path.map .string) = some e) :
    ∃ v, Path.walk found path = .found v ∧ e.Meets v := by
  induction path generalizing expected found with
  | nil =>
    cases he
    refine ⟨found, rfl, ?_, ?_⟩
    · intro m hm
      obtain ⟨below, hbelow, -⟩ := (agrees_iff_of_mapping e found hm).mp h
      exact ⟨below, hbelow⟩
    · intro hm
      exact (agrees_iff_text e found hm).mp h
  | cons segment rest ih =>
    rw [List.map_cons] at he
    obtain ⟨entries, hentries⟩ := exists_untagged_of_along_cons he
    rw [along_cons_of_untagged hentries, along_mapping_cons] at he
    obtain ⟨w, hw, he⟩ := Option.bind_eq_some_iff.mp he
    obtain ⟨actual, hactual, hagree⟩ := (agrees_iff_of_mapping expected found hentries).mp h
    obtain ⟨next, hnext, hagrees⟩ :=
      (entriesAgree_iff entries actual).mp hagree _ (Mapping.mem_of_get?_string hw)
    rw [Mapping.counterpart?_string] at hnext
    obtain ⟨v, hv, hmeets⟩ := ih hagrees he
    refine ⟨v, ?_, hmeets⟩
    rw [Path.walk_cons_of_untagged hactual]
    exact Path.walkMapping_cons_eq_found_iff.mpr ⟨next, hnext, hv⟩

/-- An expected value agrees with another one if walks from this one find what is asked for along
all its paths. -/
theorem agrees_of_meets (expected found : Value) (hdistinct : expected.hasDistinctKeys = true)
    (hplain : expected.hasPlainKeys = true)
    (h : ∀ path e, expected.along (path.map .string) = some e →
      ∃ v, Path.walk found path = .found v ∧ e.Meets v) : expected.agrees found = true := by
  obtain ⟨v, hv, hmeets⟩ := h [] expected rfl
  obtain rfl := Lookup.found.inj hv
  by_cases hshape : ∃ m, expected.untagged = .mapping m
  · obtain ⟨entries, hentries⟩ := hshape
    obtain ⟨actual, hactual⟩ := hmeets.mapping entries hentries
    rw [← hasDistinctKeys_untagged, hentries] at hdistinct
    rw [← hasPlainKeys_untagged, hentries] at hplain
    refine (agrees_iff_of_mapping expected found hentries).mpr ⟨actual, hactual, ?_⟩
    refine (entriesAgree_iff entries actual).mpr ?_
    rintro ⟨key, w⟩ hmem
    obtain ⟨⟨name, rfl⟩, hw⟩ := (entriesHavePlainKeys_iff entries).mp hplain _ hmem
    have hget := Mapping.get?_of_mem hdistinct hmem
    have hsmaller := sizeOf_lt_of_untagged hentries hmem
    -- A path below this entry is one of the whole pattern behind the name of the entry.
    have hbelow : ∀ path e, w.along (path.map .string) = some e →
        ∃ next v, Mapping.getByName? actual name = some next ∧ Path.walk next path = .found v ∧
          e.Meets v := by
      intro path e he
      have halong : expected.along ((name :: path).map .string) = some e := by
        rw [List.map_cons, along_cons_of_untagged hentries, along_mapping_cons, hget,
          Option.bind_some, he]
      obtain ⟨v, hv, hmeets⟩ := h (name :: path) e halong
      rw [Path.walk_cons_of_untagged hactual] at hv
      obtain ⟨next, hnext, hv⟩ := Path.walkMapping_cons_eq_found_iff.mp hv
      exact ⟨next, v, hnext, hv, hmeets⟩
    obtain ⟨next, -, hnext, -, -⟩ := hbelow [] w rfl
    refine ⟨next, (Mapping.counterpart?_string actual name).trans hnext, ?_⟩
    refine agrees_of_meets w next (Mapping.hasDistinctKeys_of_mem hdistinct hmem).2 hw ?_
    intro path e he
    obtain ⟨next', v, hnext', hv, hmeets⟩ := hbelow path e he
    obtain rfl := Option.some.inj (hnext.symm.trans hnext')
    exact ⟨v, hv, hmeets⟩
  · have hother : ∀ m, expected.untagged ≠ .mapping m := fun m hm => hshape ⟨m, hm⟩
    exact (agrees_iff_text expected found hother).mpr (hmeets.text hother)
termination_by sizeOf expected

end Value

namespace Mapping

/-- A mapping answers the paths of a pattern if walks from it find what each value of the pattern
asks for. -/
theorem answersPaths_of_meets {actual pattern : Mapping}
    (h : ∀ path e, (Value.mapping pattern).along (path.map .string) = some e →
      ∃ v, Path.walk (.mapping actual) path = .found v ∧ e.Meets v) :
    AnswersPaths actual pattern := by
  have hmapping : ∀ path e m, path ≠ [] →
      (Value.mapping pattern).along (path.map .string) = some e → e.untagged = .mapping m →
      ∃ v below, Path.walkMapping actual path = .found v ∧ v.untagged = .mapping below := by
    intro path e m hpath he hm
    obtain ⟨v, hv, hmeets⟩ := h path e he
    obtain ⟨below, hbelow⟩ := hmeets.mapping m hm
    exact ⟨v, below, Path.walk_mapping_of_ne_nil actual hpath ▸ hv, hbelow⟩
  refine ⟨hmapping, ?_⟩
  intro path e he hother
  have hpath : path ≠ [] := by
    rintro rfl
    cases he
    exact hother pattern rfl
  obtain ⟨v, hv, hmeets⟩ := h path e he
  refine ⟨?_, v, Path.walk_mapping_of_ne_nil actual hpath ▸ hv, hmeets.text hother⟩
  rintro start ⟨rest, rfl⟩ hstart
  cases rest with
  | nil => exact absurd (List.append_nil start).symm hstart
  | cons segment rest =>
    -- The pattern has a mapping where its path goes on, so the walk finds one there.
    rw [List.map_append, Value.along_append] at he
    obtain ⟨w, hw, he⟩ := Option.bind_eq_some_iff.mp he
    obtain ⟨m, hm⟩ := Value.exists_untagged_of_along_cons he
    by_cases hnil : start = []
    · subst hnil
      exact ⟨actual, rfl⟩
    · obtain ⟨v, below, hv, hbelow⟩ := hmapping start w m hnil hw hm
      exact ⟨below, by rw [hv]; exact Value.asMapping?_eq_some_iff.mpr hbelow⟩

/-- If a mapping answers the paths of a pattern, then walks from it find what each value of the
pattern asks for, the pattern itself among them. -/
theorem AnswersPaths.meets {actual pattern : Mapping} (h : AnswersPaths actual pattern)
    {path : List String} {e : Value}
    (he : (Value.mapping pattern).along (path.map .string) = some e) :
    ∃ v, Path.walk (.mapping actual) path = .found v ∧ e.Meets v := by
  by_cases hnil : path = []
  · subst hnil
    cases he
    refine ⟨.mapping actual, rfl, ?_, ?_⟩
    · exact fun _ _ => ⟨actual, rfl⟩
    · exact fun hother => absurd rfl (hother pattern)
  · rw [Path.walk_mapping_of_ne_nil actual hnil]
    by_cases hshape : ∃ m, e.untagged = .mapping m
    · obtain ⟨m, hm⟩ := hshape
      obtain ⟨v, below, hv, hbelow⟩ := h.nested path e m hnil he hm
      exact ⟨v, hv, fun _ _ => ⟨below, hbelow⟩, fun hother => absurd hm (hother m)⟩
    · obtain ⟨-, v, hv, htext⟩ := h.last path e he fun m hm => hshape ⟨m, hm⟩
      exact ⟨v, hv, fun m hm => absurd ⟨m, hm⟩ hshape, fun _ => htext⟩

/-- A mapping contains a pattern with plain keys if and only if walks find what the pattern asks for
along all its paths. -/
theorem contains_iff_answersPaths {pattern : Mapping} (hdistinct : pattern.hasDistinctKeys = true)
    (hplain : pattern.hasPlainKeys = true) (actual : Mapping) :
    actual.contains pattern = true ↔ AnswersPaths actual pattern := by
  have hcontains : actual.contains pattern = (Value.mapping pattern).agrees (.mapping actual) := rfl
  rw [hcontains]
  constructor
  · intro h
    refine answersPaths_of_meets ?_
    intro path e he
    exact Value.meets_of_agrees h he
  · intro h
    refine Value.agrees_of_meets (.mapping pattern) (.mapping actual) hdistinct hplain ?_
    intro path e he
    exact h.meets he

/-- A walk finds an item by its index, but no pattern reaches into a sequence. -/
example :
    Path.walkMapping service ["about", "ports", "0"] = .found (.number (.int 80)) ∧
      service.contains [(.string "about", .mapping
        [(.string "ports", .mapping [(.string "0", .number (.int 80))])])] = false :=
  ⟨rfl, by decide +kernel⟩

/-- What is asked of the service: an entry by the text of its number, and a list by its text. -/
def request : Mapping :=
  [(.string "80", .tagged ⟨"state"⟩ (.string "open")),
    (.string "about", .mapping
      [(.string "name", .string "api"), (.string "ports", .sequence [.string "80"])])]

/-- The service contains the request, and walks from it find what this asks for. -/
theorem service_answersPaths :
    request.hasDistinctKeys = true ∧ request.hasPlainKeys = true ∧
    service.contains request = true ∧ AnswersPaths service request := by
  have hdistinct : request.hasDistinctKeys = true := by decide
  have hplain : request.hasPlainKeys = true := by decide
  have hcontains : service.contains request = true := by decide +kernel
  exact ⟨hdistinct, hplain, hcontains,
    (contains_iff_answersPaths hdistinct hplain service).mp hcontains⟩

end Mapping

end ManifestRules
