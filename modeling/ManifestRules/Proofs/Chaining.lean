import ManifestRules.Proofs.PatternWalk
/-!
# Patterns behind patterns

A pattern is a mapping itself, so it may contain another pattern. A document that contains the
first then contains the second (`Mapping.contains_trans`), if the keys of both are plain texts
and the second compares no mapping of the first by its text: the text of a mapping shows all its
entries, but a document that contains the mapping may have more.
-/

namespace ManifestRules

/-- Along a path of keys there is a value other than a mapping in an expected value, which is
compared by its text, and the same path leads to a value in the one that is found. -/
structure Value.ComparesAt (expected found : Value) (path : List String) (e f : Value) : Prop where
  /-- The path leads to a value that is expected. -/
  asked : expected.along (path.map .string) = some e
  /-- This value is no mapping, also under tags. -/
  flat : ∀ m, e.untagged ≠ .mapping m
  /-- The path leads to a value that is found. -/
  given : found.along (path.map .string) = some f

namespace Value

variable {expected found e f : Value} {path : List String}

/-- Below two mappings the values of a key that both have are compared, and what is below them. -/
theorem comparesAt_iff_of_mappings {pattern actual : Mapping}
    (hexpected : expected.untagged = .mapping pattern) (hfound : found.untagged = .mapping actual) :
    expected.ComparesAt found path e f ↔ ∃ name rest w v, path = name :: rest ∧
      pattern.get? (.string name) = some w ∧ actual.get? (.string name) = some v ∧
      w.ComparesAt v rest e f := by
  constructor
  · rintro ⟨hasked, hflat, hgiven⟩
    cases path with
    | nil => exact absurd hexpected (Option.some.inj hasked ▸ hflat pattern)
    | cons name rest =>
      rw [List.map_cons, along_cons_of_untagged hexpected, along_mapping_cons] at hasked
      rw [List.map_cons, along_cons_of_untagged hfound, along_mapping_cons] at hgiven
      obtain ⟨w, hw, hasked⟩ := Option.bind_eq_some_iff.mp hasked
      obtain ⟨v, hv, hgiven⟩ := Option.bind_eq_some_iff.mp hgiven
      exact ⟨name, rest, w, v, rfl, hw, hv, hasked, hflat, hgiven⟩
  · rintro ⟨name, rest, w, v, rfl, hw, hv, hasked, hflat, hgiven⟩
    refine ⟨?_, hflat, ?_⟩
    · rw [List.map_cons, along_cons_of_untagged hexpected, along_mapping_cons, hw, Option.bind_some,
        hasked]
    · rw [List.map_cons, along_cons_of_untagged hfound, along_mapping_cons, hv, Option.bind_some,
        hgiven]

/-- A value other than a mapping is compared itself, and nothing below it. -/
theorem comparesAt_iff_of_flat (hexpected : ∀ m, expected.untagged ≠ .mapping m) :
    expected.ComparesAt found path e f ↔ path = [] ∧ e = expected ∧ f = found := by
  constructor
  · rintro ⟨hasked, hflat, hgiven⟩
    cases path with
    | nil => exact ⟨rfl, (Option.some.inj hasked).symm, (Option.some.inj hgiven).symm⟩
    | cons name rest =>
      obtain ⟨m, hm⟩ := exists_untagged_of_along_cons hasked
      exact absurd hm (hexpected m)
  · rintro ⟨rfl, rfl, rfl⟩
    exact ⟨rfl, hexpected, rfl⟩

end Value

/-- Among plain keys there is none that is found by its text alone. -/
theorem Mapping.getByName?_of_hasPlainKeys {m : Mapping} (hm : m.hasPlainKeys = true)
    (name : String) : m.getByName? name = m.get? (.string name) := by
  have hnone : m.find? (fun e => !e.1.isText && e.1.text == name) = none := by
    refine List.find?_eq_none.mpr ?_
    intro e he
    obtain ⟨⟨key, hkey⟩, -⟩ := (Value.entriesHavePlainKeys_iff m).mp hm e he
    rw [hkey]
    exact Bool.false_ne_true
  rw [getByName?, hnone, Option.map_none, Option.or_none]

/-- Among plain keys the counterpart of a plain key is what this very key finds. -/
theorem Mapping.counterpart?_of_hasPlainKeys {m : Mapping} (hm : m.hasPlainKeys = true)
    (name : String) : m.counterpart? (.string name) = m.get? (.string name) := by
  rw [counterpart?_string, getByName?_of_hasPlainKeys hm]

/-- What is found among plain keys has plain keys. -/
theorem Mapping.hasPlainKeys_of_get? {m : Mapping} (hm : m.hasPlainKeys = true) {key v : Value}
    (hv : m.get? key = some v) : v.hasPlainKeys = true := by
  obtain ⟨e, he, -, rfl⟩ := exists_of_get? hv
  exact ((Value.entriesHavePlainKeys_iff m).mp hm e he).2

/-- What is found under the tags of a value among plain keys has plain keys. -/
theorem Mapping.hasPlainKeys_untagged_of_get? {m : Mapping} (hm : m.hasPlainKeys = true)
    {key v w : Value} (hv : m.get? key = some v) (hw : v.untagged = w) : w.hasPlainKeys = true := by
  rw [← hw, Value.hasPlainKeys_untagged]
  exact hasPlainKeys_of_get? hm hv

/-- A mapping contains a pattern with plain keys if each of them has an agreeing counterpart. -/
theorem Mapping.contains_of_forall {actual pattern : Mapping}
    (hpattern : pattern.hasPlainKeys = true)
    (h : ∀ name e, (Value.string name, e) ∈ pattern → e.hasPlainKeys = true →
      ∃ f, actual.counterpart? (.string name) = some f ∧ e.agrees f = true) :
    actual.contains pattern = true := by
  refine (Value.entriesAgree_iff pattern actual).mpr ?_
  rintro ⟨key, e⟩ hmem
  obtain ⟨⟨name, rfl⟩, he⟩ := (Value.entriesHavePlainKeys_iff pattern).mp hpattern _ hmem
  exact h name e hmem he

/-- A mapping with plain keys has an agreeing value for each plain key of a pattern that it
contains. -/
theorem Mapping.exists_of_contains {actual pattern : Mapping} (hactual : actual.hasPlainKeys = true)
    (h : actual.contains pattern = true) {name : String} {e : Value}
    (he : (Value.string name, e) ∈ pattern) :
    ∃ f, actual.get? (.string name) = some f ∧ e.agrees f = true := by
  obtain ⟨f, hf, hagrees⟩ := (Value.entriesAgree_iff pattern actual).mp h _ he
  have hget := counterpart?_of_hasPlainKeys hactual name
  exact ⟨f, hget.symm.trans hf, hagrees⟩

namespace Value

/-- An expected value agrees with what agrees with another one, if it agrees with that one and
compares none of its mappings by the text. -/
theorem agrees_trans (expected middle found : Value) (hdistinct : expected.hasDistinctKeys = true)
    (hexpected : expected.hasPlainKeys = true) (hmiddle : middle.hasPlainKeys = true)
    (hflat : ∀ path e f, expected.ComparesAt middle path e f → ∀ m, f.untagged ≠ .mapping m)
    (hfound : middle.agrees found = true) (h : expected.agrees middle = true) :
    expected.agrees found = true := by
  by_cases hshape : ∃ m, expected.untagged = .mapping m
  · obtain ⟨entries, hentries⟩ := hshape
    obtain ⟨between, hbetween, hagree⟩ := (agrees_iff_of_mapping expected middle hentries).mp h
    obtain ⟨actual, hactual, hbelow⟩ := (agrees_iff_of_mapping middle found hbetween).mp hfound
    rw [← hasDistinctKeys_untagged, hentries] at hdistinct
    rw [← hasPlainKeys_untagged, hentries] at hexpected
    rw [← hasPlainKeys_untagged, hbetween] at hmiddle
    refine (agrees_iff_of_mapping expected found hentries).mpr ⟨actual, hactual, ?_⟩
    refine Mapping.contains_of_forall hexpected ?_
    intro name e hmem he
    -- The key is found in the middle as it is, and so it is one of those asked of the document.
    obtain ⟨w, hw, hagrees⟩ := Mapping.exists_of_contains hmiddle hagree hmem
    obtain ⟨f, hf, hagrees'⟩ :=
      (entriesAgree_iff between actual).mp hbelow _ (Mapping.mem_of_get?_string hw)
    have hget := Mapping.get?_of_mem hdistinct hmem
    have hdistinct' := (Mapping.hasDistinctKeys_of_mem hdistinct hmem).2
    have hmiddle' := Mapping.hasPlainKeys_of_get? hmiddle hw
    have hflat' : ∀ path x y, e.ComparesAt w path x y → ∀ m, y.untagged ≠ .mapping m := by
      intro path x y hxy
      exact hflat (name :: path) x y ((comparesAt_iff_of_mappings hentries hbetween).mpr
        ⟨name, path, e, w, rfl, hget, hw, hxy⟩)
    have hsmaller := sizeOf_lt_of_untagged hentries hmem
    exact ⟨f, hf, agrees_trans e w f hdistinct' he hmiddle' hflat' hagrees' hagrees⟩
  · have hother : ∀ m, expected.untagged ≠ .mapping m := fun m hm => hshape ⟨m, hm⟩
    have hplain := hflat [] expected middle ((comparesAt_iff_of_flat hother).mpr ⟨rfl, rfl, rfl⟩)
    refine (agrees_iff_text expected found hother).mpr ?_
    calc found.text = middle.text := (agrees_iff_text middle found hplain).mp hfound
      _ = expected.text := (agrees_iff_text expected middle hother).mp h
termination_by sizeOf expected

end Value

namespace Mapping

/-- Matching is transitive: a document that contains a pattern contains what this pattern contains.
The keys of both patterns are plain texts, and where a path leads to no mapping in the second, it
leads to none in the first. -/
theorem contains_trans {document middle pattern : Mapping}
    (hdistinct : pattern.hasDistinctKeys = true) (hpattern : pattern.hasPlainKeys = true)
    (hmiddle : middle.hasPlainKeys = true)
    (hflat : ∀ path e f, (Value.mapping pattern).ComparesAt (.mapping middle) path e f →
      ∀ m, f.untagged ≠ .mapping m)
    (hdocument : document.contains middle = true) (h : middle.contains pattern = true) :
    document.contains pattern = true :=
  Value.agrees_trans (.mapping pattern) (.mapping middle) (.mapping document) hdistinct hpattern
    hmiddle hflat hdocument h

/-- The text of a mapping is that of its entries alone, and a document may have more of them. -/
example :
    let path (entries : Mapping) : Mapping := [(.string "at", .mapping entries)]
    let narrow : Mapping := [(.string "x", .string "1")]
    let asked : Mapping := [(.string "at", .string "\x7bx: 1\x7d")]
    (path (narrow ++ [(.string "y", .null)])).contains (path narrow) = true ∧
      (path narrow).contains asked = true ∧
      (path (narrow ++ [(.string "y", .null)])).contains asked = false := by decide +kernel

/-- What is asked of the request itself: its list, by the text. -/
def digest : Mapping :=
  [(.string "about", .mapping [(.string "ports", .tagged ⟨"list"⟩ (.string "[80]"))])]

/-- The service contains the request, and so what the request contains: where the digest has a text,
the request has a list. -/
theorem service_contains_digest :
    digest.hasDistinctKeys = true ∧ digest.hasPlainKeys = true ∧ request.hasPlainKeys = true ∧
    (∀ path e f, (Value.mapping digest).ComparesAt (.mapping request) path e f →
      ∀ m, f.untagged ≠ .mapping m) ∧
    service.contains request = true ∧ request.contains digest = true ∧
    service.contains digest = true := by
  have hdistinct : digest.hasDistinctKeys = true := by decide
  have hdigest : digest.hasPlainKeys = true := by decide
  have hrequest : request.hasPlainKeys = true := by decide
  have hflat : ∀ path e f, (Value.mapping digest).ComparesAt (.mapping request) path e f →
      ∀ m, f.untagged ≠ .mapping m := by
    intro path e f h
    obtain ⟨first, rest, w, v, -, hw, hv, h⟩ := (Value.comparesAt_iff_of_mappings rfl rfl).mp h
    obtain ⟨rfl, rfl⟩ : first = "about" ∧ w = _ := by simpa [digest] using mem_of_get?_string hw
    cases hv
    obtain ⟨second, rest, w, v, -, hw, hv, h⟩ := (Value.comparesAt_iff_of_mappings rfl rfl).mp h
    obtain ⟨rfl, rfl⟩ : second = "ports" ∧ w = _ := by simpa using mem_of_get?_string hw
    cases hv
    obtain ⟨-, -, rfl⟩ := (Value.comparesAt_iff_of_flat (by simp [Value.untagged])).mp h
    exact nofun
  have hservice : service.contains request = true := by decide +kernel
  have hcontains : request.contains digest = true := by decide +kernel
  exact ⟨hdistinct, hdigest, hrequest, hflat, hservice, hcontains,
    contains_trans hdistinct hdigest hrequest hflat hservice hcontains⟩

end Mapping

end ManifestRules
