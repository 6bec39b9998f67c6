import ManifestRules.Json
import ManifestRules.Proofs.Merging
import ManifestRules.Selector
/-!
# Tags are invisible

Erasure takes the tags off a value, off the items of its sequences and off the values in its mappings,
at every depth; keys stay as they are. Whatever looks at values looks through their tags, so it
makes no difference whether tags are erased before or after: for the canonical text, for walks,
patterns, merges and queries, and for the data of templates (`tags_invisible`).
-/

namespace ManifestRules

mutual
/-- The value without tags. Keys keep theirs. -/
def Value.erase : Value → Value
  | .null => .null
  | .bool b => .bool b
  | .number n => .number n
  | .string s => .string s
  | .sequence items => .sequence (eraseItems items)
  | .mapping entries => .mapping (eraseEntries entries)
  | .tagged _ inner => inner.erase
/-- The items without tags. -/
def Value.eraseItems : List Value → List Value
  | [] => []
  | v :: vs => v.erase :: eraseItems vs
/-- The entries without tags in their values. -/
def Value.eraseEntries : List (Value × Value) → List (Value × Value)
  | [] => []
  | (k, v) :: es => (k, v.erase) :: eraseEntries es
end

/-- The mapping without tags in its values. -/
def Mapping.erase (m : Mapping) : Mapping := Value.eraseEntries m

/-- The outcome of a walk without tags in what was found; a marker stays as it is. -/
def Lookup.erase : Lookup → Lookup
  | .found v => .found v.erase
  | .root m => .root m.erase
  | outcome => outcome

/-- The answer without tags in the value of the field. -/
def Resolution.erase : Resolution → Resolution
  | .found v => .found v.erase
  | .noMatch => .noMatch

/-- The document without tags in the values of its body. -/
def Document.erase (d : Document) : Document := { d with body := Mapping.erase d.body }

/-- The graph without tags in the values of its bodies. -/
def Graph.erase (g : Graph) : Graph := .ofList (g.toList.map Document.erase)

/-- Tags are taken off at every depth, but not off keys. -/
example : (Value.tagged ⟨"A"⟩ (.mapping [(.tagged ⟨"K"⟩ .null,
    .sequence [.tagged ⟨"B"⟩ (.tagged ⟨"C"⟩ (.bool true))])])).erase =
      .mapping [(.tagged ⟨"K"⟩ .null, .sequence [.bool true])] := rfl

namespace Value

/-- Items are erased one by one. -/
theorem eraseItems_eq_map (vs : List Value) : eraseItems vs = vs.map erase := by
  induction vs with
  | nil => rfl
  | cons v vs ih => rw [eraseItems, ih, List.map_cons]

/-- Entries are erased one by one. -/
theorem eraseEntries_eq_map (es : List (Value × Value)) :
    eraseEntries es = es.map fun e => (e.1, e.2.erase) := by
  induction es with
  | nil => rfl
  | cons e es ih => rw [eraseEntries, ih, List.map_cons]

/-- No tag is left around an erased value. -/
@[simp] theorem untagged_erase (v : Value) : v.erase.untagged = v.erase := by
  match v with
  | .tagged _ inner => exact untagged_erase inner
  | .null | .bool _ | .number _ | .string _ | .sequence _ | .mapping _ => rfl

/-- The tags around a value are among those that are erased. -/
@[simp] theorem erase_untagged (v : Value) : v.untagged.erase = v.erase :=
  apply_untagged (fun _ _ => rfl) v

/-- Of a value that replaces what is under tags, only the value is left. -/
@[simp] theorem erase_mapUntagged (v w : Value) : (v.mapUntagged fun _ => w).erase = w.erase :=
  apply_mapUntagged (fun _ _ => rfl) _ v

mutual
/-- The canonical text does not show tags. -/
theorem text_erase (v : Value) : v.erase.text = v.text := by
  match v with
  | .sequence items => rw [erase, text, text, itemTexts_erase items]
  | .mapping entries => rw [erase, text, text, entryTexts_erase entries]
  | .tagged _ inner => rw [erase, text, text_erase inner]
  | .null | .bool _ | .number _ | .string _ => rfl
/-- The texts of items do not show tags. -/
theorem itemTexts_erase (vs : List Value) : itemTexts (eraseItems vs) = itemTexts vs := by
  match vs with
  | [] => rfl
  | v :: vs => rw [eraseItems, itemTexts, itemTexts, text_erase v, itemTexts_erase vs]
/-- The texts of entries do not show tags. -/
theorem entryTexts_erase (es : List (Value × Value)) :
    entryTexts (eraseEntries es) = entryTexts es := by
  match es with
  | [] => rfl
  | (k, v) :: es => rw [eraseEntries, entryTexts, entryTexts, text_erase v, entryTexts_erase es]
end

/-- An erased value is a mapping if the value is one under its tags. -/
theorem asMapping?_erase (v : Value) : v.erase.asMapping? = v.asMapping?.map Mapping.erase := by
  match v with
  | .tagged _ inner => exact asMapping?_erase inner
  | .null | .bool _ | .number _ | .string _ | .sequence _ | .mapping _ => rfl

end Value

namespace Mapping

/-- The canonical text of a mapping does not show tags. -/
theorem text_erase (m : Mapping) : m.erase.text = m.text :=
  Value.text_erase (.mapping m)

/-- Erasure keeps the keys and their order. -/
@[simp] theorem keys_erase (m : Mapping) : m.erase.keys = m.keys := by
  rw [erase, Value.eraseEntries_eq_map, keys, keys, List.map_map]
  rfl

/-- A search by key finds the same entry, erased. -/
theorem find?_erase (p : Value → Bool) (m : Mapping) :
    m.erase.find? (fun e => p e.1) = (m.find? fun e => p e.1).map fun e => (e.1, e.2.erase) := by
  rw [erase, Value.eraseEntries_eq_map, List.find?_map]
  rfl

/-- A key finds the same value, erased. -/
theorem get?_erase (m : Mapping) (key : Value) :
    m.erase.get? key = (m.get? key).map Value.erase := by
  rw [get?, get?, find?_erase fun k => key.sameKey k, Option.map_map, Option.map_map]
  rfl

/-- A name finds the same value, erased. -/
theorem getByName?_erase (m : Mapping) (name : String) :
    m.erase.getByName? name = (m.getByName? name).map Value.erase := by
  have hscan : (m.erase.find? fun e => !e.1.isText && e.1.text == name).map (·.2) =
      ((m.find? fun e => !e.1.isText && e.1.text == name).map (·.2)).map Value.erase := by
    rw [find?_erase fun k => !k.isText && k.text == name, Option.map_map, Option.map_map]
    rfl
  rw [getByName?, getByName?, get?_erase, hscan, Option.map_or]

/-- The counterpart of a pattern's key is the same value, erased. -/
theorem counterpart?_erase (m : Mapping) (key : Value) :
    m.erase.counterpart? key = (m.counterpart? key).map Value.erase := by
  rw [counterpart?, counterpart?, get?_erase, getByName?_erase, Option.map_or]

/-- An inserted value may be erased before or after. -/
theorem erase_insert (m : Mapping) (key v : Value) :
    (m.insert key v).erase = m.erase.insert key v.erase := by
  induction m with
  | nil => rfl
  | cons e m ih =>
    obtain ⟨k, w⟩ := e
    have hcons : erase ((k, w) :: m) = (k, w.erase) :: erase m := rfl
    rw [hcons, insert, insert]
    split
    · rfl
    · rw [← ih]
      rfl

end Mapping

/-- The text of an outcome does not show tags. -/
theorem Lookup.text_erase (outcome : Lookup) : outcome.erase.text = outcome.text := by
  cases outcome with
  | found v => exact v.text_erase
  | root m => exact Mapping.text_erase m
  | missing segment | invalidIndex segment | unexpectedNode segment => rfl

/-- The value of an outcome may be erased before or after. -/
theorem Lookup.erase_value (outcome : Lookup) : outcome.value.erase = outcome.erase.value := by
  cases outcome <;> rfl

namespace Path

/-- A walk leads to the same value, erased, or to the same marker. -/
theorem walk_erase (v : Value) (path : List String) :
    walk v.erase path = (walk v path).erase := by
  induction path generalizing v with
  | nil => rfl
  | cons segment rest ih =>
    rw [walk, walk, Value.untagged_erase, ← Value.erase_untagged]
    cases hv : v.untagged with
    | mapping entries =>
      have hget := Mapping.getByName?_erase entries segment
      simp only [Value.erase]
      rw [← Mapping.erase, hget]
      cases Mapping.getByName? entries segment with
      | none => rfl
      | some next => exact ih next
    | sequence items =>
      have hitem : ∀ i : Nat, (Value.eraseItems items)[i]? = (items[i]?).map Value.erase := by
        intro i
        rw [Value.eraseItems_eq_map, List.getElem?_map]
      simp only [Value.erase]
      cases readIndex? segment with
      | none => rfl
      | some i =>
        simp only [Option.bind_some, hitem]
        cases items[i]? with
        | none => rfl
        | some next => exact ih next
    | tagged tag inner => exact absurd hv (Value.untagged_ne_tagged v tag inner)
    | null | bool b | number n | string s => rfl

/-- A walk from a mapping leads to the same value, erased, or to the same marker. -/
theorem walkMapping_erase (m : Mapping) (path : List String) :
    walkMapping m.erase path = (walkMapping m path).erase := by
  cases path with
  | nil => rfl
  | cons segment rest =>
    rw [walkMapping, walkMapping, Mapping.getByName?_erase]
    cases m.getByName? segment with
    | none => rfl
    | some next => exact walk_erase next rest

end Path

namespace Value

mutual
/-- A value agrees with an expected one if it does so without tags. -/
theorem agrees_erase (expected found : Value) :
    expected.erase.agrees found.erase = expected.agrees found := by
  match expected with
  | .tagged _ inner => exact agrees_erase inner found
  | .mapping entries =>
    rw [erase, agrees, agrees, asMapping?_erase]
    cases found.asMapping? with
    | none => rfl
    | some actual => exact entriesAgree_erase entries actual
  | .sequence items =>
    have hitems := text_erase (.sequence items)
    rw [erase] at hitems
    rw [erase, agrees, agrees, text_erase found, hitems]
  | .null | .bool _ | .number _ | .string _ => simp only [erase, agrees, text_erase]
/-- The entries of a pattern agree with a mapping if they do so without tags. -/
theorem entriesAgree_erase (pattern : List (Value × Value)) (actual : Mapping) :
    entriesAgree (eraseEntries pattern) actual.erase = entriesAgree pattern actual := by
  match pattern with
  | [] => rfl
  | (key, expected) :: rest =>
    rw [eraseEntries, entriesAgree, entriesAgree, Mapping.counterpart?_erase,
      entriesAgree_erase rest actual]
    cases Mapping.counterpart? actual key with
    | none => rfl
    | some found =>
      have hfound := agrees_erase expected found
      simp only [Option.map_some, hfound]
end

mutual
/-- What comes of an incoming value may be erased before or after. -/
theorem erase_mergeInto (whole bare existing : Value) :
    (mergeInto whole bare existing).erase = mergeInto whole.erase bare.erase existing.erase := by
  match bare with
  | .tagged _ inner => exact erase_mergeInto whole inner existing
  | .mapping source =>
    rw [erase, mergeInto, mergeInto, untagged_erase, ← erase_untagged existing]
    cases hexisting : existing.untagged with
    | mapping entries =>
      have hmerged := erase_mergeEntries source entries
      simp only [erase, erase_mapUntagged, mapUntagged, hmerged, Mapping.erase]
    | tagged tag inner => exact absurd hexisting (untagged_ne_tagged existing tag inner)
    | null | bool b | number n | string s | sequence items => rfl
  | .sequence source =>
    rw [erase, mergeInto, mergeInto, untagged_erase, ← erase_untagged existing]
    cases hexisting : existing.untagged with
    | sequence items =>
      simp only [erase, erase_mapUntagged, mapUntagged, eraseItems_eq_map, List.map_append]
    | tagged tag inner => exact absurd hexisting (untagged_ne_tagged existing tag inner)
    | null | bool b | number n | string s | mapping entries => rfl
  | .null | .bool _ | .number _ | .string _ => rfl
/-- A fragment may be merged before or after erasure. -/
theorem erase_mergeEntries (source : List (Value × Value)) (target : Mapping) :
    eraseEntries (mergeEntries source target) =
      mergeEntries (eraseEntries source) (Mapping.erase target) := by
  match source with
  | [] => rfl
  | (key, incoming) :: rest =>
    rw [eraseEntries, Mapping.mergeEntries_cons, Mapping.mergeEntries_cons,
      erase_mergeEntries rest, Mapping.erase_insert]
    have hmerged : (Mapping.merged target key incoming).erase =
        Mapping.merged (Mapping.erase target) key incoming.erase := by
      rw [Mapping.merged, Mapping.merged, Mapping.get?_erase]
      cases Mapping.get? target key with
      | none => rfl
      | some existing => exact erase_mergeInto incoming incoming existing
    rw [hmerged]
end

end Value

namespace Mapping

/-- A mapping contains a pattern if it does so without tags. -/
theorem contains_erase (actual pattern : Mapping) :
    actual.erase.contains pattern.erase = actual.contains pattern :=
  Value.entriesAgree_erase pattern actual

/-- A fragment may be merged before or after erasure. -/
theorem erase_merge (target source : Mapping) :
    (target.merge source).erase = target.erase.merge source.erase :=
  Value.erase_mergeEntries source target

end Mapping

namespace Selector

/-- Erasure keeps what an outcome gives to search, without tags. -/
theorem entriesOf?_erase (outcome : Lookup) :
    entriesOf? outcome.erase = (entriesOf? outcome).map Mapping.erase := by
  cases outcome with
  | found v => exact v.asMapping?_erase
  | root m | missing segment | invalidIndex segment | unexpectedNode segment => rfl

/-- A body satisfies a query if it does so without tags. -/
theorem accepts_erase (s : Selector) (body : Mapping) : s.accepts body.erase = s.accepts body := by
  match s with
  | .kind _ _ => rfl
  | .attribute _ path value _ =>
    rw [accepts, accepts, Path.walkMapping_erase, Lookup.text_erase]
  | .mapEntry _ path key value _ =>
    rw [accepts, accepts, Path.walkMapping_erase, entriesOf?_erase]
    cases entriesOf? (Path.walkMapping body path) with
    | none => rfl
    | some entries =>
      simp only [Option.map_some, Mapping.erase, Value.eraseEntries_eq_map, List.any_map,
        Function.comp_def, Value.text_erase]

/-- The documents of a kind are the same, erased. -/
theorem ofKind_erase (g : Graph) (kind : String) :
    g.erase.ofKind kind = (g.ofKind kind).map Document.erase := by
  rw [Graph.ofKind, Graph.ofKind, Graph.erase, Graph.toList_ofList, List.filter_map]
  rfl

/-- A query has the same answer on erased bodies, erased. -/
theorem resolve_erase (s : Selector) (g : Graph) : s.resolve g.erase = (s.resolve g).erase := by
  have hfind : ((g.ofKind s.wantedKind).map Document.erase).find? (fun d => s.accepts d.body) =
      ((g.ofKind s.wantedKind).find? fun d => s.accepts d.body).map Document.erase := by
    have haccepts : (fun d : Document => s.accepts d.erase.body) = fun d => s.accepts d.body :=
      funext fun d => s.accepts_erase d.body
    rw [List.find?_map, Function.comp_def, haccepts]
  rw [resolve, resolve, ofKind_erase, hfind]
  cases (g.ofKind s.wantedKind).find? fun d => s.accepts d.body with
  | none => rfl
  | some d =>
    have hwalk := Path.walkMapping_erase d.body s.field
    simp only [Option.map_some, Document.erase, hwalk, ← Lookup.erase_value]
    rfl

end Selector

namespace Json

mutual
/-- The data of templates do not show tags. -/
theorem ofValue_erase (v : Value) : ofValue v.erase = ofValue v := by
  match v with
  | .sequence items => rw [Value.erase, ofValue, ofValue, ofItems_erase items]
  | .mapping entries => rw [Value.erase, ofValue, ofValue, ofEntries_erase entries]
  | .tagged _ inner => rw [Value.erase, ofValue, ofValue_erase inner]
  | .null | .bool _ | .number _ | .string _ => rfl
/-- The data of items do not show tags. -/
theorem ofItems_erase (vs : List Value) : ofItems (Value.eraseItems vs) = ofItems vs := by
  match vs with
  | [] => rfl
  | v :: vs => rw [Value.eraseItems, ofItems, ofItems, ofValue_erase v, ofItems_erase vs]
/-- The data of entries do not show tags. -/
theorem ofEntries_erase (es : List (Value × Value)) :
    ofEntries (Value.eraseEntries es) = ofEntries es := by
  match es with
  | [] => rfl
  | (k, v) :: es =>
    rw [Value.eraseEntries, ofEntries, ofEntries, ofValue_erase v, ofEntries_erase es]
end

end Json

/-- Tags are invisible. Without tags a value has the same canonical text and the same data for
templates; walks lead to the same values without tags, or to the same markers; the same patterns are
contained; a merge gives the same entries without tags, in the same order of keys; and a query has
the same answer without tags. -/
theorem tags_invisible :
    (∀ v : Value, v.erase.text = v.text) ∧
    (∀ (v : Value) (path : List String), Path.walk v.erase path = (Path.walk v path).erase) ∧
    (∀ (m : Mapping) (path : List String),
      Path.walkMapping m.erase path = (Path.walkMapping m path).erase) ∧
    (∀ actual pattern : Mapping,
      actual.erase.contains pattern.erase = actual.contains pattern) ∧
    (∀ target source : Mapping, (target.merge source).erase = target.erase.merge source.erase ∧
      (target.erase.merge source.erase).keys = (target.merge source).keys) ∧
    (∀ (s : Selector) (g : Graph), s.resolve g.erase = (s.resolve g).erase) ∧
    (∀ (g : Graph) (query : String),
      g.erase.resolve query = (g.resolve query).map Resolution.erase) ∧
    ∀ v : Value, Json.ofValue v.erase = Json.ofValue v := by
  refine ⟨Value.text_erase, Path.walk_erase, Path.walkMapping_erase, Mapping.contains_erase, ?_,
    Selector.resolve_erase, ?_, Json.ofValue_erase⟩
  · intro target source
    have hmerge := Mapping.erase_merge target source
    refine ⟨hmerge, ?_⟩
    rw [← hmerge, Mapping.keys_erase]
  · intro g query
    rw [Graph.resolve, Graph.resolve]
    cases Selector.parse query with
    | error fault => rfl
    | ok s => exact congrArg Except.ok (s.resolve_erase g)

end ManifestRules
