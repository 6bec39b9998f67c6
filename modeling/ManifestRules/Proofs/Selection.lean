import ManifestRules.Proofs.Walking
import Mathlib.Data.List.Find
/-!
# What selectors select

A selector is answered by the first document that it selects (`Selector.resolve_eq_found_iff`). One
that asks for the text of an attribute selects the documents that have the attribute with this text
(`Selector.resolve_attribute_iff`), unless the text is one that marks a segment of the path as one
that cannot be followed: a walk that fails shows such a text too. To ask for an entry of a mapping
is to ask for the attribute one segment further (`Selector.resolve_mapEntry`), where names lead to
entries.
-/

namespace ManifestRules

namespace Lookup

/-- The value that a path leads to, if it leads to one; the empty path leads to the mapping itself. -/
def value? : Lookup → Option Value
  | .found v => some v
  | .root m => some (.mapping m)
  | .missing _ | .invalidIndex _ | .unexpectedNode _ => none

/-- The outcomes that name a segment as one that cannot be followed. -/
def stops (segment : String) : List Lookup :=
  [.missing segment, .invalidIndex segment, .unexpectedNode segment]

/-- The text of an outcome is that of the value, if there is one. -/
theorem text_of_value? {outcome : Lookup} {v : Value} (hv : outcome.value? = some v) :
    outcome.text = v.text := by
  cases outcome <;> cases hv <;> rfl

/-- Where a segment cannot be followed, the outcome names it. -/
theorem mem_stops {v : Value} {segment : String} {stop : Lookup} (h : v.Stops segment stop) :
    stop ∈ stops segment := by
  cases h <;> simp [stops]

/-- A walk that cannot go on leads to no value. -/
theorem value?_of_mem_stops {outcome : Lookup} {segment : String} (h : outcome ∈ stops segment) :
    outcome.value? = none := by
  simp only [stops, List.mem_cons, List.not_mem_nil, or_false] at h
  obtain rfl | rfl | rfl := h <;> rfl

/-- There are entries to search if the path leads to a mapping, perhaps under tags. -/
theorem entriesOf?_of_value? {outcome : Lookup} {v : Value} {m : Mapping}
    (hv : outcome.value? = some v) (hm : v.untagged = .mapping m) :
    Selector.entriesOf? outcome = some m := by
  cases outcome with
  | found w =>
    cases hv
    exact Value.asMapping?_eq_some_iff.mpr hm
  | root body =>
    cases hv
    cases hm
    rfl
  | _ => cases hv

end Lookup

namespace Path

/-- A walk leads to a value, or it ends at a segment of the path. -/
theorem walk_cases (v : Value) (path : List String) :
    (∃ w, walk v path = .found w) ∨ ∃ segment ∈ path, walk v path ∈ Lookup.stops segment := by
  have hends := ends_walk v path
  generalize walk v path = outcome at hends
  cases hends with
  | @found w hpath => exact .inl ⟨w, rfl⟩
  | @stop before behind segment w _ hpath hbefore hstop =>
    refine .inr ⟨segment, ?_, Lookup.mem_stops hstop⟩
    rw [hpath]
    exact List.mem_append_right before List.mem_cons_self

/-- A walk from a mapping leads to a value, or it ends at a segment of the path. -/
theorem walkMapping_cases (m : Mapping) (path : List String) :
    (∃ v, (walkMapping m path).value? = some v) ∨
      ∃ segment ∈ path, walkMapping m path ∈ Lookup.stops segment := by
  by_cases hpath : path = []
  · subst hpath
    exact .inl ⟨.mapping m, rfl⟩
  · rw [← walk_mapping_of_ne_nil m hpath]
    obtain ⟨w, hw⟩ | hstop := walk_cases (.mapping m) path
    · exact .inl ⟨w, by rw [hw]; rfl⟩
    · exact .inr hstop

/-- From where a path leads to a mapping, a further segment is looked up there as a name. -/
theorem walkMapping_concat {body m : Mapping} {path : List String} {v : Value}
    (hv : (walkMapping body path).value? = some v) (hm : v.untagged = .mapping m) (name : String) :
    walkMapping body (path ++ [name]) = walkMapping m [name] := by
  by_cases hpath : path = []
  · subst hpath
    cases hv
    cases hm
    rfl
  · rw [← walk_mapping_of_ne_nil body hpath] at hv
    rw [← walk_mapping_of_ne_nil body (List.append_ne_nil_of_left_ne_nil hpath _), walk_append]
    obtain ⟨w, hw⟩ | ⟨segment, -, hstop⟩ := walk_cases (.mapping body) path
    · rw [hw] at hv ⊢
      cases hv
      exact walk_cons_of_untagged hm name []
    · rw [Lookup.value?_of_mem_stops hstop] at hv
      cases hv

end Path

/-- Along the path there is a value with the canonical text. -/
def Mapping.ReadsAt (body : Mapping) (path : List String) (text : String) : Prop :=
  ∃ v, (Path.walkMapping body path).value? = some v ∧ v.text = text

/-- It can be tried out what text there is along a path. -/
instance (body : Mapping) (path : List String) (text : String) : Decidable (body.ReadsAt path text) :=
  decidable_of_iff ((Path.walkMapping body path).value?.map Value.text = some text)
    Option.map_eq_some_iff

namespace Selector

/-- The document is of the kind asked for, in whatever case it is written, and satisfies the
condition. -/
structure Selects (s : Selector) (d : Document) : Prop where
  /-- It is of the kind. -/
  kind : Text.lowerString d.kind = Text.lowerString s.wantedKind
  /-- Its body satisfies the condition. -/
  accepts : s.accepts d.body = true

/-- The search finds the first document that is selected. -/
theorem find?_ofKind_eq_some_iff {s : Selector} {g : Graph} {d : Document} :
    ((g.ofKind s.wantedKind).find? fun e => s.accepts e.body) = some d ↔
      ∃ before behind, g.toList = before ++ d :: behind ∧ s.Selects d ∧
        ∀ e ∈ before, ¬ s.Selects e := by
  have hselects : ∀ e : Document, ((Text.lowerString e.kind == Text.lowerString s.wantedKind) = true ∧
      s.accepts e.body = true) ↔ s.Selects e := by
    intro e
    rw [beq_iff_eq]
    exact ⟨fun h => ⟨h.1, h.2⟩, fun h => ⟨h.kind, h.accepts⟩⟩
  rw [Graph.ofKind, List.find?_filter, List.find?_eq_some_iff_append]
  simp only [hselects, decide_eq_true_iff, Bool.not_eq_true', decide_eq_false_iff_not]
  constructor
  · rintro ⟨hd, before, behind, hg, hbefore⟩
    exact ⟨before, behind, hg, hd, hbefore⟩
  · rintro ⟨before, behind, hg, hd, hbefore⟩
    exact ⟨hd, before, behind, hg, hbefore⟩

/-- An answer is found if and only if it is the field of the first document that is selected. -/
theorem resolve_eq_found_iff {s : Selector} {g : Graph} {v : Value} :
    s.resolve g = .found v ↔ ∃ before d behind, g.toList = before ++ d :: behind ∧ s.Selects d ∧
      (∀ e ∈ before, ¬ s.Selects e) ∧ v = (Path.walkMapping d.body s.field).value := by
  rw [resolve]
  constructor
  · intro h
    split at h
    · rename_i d hd
      obtain ⟨before, behind, hg, hd, hbefore⟩ := find?_ofKind_eq_some_iff.mp hd
      exact ⟨before, d, behind, hg, hd, hbefore, (Resolution.found.inj h).symm⟩
    · cases h
  · rintro ⟨before, d, behind, hg, hd, hbefore, rfl⟩
    rw [find?_ofKind_eq_some_iff.mpr ⟨before, behind, hg, hd, hbefore⟩]

/-- Selectors for the same field of documents of the same kind that accept the same bodies among
these documents have the same answer. -/
theorem resolve_congr {s t : Selector} {g : Graph} (hkind : s.wantedKind = t.wantedKind)
    (hfield : s.field = t.field)
    (haccepts : ∀ d ∈ g.ofKind s.wantedKind, s.accepts d.body = t.accepts d.body) :
    s.resolve g = t.resolve g := by
  rw [resolve, resolve, List.find?_congr haccepts, hkind, hfield]

/-- A body is accepted for the text of an attribute if the attribute has this text there, or if the
walk ends at a segment of the path and marks it with this text. -/
theorem accepts_attribute_iff {kind text : String} {path field : List String} {body : Mapping} :
    (Selector.attribute kind path text field).accepts body = true ↔ body.ReadsAt path text ∨
      ∃ segment ∈ path, ∃ stop ∈ Lookup.stops segment, Path.walkMapping body path = stop ∧
        stop.text = text := by
  rw [accepts, beq_iff_eq]
  constructor
  · intro htext
    obtain ⟨v, hv⟩ | ⟨segment, hsegment, hstop⟩ := Path.walkMapping_cases body path
    · exact .inl ⟨v, hv, (Lookup.text_of_value? hv).symm.trans htext⟩
    · exact .inr ⟨segment, hsegment, _, hstop, rfl, htext⟩
  · rintro (⟨v, hv, htext⟩ | ⟨segment, -, stop, -, hwalk, htext⟩)
    · exact (Lookup.text_of_value? hv).trans htext
    · rw [hwalk, htext]

/-- A selector for the text of an attribute is answered by the first document of the kind whose body
has the attribute with this text, and by no other, unless the text marks a segment of the path as
one that cannot be followed. -/
theorem resolve_attribute_iff {kind text : String} {path field : List String}
    (htext : ∀ segment ∈ path, ∀ stop ∈ Lookup.stops segment, stop.text ≠ text) (g : Graph)
    (v : Value) :
    (Selector.attribute kind path text field).resolve g = .found v ↔
      ∃ before d behind, g.toList = before ++ d :: behind ∧
        Text.lowerString d.kind = Text.lowerString kind ∧ d.body.ReadsAt path text ∧
        (∀ e ∈ before, Text.lowerString e.kind = Text.lowerString kind →
          ¬ e.body.ReadsAt path text) ∧
        v = (Path.walkMapping d.body field).value := by
  have hselects : ∀ d : Document, (Selector.attribute kind path text field).Selects d ↔
      Text.lowerString d.kind = Text.lowerString kind ∧ d.body.ReadsAt path text := by
    intro d
    have haccepts : (Selector.attribute kind path text field).accepts d.body = true ↔
        d.body.ReadsAt path text := by
      rw [accepts_attribute_iff, or_iff_left]
      rintro ⟨segment, hsegment, stop, hstop, -, hsame⟩
      exact htext segment hsegment stop hstop hsame
    exact ⟨fun h => ⟨h.kind, haccepts.mp h.accepts⟩, fun h => ⟨h.1, haccepts.mpr h.2⟩⟩
  simp only [resolve_eq_found_iff, hselects, not_and, and_assoc]
  rfl

/-- A service without metadata, a deployment and a service with the same name. -/
def cluster : Graph := .ofList
  [⟨"Service", [(.string "kind", .string "Service"), (.string "port", .number (.int 80))]⟩,
    ⟨"Deployment", [(.string "metadata", .mapping [(.string "name", .string "web")])]⟩,
    ⟨"SERVICE", [(.string "metadata", .tagged ⟨"Meta"⟩ (.mapping [(.string "name", .string "web")])),
      (.string "port", .number (.int 443))]⟩]

/-- The service with the name is selected, neither the deployment nor the service without a name. -/
theorem cluster_web_selected :
    (∀ segment ∈ ["metadata", "name"], ∀ stop ∈ Lookup.stops segment, stop.text ≠ "web") ∧
    (Selector.attribute "Service" ["metadata", "name"] "web" ["port"]).resolve cluster =
      .found (.number (.int 443)) ∧
    ∃ before d behind, cluster.toList = before ++ d :: behind ∧
      Text.lowerString d.kind = Text.lowerString "Service" ∧
      d.body.ReadsAt ["metadata", "name"] "web" ∧
      (∀ e ∈ before, Text.lowerString e.kind = Text.lowerString "Service" →
        ¬ e.body.ReadsAt ["metadata", "name"] "web") ∧
      .number (.int 443) = (Path.walkMapping d.body ["port"]).value := by
  have htext : ∀ segment ∈ ["metadata", "name"], ∀ stop ∈ Lookup.stops segment, stop.text ≠ "web" := by
    decide +kernel
  have hfound : (Selector.attribute "Service" ["metadata", "name"] "web" ["port"]).resolve cluster =
      .found (.number (.int 443)) := rfl
  exact ⟨htext, hfound, (resolve_attribute_iff htext cluster _).mp hfound⟩

/-- The marker of a missing segment is a text as any other for a selector: it selects the first
service, which has no metadata, and so an answer is found though no document has the attribute. -/
theorem marker_selects :
    parse "kind.Service.metadata.<missing: metadata> & port" =
      .ok (Selector.attribute "Service" ["metadata"] "<missing: metadata>" ["port"]) ∧
    (Selector.attribute "Service" ["metadata"] "<missing: metadata>" ["port"]).resolve cluster =
      .found (.number (.int 80)) ∧
    ∀ d ∈ cluster.toList, ¬ d.body.ReadsAt ["metadata"] "<missing: metadata>" :=
  ⟨rfl, rfl, by decide +kernel⟩

/-- Among entries whose names are distinct and lead to them, there is one of a name and a text if and
only if the walk along the name shows this text. A name that leads nowhere shows its marker. -/
theorem exists_entry_iff {m : Mapping} (hm : m.HasDistinctNames)
    (hplain : ∀ e ∈ m, e.1.isTaggedText = false) {key text : String}
    (htext : text ≠ (Lookup.missing key).text) :
    (∃ e ∈ m, e.1.text = key ∧ e.2.text = text) ↔ (Path.walkMapping m [key]).text = text := by
  rw [Path.walkMapping_singleton]
  cases hget : m.getByName? key with
  | some v =>
    obtain ⟨k, hk, hkey, -⟩ := Mapping.exists_of_getByName? hget
    constructor
    · rintro ⟨e, he, hname, rfl⟩
      rw [List.inj_on_of_nodup_map hm he hk (hname.trans hkey.symm)]
      rfl
    · intro hv
      exact ⟨(k, v), hk, hkey, hv⟩
  | none =>
    constructor
    · rintro ⟨e, he, hname, -⟩
      have htagged := Mapping.getByName?_eq_none_iff.mp hget e he hname
      rw [hplain e he] at htagged
      cases htagged
    · intro h
      exact absurd h.symm htext

/-- To ask for an entry of the mapping at a path is to ask for the attribute at the path with the key
as a further segment, if in all documents of the kind there is such a mapping, its names are
distinct and lead to its entries, and the value asked for does not read like the marker of a
missing key. -/
theorem resolve_mapEntry {g : Graph} {kind key text : String} {path field : List String}
    (hg : ∀ d ∈ g.ofKind kind, ∃ v, ∃ m : Mapping, (Path.walkMapping d.body path).value? = some v ∧
      v.untagged = .mapping m ∧ m.HasDistinctNames ∧ ∀ e ∈ m, e.1.isTaggedText = false)
    (htext : text ≠ "<missing: " ++ key ++ ">") :
    (mapEntry kind path key text field).resolve g =
      (Selector.attribute kind (path ++ [key]) text field).resolve g := by
  refine resolve_congr rfl rfl fun d hd => ?_
  obtain ⟨v, m, hv, hm, hdistinct, hplain⟩ := hg d hd
  have hentries : Selector.entriesOf? (Path.walkMapping d.body path) = some m :=
    Lookup.entriesOf?_of_value? hv hm
  have hwalk := Path.walkMapping_concat hv hm key
  rw [Bool.eq_iff_iff, accepts, accepts, hentries, hwalk, beq_iff_eq,
    ← exists_entry_iff hdistinct hplain htext]
  simp only [List.any_eq_true, Bool.and_eq_true, beq_iff_eq]

/-- Configurations with entries under names of several types. -/
def configurations : Graph := .ofList
  [⟨"ConfigMap", [(.string "data", .mapping [(.string "mode", .string "fast"), (.null, .null)])]⟩,
    ⟨"Service", [(.string "data", .string "none")]⟩,
    ⟨"configmap", [(.string "data", .tagged ⟨"Env"⟩ (.mapping
      [(.number (.int 80), .tagged ⟨"Port"⟩ (.string "http")), (.bool true, .sequence [])])),
      (.string "name", .string "second")]⟩]

/-- The entry of a number with a tagged value is found in both ways. -/
theorem configurations_entry_found :
    (∀ d ∈ configurations.ofKind "ConfigMap", ∃ v, ∃ m : Mapping,
      (Path.walkMapping d.body ["data"]).value? = some v ∧ v.untagged = .mapping m ∧
        m.HasDistinctNames ∧ ∀ e ∈ m, e.1.isTaggedText = false) ∧
    "http" ≠ "<missing: " ++ "80" ++ ">" ∧
    (mapEntry "ConfigMap" ["data"] "80" "http" ["name"]).resolve configurations =
      .found (.string "second") ∧
    (mapEntry "ConfigMap" ["data"] "80" "http" ["name"]).resolve configurations =
      (Selector.attribute "ConfigMap" ["data", "80"] "http" ["name"]).resolve configurations := by
  have hnamed : ∀ d ∈ configurations.ofKind "ConfigMap", ∃ v, ∃ m : Mapping,
      (Path.walkMapping d.body ["data"]).value? = some v ∧ v.untagged = .mapping m ∧
        m.HasDistinctNames ∧ ∀ e ∈ m, e.1.isTaggedText = false := by
    refine List.forall_mem_cons.mpr ⟨?_, List.forall_mem_cons.mpr ⟨?_, nofun⟩⟩
    · exact ⟨_, _, rfl, rfl, by decide +kernel, by decide⟩
    · exact ⟨_, _, rfl, rfl, by decide +kernel, by decide⟩
  exact ⟨hnamed, by decide, rfl, resolve_mapEntry hnamed (by decide)⟩

end Selector

end ManifestRules
