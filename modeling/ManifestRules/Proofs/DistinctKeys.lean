import ManifestRules.Proofs.Decoding
import ManifestRules.Proofs.History.Cause
import ManifestRules.Proofs.Limit
import ManifestRules.Proofs.Overlay
import ManifestRules.Proofs.Resting
/-!
# Runs on distinct keys

Merges and matches obey their laws where the keys of mappings are distinct. That is so wherever
mappings are decoded: if the rules come from a rule file and documents are written in YAML, then no
run ever meets a key twice (`Engine.exists_history_hasDistinctKeys`), and neither does one who reads
what is built from files (`Pipeline.hasDistinctKeys_of_build`).
-/

namespace ManifestRules

namespace Yaml

/-- What the codec decodes has distinct keys. -/
theorem hasDistinctKeys_of_codec {text : String} {v : Value} (hv : codec.decode text = .ok v) :
    v.hasDistinctKeys = true := by
  simp only [codec, decodeDocument] at hv
  split at hv
  · cases hv
    exact hasDistinctKeys_of_decode ‹_›
  · cases hv

/-- A document of a stream has distinct keys. -/
theorem hasDistinctKeys_of_parseDocument {text : String} {d : Document}
    (hd : Stream.parseDocument codec text = .ok d) : d.body.hasDistinctKeys = true :=
  hasDistinctKeys_of_codec (Stream.parseDocument_eq_ok_iff.mp hd).1

/-- A patch has distinct keys. -/
theorem hasDistinctKeys_of_parseMapping {text : String} {m : Mapping}
    (hm : Stream.parseMapping codec text = .ok m) : m.hasDistinctKeys = true := by
  rw [Stream.parseMapping] at hm
  split at hm
  · cases hm
    rfl
  · split at hm
    · cases hm
    · cases hm
      exact hasDistinctKeys_of_codec ‹_›
    · cases hm
      rfl
    · cases hm

end Yaml

namespace Engine

/-- The rules are those of a rule file, and documents are written in YAML. -/
structure IsDecoded (e : Engine) : Prop where
  /-- There is a rule file with these rules. -/
  rules : ∃ text file, RuleFile.parse text = .ok file ∧ e.rules = file.rules
  /-- The codec is that of YAML. -/
  codec : e.codec = Yaml.codec

variable {e : Engine} {g : Graph} {past : List Moment}

/-- A document that is born was decoded. -/
theorem IsDecoded.hasDistinctKeys_of_born (he : e.IsDecoded) {t : Task} {d : Document}
    (hd : e.born t = some d) : d.body.hasDistinctKeys = true := by
  cases t with
  | append i m k l fragment =>
    rw [born, he.codec] at hd
    cases hparse : Stream.parseDocument Yaml.codec fragment with
    | error f =>
      rw [hparse] at hd
      cases hd
    | ok x =>
      rw [hparse] at hd
      cases hd
      exact Yaml.hasDistinctKeys_of_parseDocument hparse
  | _ => cases hd

/-- A fragment that is merged was decoded with its rule, or it is a patch that was decoded. -/
theorem IsDecoded.hasDistinctKeys_of_mergedInto (he : e.IsDecoded) (hp : e.History g past)
    {x : Moment} (hx : x ∈ past) {j : Nat} {fragment : Mapping}
    (hm : x.task.mergedInto j = some fragment) : fragment.hasDistinctKeys = true := by
  obtain ⟨before, later, rfl⟩ := List.append_of_mem hx
  have hcause := hp.caused
  obtain ⟨m, htask | htask⟩ := Task.eq_of_mergedInto hm
  · rw [htask] at hcause
    obtain ⟨r, ⟨hr, -⟩, hown⟩ := hcause
    obtain ⟨text, file, hfile, hrules⟩ := he.rules
    rw [hrules] at hr
    exact (RuleFile.hasDistinctKeys_of_parse hfile r (List.mem_of_getElem? hr)).inject fragment hown
  · rw [htask] at hcause
    obtain ⟨y, -, reference, text, -, -, hparse⟩ := hcause
    rw [he.codec] at hparse
    exact Yaml.hasDistinctKeys_of_parseMapping hparse

/-- Moments of a run keep the keys of all documents distinct. -/
theorem IsDecoded.forall_documents (he : e.IsDecoded) (hp : e.History g past)
    {before later : List Moment} (hpast : past = before ++ later) {k h : Graph}
    (hc : e.Chain k before h) (hk : ∀ d ∈ k.toList, d.body.hasDistinctKeys = true) :
    ∀ d ∈ h.toList, d.body.hasDistinctKeys = true := by
  have hmem : ∀ x ∈ before, x ∈ past := fun x hx => hpast ▸ List.mem_append_left later hx
  refine hc.forall_documents ?_ (fun x _ d hd => he.hasDistinctKeys_of_born hd) hk
  intro x hx j fragment hm d hd
  exact Mapping.hasDistinctKeys_merge hd (he.hasDistinctKeys_of_mergedInto hp (hmem x hx) hm)

/-- With the rules of a rule file, a run on documents with distinct keys only ever meets such
documents. So what it merges into a document obeys the law of overlays, and a fragment without
sequences is contained in the document from then on. -/
theorem exists_history_hasDistinctKeys (he : e.IsDecoded)
    (hg : ∀ d ∈ g.toList, d.body.hasDistinctKeys = true) :
    ∃ past, e.History g past ∧
      (∀ x ∈ past, ∀ d ∈ x.before.toList, d.body.hasDistinctKeys = true) ∧
      (∀ d ∈ (e.finalGraph g).toList, d.body.hasDistinctKeys = true) ∧
      ∀ x ∈ past, ∀ j fragment, x.task.mergedInto j = some fragment →
        ∃ d, x.before.get? j = some d ∧
          Mapping.Overlay d.body fragment (d.merge fragment).body ∧
          (fragment.sequenceFree = true →
            Mapping.contains (d.merge fragment).body fragment = true) := by
  obtain ⟨past, hp⟩ := e.exists_history g
  have hbefore : ∀ x ∈ past, ∀ d ∈ x.before.toList, d.body.hasDistinctKeys = true := by
    intro x hx
    obtain ⟨before, later, hpast⟩ := List.append_of_mem hx
    obtain ⟨hreached, -⟩ := (hpast ▸ hp.chain).moment
    exact he.forall_documents hp hpast hreached hg
  refine ⟨past, hp, hbefore, ?_, ?_⟩
  · exact he.forall_documents hp (List.append_nil past).symm hp.chain hg
  · intro x hx j fragment hm
    obtain ⟨d, hd⟩ := Graph.exists_get? (hp.lt_size_of_mergedInto hx hm)
    have hbody := hbefore x hx d (List.mem_of_getElem? (Graph.get?_eq x.before j ▸ hd))
    have hfragment := he.hasDistinctKeys_of_mergedInto hp hx hm
    exact ⟨d, hd, Mapping.overlay_merge hbody hfragment,
      fun hfree => Mapping.contains_merge_of_sequenceFree hfragment hfree d.body⟩

/-- What is built from a stream with the rules of a rule file has distinct keys. -/
theorem IsDecoded.hasDistinctKeys_of_build (he : e.IsDecoded) {input : String} {h : Graph}
    (hbuild : e.build input = .ok h) : ∀ d ∈ h.toList, d.body.hasDistinctKeys = true := by
  obtain ⟨g, hparse, hrun⟩ := run_of_build hbuild
  obtain ⟨ds, hds, rfl, -⟩ := documents_of_parse hparse
  rw [he.codec] at hds
  have hg : ∀ d ∈ (Graph.ofList ds).toList, d.body.hasDistinctKeys = true := by
    rw [Graph.toList_ofList]
    exact Stream.forall_of_parseDocuments hds fun _ _ => Yaml.hasDistinctKeys_of_parseDocument
  obtain ⟨past, hp⟩ := e.exists_history (Graph.ofList ds)
  have hfinal := he.forall_documents hp (List.append_nil past).symm hp.chain hg
  rwa [finalGraph, hrun] at hfinal

end Engine

namespace Pipeline

variable {σ : Type} {fs : Files (StateM σ)} {s : σ} {c : BuildConfig}

/-- What a pipeline reads makes an engine with the rules of a rule file. -/
theorem isDecoded_engineAt {l : Loaded} (hl : loadedAt fs s c = .ok l) :
    (engineAt fs s c l).IsDecoded := by
  refine ⟨?_, rfl⟩
  obtain ⟨vars, -, hrules⟩ := bind_eq_ok_iff.mp hl
  obtain ⟨file, hfile, hloaded⟩ := bind_eq_ok_iff.mp hrules
  obtain ⟨text, -, hrender⟩ := bind_eq_ok_iff.mp hfile
  obtain ⟨rendered, -, hparse⟩ := bind_eq_ok_iff.mp hrender
  cases hloaded
  exact ⟨rendered, file, hparse, rfl⟩

/-- The documents that a pipeline builds from files at rest have distinct keys. -/
theorem hasDistinctKeys_of_build (hrest : fs.AtRest s) {input : String} {g : Graph}
    (hbuild : Gives s (build fs c input) (.ok g)) :
    ∀ d ∈ g.toList, d.body.hasDistinctKeys = true := by
  have hgives := gives_build hrest c input
  rw [Gives, hbuild] at hgives
  obtain ⟨l, hl, hgraph⟩ := bind_eq_ok_iff.mp (Prod.mk.inj hgives).1.symm
  exact (isDecoded_engineAt hl).hasDistinctKeys_of_build hgraph

end Pipeline

end ManifestRules
