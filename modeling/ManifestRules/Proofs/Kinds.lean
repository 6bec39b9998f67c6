import ManifestRules.Proofs.Framing
import ManifestRules.Proofs.History.Success
import ManifestRules.Value.Equality
/-!
# Captured kinds

A document has its kind twice, as it was captured and in its body. A merge changes the body, but a
fragment that has no entry for the kind does not change the kind that the body gives
(`Document.kindOf?_merge`). So if the fragments of a run are such, the two agree in every graph
that it reaches, also for the documents that were made on the way
(`Engine.exists_history_kindsAgree`).
-/

namespace ManifestRules

namespace Document

/-- A fragment without an entry for the kind does not change the kind that a body gives. -/
theorem kindOf?_merge {fragment : Mapping} (hkind : kindKey ∉ Mapping.keys fragment)
    (body : Mapping) : kindOf? (Mapping.merge body fragment) = kindOf? body := by
  have hne : ∀ e ∈ fragment, e.1 ≠ kindKey := by
    intro e he hkey
    exact hkind (List.mem_map.mpr ⟨e, he, hkey⟩)
  have hkeys : ∀ e ∈ fragment, kindKey.sameKey e.1 = false := by
    intro e he
    by_contra hsame
    rw [Bool.not_eq_false] at hsame
    exact hne e he (Value.string_sameKey_iff.mp hsame).symm
  have hapart : ∀ e ∈ fragment, ∀ c, e.1.sameKey c = true → kindKey.sameKey c = false := by
    intro e he c hc
    by_contra hsame
    rw [Bool.not_eq_false] at hsame
    rw [← Value.string_sameKey_iff.mp hsame] at hc
    exact hne e he (Value.sameKey_string_iff.mp hc)
  rw [kindOf?, Mapping.merge, Mapping.get?_mergeEntries_of_apart hkeys hapart, kindOf?]

/-- A kind that a body gives is not empty. -/
theorem ne_empty_of_kindOf? {body : Mapping} {kind : String} (hkind : kindOf? body = some kind) :
    kind ≠ "" := by
  unfold kindOf? at hkind
  split at hkind
  · split at hkind
    · cases hkind
    · rename_i hne
      cases hkind
      rintro rfl
      exact hne rfl
  · cases hkind

/-- The kind that the body gives is the captured one. -/
def Consistent (d : Document) : Prop := kindOf? d.body = some d.kind

/-- Consistent documents with the same bodies are the same. -/
theorem eq_of_map_body {ds es : List Document} (hds : ∀ d ∈ ds, d.Consistent)
    (hes : ∀ d ∈ es, d.Consistent) (hbodies : ds.map body = es.map body) : ds = es := by
  induction ds generalizing es with
  | nil => exact (List.map_eq_nil_iff.mp hbodies.symm).symm
  | cons d ds ih =>
    obtain ⟨x, rest, rfl, hbody, hrest⟩ := List.map_eq_cons_iff.mp hbodies.symm
    obtain ⟨hd, hds⟩ := List.forall_mem_cons.mp hds
    obtain ⟨hx, hes⟩ := List.forall_mem_cons.mp hes
    have hkind : d.kind = x.kind := by
      unfold Consistent at hd hx
      rw [← hbody, hx] at hd
      exact (Option.some.inj hd).symm
    have hfirst : d = x := by
      cases d
      cases x
      simp_all
    rw [hfirst, ih hds hes hrest.symm]

end Document

/-- The documents of a stream are consistent. -/
theorem Stream.consistent_of_parseDocuments {codec : Codec} {text : String} {ds : List Document}
    (hds : parseDocuments codec text = .ok ds) : ∀ d ∈ ds, d.Consistent :=
  forall_of_parseDocuments hds fun _ _ hparse => (parseDocument_eq_ok_iff.mp hparse).2

namespace Graph

/-- Every document is consistent. -/
def Consistent (g : Graph) : Prop := ∀ d ∈ g.toList, d.Consistent

/-- What captured kinds and bodies have in common in a graph. -/
structure KindsAgree (g : Graph) : Prop where
  /-- A document that is made of the body of one that is there is the same again. -/
  remade : ∀ d ∈ g.toList, ∀ source, Document.ofBody d.body source = .ok d
  /-- Every document has a kind. -/
  named : ∀ d ∈ g.toList, d.kind ≠ ""
  /-- A look-up by kind finds the documents whose bodies give this kind; case does not count. -/
  found : ∀ kind, g.ofKind kind = g.toList.filter fun d =>
    (Document.kindOf? d.body).any fun k => Text.lowerString k == Text.lowerString kind
  /-- If the bodies are read back from a stream, then so is the graph with all its kinds. -/
  written : ∀ codec text ds, Stream.parseDocuments codec text = .ok ds →
    ds.map Document.body = g.toList.map Document.body → Graph.ofList ds = g

variable {g : Graph}

/-- In a consistent graph captured kinds and bodies agree. -/
theorem Consistent.kindsAgree (hg : g.Consistent) : g.KindsAgree := by
  refine ⟨?_, ?_, ?_, ?_⟩
  · intro d hd source
    exact Document.ofBody_eq_ok_iff.mpr ⟨rfl, hg d hd⟩
  · intro d hd
    exact Document.ne_empty_of_kindOf? (hg d hd)
  · intro kind
    unfold ofKind
    refine List.filter_congr ?_
    intro d hd
    have hkind : Document.kindOf? d.body = some d.kind := hg d hd
    rw [hkind, Option.any_some]
  · intro codec text ds hds hbodies
    have hparsed := Stream.consistent_of_parseDocuments hds
    exact eq_of_toList (Document.eq_of_map_body hparsed hg hbodies)

end Graph

/-- A task merges no entry for the kind of a document. -/
def Task.LeavesKinds (t : Task) : Prop :=
  ∀ j fragment, t.mergedInto j = some fragment → Document.kindKey ∉ Mapping.keys fragment

namespace Engine

/-- A patch has been rendered in a history and was decoded to a fragment. -/
def Patched (e : Engine) (past : List Moment) (fragment : Mapping) : Prop :=
  ∃ x ∈ past, ∃ i m reference text, x.task = .patch i m reference ∧
    e.renderOn reference x.before = .ok text ∧ Stream.parseMapping e.codec text = .ok fragment

variable {e : Engine}

/-- A document that a task appends is consistent. -/
theorem consistent_of_born {t : Task} {d : Document} (hd : e.born t = some d) : d.Consistent := by
  cases t with
  | append i m k l fragment =>
    rw [born] at hd
    cases hparse : Stream.parseDocument e.codec fragment with
    | error f =>
      rw [hparse] at hd
      cases hd
    | ok x =>
      rw [hparse] at hd
      cases hd
      exact (Stream.parseDocument_eq_ok_iff.mp hparse).2
  | _ => cases hd

/-- A chain of tasks that merge no entry for the kind leads to a consistent graph. -/
theorem Chain.consistent {g h : Graph} {past : List Moment} (hc : e.Chain g past h)
    (hpast : ∀ x ∈ past, x.task.LeavesKinds) (hg : g.Consistent) : h.Consistent := by
  refine hc.forall_documents ?_ (fun x _ d hd => consistent_of_born hd) hg
  intro x hx j fragment hm d hd
  exact (Document.kindOf?_merge (hpast x hx j fragment hm) d.body).trans hd

/-- A run merges nothing but fragments of its rules and decoded patches. -/
theorem History.leavesKinds {g : Graph} {past : List Moment} (hp : e.History g past)
    (hinject : ∀ r ∈ e.rules, ∀ fragment, r.inject = some fragment →
      Document.kindKey ∉ Mapping.keys fragment)
    (hpatch : ∀ fragment, e.Patched past fragment → Document.kindKey ∉ Mapping.keys fragment) :
    ∀ x ∈ past, x.task.LeavesKinds := by
  intro x hx j fragment hm
  obtain ⟨before, later, rfl⟩ := List.append_of_mem hx
  have hcause := hp.caused
  obtain ⟨m, htask | htask⟩ := Task.eq_of_mergedInto hm
  · rw [htask] at hcause
    obtain ⟨r, ⟨hr, -⟩, hown⟩ := hcause
    exact hinject r (List.mem_of_getElem? hr) fragment hown
  · rw [htask] at hcause
    obtain ⟨y, hy, reference, text, hrendered⟩ := hcause
    exact hpatch fragment ⟨y, List.mem_append_left _ hy, j, m, reference, text, hrendered⟩

/-- If neither a rule's own fragment nor a patch that is decoded in the run has an entry for the
kind, and the documents of the first graph were made of values, then captured kinds and bodies
agree in every graph that the run reaches, and in the one it ends with, whether it fails or not. -/
theorem exists_history_kindsAgree (e : Engine) {g : Graph}
    (hinject : ∀ r ∈ e.rules, ∀ fragment, r.inject = some fragment →
      Document.kindKey ∉ Mapping.keys fragment)
    (hmade : ∀ d ∈ g.toList, ∃ v source, Document.ofValue v source = .ok d) :
    ∃ past, e.History g past ∧
      ((∀ fragment, e.Patched past fragment → Document.kindKey ∉ Mapping.keys fragment) →
        (∀ earlier later, past = earlier ++ later → (reached g earlier).KindsAgree) ∧
          (e.finalGraph g).KindsAgree) := by
  obtain ⟨past, hp⟩ := e.exists_history g
  have hg : g.Consistent := by
    intro d hd
    obtain ⟨v, source, hv⟩ := hmade d hd
    exact (Document.ofValue_eq_ok_iff.mp hv).2
  refine ⟨past, hp, ?_⟩
  intro hpatch
  have hleaves := hp.leavesKinds hinject hpatch
  constructor
  · rintro earlier later rfl
    have hreached := hp.chain.split_reached.1
    exact (hreached.consistent (fun x hx => hleaves x (List.mem_append_left _ hx)) hg).kindsAgree
  · exact (hp.chain.consistent hleaves hg).kindsAgree

end Engine

namespace Template

/-- The template is a text without tags. -/
def isText : List Element → Bool
  | [.text _] => true
  | _ => false

/-- A text without tags is written as it is, whatever the template is evaluated with. -/
theorem writeNested_text (env : Env) (depth : Nat) (text : String) (f : Frame) :
    writeNested env (depth + 1) [.text text] f =
      (Eval.emit f.margin text >>= fun s => pure "" >>= fun rest => pure (s ++ rest)) := rfl

/-- What a text without tags is evaluated with does not matter. -/
theorem render_text (env env' : Env) (text : String) :
    render env [.text text] = render env' [.text text] := by
  have hwrite := fun env => writeNested_text env 999 text Frame.outermost
  exact (hwrite env).trans (hwrite env').symm

/-- A text that is read as a template without tags is rendered alike on all graphs. -/
theorem renderText_of_isText {text : String} {t : List Element} (hparse : parse text = .ok t)
    (ht : isText t = true) (strict : Bool) (name : String) (vars : Mapping) (g h : Option Graph) :
    renderText strict name text vars g = renderText strict name text vars h := by
  unfold isText at ht
  split at ht
  · exact renderText_congr hparse (render_text _ _ _) name
  · cases ht

end Template

namespace Engine

/-- The release of an application: it is marked for production, gets a service and an owner. For
the service there is a template missing. -/
def release : Engine where
  rules :=
    [⟨[(.string "kind", .string "App")], some mark, ["service"], some "owner"⟩,
     ⟨[(.string "kind", .string "Service")], none, ["address"], none⟩]
  vars := []
  templates := .ofList [("service", "kind: !public Service"), ("owner", "owner: \x7bkind: team\x7d")]
  renderer := Template.renderer true
  codec := Yaml.codec
  limit := 10

/-- An application whose kind stands under a tag. -/
def tagged : Graph :=
  .ofList [⟨"App", [(.string "kind", .tagged ⟨"web"⟩ (.string "App"))]⟩]

/-- The patch of the release has an entry for a kind below the top only. -/
theorem release_patched {g : Graph} {past : List Moment} (hp : release.History g past)
    {fragment : Mapping} (hf : release.Patched past fragment) :
    Document.kindKey ∉ Mapping.keys fragment := by
  obtain ⟨x, hx, i, m, reference, text, htask, hrendered, hparse⟩ := hf
  obtain ⟨before, later, rfl⟩ := List.append_of_mem hx
  have hcause : release.Caused before (.patch i m reference) := htask ▸ hp.caused
  obtain ⟨r, ⟨hr, -⟩, hreference⟩ := hcause
  have howner : ∀ r ∈ release.rules, r.patch = some reference → reference = "owner" := by
    simp [release, eq_comm]
  obtain rfl := howner r (List.mem_of_getElem? hr) hreference
  obtain ⟨t, hread, htext⟩ :
      ∃ t, Template.parse "owner: \x7bkind: team\x7d" = .ok t ∧ Template.isText t = true :=
    Template.exists_parse_of_any (by decide +kernel)
  have hload : release.templates.load "owner" = .ok "owner: \x7bkind: team\x7d" := rfl
  have hsame : release.renderOn "owner" x.before = release.renderOn "owner" .empty := by
    simp only [renderOn, hload, bind, Except.bind]
    exact Template.renderText_of_isText hread htext true "owner" [] (some x.before) (some .empty)
  have hdecoded : (release.renderOn "owner" .empty >>= Stream.parseMapping Yaml.codec).toOption.all
      (fun f => decide (Document.kindKey ∉ Mapping.keys f)) = true := by
    decide +kernel
  have hpatch : Stream.parseMapping Yaml.codec text = .ok fragment := hparse
  rw [← hsame, hrendered] at hdecoded
  simpa [bind, Except.bind, hpatch, Except.toOption] using hdecoded

/-- The release fails at its service, and all kinds agree by then and before. -/
theorem release_kindsAgree :
    (∀ r ∈ release.rules, ∀ fragment, r.inject = some fragment →
      Document.kindKey ∉ Mapping.keys fragment) ∧
    (∀ d ∈ tagged.toList, ∃ v source, Document.ofValue v source = .ok d) ∧
    release.succeeds tagged = false ∧
    ∃ past, release.History tagged past ∧
      (∀ fragment, release.Patched past fragment → Document.kindKey ∉ Mapping.keys fragment) ∧
      (∀ earlier later, past = earlier ++ later → (reached tagged earlier).KindsAgree) ∧
      (release.finalGraph tagged).KindsAgree := by
  have hinject : ∀ r ∈ release.rules, ∀ fragment, r.inject = some fragment →
      Document.kindKey ∉ Mapping.keys fragment := by
    simp [release, mark, Mapping.keys, Document.kindKey]
  have hmade : ∀ d ∈ tagged.toList, ∃ v source, Document.ofValue v source = .ok d := by
    intro d hd
    obtain rfl := List.mem_singleton.mp hd
    exact ⟨.mapping [(.string "kind", .tagged ⟨"web"⟩ (.string "App"))], "", rfl⟩
  obtain ⟨past, hp, hagree⟩ := exists_history_kindsAgree release hinject hmade
  have hpatch : ∀ fragment, release.Patched past fragment →
      Document.kindKey ∉ Mapping.keys fragment := fun _ hf => release_patched hp hf
  exact ⟨hinject, hmade, by decide +kernel, past, hp, hpatch, hagree hpatch⟩

/-- The graph of the failed release holds the service that was made before. -/
example : (release.finalGraph tagged).toList.map Document.kind = ["App", "Service"] := by
  decide +kernel

end Engine

end ManifestRules
