import ManifestRules.Proofs.Framing
import ManifestRules.Proofs.History.Agreement
import ManifestRules.Proofs.Refusal
import ManifestRules.Yaml.Codec
/-!
# The limit

The limit is checked behind every document that is appended. So a run that goes beyond it does
so by one document and ends at once, where as many documents as there are at the start count as
allowed (`exists_history_limited`). A renderer or a codec may have a limit of its own, and report
that one in the same words; such a failure leaves no document too many. A graph that is built from
a stream never has more documents than the limit says.
-/

namespace ManifestRules.Engine

/-- A failure that the limit has no part in: it comes from the templates, from the codec, or from
what they have given. -/
inductive Fault (e : Engine) (g : Graph) : Error → Prop where
  /-- A template cannot be loaded, or not be rendered on the graph. -/
  | template {reference : String} {f : Error} (hr : e.renderOn reference g = .error f) :
    Fault e g f
  /-- A fragment is no document. -/
  | fragment {text : String} {f : Error} (hd : Stream.parseDocument e.codec text = .error f) :
    Fault e g f
  /-- The text of a patch is no mapping. -/
  | patch {text : String} {f : Error} (hm : Stream.parseMapping e.codec text = .error f) :
    Fault e g f

/-- Nothing but the limit of the engine is reported as a limit. -/
structure HasSoleLimit (e : Engine) : Prop where
  /-- No template fails to load for a limit. -/
  load : ∀ reference l, e.templates.load reference ≠ .error (.documentLimit l)
  /-- No template fails to be rendered for a limit. -/
  render : ∀ reference text g l,
    e.renderer.render reference text e.vars (some g) ≠ .error (.documentLimit l)
  /-- No text fails to be decoded for a limit. -/
  decode : ∀ text l, e.codec.decode text ≠ .error (.documentLimit l)

/-- Then nothing else fails for a limit. -/
theorem Fault.ne_documentLimit {e : Engine} {g : Graph} {f : Error} (hf : e.Fault g f)
    (hsole : e.HasSoleLimit) (l : Nat) : f ≠ .documentLimit l := by
  have hdecode : ∀ text k, e.codec.decode text = .error k → k ≠ .documentLimit l := by
    rintro text k hk rfl
    exact hsole.decode text l hk
  cases hf with
  | @template reference _ hr =>
    rintro rfl
    rw [renderOn] at hr
    cases hload : e.templates.load reference with
    | error k =>
      rw [hload] at hr
      cases hr
      exact hsole.load reference l hload
    | ok text =>
      rw [hload] at hr
      exact hsole.render reference text g l hr
  | fragment hd =>
    exact Stream.of_parseDocument_error (P := (· ≠ .documentLimit l)) hdecode nofun nofun hd
  | patch hm => exact Stream.of_parseMapping_error (P := (· ≠ .documentLimit l)) hdecode nofun hm

/-- How a run ends that was started on so many documents, and what it did last. -/
inductive Ends (e : Engine) (n : Nat) : List Moment → EStateM.Result Error Graph Unit → Prop where
  /-- It succeeds: there is nothing new, or all that there is keeps to the limit. -/
  | done {past : List Moment} {h : Graph} (hsize : h.size = n ∨ h.size ≤ e.limit) :
    Ends e n past (.ok () h)
  /-- It fails for the limit, which the document appended last goes beyond. That is one document
  more than there were or may be. -/
  | exceeded {past : List Moment} {i m k l : Nat} {fragment : String} {g : Graph} {d : Document}
    (hd : Stream.parseDocument e.codec fragment = .ok d)
    (hsize : (g.push d).size = max n e.limit + 1) :
    Ends e n (past ++ [⟨.append i m k l fragment, g, g.push d⟩])
      (.error (.documentLimit e.limit) (g.push d))
  /-- It fails for something else, which leaves the graph as it is, and no document is too many. A
  renderer or a codec that fails for a limit of its own is such a case. -/
  | failed {past : List Moment} {t : Task} {f : Error} {h : Graph} (hf : e.Fault h f)
    (hsize : h.size ≤ max n e.limit) : Ends e n (past ++ [⟨t, h, h⟩]) (.error f h)

/-- A run ends the same way if something was done before. -/
theorem Ends.cons {e : Engine} {n : Nat} {past : List Moment}
    {r : EStateM.Result Error Graph Unit} (h : e.Ends n past r) (x : Moment) :
    e.Ends n (x :: past) r := by
  cases h with
  | done hsize => exact .done hsize
  | exceeded hd hsize =>
    rw [← List.cons_append]
    exact .exceeded hd hsize
  | failed hf hsize =>
    rw [← List.cons_append]
    exact .failed hf hsize

/-- A task fails for the limit, with the document too many already appended, or it fails for
something else and leaves the graph as it is. -/
theorem of_run_error {e : Engine} {t : Task} {g h : Graph} {f : Error}
    (hp : (e.perform t).run g = .error f h) :
    (∃ i m k l fragment d, t = .append i m k l fragment ∧
      Stream.parseDocument e.codec fragment = .ok d ∧ h = g.push d ∧
      f = .documentLimit e.limit ∧ e.limit < h.size) ∨ (e.Fault g f ∧ h = g) := by
  cases t with
  | visit i => cases (run_visit e i g).symm.trans hp
  | test i m r => cases (run_test e i m r g).symm.trans hp
  | inject i m fragment => cases (run_inject e i m fragment g).symm.trans hp
  | create i m k reference =>
    rw [run_create] at hp
    cases hr : e.renderOn reference g with
    | ok text => simp [hr] at hp
    | error k =>
      rw [hr] at hp
      cases hp
      exact .inr ⟨.template hr, rfl⟩
  | append i m k l fragment =>
    rw [run_append, run_appendFragment] at hp
    cases hd : Stream.parseDocument e.codec fragment with
    | error k =>
      rw [hd] at hp
      cases hp
      exact .inr ⟨.fragment hd, rfl⟩
    | ok d =>
      by_cases hl : e.limit < g.size + 1
      · simp only [hd, hl, if_true] at hp
        cases hp
        rw [← Graph.size_push g d] at hl
        exact .inl ⟨i, m, k, l, fragment, d, rfl, hd, rfl, rfl, hl⟩
      · simp [hd, hl] at hp
  | patch i m reference =>
    rw [run_patch] at hp
    cases hr : e.renderOn reference g with
    | error k =>
      simp only [hr, bind, Except.bind] at hp
      cases hp
      exact .inr ⟨.template hr, rfl⟩
    | ok text =>
      simp only [hr, bind, Except.bind] at hp
      cases hm : Stream.parseMapping e.codec text with
      | ok fragment => simp [hm] at hp
      | error k =>
        rw [hm] at hp
        cases hp
        exact .inr ⟨.patch hm, rfl⟩
  | amend i m fragment => cases (run_amend e i m fragment g).symm.trans hp

/-- Work that goes on where so many documents were at the start ends accordingly, and on the way
at most the last task leaves one document too many. -/
theorem Performs.sizes {e : Engine} {n : Nat} {ts : List Task} {g : Graph} {past : List Moment}
    {r : EStateM.Result Error Graph Unit} (hp : e.Performs ts g past r) (hstart : n ≤ g.size)
    (hsize : g.size = n ∨ g.size ≤ e.limit) :
    e.Ends n past r ∧
      ∀ x ∈ past, x.before.size ≤ max n e.limit ∧ x.after.size ≤ max n e.limit + 1 := by
  induction hp with
  | done g => exact ⟨.done hsize, by simp⟩
  | @fail t ts g h f hf =>
    obtain ⟨i, m, k, l, fragment, d, rfl, hd, rfl, rfl, hl⟩ | ⟨hfault, rfl⟩ := of_run_error hf
    · -- The graph was not beyond the limit before, so it is beyond it by the one document.
      have hpush := Graph.size_push g d
      have hends : e.Ends n ([] ++ [⟨.append i m k l fragment, g, g.push d⟩])
          (.error (.documentLimit e.limit) (g.push d)) := .exceeded hd (by omega)
      refine ⟨hends, ?_⟩
      intro x hx
      rw [List.mem_singleton.mp hx]
      exact ⟨by dsimp only; omega, by dsimp only; omega⟩
    · have hends : e.Ends n ([] ++ [⟨t, h, h⟩]) (.error f h) := .failed hfault (by omega)
      refine ⟨hends, ?_⟩
      intro x hx
      rw [List.mem_singleton.mp hx]
      exact ⟨by dsimp only; omega, by dsimp only; omega⟩
  | @step t ts new g h past r hs rest ih =>
    have hh := size_of_run hs
    obtain ⟨hends, hpast⟩ := ih (by omega) (by omega)
    refine ⟨hends.cons _, List.forall_mem_cons.mpr ⟨?_, hpast⟩⟩
    exact ⟨by dsimp only; omega, by dsimp only; omega⟩

/-- Where nothing else is reported as a limit, a run that fails for a limit has exactly one document
too many. -/
theorem Ends.size_of_limit {e : Engine} {n l : Nat} {past : List Moment} {h : Graph}
    (hends : e.Ends n past (.error (.documentLimit l) h)) (hsole : e.HasSoleLimit) :
    l = e.limit ∧ h.size = max n e.limit + 1 := by
  cases hends with
  | exceeded hd hsize => exact ⟨rfl, hsize⟩
  | failed hf hsize => exact absurd rfl (hf.ne_documentLimit hsole l)

/-- A stream is decoded to its documents in order, if the limit allows for so many. -/
theorem parse_eq (e : Engine) (input : String) :
    e.parse input =
      match Stream.parseDocuments e.codec input with
      | .ok ds => if e.limit < ds.length then .error (.documentLimit e.limit) else .ok (.ofList ds)
      | .error f => .error f := by
  rw [parse]
  cases Stream.parseDocuments e.codec input with
  | error f => rfl
  | ok ds =>
    by_cases hl : e.limit < ds.length <;>
      simp [checkLimit, hl, bind, Except.bind, pure, Except.pure]

/-- What is decoded are the documents of a stream, within the limit. -/
theorem documents_of_parse {e : Engine} {input : String} {g : Graph} (hg : e.parse input = .ok g) :
    ∃ ds, Stream.parseDocuments e.codec input = .ok ds ∧ g = .ofList ds ∧ ds.length ≤ e.limit := by
  rw [parse_eq] at hg
  cases hds : Stream.parseDocuments e.codec input with
  | error f => simp [hds] at hg
  | ok ds =>
    by_cases hl : e.limit < ds.length
    · simp [hds, hl] at hg
    · simp only [hds, hl, if_false] at hg
      cases hg
      exact ⟨ds, rfl, rfl, Nat.le_of_not_lt hl⟩

/-- What is built is what a run on the decoded documents ends with. -/
theorem run_of_build {e : Engine} {input : String} {h : Graph} (hbuild : e.build input = .ok h) :
    ∃ g, e.parse input = .ok g ∧ e.apply.run g = .ok () h := by
  obtain ⟨g, hg, hfinal⟩ := bind_eq_ok_iff.mp hbuild
  cases hr : e.apply.run g with
  | error f k => simp [hr] at hfinal
  | ok u k =>
    rw [hr] at hfinal
    cases hfinal
    exact ⟨g, hg, hr⟩

/-- What is built keeps to the limit. -/
theorem size_le_of_build {e : Engine} {input : String} {h : Graph}
    (hbuild : e.build input = .ok h) : h.size ≤ e.limit := by
  obtain ⟨g, hparse, hrun⟩ := run_of_build hbuild
  obtain ⟨ds, -, rfl, hsize⟩ := documents_of_parse hparse
  obtain ⟨past, hp⟩ := e.exists_history (Graph.ofList ds)
  obtain ⟨hends, -⟩ := Performs.sizes hp (Nat.le_refl _) (.inl rfl)
  rw [hrun] at hends
  cases hends with
  | done hk =>
    rw [Graph.size_ofList] at hk
    omega

/-- At every moment of a run there is at most one document more than there were at the start or
may be, and the end tells how it comes: a run that succeeds has nothing new or keeps to the limit,
one that fails because the document appended last goes beyond the limit has exactly one document
too many, and one that fails for anything else, even for a limit of the renderer or of the codec,
has none. If these have no such limits, a failure for a limit always means one document too many.
And a stream is built to a graph within the limit or not at all, also if it is too long by
itself. -/
theorem exists_history_limited (e : Engine) :
    (∀ g, ∃ past, e.History g past ∧ e.Ends g.size past (e.apply.run g) ∧ ∀ x ∈ past,
      x.before.size ≤ max g.size e.limit ∧ x.after.size ≤ max g.size e.limit + 1) ∧
    (e.HasSoleLimit → ∀ g l h, e.apply.run g = .error (.documentLimit l) h →
      l = e.limit ∧ h.size = max g.size e.limit + 1) ∧
    (∀ input h, e.build input = .ok h → h.size ≤ e.limit) ∧
    ∀ input ds, Stream.parseDocuments e.codec input = .ok ds → e.limit < ds.length →
      e.build input = .error (.documentLimit e.limit) := by
  refine ⟨?_, ?_, fun input h => size_le_of_build, ?_⟩
  · intro g
    obtain ⟨past, hp⟩ := e.exists_history g
    exact ⟨past, hp, Performs.sizes hp (Nat.le_refl _) (.inl rfl)⟩
  · intro hsole g l h hrun
    obtain ⟨past, hp⟩ := e.exists_history g
    obtain ⟨hends, -⟩ := Performs.sizes hp (Nat.le_refl _) (.inl rfl)
    rw [hrun] at hends
    exact hends.size_of_limit hsole
  · intro input ds hds hl
    simp [build, parse_eq, hds, hl, bind, Except.bind]

/-- An engine whose renderer has a limit of five documents of its own. -/
def narrow : Engine where
  rules := [⟨[], none, [], some "note"⟩]
  vars := []
  templates := ⟨fun _ => .ok ""⟩
  renderer := ⟨fun _ _ _ _ => .error (.documentLimit 5), fun _ _ => .ok ()⟩
  codec := Yaml.codec
  limit := 5

/-- A failure for a limit does not always mean one document too many: the renderer gives up in these
words on a graph of a single document, where the limit of the engine allows for five. -/
theorem narrow_gives_up :
    (Graph.ofList [⟨"App", []⟩]).size = 1 ∧
    narrow.apply.run (.ofList [⟨"App", []⟩]) =
      .error (.documentLimit narrow.limit) (.ofList [⟨"App", []⟩]) ∧
    (Graph.ofList [⟨"App", []⟩]).size ≠
      max (Graph.ofList [⟨"App", []⟩]).size narrow.limit + 1 :=
  ⟨rfl, rfl, by decide⟩

/-- The limit is the only one where templates are rendered and documents decoded as the program does
it, and templates are read without a limit. -/
theorem hasSoleLimit_of_renderer {e : Engine} {strict : Bool}
    (hrenderer : e.renderer = Template.renderer strict) (hcodec : e.codec = Yaml.codec)
    (hload : ∀ reference l, e.templates.load reference ≠ .error (.documentLimit l)) :
    e.HasSoleLimit where
  load := hload
  render := by
    intro reference text g l hr
    rw [hrenderer] at hr
    obtain ⟨problem, h⟩ | ⟨query, message, h⟩ := Template.renderText_error hr
    · cases h
    · cases h
  decode := by
    intro text l hd
    rw [hcodec] at hd
    simp only [Yaml.codec, Yaml.decodeDocument] at hd
    split at hd
    · cases hd
    · cases hd

/-- Every document gets a further one. -/
def spawning : Engine where
  rules := [⟨[], none, ["again"], none⟩]
  vars := []
  templates := .ofList [("again", "kind: Loop")]
  renderer := Template.renderer true
  codec := Yaml.codec
  limit := 3

/-- The run on a single document goes beyond the limit, by one document. -/
theorem spawning_exceeds :
    spawning.HasSoleLimit ∧ ∃ h,
      spawning.apply.run (.ofList [⟨"Seed", []⟩]) = .error (.documentLimit 3) h ∧
      3 = spawning.limit ∧
      h.size = max (Graph.ofList [⟨"Seed", []⟩]).size spawning.limit + 1 := by
  have hsole : spawning.HasSoleLimit := by
    refine hasSoleLimit_of_renderer rfl rfl fun reference l hload => ?_
    simp only [spawning, TemplateSource.ofList] at hload
    split at hload
    · cases hload
    · cases hload
  have hfails : (match spawning.apply.run (.ofList [⟨"Seed", []⟩]) with
      | .error (.documentLimit l) _ => l == 3
      | _ => false) = true := by decide +kernel
  refine ⟨hsole, ?_⟩
  generalize hrun : spawning.apply.run (.ofList [⟨"Seed", []⟩]) = r at hfails
  split at hfails
  · obtain rfl := beq_iff_eq.mp hfails
    exact ⟨_, rfl, (exists_history_limited spawning).2.1 hsole _ _ _ hrun⟩
  · cases hfails

end ManifestRules.Engine
