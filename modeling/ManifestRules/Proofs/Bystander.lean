import ManifestRules.Proofs.Guard
import ManifestRules.Proofs.Insertion
import ManifestRules.Proofs.Simulation
import ManifestRules.Template.Renderer
import ManifestRules.Yaml.Codec
/-!
# Documents that no rule concerns

A document that no rule matches, and whose kind no template asks for, could as well not be there:
wherever it is inserted, the run does the same to all the others and leaves it as it is
(`apply_insertAt`). It only takes one place of those that the limit allows.
-/

namespace ManifestRules

open ManifestRules.Graph

/-- The second graph is the first one with the document inserted at the index. -/
def Inserted (p : Nat) (d : Document) (g h : Graph) : Prop := p ≤ g.size ∧ h = g.insertAt p d

/-- The failures are the same, or they are for the limit and for the next larger one. -/
def SameBut (limit : Nat) (f k : Error) : Prop :=
  k = f ∨ (f = .documentLimit limit ∧ k = .documentLimit (limit + 1))

namespace Engine

/-- What the templates come to depends on no answer to a query for the kind. -/
def IgnoresKind (e : Engine) (kind : String) : Prop :=
  ∀ reference g h, SameAnswers kind g h → e.renderOn reference g = e.renderOn reference h

/-- No rule matches the document. -/
def LeavesAlone (e : Engine) (d : Document) : Prop :=
  ∀ r ∈ e.rules, Mapping.contains d.body r.pattern = false

variable {e : Engine} {d : Document} {p L : Nat}

/-- Templates come to the same text. -/
theorem simulates_render (hignores : e.IgnoresKind d.kind) (reference : String) :
    Simulates (Inserted p d) (SameBut L) ((e.withLimit L).render reference)
      ((e.withLimit (L + 1)).render reference) := by
  rintro g h ⟨hp, rfl⟩
  have hsame : (e.withLimit (L + 1)).renderOn reference (g.insertAt p d) =
      (e.withLimit L).renderOn reference g :=
    hignores reference _ _ (sameAnswers_insertAt g p d)
  rw [run_render, run_render, hsame]
  exact Simulates.lift (fun f => .inl rfl) _ _ _ ⟨hp, rfl⟩

/-- The same document is appended, and it is too many for one limit if it is for the other. -/
theorem simulates_appendFragment (fragment : String) :
    Simulates (Inserted p d) (SameBut L) ((e.withLimit L).appendFragment fragment)
      ((e.withLimit (L + 1)).appendFragment fragment) := by
  rintro g h ⟨hp, rfl⟩
  have hsize := size_insertAt hp d
  rw [run_appendFragment, run_appendFragment]
  simp only [withLimit]
  cases Stream.parseDocument e.codec fragment with
  | error f => exact .error (.inl rfl) ⟨hp, rfl⟩
  | ok x =>
    have hpush : Inserted p d (g.push x) ((g.insertAt p d).push x) := by
      refine ⟨?_, push_insertAt hp d x⟩
      rw [Graph.size_push]
      omega
    by_cases hl : L < g.size + 1
    · have hl' : L + 1 < (g.insertAt p d).size + 1 := by omega
      simp only [hl, hl', if_true]
      exact .error (.inr ⟨rfl, rfl⟩) hpush
    · have hl' : ¬ L + 1 < (g.insertAt p d).size + 1 := by omega
      simp only [hl, hl', if_false]
      exact .ok () hpush

/-- A merge reaches the same document. -/
theorem simulates_mergeInto (i : Nat) (fragment : Mapping) :
    Simulates (Inserted p d) (SameBut L) (mergeInto i fragment)
      (mergeInto (shift p i) fragment) := by
  rintro g h ⟨hp, rfl⟩
  refine .ok () ⟨?_, mergeAt_insertAt g p d i fragment⟩
  rwa [Graph.size_mergeAt]

/-- A rule has the same effects on the same document. -/
theorem simulates_applyEffects (hignores : e.IgnoresKind d.kind) (i : Nat) (r : Rule) :
    Simulates (Inserted p d) (SameBut L) ((e.withLimit L).applyEffects i r)
      ((e.withLimit (L + 1)).applyEffects (shift p i) r) := by
  have hrender := fun reference => simulates_render (p := p) (L := L) hignores reference
  refine .bind (.forM fun fragment _ => simulates_mergeInto i fragment) fun _ => ?_
  refine .bind (.forM fun reference _ => ?_) fun _ => .forM fun reference _ => ?_
  · refine .bind (hrender reference) fun text => ?_
    exact .forM fun fragment _ => simulates_appendFragment fragment
  · refine .bind (hrender reference) fun text => ?_
    refine .bind (.lift (fun f => .inl rfl) _) fun fragment => ?_
    exact simulates_mergeInto i fragment

/-- A rule is applied to the same document. -/
theorem simulates_applyRule (hignores : e.IgnoresKind d.kind) (i : Nat) (r : Rule) :
    Simulates (Inserted p d) (SameBut L) ((e.withLimit L).applyRule i r)
      ((e.withLimit (L + 1)).applyRule (shift p i) r) := by
  rintro g h ⟨hp, rfl⟩
  have hmatch : matchesAt (g.insertAt p d) (shift p i) r = matchesAt g i r := by
    rw [matchesAt, matchesAt, get?_insertAt_shift]
  have heffects := simulates_applyEffects (L := L) hignores i r g _ ⟨hp, rfl⟩
  simp only [applyRule, EStateM.run_bind, EStateM.run_get, hmatch]
  by_cases hm : matchesAt g i r
  · simp only [hm, if_true]
    exact heffects
  · simp only [hm]
    exact .ok () ⟨hp, rfl⟩

/-- A visit does the same to the same document. -/
theorem simulates_visit (hignores : e.IgnoresKind d.kind) (i : Nat) :
    Simulates (Inserted p d) (SameBut L) ((e.withLimit L).visit i)
      ((e.withLimit (L + 1)).visit (shift p i)) :=
  .forM fun r _ => simulates_applyRule hignores i r

/-- Behind the inserted document the loops do the same, one of them one index further. -/
theorem simulates_visitFrom_of_le (hignores : e.IgnoresKind d.kind) (n i : Nat) (hi : p ≤ i) :
    Simulates (Inserted p d) (SameBut L) ((e.withLimit L).visitFrom n i)
      ((e.withLimit (L + 1)).visitFrom n (i + 1)) := by
  induction n generalizing i with
  | zero => exact .pure ()
  | succ n ih =>
    have hshift : shift p i = i + 1 := if_neg (Nat.not_lt.mpr hi)
    have hvisit := simulates_visit (p := p) (L := L) hignores i
    rw [hshift] at hvisit
    have hround := hvisit.bind fun _ => ih (i + 1) (Nat.le_succ_of_le hi)
    rintro g h ⟨hp, rfl⟩
    rw [run_visitFrom_succ, run_visitFrom_succ, size_insertAt hp]
    by_cases hlt : i < g.size
    · rw [if_pos hlt, if_pos (Nat.succ_lt_succ hlt)]
      exact hround g _ ⟨hp, rfl⟩
    · rw [if_neg hlt, if_neg fun hlt' => hlt (Nat.lt_of_succ_lt_succ hlt')]
      exact .ok () ⟨hp, rfl⟩

/-- A document that no rule matches is visited without effect. -/
theorem run_visit_of_leavesAlone (halone : e.LeavesAlone d) {g : Graph} {i : Nat}
    (hd : g.get? i = some d) : (e.visit i).run g = .ok () g := by
  refine run_forM_of_ok ?_
  intro r hr
  have hmatch : matchesAt g i r = false := by
    rw [matchesAt, hd]
    exact halone r hr
  simp [applyRule, hmatch]

/-- At the inserted document one of the loops takes a round more. -/
theorem simulates_visitFrom_self (halone : e.LeavesAlone d) (hignores : e.IgnoresKind d.kind)
    (n : Nat) :
    Simulates (Inserted p d) (SameBut L) ((e.withLimit L).visitFrom n p)
      ((e.withLimit (L + 1)).visitFrom (n + 1) p) := by
  rintro g h ⟨hp, rfl⟩
  have hlt : p < (g.insertAt p d).size := by
    rw [size_insertAt hp]
    omega
  have hvisit : ((e.withLimit (L + 1)).visit p).run (g.insertAt p d) = .ok () (g.insertAt p d) :=
    run_visit_of_leavesAlone (e := e.withLimit (L + 1)) halone (get?_insertAt_self hp d)
  rw [run_visitFrom_succ _ n p (g.insertAt p d), if_pos hlt, EStateM.run_bind, hvisit]
  exact simulates_visitFrom_of_le hignores n p (Nat.le_refl p) g _ ⟨hp, rfl⟩

/-- Up to the inserted document the loops do the same at the same index, if they reach it. -/
theorem simulates_visitFrom (halone : e.LeavesAlone d) (hignores : e.IgnoresKind d.kind)
    (n i : Nat) (hi : i ≤ p) (hn : p ≤ n + i) :
    Simulates (Inserted p d) (SameBut L) ((e.withLimit L).visitFrom n i)
      ((e.withLimit (L + 1)).visitFrom (n + 1) i) := by
  induction n generalizing i with
  | zero =>
    obtain rfl : i = p := by omega
    exact simulates_visitFrom_self halone hignores 0
  | succ n ih =>
    obtain rfl | hlt := Nat.eq_or_lt_of_le hi
    · exact simulates_visitFrom_self halone hignores (n + 1)
    · have hshift : shift p i = i := if_pos hlt
      have hvisit := simulates_visit (p := p) (L := L) hignores i
      rw [hshift] at hvisit
      have hround := hvisit.bind fun _ => ih (i + 1) hlt (by omega)
      rintro g h ⟨hp, rfl⟩
      have hfirst : i < g.size := by omega
      have hsecond : i < (g.insertAt p d).size := by
        rw [size_insertAt hp]
        omega
      rw [run_visitFrom_succ, run_visitFrom_succ, if_pos hfirst, if_pos hsecond]
      exact hround g _ ⟨hp, rfl⟩

/-- A document that no rule matches and for whose kind no template asks is a bystander: with it
inserted anywhere and a limit larger by one, the run ends as it does without it, in success or in the
same failure, but that a failure for the limit names the larger one; and it leaves the same graph
with the same document inserted at the same index. -/
theorem apply_insertAt (halone : e.LeavesAlone d) (hignores : e.IgnoresKind d.kind) {g : Graph}
    (hp : p ≤ g.size) :
    Alike (Inserted p d) (SameBut L) ((e.withLimit L).apply.run g)
      ((e.withLimit (L + 1)).apply.run (g.insertAt p d)) := by
  have hbound : (e.withLimit (L + 1)).visitBound (g.insertAt p d) =
      (e.withLimit L).visitBound g + 1 := by
    simp only [visitBound, withLimit, size_insertAt hp]
    omega
  have hreach : p ≤ (e.withLimit L).visitBound g + 0 := by
    rw [visitBound]
    omega
  have hloop :=
    simulates_visitFrom (L := L) halone hignores _ 0 (Nat.zero_le p) hreach g _ ⟨hp, rfl⟩
  rw [← hbound] at hloop
  exact hloop

end Engine

namespace Template

/-- The template is a text with the answer to the query behind it. -/
def asksOnce (query : String) : List Element → Bool
  | [.text _, .call name [.literal (.string q)] []] => name == "resource" && q == query
  | _ => false

/-- A template that asks one query is rendered alike wherever this query is answered alike. -/
theorem render_of_asksOnce {query : String} {t : List Element} (ht : asksOnce query t = true)
    (strict : Bool) (data : Json) {ask ask' : String → Except Error Resolution}
    (hanswer : ask query = ask' query) :
    render ⟨strict, data, some ask⟩ t = render ⟨strict, data, some ask'⟩ t := by
  rw [asksOnce.eq_def] at ht
  split at ht
  · rename_i text name q
    obtain ⟨hname, hq⟩ := Bool.and_eq_true_iff.mp ht
    obtain rfl := eq_of_beq hname
    obtain rfl := eq_of_beq hq
    have hquery : Env.query ⟨strict, data, some ask⟩ (some (.value (.string q))) =
        Env.query ⟨strict, data, some ask'⟩ (some (.value (.string q))) := by
      simp only [Env.query, Option.map, Found.json, hanswer]
    -- The query is all that the two renderings do not have in common.
    have hwritten : writeCall ⟨strict, data, some ask⟩ "" "resource" [.value (.string q)] [] =
        writeCall ⟨strict, data, some ask'⟩ "" "resource" [.value (.string q)] [] :=
      congrArg (fun v : Eval Value => Eval.wholly Progress.indents (v >>= fun v => pure v.text))
        hquery
    exact congrArg (fun w : Eval String => Eval.emit "" text >>= fun s =>
      (w >>= fun u => pure (u ++ "")) >>= fun u => pure (s ++ u)) hwritten
  · cases ht

/-- A text that is read as a template with one query is rendered alike on graphs that answer the
query alike. -/
theorem renderText_of_asksOnce {query text : String} {t : List Element} (hparse : parse text = .ok t)
    (ht : asksOnce query t = true) (strict : Bool) (name : String) (vars : Mapping) {g h : Graph}
    (hanswer : g.resolve query = h.resolve query) :
    renderText strict name text vars (some g) = renderText strict name text vars (some h) := by
  have hrender : render (envOf strict vars (some g)) t = render (envOf strict vars (some h)) t :=
    render_of_asksOnce ht strict (dataOf vars) hanswer
  exact renderText_congr hparse hrender name

end Template

namespace Engine

/-- The template of a service that names the shop it is for. -/
def registration : String := "kind: Service\nshop: \x7b\x7bresource \"kind.Shop & name\"\x7d\x7d"

/-- The registration asks for a shop and nothing else. -/
theorem parse_registration :
    ∃ t, Template.parse registration = .ok t ∧ Template.asksOnce "kind.Shop & name" t = true :=
  Template.exists_parse_of_any (by decide +kernel)

/-- A rule by which every shop is registered. -/
def registry : Engine where
  rules := [⟨[(.string "kind", .string "Shop")], none, ["service"], none⟩]
  vars := []
  templates := .ofList [("service", registration)]
  renderer := Template.renderer true
  codec := Yaml.codec
  limit := 10

/-- The graph of a single shop. -/
def shop : Graph :=
  .ofList [⟨"Shop", [(.string "kind", .string "Shop"), (.string "name", .string "tea")]⟩]

/-- A document that is nobody's business. -/
def secret : Document := ⟨"Secret", [(.string "kind", .string "Secret")]⟩

/-- The template of the registry asks for shops only. -/
theorem registry_ignoresKind : registry.IgnoresKind "Secret" := by
  intro reference g h hsame
  have hquery : Selector.parse "kind.Shop & name" = .ok (.kind "Shop" ["name"]) := by
    decide +kernel
  have hanswer : g.resolve "kind.Shop & name" = h.resolve "kind.Shop & name" :=
    hsame _ _ hquery (by decide +kernel)
  obtain ⟨t, hparse, hasks⟩ := parse_registration
  by_cases href : reference = "service"
  · have hload : registry.templates.load reference = .ok registration := by rw [href]; rfl
    simp only [renderOn, hload, bind, Except.bind]
    exact Template.renderText_of_asksOnce hparse hasks true reference [] hanswer
  · have hload : registry.templates.load reference =
        .error (.templateNotFound reference "not present in template store") := by
      have hfind : ("service" == reference) = false := beq_false_of_ne (Ne.symm href)
      simp [registry, TemplateSource.ofList, List.find?, hfind]
    simp only [renderOn, hload, bind, Except.bind]

/-- The secret is a bystander of the registry, also in front of the shop. -/
theorem secret_bystander : registry.LeavesAlone secret ∧ registry.IgnoresKind secret.kind ∧
    0 ≤ shop.size ∧ Alike (Inserted 0 secret) (SameBut 2) ((registry.withLimit 2).apply.run shop)
      ((registry.withLimit 3).apply.run (shop.insertAt 0 secret)) := by
  have halone : registry.LeavesAlone secret := by
    rw [LeavesAlone]
    decide +kernel
  exact ⟨halone, registry_ignoresKind, Nat.zero_le _,
    apply_insertAt halone registry_ignoresKind (Nat.zero_le _)⟩

/-- The service is made behind the secret as it is made without it. -/
example : ((registry.withLimit 3).finalGraph (shop.insertAt 0 secret)).toList.map Document.kind =
    ["Secret", "Shop", "Service"] := by decide +kernel

end Engine

end ManifestRules
