import ManifestRules.Proofs.Chaining
/-!
# The order of entries

The entries of a mapping are looked up by their keys, so their order does not count for a pattern
that reaches them by keys. It does count in a value that is compared by its text, as the text shows
entries in order: an item of a sequence, or a mapping where the pattern has none. So a document
contains a pattern as before when entries are reordered on either side, at any depth, unless this
changes such a text (`Mapping.contains_of_reordered`).
-/

namespace ManifestRules

/-- A value becomes another one by reordering the entries of mappings in it, at any depth. -/
inductive Value.Reordered : Value → Value → Prop where
  /-- Nothing is moved. -/
  | refl (v : Value) : Reordered v v
  /-- Entries are moved again. -/
  | trans {v w u : Value} (hvw : Reordered v w) (hwu : Reordered w u) : Reordered v u
  /-- The entries of a mapping come in another order. -/
  | entries {m n : Mapping} (h : m.Perm n) : Reordered (.mapping m) (.mapping n)
  /-- Entries are moved in a value of a mapping. -/
  | value {v w : Value} (before after : Mapping) (key : Value) (h : Reordered v w) :
    Reordered (.mapping (before ++ (key, v) :: after)) (.mapping (before ++ (key, w) :: after))
  /-- Entries are moved in an item of a sequence. -/
  | item {v w : Value} (before after : List Value) (h : Reordered v w) :
    Reordered (.sequence (before ++ v :: after)) (.sequence (before ++ w :: after))
  /-- Entries are moved under a tag. -/
  | tagged {v w : Value} (tag : Tag) (h : Reordered v w) :
    Reordered (.tagged tag v) (.tagged tag w)

/-- Wherever an expected value is compared by its text with the one that is found, and still is when
two others take their places, both texts have stayed as they were. -/
def Value.KeepsTexts (expected found expected' found' : Value) : Prop :=
  ∀ path e f e' f', expected.ComparesAt found path e f → expected'.ComparesAt found' path e' f' →
    e'.text = e.text ∧ f'.text = f.text

namespace Value

/-- Texts that stay as they were also are as they come to be. -/
theorem KeepsTexts.symm {expected found expected' found' : Value}
    (h : KeepsTexts expected found expected' found') :
    KeepsTexts expected' found' expected found := by
  intro path e' f' e f h' hef
  obtain ⟨he, hf⟩ := h path e f e' f' hef h'
  exact ⟨he.symm, hf.symm⟩

/-- Entries in any order have distinct keys. -/
theorem entriesHaveDistinctKeys_of_perm {m n : Mapping} (h : m.Perm n)
    (hm : entriesHaveDistinctKeys m = true) : entriesHaveDistinctKeys n = true := by
  obtain ⟨hapart, hparts⟩ := (entriesHaveDistinctKeys_iff m).mp hm
  have hparts' := fun e he => hparts e (h.mem_iff.mpr he)
  refine (entriesHaveDistinctKeys_iff n).mpr ⟨?_, hparts'⟩
  -- Which of two keys comes first does not matter if they have distinct keys themselves.
  let apart (e f : Value × Value) : Prop :=
    e.1.hasDistinctKeys = true → f.1.hasDistinctKeys = true → f.1.sameKey e.1 = false
  have hsymm : ∀ {e f}, apart e f → apart f e :=
    fun hef hf he => (sameKey_comm he hf).trans (hef he hf)
  have hall : m.Pairwise apart := hapart.imp fun h _ _ => h
  refine (h.pairwise hall hsymm).imp_of_mem ?_
  intro e f he hf hef
  exact hef (hparts' e he).1 (hparts' f hf).1

/-- A value with distinct keys can take the place of another one in an entry. -/
theorem entriesHaveDistinctKeys_replace {before after : Mapping} {key v w : Value}
    (h : entriesHaveDistinctKeys (before ++ (key, v) :: after) = true)
    (hw : w.hasDistinctKeys = true) :
    entriesHaveDistinctKeys (before ++ (key, w) :: after) = true := by
  rw [entriesHaveDistinctKeys_iff] at h ⊢
  obtain ⟨hapart, hparts⟩ := h
  simp only [List.pairwise_append, List.pairwise_cons, List.forall_mem_append,
    List.forall_mem_cons] at hapart hparts ⊢
  exact ⟨hapart, hparts.1, ⟨hparts.2.1.1, hw⟩, hparts.2.2⟩

namespace Reordered

variable {v w : Value}

/-- Entries can be moved back. -/
theorem symm (h : v.Reordered w) : w.Reordered v := by
  induction h with
  | refl v => exact .refl v
  | trans _ _ hvw hwu => exact hwu.trans hvw
  | entries h => exact .entries h.symm
  | value before after key _ ih => exact .value before after key ih
  | item before after _ ih => exact .item before after ih
  | tagged tag _ ih => exact .tagged tag ih

/-- Reordering keeps the keys of all mappings distinct. -/
theorem hasDistinctKeys (h : v.Reordered w) (hv : v.hasDistinctKeys = true) :
    w.hasDistinctKeys = true := by
  induction h with
  | refl _ => exact hv
  | trans _ _ hvw hwu => exact hwu (hvw hv)
  | entries h => exact entriesHaveDistinctKeys_of_perm h hv
  | value before after key _ ih =>
    have hparts := ((entriesHaveDistinctKeys_iff _).mp hv).2
    exact entriesHaveDistinctKeys_replace hv (ih (hparts _ List.mem_append_cons_self).2)
  | item before after _ ih =>
    have hitems := (itemsHaveDistinctKeys_iff _).mp hv
    refine (itemsHaveDistinctKeys_iff _).mpr ?_
    simp only [List.forall_mem_append, List.forall_mem_cons] at hitems ⊢
    exact ⟨hitems.1, ih hitems.2.1, hitems.2.2⟩
  | tagged tag _ ih => exact ih hv

/-- Reordering keeps plain keys. -/
theorem hasPlainKeys (h : v.Reordered w) (hv : v.hasPlainKeys = true) : w.hasPlainKeys = true := by
  induction h with
  | refl _ => exact hv
  | trans _ _ hvw hwu => exact hwu (hvw hv)
  | entries h =>
    refine (entriesHavePlainKeys_iff _).mpr fun e he => ?_
    exact (entriesHavePlainKeys_iff _).mp hv e (h.mem_iff.mpr he)
  | value before after key _ ih =>
    have hentries := (entriesHavePlainKeys_iff _).mp hv
    refine (entriesHavePlainKeys_iff _).mpr ?_
    simp only [List.forall_mem_append, List.forall_mem_cons] at hentries ⊢
    exact ⟨hentries.1, ⟨hentries.2.1.1, ih hentries.2.1.2⟩, hentries.2.2⟩
  | item before after _ ih => rfl
  | tagged tag _ ih => exact ih hv

/-- A mapping is reordered to a mapping with the same keys, whose values are reordered. -/
theorem exists_mapping (h : v.Reordered w) {m : Mapping} (hv : v.untagged = .mapping m) :
    ∃ n, w.untagged = .mapping n ∧ ∀ key x, (key, x) ∈ m → ∃ y, (key, y) ∈ n ∧ x.Reordered y := by
  induction h generalizing m with
  | refl _ => exact ⟨m, hv, fun key x hx => ⟨x, hx, .refl x⟩⟩
  | trans _ _ hvw hwu =>
    obtain ⟨n, hn, hmn⟩ := hvw hv
    obtain ⟨l, hl, hnl⟩ := hwu hn
    refine ⟨l, hl, ?_⟩
    intro key x hx
    obtain ⟨y, hy, hxy⟩ := hmn key x hx
    obtain ⟨z, hz, hyz⟩ := hnl key y hy
    exact ⟨z, hz, hxy.trans hyz⟩
  | @entries m' n h =>
    cases hv
    exact ⟨n, rfl, fun key x hx => ⟨x, h.mem_iff.mp hx, .refl x⟩⟩
  | @value x y before after key h _ =>
    cases hv
    refine ⟨_, rfl, ?_⟩
    intro k z hz
    rw [List.mem_append, List.mem_cons, Prod.mk.injEq] at hz
    obtain hz | ⟨rfl, rfl⟩ | hz := hz
    · exact ⟨z, List.mem_append_left _ hz, .refl z⟩
    · exact ⟨y, List.mem_append_right _ List.mem_cons_self, h⟩
    · exact ⟨z, List.mem_append_right _ (List.mem_cons_of_mem _ hz), .refl z⟩
  | item _ _ _ _ => cases hv
  | tagged _ _ ih => exact ih hv

/-- Only a mapping is reordered to a mapping. -/
theorem flat (h : v.Reordered w) (hv : ∀ m, v.untagged ≠ .mapping m) (n : Mapping) :
    w.untagged ≠ .mapping n := by
  intro hw
  obtain ⟨m, hm, -⟩ := h.symm.exists_mapping hw
  exact hv m hm

/-- A plain key that finds a value finds this value reordered after a reordering. -/
theorem exists_get? (h : v.Reordered w) (hdistinct : w.hasDistinctKeys = true) {m n : Mapping}
    (hv : v.untagged = .mapping m) (hw : w.untagged = .mapping n) {name : String} {x : Value}
    (hx : m.get? (.string name) = some x) :
    ∃ y, n.get? (.string name) = some y ∧ x.Reordered y := by
  obtain ⟨n', hn', hall⟩ := h.exists_mapping hv
  obtain rfl := mapping.inj (hn'.symm.trans hw)
  rw [← hasDistinctKeys_untagged, hw] at hdistinct
  obtain ⟨y, hy, hxy⟩ := hall _ x (Mapping.mem_of_get?_string hx)
  exact ⟨y, Mapping.get?_of_mem hdistinct hy, hxy⟩

/-- A path of plain keys leads to what it led to, reordered. -/
theorem exists_along (h : v.Reordered w) (hdistinct : w.hasDistinctKeys = true) {path : List String}
    {x : Value} (hx : v.along (path.map .string) = some x) :
    ∃ y, w.along (path.map .string) = some y ∧ x.Reordered y := by
  induction path generalizing v w with
  | nil =>
    cases hx
    exact ⟨w, rfl, h⟩
  | cons name rest ih =>
    rw [List.map_cons] at hx
    obtain ⟨m, hm⟩ := exists_untagged_of_along_cons hx
    obtain ⟨n, hn, -⟩ := h.exists_mapping hm
    rw [along_cons_of_untagged hm, along_mapping_cons] at hx
    obtain ⟨below, hbelow, hx⟩ := Option.bind_eq_some_iff.mp hx
    obtain ⟨above, habove, hreordered⟩ := h.exists_get? hdistinct hm hn hbelow
    rw [← hasDistinctKeys_untagged, hn] at hdistinct
    obtain ⟨y, hy, hxy⟩ := ih hreordered (Mapping.hasDistinctKeys_of_get? hdistinct habove) hx
    refine ⟨y, ?_, hxy⟩
    rw [List.map_cons, along_cons_of_untagged hn, along_mapping_cons, habove, Option.bind_some, hy]

end Reordered

/-- What agrees with an expected value has the same text wherever texts are compared. -/
theorem text_eq_of_agrees {expected found e f : Value} {path : List String}
    (hplain : found.hasPlainKeys = true) (h : expected.agrees found = true)
    (hcompares : expected.ComparesAt found path e f) : f.text = e.text := by
  by_cases hshape : ∃ m, expected.untagged = .mapping m
  · obtain ⟨entries, hentries⟩ := hshape
    obtain ⟨actual, hactual, hagree⟩ := (agrees_iff_of_mapping expected found hentries).mp h
    obtain ⟨name, rest, w, v, rfl, hw, hv, hbelow⟩ :=
      (comparesAt_iff_of_mappings hentries hactual).mp hcompares
    rw [← hasPlainKeys_untagged, hactual] at hplain
    obtain ⟨next, hnext, hagrees⟩ :=
      Mapping.exists_of_contains hplain hagree (Mapping.mem_of_get?_string hw)
    obtain rfl := Option.some.inj (hv.symm.trans hnext)
    exact text_eq_of_agrees (Mapping.hasPlainKeys_of_get? hplain hv) hagrees hbelow
  · have hother : ∀ m, expected.untagged ≠ .mapping m := fun m hm => hshape ⟨m, hm⟩
    obtain ⟨rfl, rfl, rfl⟩ := (comparesAt_iff_of_flat hother).mp hcompares
    exact (agrees_iff_text e f hother).mp h
termination_by path.length

/-- If a value agrees with an expected one, then it does so after entries are reordered on both
sides, as far as the compared texts are equal then. -/
theorem agrees_of_reordered (expected found expected' found' : Value)
    (hexpected : expected.Reordered expected') (hfound : found.Reordered found')
    (hdistinct : expected'.hasDistinctKeys = true) (hdistinct' : found'.hasDistinctKeys = true)
    (hasked : expected'.hasPlainKeys = true) (hplain : found.hasPlainKeys = true)
    (htexts : ∀ path e f, expected'.ComparesAt found' path e f → f.text = e.text)
    (h : expected.agrees found = true) : expected'.agrees found' = true := by
  by_cases hshape : ∃ m, expected'.untagged = .mapping m
  · obtain ⟨entries', hentries'⟩ := hshape
    obtain ⟨entries, hentries, hback⟩ := hexpected.symm.exists_mapping hentries'
    obtain ⟨actual, hactual, hagree⟩ := (agrees_iff_of_mapping expected found hentries).mp h
    obtain ⟨actual', hactual', hforth⟩ := hfound.exists_mapping hactual
    rw [← hasDistinctKeys_untagged, hentries'] at hdistinct
    rw [← hasPlainKeys_untagged, hentries'] at hasked
    rw [← hasPlainKeys_untagged, hactual] at hplain
    rw [← hasDistinctKeys_untagged, hactual'] at hdistinct'
    refine (agrees_iff_of_mapping expected' found' hentries').mpr ⟨actual', hactual', ?_⟩
    refine Mapping.contains_of_forall hasked ?_
    intro name e' hmem he'
    obtain ⟨e, he, hreordered⟩ := hback _ e' hmem
    obtain ⟨f, hf, hagrees⟩ := Mapping.exists_of_contains hplain hagree he
    obtain ⟨f', hf', hmoved⟩ := hforth _ f (Mapping.mem_of_get?_string hf)
    have hget := Mapping.get?_of_mem hdistinct hmem
    have hget' := Mapping.get?_of_mem hdistinct' hf'
    have htexts' : ∀ path x y, e'.ComparesAt f' path x y → y.text = x.text := by
      intro path x y hxy
      exact htexts (name :: path) x y ((comparesAt_iff_of_mappings hentries' hactual').mpr
        ⟨name, path, e', f', rfl, hget, hget', hxy⟩)
    have hsmaller := sizeOf_lt_of_untagged hentries' hmem
    refine ⟨f', Mapping.counterpart?_of_get? hget', ?_⟩
    exact agrees_of_reordered e f e' f' hreordered.symm hmoved
      (Mapping.hasDistinctKeys_of_mem hdistinct hmem).2
      (Mapping.hasDistinctKeys_of_mem hdistinct' hf').2 he'
      (Mapping.hasPlainKeys_of_get? hplain hf) htexts' hagrees
  · have hother : ∀ m, expected'.untagged ≠ .mapping m := fun m hm => hshape ⟨m, hm⟩
    refine (agrees_iff_text expected' found' hother).mpr ?_
    exact htexts [] expected' found' ((comparesAt_iff_of_flat hother).mpr ⟨rfl, rfl, rfl⟩)
termination_by sizeOf expected'

/-- Reordering entries on both sides of a comparison leaves a comparison. -/
theorem ComparesAt.exists_reordered {expected found expected' found' e f : Value}
    {path : List String} (h : expected.ComparesAt found path e f)
    (hexpected : expected.Reordered expected') (hfound : found.Reordered found')
    (hdistinct : expected'.hasDistinctKeys = true) (hdistinct' : found'.hasDistinctKeys = true) :
    ∃ e' f', expected'.ComparesAt found' path e' f' := by
  obtain ⟨e', he', hmoved⟩ := hexpected.exists_along hdistinct h.asked
  obtain ⟨f', hf', -⟩ := hfound.exists_along hdistinct' h.given
  exact ⟨e', f', he', hmoved.flat h.flat, hf'⟩

/-- If a value agrees with an expected one, then it does so after entries are reordered on both
sides, unless this changes a text that is compared. -/
theorem agrees_of_keepsTexts {expected found expected' found' : Value}
    (hexpected : expected.Reordered expected') (hfound : found.Reordered found')
    (hdistinct : expected.hasDistinctKeys = true) (hdistinct' : found.hasDistinctKeys = true)
    (hasked : expected.hasPlainKeys = true) (hplain : found.hasPlainKeys = true)
    (hkeeps : KeepsTexts expected found expected' found') (h : expected.agrees found = true) :
    expected'.agrees found' = true := by
  refine agrees_of_reordered expected found expected' found' hexpected hfound
    (hexpected.hasDistinctKeys hdistinct) (hfound.hasDistinctKeys hdistinct')
    (hexpected.hasPlainKeys hasked) hplain ?_ h
  intro path e' f' h'
  obtain ⟨e, f, hef⟩ := h'.exists_reordered hexpected.symm hfound.symm hdistinct hdistinct'
  obtain ⟨he, hf⟩ := hkeeps path e f e' f' hef h'
  rw [he, hf]
  exact text_eq_of_agrees hplain h hef

end Value

namespace Mapping

/-- The order of entries does not count for matching, apart from compared texts. Reordering the
entries of mappings in a document and in a pattern, at any depth, does not change whether the
document contains the pattern if the texts that are compared stay as they are; and a document that
contained the pattern contains it still if and only if the texts that are compared are equal. -/
theorem contains_of_reordered {actual actual' pattern pattern' : Mapping}
    (hactual : actual.hasDistinctKeys = true) (hpattern : pattern.hasDistinctKeys = true)
    (hplain : actual.hasPlainKeys = true) (hasked : pattern.hasPlainKeys = true)
    (hmoved : (Value.mapping actual).Reordered (.mapping actual'))
    (hmoved' : (Value.mapping pattern).Reordered (.mapping pattern')) :
    (Value.KeepsTexts (.mapping pattern) (.mapping actual) (.mapping pattern') (.mapping actual') →
      actual'.contains pattern' = actual.contains pattern) ∧
    (actual.contains pattern = true →
      (actual'.contains pattern' = true ↔ ∀ path e f,
        (Value.mapping pattern').ComparesAt (.mapping actual') path e f → f.text = e.text)) := by
  have hdistinct : (Value.mapping actual').hasDistinctKeys = true := hmoved.hasDistinctKeys hactual
  have hdistinct' : (Value.mapping pattern').hasDistinctKeys = true :=
    hmoved'.hasDistinctKeys hpattern
  have hplain' : (Value.mapping actual').hasPlainKeys = true := hmoved.hasPlainKeys hplain
  have hasked' : (Value.mapping pattern').hasPlainKeys = true := hmoved'.hasPlainKeys hasked
  have hcontains : ∀ m n : Mapping, m.contains n = (Value.mapping n).agrees (.mapping m) :=
    fun _ _ => rfl
  rw [hcontains, hcontains]
  refine ⟨?_, ?_⟩
  · intro hkeeps
    rw [Bool.eq_iff_iff]
    constructor
    · intro h
      exact Value.agrees_of_keepsTexts hmoved'.symm hmoved.symm hdistinct' hdistinct hasked' hplain'
        hkeeps.symm h
    · intro h
      exact Value.agrees_of_keepsTexts hmoved' hmoved hpattern hactual hasked hplain hkeeps h
  · intro h
    constructor
    · intro h' path e f hef
      exact Value.text_eq_of_agrees hplain' h' hef
    · intro htexts
      exact Value.agrees_of_reordered (.mapping pattern) (.mapping actual) (.mapping pattern')
        (.mapping actual') hmoved' hmoved hdistinct' hdistinct hasked' hplain htexts h

/-- A shop with a list of crates. -/
def shop : Mapping :=
  [(.string "kind", .string "Shop"),
    (.string "stock", .tagged ⟨"fruit"⟩ (.mapping
      [(.string "apples", .number (.int 3)),
        (.string "crates", .sequence [.mapping
          [(.string "wide", .number (.int 1)), (.string "long", .number (.int 2))]])]))]

/-- The shop with all its entries in another order. -/
def shopReordered : Mapping :=
  [(.string "stock", .tagged ⟨"fruit"⟩ (.mapping
      [(.string "crates", .sequence [.mapping
          [(.string "long", .number (.int 2)), (.string "wide", .number (.int 1))]]),
        (.string "apples", .number (.int 3))])),
    (.string "kind", .string "Shop")]

/-- What is asked of the shop. -/
def applesAsked : Mapping :=
  [(.string "kind", .string "Shop"), (.string "stock", .mapping [(.string "apples", .string "3")])]

/-- What is asked of the shop, in another order. -/
def applesAskedReordered : Mapping :=
  [(.string "stock", .mapping [(.string "apples", .string "3")]), (.string "kind", .string "Shop")]

/-- The reordered shop contains what is asked of it, as no text is compared in which entries are
moved. -/
theorem shopReordered_contains_applesAsked :
    shop.hasDistinctKeys = true ∧ applesAsked.hasDistinctKeys = true ∧
    shop.hasPlainKeys = true ∧ applesAsked.hasPlainKeys = true ∧
    (Value.mapping shop).Reordered (.mapping shopReordered) ∧
    (Value.mapping applesAsked).Reordered (.mapping applesAskedReordered) ∧
    Value.KeepsTexts (.mapping applesAsked) (.mapping shop) (.mapping applesAskedReordered)
      (.mapping shopReordered) ∧
    shop.contains applesAsked = true ∧
    shopReordered.contains applesAskedReordered = shop.contains applesAsked := by
  have hactual : shop.hasDistinctKeys = true := by decide
  have hpattern : applesAsked.hasDistinctKeys = true := by decide
  have hplain : shop.hasPlainKeys = true := by decide
  have hasked : applesAsked.hasPlainKeys = true := by decide
  have hmoved : (Value.mapping shop).Reordered (.mapping shopReordered) :=
    .trans (.entries (.swap _ _ _)) (.value [] _ _ (.tagged _
      (.trans (.entries (.swap _ _ _)) (.value [] _ _ (.item [] [] (.entries (.swap _ _ _)))))))
  have hmoved' : (Value.mapping applesAsked).Reordered (.mapping applesAskedReordered) :=
    .entries (.swap _ _ _)
  have hkeeps : Value.KeepsTexts (.mapping applesAsked) (.mapping shop)
      (.mapping applesAskedReordered) (.mapping shopReordered) := by
    intro path e f e' f' h h'
    obtain ⟨first, rest, w, v, rfl, hw, hv, h⟩ := (Value.comparesAt_iff_of_mappings rfl rfl).mp h
    obtain ⟨_, _, w', v', heq, hw', hv', h'⟩ := (Value.comparesAt_iff_of_mappings rfl rfl).mp h'
    obtain ⟨rfl, rfl⟩ := List.cons.inj heq
    obtain ⟨rfl, rfl⟩ | ⟨rfl, rfl⟩ :
        first = "kind" ∧ w = _ ∨ first = "stock" ∧ w = _ := by
      simpa [applesAsked] using mem_of_get?_string hw
    · cases hv
      cases hw'
      cases hv'
      obtain ⟨-, rfl, rfl⟩ := (Value.comparesAt_iff_of_flat (by simp [Value.untagged])).mp h
      obtain ⟨-, rfl, rfl⟩ := (Value.comparesAt_iff_of_flat (by simp [Value.untagged])).mp h'
      exact ⟨rfl, rfl⟩
    · cases hv
      cases hw'
      cases hv'
      obtain ⟨second, rest, w, v, rfl, hw, hv, h⟩ := (Value.comparesAt_iff_of_mappings rfl rfl).mp h
      obtain ⟨_, _, w', v', heq, hw', hv', h'⟩ := (Value.comparesAt_iff_of_mappings rfl rfl).mp h'
      obtain ⟨rfl, rfl⟩ := List.cons.inj heq
      obtain ⟨rfl, rfl⟩ : second = "apples" ∧ w = _ := by simpa using mem_of_get?_string hw
      cases hv
      cases hw'
      cases hv'
      obtain ⟨-, rfl, rfl⟩ := (Value.comparesAt_iff_of_flat (by simp [Value.untagged])).mp h
      obtain ⟨-, rfl, rfl⟩ := (Value.comparesAt_iff_of_flat (by simp [Value.untagged])).mp h'
      exact ⟨rfl, rfl⟩
  have hcontains : shop.contains applesAsked = true := by decide +kernel
  obtain ⟨hsame, -⟩ := contains_of_reordered hactual hpattern hplain hasked hmoved hmoved'
  exact ⟨hactual, hpattern, hplain, hasked, hmoved, hmoved', hkeeps, hcontains, hsame hkeeps⟩

/-- An endpoint. -/
def endpoint : Mapping := [(.string "host", .string "a"), (.string "port", .number (.int 80))]

/-- The endpoint with its entries in another order. -/
def endpointReordered : Mapping :=
  [(.string "port", .number (.int 80)), (.string "host", .string "a")]

/-- A document with a value at one place. -/
def placed (v : Value) : Mapping := [(.string "at", v)]

/-- In a text that is compared the order of entries does count. Two lists of the same endpoint do
not contain each other if its entries come in another order, and of two endpoints in different
orders only one is what a text asks for. -/
theorem endpoint_order_counts :
    endpoint.hasDistinctKeys = true ∧ endpoint.hasPlainKeys = true ∧
    (let listed := placed (.sequence [.mapping endpoint])
      let moved := placed (.sequence [.mapping endpointReordered])
      listed.hasDistinctKeys = true ∧ listed.hasPlainKeys = true ∧
      (Value.mapping listed).Reordered (.mapping moved) ∧ listed.contains listed = true ∧
      listed.contains moved = false ∧ moved.contains listed = false) ∧
    (let written := placed (.string "\x7bhost: a, port: 80\x7d")
      let named := placed (.mapping endpoint)
      let moved := placed (.mapping endpointReordered)
      written.hasPlainKeys = true ∧ named.hasPlainKeys = true ∧
      (Value.mapping named).Reordered (.mapping moved) ∧ named.contains written = true ∧
      moved.contains written = false) := by
  have hmoved : (Value.mapping endpoint).Reordered (.mapping endpointReordered) :=
    .entries (.swap _ _ _)
  refine ⟨by decide, by decide, ⟨by decide, by decide, ?_, ?_⟩, ⟨by decide, by decide, ?_, ?_⟩⟩
  · exact .value [] [] _ (.item [] [] hmoved)
  · decide +kernel
  · exact .value [] [] _ hmoved
  · decide +kernel

end Mapping

end ManifestRules
