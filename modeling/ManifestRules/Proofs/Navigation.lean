import ManifestRules.Proofs.Selection
import ManifestRules.Template.Render
/-!
# Template data and walks

Templates see values as JSON, where an object has its members by name and an array its items by
index. If in every mapping of a value the names of the entries are distinct and lead to them
(`Value.hasOwnNames`), the view of the value can be navigated along a path exactly where a walk from
the value finds something, and it shows the view of that (`Json.follow_ofValue_iff`). So in a
template it makes no difference whether a field of an answer is read, or asked for by a longer
query (`Template.field_of_answer`).
-/

namespace ManifestRules

/-- In a mapping the names of the entries are distinct, and they lead to the entries. -/
def Mapping.namesAreOwn (m : Mapping) : Bool :=
  decide m.HasDistinctNames && m.all fun e => !e.1.isTaggedText

mutual
/-- In every mapping in a value the names of the entries are distinct and lead to them. -/
def Value.hasOwnNames : Value → Bool
  | .tagged _ inner => inner.hasOwnNames
  | .sequence items => itemsHaveOwnNames items
  | .mapping entries => Mapping.namesAreOwn entries && entriesHaveOwnNames entries
  | .null | .bool _ | .number _ | .string _ => true
/-- This holds of all items. -/
def Value.itemsHaveOwnNames : List Value → Bool
  | [] => true
  | v :: vs => v.hasOwnNames && itemsHaveOwnNames vs
/-- This holds of the values of all entries. -/
def Value.entriesHaveOwnNames : List (Value × Value) → Bool
  | [] => true
  | (_, v) :: es => v.hasOwnNames && entriesHaveOwnNames es
end

namespace Json

/-- The part of a JSON value that a segment of a path leads to: a member by its name, an item by its
index. -/
def partAt? (v : Json) (segment : String) : Option Json :=
  match v with
  | .object members => member? members segment
  | .array items => (Path.readIndex? segment).bind fun i => items[i]?
  | .null | .bool _ | .number _ | .string _ => none

/-- Navigate a JSON value along a path. -/
def follow (v : Json) : List String → Option Json
  | [] => some v
  | segment :: rest => (v.partAt? segment).bind fun part => part.follow rest

/-- A member that is put in its place is found by its name, and all others are found as before. -/
theorem member?_insertMember (members : List (String × Json)) (name other : String) (v : Json) :
    member? (insertMember members name v) other =
      if other = name then some v else member? members other := by
  induction members with
  | nil => rfl
  | cons m members ih =>
    obtain ⟨first, w⟩ := m
    rw [insertMember]
    by_cases hsame : name = first
    · subst hsame
      rw [if_pos rfl, member?, member?]
      split <;> rfl
    · rw [if_neg hsame]
      split
      · rfl
      · rw [member?, ih, member?]
        by_cases hother : other = first
        · have hne : other ≠ name := fun h => hsame (h.symm.trans hother)
          rw [if_pos hother, if_neg hne, if_pos hother]
        · rw [if_neg hother, if_neg hother]

/-- Members are put in their places, one after the other. -/
def insertMembers (members : List (String × Json)) (more : List (String × Json)) :
    List (String × Json) :=
  more.foldl (fun found m => insertMember found m.1 m.2) members

/-- A name that is not among the members put in is found as before. -/
theorem member?_insertMembers_of_absent {more : List (String × Json)} {name : String}
    (hname : ∀ m ∈ more, m.1 ≠ name) (members : List (String × Json)) :
    member? (insertMembers members more) name = member? members name := by
  induction more generalizing members with
  | nil => rfl
  | cons m more ih =>
    obtain ⟨hfirst, hrest⟩ := List.forall_mem_cons.mp hname
    have hstep := ih hrest (insertMember members m.1 m.2)
    rw [insertMembers, List.foldl_cons, ← insertMembers, hstep, member?_insertMember,
      if_neg (Ne.symm hfirst)]

/-- If the names of the members put in are distinct, each member is found by its name. -/
theorem member?_insertMembers_of_mem {more : List (String × Json)} {name : String} {v : Json}
    (hmore : (more.map Prod.fst).Nodup) (hm : (name, v) ∈ more) (members : List (String × Json)) :
    member? (insertMembers members more) name = some v := by
  induction more generalizing members with
  | nil => cases hm
  | cons m more ih =>
    obtain ⟨hfirst, hrest⟩ := List.nodup_cons.mp hmore
    rw [insertMembers, List.foldl_cons, ← insertMembers]
    obtain rfl | hm := List.mem_cons.mp hm
    · have habsent : ∀ m ∈ more, m.1 ≠ name := by
        intro n hn hname
        exact hfirst (List.mem_map.mpr ⟨n, hn, hname⟩)
      rw [member?_insertMembers_of_absent habsent, member?_insertMember, if_pos rfl]
    · exact ih hrest hm _

/-- The views of items, item by item. -/
theorem ofItems_eq_map (vs : List Value) : ofItems vs = vs.map ofValue := by
  induction vs with
  | nil => rfl
  | cons v vs ih => rw [ofItems, ih, List.map_cons]

/-- The members for entries, entry by entry. -/
theorem ofEntries_eq_map (es : List (Value × Value)) :
    ofEntries es = es.map fun e => (e.1.text, ofValue e.2) := by
  induction es with
  | nil => rfl
  | cons e es ih => rw [ofEntries, ih, List.map_cons]

/-- Tags do not show in the view of a value. -/
theorem ofValue_untagged (v : Value) : ofValue v.untagged = ofValue v :=
  Value.apply_untagged (fun _ _ => rfl) v

/-- The view of a mapping has the entries as members. -/
theorem ofValue_of_mapping {v : Value} {m : Mapping} (hv : v.untagged = .mapping m) :
    ofValue v = .object (insertMembers [] (m.map fun e => (e.1.text, ofValue e.2))) := by
  rw [← ofValue_untagged, hv, ofValue, ofEntries_eq_map]
  rfl

/-- The view of a sequence has the items as items. -/
theorem ofValue_of_sequence {v : Value} {items : List Value} (hv : v.untagged = .sequence items) :
    ofValue v = .array (items.map ofValue) := by
  rw [← ofValue_untagged, hv, ofValue, ofItems_eq_map]

end Json

namespace Value

/-- Items have own names if each of them has. -/
theorem itemsHaveOwnNames_iff (vs : List Value) :
    itemsHaveOwnNames vs = true ↔ ∀ v ∈ vs, v.hasOwnNames = true := by
  induction vs with
  | nil => simp [itemsHaveOwnNames]
  | cons v vs ih => simp [itemsHaveOwnNames, ih]

/-- Entries have own names if each of their values has. -/
theorem entriesHaveOwnNames_iff (es : List (Value × Value)) :
    entriesHaveOwnNames es = true ↔ ∀ e ∈ es, e.2.hasOwnNames = true := by
  induction es with
  | nil => simp [entriesHaveOwnNames]
  | cons e es ih => simp [entriesHaveOwnNames, ih]

/-- Tags do not count for names. -/
theorem hasOwnNames_untagged (v : Value) : v.untagged.hasOwnNames = v.hasOwnNames :=
  apply_untagged (fun _ _ => rfl) v

/-- What own names mean for the mapping under the tags of a value. -/
theorem hasOwnNames_of_mapping {v : Value} {m : Mapping} (hv : v.untagged = .mapping m)
    (hown : v.hasOwnNames = true) :
    m.HasDistinctNames ∧ (∀ e ∈ m, e.1.isTaggedText = false) ∧ ∀ e ∈ m, e.2.hasOwnNames = true := by
  rw [← hasOwnNames_untagged, hv, hasOwnNames, Mapping.namesAreOwn, Bool.and_eq_true,
    Bool.and_eq_true, decide_eq_true_iff, List.all_eq_true, entriesHaveOwnNames_iff] at hown
  obtain ⟨⟨hdistinct, hplain⟩, hbelow⟩ := hown
  exact ⟨hdistinct, fun e he => by simpa using hplain e he, hbelow⟩

/-- A segment leads from a value with own names to one with own names. -/
theorem Leads.hasOwnNames {v next : Value} {segment : String} (h : v.Leads segment next)
    (hown : v.hasOwnNames = true) : next.hasOwnNames = true := by
  cases h with
  | entry hv hnext =>
    obtain ⟨k, hk, -, -⟩ := Mapping.exists_of_getByName? hnext
    exact (hasOwnNames_of_mapping hv hown).2.2 (k, next) hk
  | item hv _ hnext =>
    rw [← hasOwnNames_untagged, hv, Value.hasOwnNames, itemsHaveOwnNames_iff] at hown
    exact hown next (List.mem_of_getElem? hnext)

end Value

namespace Json

/-- Where a segment leads from a value, it leads in the view to the view of that. -/
theorem partAt?_of_leads {v next : Value} {segment : String} (hown : v.hasOwnNames = true)
    (h : v.Leads segment next) : (ofValue v).partAt? segment = some (ofValue next) := by
  cases h with
  | @entry m _ hv hnext =>
    obtain ⟨hdistinct, -, -⟩ := Value.hasOwnNames_of_mapping hv hown
    obtain ⟨k, hk, hname, -⟩ := Mapping.exists_of_getByName? hnext
    have hmember : (segment, ofValue next) ∈ m.map fun e => (e.1.text, ofValue e.2) :=
      List.mem_map.mpr ⟨(k, next), hk, by rw [hname]⟩
    have hnames : ((m.map fun e => (e.1.text, ofValue e.2)).map Prod.fst).Nodup := by
      rw [List.map_map]
      exact hdistinct
    rw [ofValue_of_mapping hv]
    exact member?_insertMembers_of_mem hnames hmember []
  | @item items i _ hv hi hnext =>
    rw [ofValue_of_sequence hv, partAt?, hi, Option.bind_some, List.getElem?_map, hnext]
    rfl

/-- Where a segment cannot be followed from a value, it cannot be followed in the view. -/
theorem partAt?_of_stops {v : Value} {segment : String} {stop : Lookup}
    (hown : v.hasOwnNames = true) (h : v.Stops segment stop) :
    (ofValue v).partAt? segment = none := by
  cases h with
  | @missing m hv hnone =>
    obtain ⟨-, hplain, -⟩ := Value.hasOwnNames_of_mapping hv hown
    have habsent : ∀ e ∈ m.map fun e => (e.1.text, ofValue e.2), e.1 ≠ segment := by
      intro member hmember hname
      obtain ⟨e, he, rfl⟩ := List.mem_map.mp hmember
      have htagged := Mapping.getByName?_eq_none_iff.mp hnone e he hname
      rw [hplain e he] at htagged
      cases htagged
    rw [ofValue_of_mapping hv]
    exact member?_insertMembers_of_absent habsent []
  | @invalidIndex items hv hnone =>
    rw [ofValue_of_sequence hv, partAt?, Option.bind_eq_none_iff]
    intro i hi
    rw [List.getElem?_map, List.getElem?_eq_none (hnone i hi)]
    rfl
  | unexpectedNode hmapping hsequence =>
    rw [← ofValue_untagged]
    cases hv : v.untagged with
    | mapping m => exact absurd hv (hmapping m)
    | sequence items => exact absurd hv (hsequence items)
    | tagged tag inner => exact absurd hv (Value.untagged_ne_tagged v tag inner)
    | number n =>
      cases n with
      | int i => rfl
      | float x =>
        rw [ofValue]
        split <;> rfl
    | _ => rfl

/-- The view of a value with own names can be navigated along a path if and only if a walk from the
value finds something, and then it shows the view of what is found. -/
theorem follow_ofValue_iff {v : Value} (hown : v.hasOwnNames = true) (path : List String) (j : Json) :
    (ofValue v).follow path = some j ↔ ∃ w, Path.walk v path = .found w ∧ j = ofValue w := by
  induction path generalizing v with
  | nil =>
    rw [follow, Option.some.injEq]
    constructor
    · rintro rfl
      exact ⟨v, rfl, rfl⟩
    · rintro ⟨w, hw, rfl⟩
      cases hw
      rfl
  | cons segment rest ih =>
    obtain ⟨next, hnext⟩ | ⟨stop, hstop⟩ := v.leads_or_stops segment
    · rw [follow, partAt?_of_leads hown hnext, Option.bind_some, ih (hnext.hasOwnNames hown),
        Path.walk_cons_of_leads hnext]
    · rw [follow, partAt?_of_stops hown hstop, Option.bind_none, Path.walk_cons_of_stops hstop]
      constructor
      · intro h
        cases h
      · rintro ⟨w, rfl, -⟩
        cases hstop

end Json

namespace Selector

/-- The selector of the same documents for a field that lies further down. -/
def further (s : Selector) (more : List String) : Selector :=
  match s with
  | .kind k f => .kind k (f ++ more)
  | .attribute k path v f => .attribute k path v (f ++ more)
  | .mapEntry k path key v f => .mapEntry k path key v (f ++ more)

/-- From the value at a path, a walk finds what it finds along the longer path. -/
theorem value_walkMapping_append {body : Mapping} {path more : List String} {v w : Value}
    (hv : (Path.walkMapping body path).value = v) (hw : Path.walk v more = .found w) :
    (Path.walkMapping body (path ++ more)).value = w := by
  rw [Path.value_walkMapping] at hv ⊢
  rw [Path.walk_append]
  cases hpath : Path.walk (.mapping body) path with
  | found u =>
    rw [hpath] at hv
    obtain rfl : u = v := hv
    show (Path.walk u more).value = w
    rw [hw]
    rfl
  | root m =>
    cases Path.walk_eq_iff_ends.mp hpath with
    | stop _ _ hstop => cases hstop
  | _ =>
    -- The value is the marker of a segment, and from a text only the empty path finds something.
    rw [hpath] at hv
    subst hv
    cases more with
    | nil => exact Lookup.found.inj hw
    | cons segment rest => cases hw

/-- The answer to a query for a field further down is what a walk finds in the answer. -/
theorem resolve_further {s : Selector} {g : Graph} {v w : Value} {more : List String}
    (hv : s.resolve g = .found v) (hw : Path.walk v more = .found w) :
    (s.further more).resolve g = .found w := by
  obtain ⟨before, d, behind, hg, hd, hbefore, rfl⟩ := resolve_eq_found_iff.mp hv
  have hselects : ∀ e : Document, (s.further more).Selects e ↔ s.Selects e := by
    intro e
    cases s <;> exact ⟨fun h => ⟨h.kind, h.accepts⟩, fun h => ⟨h.kind, h.accepts⟩⟩
  have hfield : (s.further more).field = s.field ++ more := by cases s <;> rfl
  refine resolve_eq_found_iff.mpr ⟨before, d, behind, hg, (hselects d).mpr hd, ?_, ?_⟩
  · intro e he h
    exact hbefore e he ((hselects e).mp h)
  · rw [hfield, value_walkMapping_append rfl hw]

end Selector

namespace Template

/-- From nothing, steps lead to nothing. -/
theorem Scope.foldlM_step_none (path : List String) : path.foldlM step none = .ok none := by
  induction path with
  | nil => rfl
  | cons segment rest ih => exact ih

/-- Steps into a value lead to a part if it can be navigated along them. -/
theorem Scope.descend_eq_some_iff (v w : Json) (path : List String) :
    descend v path = .ok (some w) ↔ v.follow path = some w := by
  induction path generalizing v with
  | nil => simp [descend, Json.follow, pure, Except.pure]
  | cons segment rest ih =>
    have hfirst : descend v (segment :: rest) = step (some v) segment >>= rest.foldlM step := rfl
    have hrest : ∀ part?, rest.foldlM step part? = .ok (some w) ↔
        (part?.bind fun part => part.follow rest) = some w := by
      intro part?
      cases part? with
      | none => simp [foldlM_step_none]
      | some part => exact ih part
    rw [hfirst, Json.follow]
    cases v with
    | object members => exact hrest _
    | array items =>
      rw [step, Json.partAt?]
      cases hi : Path.readIndex? segment with
      | none => simp [bind, Except.bind]
      | some i => exact hrest _
    | _ => exact hrest none

/-- What is read in a value is what it shows along the path. -/
theorem Scope.inValue_eq_value_iff (v w : Json) (path : List String) :
    inValue v path = .ok (.value w) ↔ v.follow path = some w := by
  rw [← descend_eq_some_iff, inValue]
  cases descend v path with
  | error problem => simp [bind, Except.bind]
  | ok part? => cases part? <;> simp [bind, Except.bind, pure, Except.pure]

/-- A call that asks a query which is written in the template. -/
def Expr.asking (query : String) : Expr := .call "resource" [.literal (.string query)] []

/-- A reference to what lies along a path below a name. -/
def Reference.below (text name : String) (path : List String) : Reference :=
  ⟨text, .name name :: path.map .name⟩

/-- A call that asks a query gives the view of the answer, and the query is noted. -/
theorem evaluate_asking {env : Env} {g : Graph} {query : String} {s : Selector} {v : Value}
    (hask : env.ask = some g.resolve) (hquery : Selector.parse query = .ok s)
    (hv : s.resolve g = .found v) (blocks : List Block) :
    evaluate env blocks (.asking query) =
      (do Eval.note query; pure (.value (Json.ofValue v))) := by
  have hanswer : g.resolve query = .ok (.found v) := by rw [Graph.resolve, hquery, Except.map, hv]
  have hhelper : env.helper? "resource" = some (.value .resource) := by
    rw [Env.helper?, if_pos rfl, hask]
    rfl
  have hread : env.query (some (.value (.string query))) = (do Eval.note query; pure v) := by
    simp only [Env.query, Option.map_some, Found.json, hask, hanswer, Resolution.value]
  simp only [Expr.asking, evaluate, evaluateAll, evaluateOptions, callValue, pure_bind, hhelper,
    ValueHelper.apply, List.getElem?_cons_zero, hread, bind_assoc]

/-- Below a name that a block gives to a value, a reference reads the value. -/
theorem lookup_below {data : Json} {blocks : List Block} {name : String} {v : Json}
    (hname : Scope.named? blocks name = some (.value v)) (text : String) (path : List String) :
    Scope.lookup data blocks (.below text name path) = Scope.inValue v path := by
  have hnames : Scope.namesOf (path.map .name) = path := by
    rw [Scope.namesOf, List.filterMap_map]
    exact List.filterMap_some
  have hfollow : Scope.follow data blocks (.name name :: path.map .name) =
      Scope.inBase data (.value v) (Scope.namesOf (path.map .name)) := by
    simp only [Scope.follow, Scope.takeUps, hname, Option.map_some]
  rw [Scope.lookup, Reference.below]
  exact hfollow.trans (by rw [hnames, Scope.inBase])

/-- A block that has an answer as its value can give it a name. -/
theorem named?_wholeBlock (name : String) (v : Json) (outer : List Block) :
    Scope.named? (wholeBlock [name] (.value v) outer :: outer) name = some (.value v) := by
  simp [Scope.named?, wholeBlock, bindings, Base.ofFound]

/-- For a value in which all names lead to the entries, to navigate its view along a path and to walk
along the path from the value come to the same: the one succeeds exactly if the other finds
something, and then it shows the view of that. So it is with an answer in a template, in every
block that gives a name to the answer: a reference to a field below the name reads a value
exactly if a walk along the field finds something in the answer, and then the longer query for the
field gives this very value. -/
theorem field_of_answer {v : Value} (hown : v.hasOwnNames = true) :
    (∀ path j, (Json.ofValue v).follow path = some j ↔
      ∃ w, Path.walk v path = .found w ∧ j = Json.ofValue w) ∧
    ∀ (env : Env) (g : Graph) (s : Selector) (query longer : String) (more : List String),
      env.ask = some g.resolve → Selector.parse query = .ok s →
      Selector.parse longer = .ok (s.further more) → s.resolve g = .found v →
      ∀ (blocks : List Block) (text name : String),
        Scope.named? blocks name = some (.value (Json.ofValue v)) →
        evaluate env blocks (.asking query) =
          (do Eval.note query; pure (.value (Json.ofValue v))) ∧
        ∀ j, Scope.lookup env.data blocks (.below text name more) = .ok (.value j) ↔
          ∃ w, Path.walk v more = .found w ∧ j = Json.ofValue w ∧
            evaluate env blocks (.asking longer) = (do Eval.note longer; pure (.value j)) := by
  refine ⟨Json.follow_ofValue_iff hown, ?_⟩
  intro env g s query longer more hask hquery hlonger hv blocks text name hname
  refine ⟨evaluate_asking hask hquery hv blocks, fun j => ?_⟩
  rw [lookup_below hname, Scope.inValue_eq_value_iff, Json.follow_ofValue_iff hown]
  constructor
  · rintro ⟨w, hw, rfl⟩
    exact ⟨w, hw, rfl, evaluate_asking hask hlonger (Selector.resolve_further hv hw) blocks⟩
  · rintro ⟨w, hw, hj, -⟩
    exact ⟨w, hw, hj⟩

/-- The specification of a service, with keys of several types. -/
def gatewaySpec : Value := .tagged ⟨"Spec"⟩ (.mapping
  [(.string "ports", .sequence [.null, .mapping [(.number (.int 443), .string "https"),
    (.bool true, .tagged ⟨"Ref"⟩ (.string "tls")), (.null, .sequence [])]])])

/-- A template is evaluated on the graph of this service. -/
def gatewayEnv : Env :=
  ⟨true, .object [], some (Graph.ofList [⟨"Service", [(.string "spec", gatewaySpec)]⟩]).resolve⟩

/-- The blocks inside a block that names the specification. -/
def gatewayBlocks : List Block :=
  [wholeBlock ["spec"] (.value (Json.ofValue gatewaySpec)) [Block.outermost], Block.outermost]

/-- Inside the block the port is read by its number, and the longer query gives the same. -/
theorem gateway_port_read : gatewaySpec.hasOwnNames = true ∧
    Scope.lookup gatewayEnv.data gatewayBlocks
      (.below "spec.ports.1.443" "spec" ["ports", "1", "443"]) = .ok (.value (.string "https")) ∧
    evaluate gatewayEnv gatewayBlocks (.asking "kind.Service & spec.ports.1.443") =
      (do Eval.note "kind.Service & spec.ports.1.443"; pure (.value (.string "https"))) := by
  have hown : gatewaySpec.hasOwnNames = true := by decide +kernel
  have hname : Scope.named? gatewayBlocks "spec" = some (.value (Json.ofValue gatewaySpec)) :=
    named?_wholeBlock "spec" _ _
  obtain ⟨-, hread⟩ := (field_of_answer hown).2 gatewayEnv _ (.kind "Service" ["spec"])
    "kind.Service & spec" "kind.Service & spec.ports.1.443" ["ports", "1", "443"] rfl rfl rfl rfl
    gatewayBlocks "spec.ports.1.443" "spec" hname
  have hlookup : Scope.lookup gatewayEnv.data gatewayBlocks
      (.below "spec.ports.1.443" "spec" ["ports", "1", "443"]) = .ok (.value (.string "https")) := rfl
  obtain ⟨w, -, -, hlonger⟩ := (hread (.string "https")).mp hlookup
  exact ⟨hown, hlookup, hlonger⟩

end Template

end ManifestRules
