import ManifestRules.Yaml.Node
/-!
# The scalar at the end of a node

The last scalar of a text may be followed by nothing but the ends of block collections. If it was
not written plain, then it stands last in the node that is read (`NodeReader.endsIn_of_readDocument`).
-/

namespace ManifestRules.Yaml

/-- A scalar that was not written plain stands last in a node. -/
inductive Node.EndsIn (text : String) : Node → Prop
  /-- It is the node. -/
  | scalar (p : Properties) : EndsIn text (.scalar p text false)
  /-- It stands last in the last item. -/
  | item (p : Properties) (items : List Node) {n : Node} (hn : EndsIn text n) :
    EndsIn text (.sequence p (items ++ [n]))
  /-- It stands last in the value of the last entry. -/
  | value (p : Properties) (entries : List (Node × Node)) (k : Node) {v : Node}
    (hv : EndsIn text v) : EndsIn text (.mapping p (entries ++ [(k, v)]))
  /-- It stands last in the key of the last entry, and no value is written. -/
  | key (p : Properties) (entries : List (Node × Node)) {k : Node} (hk : EndsIn text k) :
    EndsIn text (.mapping p (entries ++ [(k, Node.empty)]))

namespace NodeReader

variable {α β : Type} {P P' : List Token → Prop} {Q : α → List Token → Prop}
  {R : β → List Token → Prop} {text : String} {ts rest : List Token}

/-- From tokens with the one property a step of the reader leads to tokens with the other. -/
def Leads (P : List Token → Prop) (r : Reading α) (Q : α → List Token → Prop) : Prop :=
  ∀ s a s', P s.tokens → r s = .ok (a, s') → Q a s'.tokens

namespace Leads

/-- Nothing is read. -/
theorem pure {a : α} (h : ∀ ts, P ts → Q a ts) : Leads P (pure a) Q := by
  intro s b s' hs hb
  cases hb
  exact h s.tokens hs

/-- A fault leads nowhere. -/
theorem fault (problem : String) : Leads P (fault problem) Q := by
  intro s a s' _ ha
  cases ha

/-- One step after the other. -/
theorem bind {r : Reading α} {next : α → Reading β} (hr : Leads P r Q)
    (hnext : ∀ a, Leads (Q a) (next a) R) : Leads P (r >>= next) R := by
  intro s b s' hs hb
  simp only [Bind.bind, StateT.bind, Except.bind] at hb
  cases hstep : r s with
  | error f => simp [hstep] at hb
  | ok p =>
    obtain ⟨a, between⟩ := p
    rw [hstep] at hb
    exact hnext a between b s' (hr s a between hs hstep) hb

/-- Less may be said of what a step leads to. -/
theorem imp {r : Reading α} {Q' : α → List Token → Prop} (hr : Leads P r Q)
    (h : ∀ a ts, Q a ts → Q' a ts) : Leads P r Q' :=
  fun s a s' hs ha => h a s'.tokens (hr s a s' hs ha)

/-- A step may start in two ways. -/
theorem or {r : Reading α} (hr : Leads P r Q) (hr' : Leads P' r Q) :
    Leads (fun ts => P ts ∨ P' ts) r Q :=
  fun s a s' hs ha => hs.elim (fun hs => hr s a s' hs ha) fun hs => hr' s a s' hs ha

/-- A fact about the result of the step before may be taken along. -/
theorem and {r : Reading α} {p : Prop} (hr : p → Leads P r Q) : Leads (fun ts => P ts ∧ p) r Q :=
  fun s a s' hs ha => hr hs.2 s a s' hs.1 ha

/-- The next token is looked at. -/
theorem peek {next : Option Token → Reading β}
    (hnext : ∀ ts, P ts → Leads (fun us => us = ts) (next ts.head?) R) :
    Leads P (peek >>= next) R :=
  fun s b s' hs hb => hnext s.tokens hs s b s' rfl hb

/-- The next token is passed. -/
theorem advance {next : Unit → Reading β} (hnext : Leads P (next ()) R) (hts : P ts.tail) :
    Leads (fun us => us = ts) (advance >>= next) R := by
  intro s b s' hs hb
  refine hnext { s with tokens := s.tokens.tail } b s' ?_ hb
  rwa [hs]

/-- What is shown for all tokens with a property holds for some of these. -/
theorem of_eq {r : Reading α} (hr : Leads P r Q) (hts : P ts) : Leads (fun us => us = ts) r Q := by
  intro s a s' hs ha
  refine hr s a s' ?_ ha
  rwa [hs]

/-- A step that passes no token leads to the same ones. -/
theorem of_tokens_eq {r : Reading α} (hr : ∀ s a s', r s = .ok (a, s') → s'.tokens = s.tokens) :
    Leads P r fun _ => P := by
  intro s a s' hs ha
  rwa [hr s a s' ha]

end Leads

/-- The scalar is still to come, and only ends of block collections come behind it. -/
def Ahead (text : String) (ts : List Token) : Prop :=
  ∃ before after, ts = before ++ .scalar text false :: after ∧ ∀ t ∈ after, t = .blockEnd

/-- Only ends of block collections are still to come. -/
def Spent (ts : List Token) : Prop := ∀ t ∈ ts, t = .blockEnd

/-- Behind the next token the scalar is still to come, unless it was that token. -/
theorem Ahead.tail {t : Token} (h : Ahead text (t :: rest)) :
    Ahead text rest ∨ t = .scalar text false ∧ Spent rest := by
  obtain ⟨before, after, hts, hafter⟩ := h
  cases before with
  | nil =>
    obtain ⟨rfl, rfl⟩ := List.cons.inj hts
    exact .inr ⟨rfl, hafter⟩
  | cons u before => exact .inl ⟨before, after, (List.cons.inj hts).2, hafter⟩

/-- Other tokens can be passed before the scalar. -/
theorem Ahead.pass {t : Token} (h : Ahead text ts) (hhead : ts.head? = some t)
    (ht : t ≠ .scalar text false) : Ahead text ts.tail := by
  obtain ⟨rest, rfl⟩ := List.head?_eq_some_iff.mp hhead
  exact h.tail.resolve_right fun hscalar => ht hscalar.1

/-- There is something to come if the scalar is. -/
theorem Ahead.exists_cons (h : Ahead text ts) : ∃ t rest, ts = t :: rest := by
  obtain ⟨before, after, rfl, -⟩ := h
  cases before with
  | nil => exact ⟨_, _, rfl⟩
  | cons t before => exact ⟨_, _, rfl⟩

/-- The next token can only be the end of a block collection. -/
theorem Spent.head {t : Token} (h : Spent ts) (ht : ts.head? = some t) : t = .blockEnd :=
  h t (List.mem_of_mem_head? ht)

/-- Ends of block collections can be passed. -/
theorem Spent.tail (h : Spent ts) : Spent ts.tail :=
  fun t ht => h t (List.mem_of_mem_tail ht)

/-- A step does not lose the scalar: if it reads over it, then its result has the one property. If
the scalar was read before, then the result has the other. -/
structure Tracks (text : String) (E D : α → Prop) (r : Reading α) : Prop where
  /-- The scalar is still to come at the start. -/
  ahead : Leads (Ahead text) r fun a ts => Ahead text ts ∨ Spent ts ∧ E a
  /-- The scalar was read before. -/
  spent : Leads Spent r fun a ts => Spent ts ∧ D a

namespace Tracks

variable {E D : α → Prop} {E' D' : β → Prop}

/-- Nothing is read. -/
theorem pure {a : α} (ha : D a) : Tracks text E D (pure a) :=
  ⟨.pure fun _ h => .inl h, .pure fun _ h => ⟨h, ha⟩⟩

/-- A fault loses nothing. -/
theorem fault (problem : String) : Tracks text E D (fault problem : Reading α) :=
  ⟨.fault problem, .fault problem⟩

/-- One step after the other. The scalar is read in the second, in the first or before both. -/
theorem bind {r : Reading α} {next : α → Reading β} (hr : Tracks text E D r)
    (hnext : ∀ a, Leads (Ahead text) (next a) fun b ts => Ahead text ts ∨ Spent ts ∧ E' b)
    (hlast : ∀ a, E a → Leads Spent (next a) fun b ts => Spent ts ∧ E' b)
    (hdone : ∀ a, D a → Leads Spent (next a) fun b ts => Spent ts ∧ D' b) :
    Tracks text E' D' (r >>= next) where
  ahead := hr.ahead.bind fun a =>
    (hnext a).or (.and fun ha => (hlast a ha).imp fun _ _ h => .inr h)
  spent := hr.spent.bind fun a => .and (hdone a)

/-- A step that cannot read over the scalar leaves it to come. -/
theorem before {r : Reading α} (hr : Tracks text (fun _ => False) D r) :
    Leads (Ahead text) r fun _ => Ahead text :=
  hr.ahead.imp fun _ _ h => h.resolve_right fun h => h.2

/-- A step that cannot read over the scalar comes before one that may. -/
theorem before_bind {r : Reading α} {next : α → Reading β} (hr : Tracks text (fun _ => False) D r)
    (hnext : ∀ a, Leads (Ahead text) (next a) R) : Leads (Ahead text) (r >>= next) R :=
  hr.before.bind hnext

/-- Behind the scalar the result of a step is known. -/
theorem spent_bind {r : Reading α} {next : α → Reading β} (hr : Tracks text E D r)
    (hnext : ∀ a, D a → Leads Spent (next a) R) : Leads Spent (r >>= next) R :=
  hr.spent.bind fun a => .and (hnext a)

end Tracks

/-- It is only asked what the next token is. -/
theorem nextIn_eq (stops : List Token) (s : NodeReader) :
    nextIn stops s = .ok (s.tokens.head?.any stops.contains, s) := by
  rw [nextIn]
  cases hhead : s.tokens.head? with
  | none => simp only [peek, bind, StateT.bind, Except.bind, hhead]; rfl
  | some t => simp only [peek, bind, StateT.bind, Except.bind, hhead]; rfl

/-- Asking for the next token passes none. -/
theorem Leads.nextIn {stops : List Token} {next : Bool → Reading β}
    (hnext : ∀ ts, P ts → Leads (fun us => us = ts) (next (ts.head?.any stops.contains)) R) :
    Leads P (nextIn stops >>= next) R := by
  intro s b s' hs hb
  simp only [Bind.bind, StateT.bind, Except.bind, nextIn_eq] at hb
  exact hnext s.tokens hs s b s' rfl hb

/-- A token is passed if it is the given one. -/
theorem accept_eq (t : Token) (s : NodeReader) :
    accept t s = if s.tokens.head? = some t then .ok (true, { s with tokens := s.tokens.tail })
      else .ok (false, s) := by
  rw [accept]
  simp only [bind, StateT.bind, Except.bind, nextIn_eq]
  cases hhead : s.tokens.head? with
  | none => rfl
  | some u =>
    by_cases hu : u = t
    · simp only [hu, Option.any_some, List.contains_cons, BEq.rfl, Bool.true_or, if_true]
      rfl
    · have hnot : [t].contains u = false := by simp [hu]
      have hne : ¬ some u = some t := by simp [hu]
      simp only [hne, hnot, Option.any_some, if_false, Bool.false_eq_true]
      rfl

/-- A token that is no scalar is passed before the scalar. Behind it there is nothing to pass but
the end of a block collection. -/
theorem tracks_accept (text : String) {t : Token} (ht : t ≠ .scalar text false) :
    Tracks text (fun _ => False) (fun b => t ≠ .blockEnd → b = false) (accept t) := by
  constructor
  · intro s b s' hs hb
    rw [accept_eq] at hb
    split at hb
    · cases hb
      exact .inl (hs.pass ‹_› ht)
    · cases hb
      exact .inl hs
  · intro s b s' hs hb
    rw [accept_eq] at hb
    split at hb
    · rename_i hhead
      cases hb
      exact ⟨hs.tail, fun hne => absurd (hs.head hhead) hne⟩
    · cases hb
      exact ⟨hs, fun _ => rfl⟩

/-- A step that depends on whether a token comes next. Behind the scalar it does not. -/
theorem Tracks.accept {E D : α → Prop} {t : Token} (ht : t ≠ .scalar text false)
    (hend : t ≠ .blockEnd) {yes no : Reading α}
    (hyes : Leads (Ahead text) yes fun a ts => Ahead text ts ∨ Spent ts ∧ E a)
    (hno : Tracks text E D no) :
    Tracks text E D (accept t >>= fun b => if b then yes else no) := by
  constructor
  · refine (tracks_accept text ht).before_bind fun b => ?_
    cases b with
    | true => exact hyes
    | false => exact hno.ahead
  · refine (tracks_accept text ht).spent_bind ?_
    intro b hb
    obtain rfl := hb hend
    exact hno.spent

/-- A list ends where a block collection does. -/
theorem tracks_end {E : List α → Prop} (problem : String) :
    Tracks text E (· = []) (accept .blockEnd >>= fun b => if b then pure [] else fault problem) := by
  constructor
  · refine (tracks_accept text (by simp)).before_bind fun b => ?_
    cases b with
    | true => exact .pure fun _ h => .inl h
    | false => exact .fault problem
  · refine (tracks_accept text (by simp)).spent_bind fun b _ => ?_
    cases b with
    | true => exact .pure fun _ h => ⟨h, rfl⟩
    | false => exact .fault problem

/-- An anchor stands before the scalar. -/
theorem tracks_readAnchor? (text : String) : Tracks text (fun _ => False) (· = none) readAnchor? := by
  rw [readAnchor?]
  constructor
  · refine .peek fun ts hts => ?_
    split
    · rename_i name hhead
      refine .advance (P := Ahead text) ?_ (hts.pass hhead (by simp))
      refine (Leads.of_tokens_eq ?_).bind fun a => .pure fun _ h => .inl h
      intro s a s' ha
      cases ha
      rfl
    · exact .of_eq (.pure fun _ h => .inl h) hts
  · refine .peek fun ts hts => ?_
    split
    · rename_i name hhead
      cases hts.head hhead
    · exact .of_eq (.pure fun _ h => ⟨h, rfl⟩) hts

/-- A tag stands before the scalar. -/
theorem tracks_readTag? (text : String) : Tracks text (fun _ => False) (· = none) readTag? := by
  rw [readTag?]
  constructor
  · refine .peek fun ts hts => ?_
    split
    · rename_i handle bytes hhead
      refine .advance (P := Ahead text) ?_ (hts.pass hhead (by simp))
      refine (Leads.of_tokens_eq ?_).bind fun a => .pure fun _ h => .inl h
      intro s a s' ha
      rw [resolveTag] at ha
      split at ha
      · cases ha
        rfl
      · split at ha
        · cases ha
          rfl
        · cases ha
    · exact .of_eq (.pure fun _ h => .inl h) hts
  · refine .peek fun ts hts => ?_
    split
    · rename_i handle bytes hhead
      cases hts.head hhead
    · exact .of_eq (.pure fun _ h => ⟨h, rfl⟩) hts

/-- What may be written before a node stands before the scalar. -/
theorem tracks_readProperties (text : String) :
    Tracks text (fun _ => False) (· = Properties.none) readProperties := by
  rw [readProperties]
  constructor
  · refine (tracks_readAnchor? text).before_bind fun anchor? => ?_
    split
    · exact (tracks_readTag? text).before_bind fun tag? => .pure fun _ h => .inl h
    · refine (tracks_readTag? text).before_bind fun tag? => ?_
      split
      · exact (tracks_readAnchor? text).before_bind fun anchor? => .pure fun _ h => .inl h
      · exact .pure fun _ h => .inl h
  · refine (tracks_readAnchor? text).spent_bind ?_
    rintro _ rfl
    refine (tracks_readTag? text).spent_bind ?_
    rintro _ rfl
    exact .pure fun _ h => ⟨h, rfl⟩

/-- The scalar stands last in the last of some items. -/
def EndsItems (text : String) (items : List Node) : Prop :=
  ∃ front n, items = front ++ [n] ∧ n.EndsIn text

/-- The scalar stands last in the last of some entries. -/
def EndsEntries (text : String) (entries : List (Node × Node)) : Prop :=
  ∃ front k v, entries = front ++ [(k, v)] ∧ (v.EndsIn text ∨ k.EndsIn text ∧ v = Node.empty)

/-- What all the readers of nodes do with the scalar. In flow collections it is not the last that is
read: these have ends of their own. -/
structure ReadsLast (text : String) (fuel : Nat) : Prop where
  /-- There is no node behind the scalar. -/
  node (block level : Bool) :
    Tracks text (Node.EndsIn text) (fun _ => False) (readNode fuel block level)
  /-- There is at most an empty node behind the scalar. -/
  optional (stops : List Token) (block level : Bool) :
    Tracks text (Node.EndsIn text) (· = Node.empty) (readUnless fuel stops block level)
  /-- The items of a block sequence. -/
  blockItems : Tracks text (EndsItems text) (· = []) (readBlockItems fuel)
  /-- The items of a sequence that is not indented. -/
  levelItems : Tracks text (EndsItems text) (· = []) (readLevelItems fuel)
  /-- The entries of a block mapping. -/
  blockEntries : Tracks text (EndsEntries text) (· = []) (readBlockEntries fuel)
  /-- The value of an entry of a block mapping. -/
  blockValue : Tracks text (Node.EndsIn text) (· = Node.empty) (readBlockValue fuel)
  /-- The items of a flow sequence. -/
  flowItems (first : Bool) :
    Tracks text (fun _ => False) (fun _ => False) (readFlowItems fuel first)
  /-- An item of a flow sequence. -/
  flowItem : Tracks text (fun _ => True) (fun _ => False) (readFlowItem fuel)
  /-- The value of an entry of a flow collection. -/
  flowValue (close : Token) :
    Tracks text (fun _ => True) (fun _ => True) (readFlowValue fuel close)
  /-- The entries of a flow mapping. -/
  flowEntries (first : Bool) :
    Tracks text (fun _ => False) (fun _ => False) (readFlowEntries fuel first)
  /-- An entry of a flow mapping. -/
  flowEntry : Tracks text (fun _ => True) (fun _ => False) (readFlowEntry fuel)

/-- Without fuel nothing is read. -/
theorem readsLast_zero (text : String) : ReadsLast text 0 where
  node _ _ := .fault _
  optional _ _ _ := .fault _
  blockItems := .fault _
  levelItems := .fault _
  blockEntries := .fault _
  blockValue := .fault _
  flowItems _ := .fault _
  flowItem := .fault _
  flowValue _ := .fault _
  flowEntries _ := .fault _
  flowEntry := .fault _

namespace ReadsLast

variable {fuel : Nat}

/-- A node of which only the properties are written. -/
theorem leads_readNothing (p : Properties) : Leads P (readNothing p) fun _ => P := by
  rw [readNothing]
  split
  · exact .pure fun _ h => h
  · exact .fault _

/-- A sequence ends in the scalar if its items do. -/
theorem leads_sequence {r : Reading (List Node)} (hr : Tracks text (EndsItems text) (· = []) r)
    (p : Properties) : Leads (Ahead text) (r >>= fun items => pure (Node.sequence p items))
      fun n ts => Ahead text ts ∨ Spent ts ∧ n.EndsIn text := by
  refine hr.ahead.bind fun items => .or (.pure fun _ h => .inl h) (.and ?_)
  rintro ⟨front, n, rfl, hn⟩
  exact .pure fun _ h => .inr ⟨h, .item p front hn⟩

/-- A mapping ends in the scalar if its entries do. -/
theorem leads_mapping {r : Reading (List (Node × Node))}
    (hr : Tracks text (EndsEntries text) (· = []) r) (p : Properties) :
    Leads (Ahead text) (r >>= fun entries => pure (Node.mapping p entries))
      fun n ts => Ahead text ts ∨ Spent ts ∧ n.EndsIn text := by
  refine hr.ahead.bind fun entries => .or (.pure fun _ h => .inl h) (.and ?_)
  rintro ⟨front, k, v, rfl, hv | ⟨hk, rfl⟩⟩
  · exact .pure fun _ h => .inr ⟨h, .value p front k hv⟩
  · exact .pure fun _ h => .inr ⟨h, .key p front hk⟩

/-- Looking a name up reads no token. -/
theorem leads_lookup (name : String) : Leads P (lookup name) fun _ => P := by
  refine .of_tokens_eq fun s a s' ha => ?_
  rw [lookup] at ha
  split at ha
  · cases ha
    rfl
  · cases ha

/-- There is no node behind the scalar. -/
theorem node_succ (h : ReadsLast text fuel) (block level : Bool) :
    Tracks text (Node.EndsIn text) (fun _ => False) (readNode (fuel + 1) block level) := by
  rw [readNode]
  constructor
  · refine .peek fun ts hts => ?_
    split
    · rename_i name hhead
      refine .advance (P := Ahead text) ?_ (hts.pass hhead (by simp))
      exact (leads_lookup name).bind fun number => .pure fun _ h => .inl h
    · refine .of_eq ((tracks_readProperties text).before_bind fun p => .peek fun ts hts => ?_) hts
      split
      · rename_i text' plain hhead
        obtain ⟨rest, rfl⟩ := List.head?_eq_some_iff.mp hhead
        refine .advance (P := fun us => us = rest) (.pure ?_) rfl
        rintro _ rfl
        obtain hrest | ⟨hscalar, hspent⟩ := hts.tail
        · exact .inl hrest
        · cases hscalar
          exact .inr ⟨hspent, .scalar p⟩
      · rename_i hhead
        exact .advance ((h.flowItems true).before_bind fun items => .pure fun _ h => .inl h)
          (hts.pass hhead (by simp))
      · rename_i hhead
        exact .advance ((h.flowEntries true).before_bind fun entries => .pure fun _ h => .inl h)
          (hts.pass hhead (by simp))
      · split
        · exact .of_eq (leads_sequence h.levelItems p) hts
        · exact .of_eq ((leads_readNothing p).imp fun _ _ h => .inl h) hts
      · split
        · rename_i hhead _
          exact .advance (leads_sequence h.blockItems p) (hts.pass hhead (by simp))
        · exact .of_eq ((leads_readNothing p).imp fun _ _ h => .inl h) hts
      · split
        · rename_i hhead _
          exact .advance (leads_mapping h.blockEntries p) (hts.pass hhead (by simp))
        · exact .of_eq ((leads_readNothing p).imp fun _ _ h => .inl h) hts
      · exact .of_eq ((leads_readNothing p).imp fun _ _ h => .inl h) hts
  · refine .peek fun ts hts => ?_
    split
    · rename_i name hhead
      cases hts.head hhead
    · refine .of_eq ((tracks_readProperties text).spent_bind ?_) hts
      rintro _ rfl
      refine .peek fun ts hts => ?_
      -- The next token could only be the end of a block collection, and no node starts with that.
      split
      case h_7 => exact .fault _
      all_goals
        rename_i hhead
        cases hts.head hhead

/-- There is at most an empty node behind the scalar. -/
theorem optional_succ (h : ReadsLast text fuel) (stops : List Token) (block level : Bool) :
    Tracks text (Node.EndsIn text) (· = Node.empty) (readUnless (fuel + 1) stops block level) := by
  rw [readUnless]
  constructor
  · refine .nextIn fun ts hts => ?_
    split
    · exact .of_eq (.pure fun _ h => .inl h) hts
    · exact .of_eq (h.node block level).ahead hts
  · refine .nextIn fun ts hts => ?_
    split
    · exact .of_eq (.pure fun _ h => ⟨h, rfl⟩) hts
    · exact .of_eq ((h.node block level).spent.imp fun _ _ h => h.2.elim) hts

/-- The scalar stands last in an item or in one behind it. -/
theorem leads_items {one : Reading Node} {more : Reading (List Node)} {D : Node → Prop}
    (hone : Tracks text (Node.EndsIn text) D one) (hmore : Tracks text (EndsItems text) (· = []) more) :
    Leads (Ahead text) (one >>= fun item => more >>= fun items => pure (item :: items))
      fun items ts => Ahead text ts ∨ Spent ts ∧ EndsItems text items := by
  refine hone.ahead.bind fun item => .or ?_ (.and fun hitem => ?_)
  · refine hmore.ahead.bind fun items => .or (.pure fun _ h => .inl h) (.and ?_)
    rintro ⟨front, n, rfl, hn⟩
    exact .pure fun _ h => .inr ⟨h, item :: front, n, rfl, hn⟩
  · refine hmore.spent_bind ?_
    rintro _ rfl
    exact .pure fun _ h => .inr ⟨h, [], item, rfl, hitem⟩

/-- The items of a block sequence. -/
theorem blockItems_succ (h : ReadsLast text fuel) :
    Tracks text (EndsItems text) (· = []) (readBlockItems (fuel + 1)) := by
  rw [readBlockItems]
  exact .accept (by simp) (by simp) (leads_items (h.optional _ _ _) h.blockItems) (tracks_end _)

/-- The items of a sequence that is not indented. -/
theorem levelItems_succ (h : ReadsLast text fuel) :
    Tracks text (EndsItems text) (· = []) (readLevelItems (fuel + 1)) := by
  rw [readLevelItems]
  exact .accept (by simp) (by simp) (leads_items (h.optional _ _ _) h.levelItems) (.pure rfl)

/-- The value of an entry of a block mapping. -/
theorem blockValue_succ (h : ReadsLast text fuel) :
    Tracks text (Node.EndsIn text) (· = Node.empty) (readBlockValue (fuel + 1)) := by
  rw [readBlockValue]
  exact .accept (by simp) (by simp) (h.optional _ _ _).ahead (.pure rfl)

/-- The entries of a block mapping. The scalar may stand in a value, or in a key without one. -/
theorem blockEntries_succ (h : ReadsLast text fuel) :
    Tracks text (EndsEntries text) (· = []) (readBlockEntries (fuel + 1)) := by
  rw [readBlockEntries]
  refine .accept (by simp) (by simp) ?_ (tracks_end _)
  refine (h.optional _ _ _).ahead.bind fun k => .or ?_ (.and fun hk => ?_)
  · refine h.blockValue.ahead.bind fun v => .or ?_ (.and fun hv => ?_)
    · refine h.blockEntries.ahead.bind fun entries => .or (.pure fun _ h => .inl h) (.and ?_)
      rintro ⟨front, l, w, rfl, hlast⟩
      exact .pure fun _ h => .inr ⟨h, (k, v) :: front, l, w, rfl, hlast⟩
    · refine h.blockEntries.spent_bind ?_
      rintro _ rfl
      exact .pure fun _ h => .inr ⟨h, [], k, v, rfl, .inl hv⟩
  · refine h.blockValue.spent_bind ?_
    rintro _ rfl
    refine h.blockEntries.spent_bind ?_
    rintro _ rfl
    exact .pure fun _ h => .inr ⟨h, [], k, Node.empty, rfl, .inr ⟨hk, rfl⟩⟩

/-- It may be left open what is read behind the scalar. -/
theorem leads_true {r : Reading α} {E D : α → Prop} (hr : Tracks text E D r) :
    Leads (Ahead text) r fun _ ts => Ahead text ts ∨ Spent ts ∧ True :=
  hr.ahead.imp fun _ _ h => h.imp_right fun h => ⟨h.1, True.intro⟩

/-- The value of an entry of a flow collection. -/
theorem flowValue_succ (h : ReadsLast text fuel) (close : Token) :
    Tracks text (fun _ => True) (fun _ => True) (readFlowValue (fuel + 1) close) := by
  rw [readFlowValue]
  exact .accept (by simp) (by simp) (leads_true (h.optional _ _ _)) (.pure True.intro)

/-- An item of a flow sequence. -/
theorem flowItem_succ (h : ReadsLast text fuel) :
    Tracks text (fun _ => True) (fun _ => False) (readFlowItem (fuel + 1)) := by
  have hvalue (k : Node) : Tracks text (fun _ => True) (fun _ => True)
      (readFlowValue fuel .closeSequence >>= fun v => pure (Node.mapping Properties.none [(k, v)])) :=
    (h.flowValue .closeSequence).bind (fun _ => .pure fun _ h => .inl h)
      (fun _ h => .pure fun _ hts => ⟨hts, h⟩) fun _ h => .pure fun _ hts => ⟨hts, h⟩
  rw [readFlowItem]
  refine .accept (by simp) (by simp) (.nextIn fun ts hts => ?_)
    ⟨leads_true (h.node _ _), (h.node _ _).spent⟩
  split
  · rename_i hstop
    obtain ⟨t, hhead, ht⟩ := (Option.any_eq_true _ _).mp hstop
    refine .advance (P := Ahead text) (hvalue Node.empty).ahead (hts.pass hhead ?_)
    rintro rfl
    simp at ht
  · exact .of_eq ((h.node _ _).ahead.bind fun k => .or (hvalue k).ahead
      (.and fun _ => (hvalue k).spent.imp fun _ _ h => .inr h)) hts

/-- An entry of a flow mapping. -/
theorem flowEntry_succ (h : ReadsLast text fuel) :
    Tracks text (fun _ => True) (fun _ => False) (readFlowEntry (fuel + 1)) := by
  rw [readFlowEntry]
  refine .accept (by simp) (by simp) ?_ ?_
  · refine (h.optional _ _ _).ahead.bind fun k => .or ?_ (.and fun _ => ?_)
    · exact (h.flowValue _).ahead.bind fun v => .or (.pure fun _ h => .inl h)
        (.and fun hv => .pure fun _ h => .inr ⟨h, hv⟩)
    · exact (h.flowValue _).spent_bind fun v hv => .pure fun _ h => .inr ⟨h, hv⟩
  · exact (h.node _ _).bind (fun _ => .pure fun _ h => .inl h)
      (fun _ _ => .pure fun _ h => ⟨h, True.intro⟩) fun _ h => h.elim

/-- The parts of a flow collection, with commas between them and an end behind them. The scalar is
not the last that is read, since the end has to follow. -/
theorem tracks_parts {close : Token} (hclose : close ≠ .scalar text false)
    (hend : close ≠ .blockEnd) {one : Reading α} {more : Reading (List α)}
    (hone : Tracks text (fun _ => True) (fun _ => False) one)
    (hmore : Tracks text (fun _ => False) (fun _ => False) more) (first : Bool) (problem : String) :
    Tracks text (fun _ => False) (fun _ => False) (do
      if ← accept close then pure []
      else
        let parted ← if first then pure true else accept .comma
        if !parted then fault problem
        else if ← accept close then pure []
        else
          let a ← one
          let rest ← more
          pure (a :: rest)) := by
  have hpart (parted : Bool) : Tracks text (fun _ => False) (fun _ => False) (
      if !parted then fault problem
      else do
        if ← accept close then pure []
        else
          let a ← one
          let rest ← more
          pure (a :: rest)) := by
    cases parted with
    | false => exact .fault problem
    | true =>
      refine .accept hclose hend (.pure fun _ h => .inl h) ?_
      exact hone.bind (fun a => hmore.before_bind fun rest => .pure fun _ h => .inl h)
        (fun a _ => hmore.spent_bind fun _ h => h.elim) fun _ h => h.elim
  refine .accept hclose hend (.pure fun _ h => .inl h) ?_
  cases first with
  | true => exact hpart true
  | false =>
    exact (tracks_accept text (by simp)).bind (fun parted => (hpart parted).ahead)
      (fun _ h => h.elim) fun parted _ => (hpart parted).spent

end ReadsLast

/-- Whatever is read keeps track of the scalar. -/
theorem readsLast (text : String) (fuel : Nat) : ReadsLast text fuel := by
  induction fuel with
  | zero => exact readsLast_zero text
  | succ fuel ih =>
    exact
      { node := ih.node_succ
        optional := ih.optional_succ
        blockItems := ih.blockItems_succ
        levelItems := ih.levelItems_succ
        blockEntries := ih.blockEntries_succ
        blockValue := ih.blockValue_succ
        flowItems := fun first => by
          rw [readFlowItems]
          exact ReadsLast.tracks_parts (by simp) (by simp) ih.flowItem (ih.flowItems false) first _
        flowItem := ih.flowItem_succ
        flowValue := ih.flowValue_succ
        flowEntries := fun first => by
          rw [readFlowEntries]
          exact ReadsLast.tracks_parts (by simp) (by simp) ih.flowEntry (ih.flowEntries false) first _
        flowEntry := ih.flowEntry_succ }

/-- Directives are passed before the scalar. -/
theorem ahead_of_readDirectives {versioned : Bool} {handles handles' : List (String × List UInt8)}
    (hts : Ahead text ts) (h : readDirectives ts versioned handles = .ok (rest, handles')) :
    Ahead text rest := by
  induction ts, versioned, handles using readDirectives.induct with
  | case1 handles major minor rest =>
    rw [readDirectives, if_pos rfl] at h
    cases h
  | case3 handles major minor rest versioned hnew hversion =>
    rw [readDirectives, if_neg hnew, if_neg hversion] at h
    cases h
  | case4 versioned handles handle bytes rest hknown =>
    rw [readDirectives, if_pos hknown] at h
    cases h
  | case2 handles major minor rest versioned hnew hversion ih =>
    rw [readDirectives, if_neg hnew, if_pos hversion] at h
    exact ih (hts.pass rfl (by simp)) h
  | case5 versioned handles handle bytes rest hnew ih =>
    rw [readDirectives, if_neg hnew] at h
    exact ih (hts.pass rfl (by simp)) h
  | case6 tokens versioned handles hversion hhandle =>
    rw [readDirectives] at h
    · cases h
      exact hts
    all_goals assumption

/-- The content of a document ends in the scalar. -/
theorem leads_readContent (text : String) (fuel : Nat) :
    Leads (Ahead text) (readContent fuel) fun n ts => Ahead text ts ∨ Spent ts ∧ n.EndsIn text := by
  rw [readContent]
  refine .peek fun ts hts => ?_
  split
  · exact .of_eq (.pure fun _ h => .inl h) hts
  · exact .of_eq (.pure fun _ h => .inl h) hts
  · split
    · exact .of_eq (.pure fun _ h => .inl h) hts
    · exact .of_eq ((readsLast text fuel).node true false).ahead hts

/-- If the last token of a text is a scalar, up to the ends of block collections, and it was not
written plain, then it stands last in the node of the text. -/
theorem endsIn_of_readDocument {n? : Option Node} (hts : Ahead text ts)
    (h : readDocument ts = .ok n?) : ∃ n, n? = some n ∧ n.EndsIn text := by
  -- Nothing but ends of documents may be left, so the scalar has been read.
  have hend {n : Node} {s : NodeReader} (hlast : Ahead text s.tokens ∨ Spent s.tokens ∧ n.EndsIn text)
      (hdone : (if (s.tokens.all fun t => t == .documentEnd) = true then .ok (some n)
        else .error ⟨"deserializing from YAML containing more than one document is not supported", none⟩ :
        Except Fault (Option Node)) = .ok n?) : ∃ n, n? = some n ∧ n.EndsIn text := by
    split at hdone
    · rename_i hall
      cases hdone
      obtain ⟨before, after, hscalar, -⟩ | hlast := hlast
      · rw [hscalar] at hall
        simp at hall
      · exact ⟨n, rfl, hlast.2⟩
    · cases hdone
  obtain ⟨t, rest, rfl⟩ := hts.exists_cons
  rw [readDocument] at h
  simp only [bind, Except.bind] at h
  split at h
  · split at h
    · cases h
    · rename_i v hdirectives
      have hrest := ahead_of_readDirectives hts hdirectives
      split at h
      · rename_i hstart
        rw [hstart] at hrest
        split at h
        · cases h
        · rename_i hcontent
          exact hend (leads_readContent text _ _ _ _ (hrest.pass rfl (by simp)) hcontent) h
      · cases h
  · split at h
    · cases h
    · rename_i hnode
      exact hend (((readsLast text _).node true false).ahead _ _ _ hts hnode) h

end NodeReader

end ManifestRules.Yaml
