import ManifestRules.Yaml.Lexer
/-!
# The tree of nodes that a YAML text writes

A node is a scalar, a collection or an alias, with the tag and anchor written
before it. Nothing is interpreted here but names: handles of tags are replaced
by what they stand for, and anchors and aliases by numbers. `Node.ofText` reads
the one document of a text, or finds that there is none.
-/

namespace ManifestRules.Yaml

/-- What may be written before a node. -/
structure Properties where
  /-- The bytes of its tag. -/
  tag : Option (List UInt8)
  /-- The number of its anchor. -/
  anchor : Option Nat
deriving Repr, DecidableEq, Inhabited

/-- A node without tag and anchor has these. -/
def Properties.none : Properties := ⟨Option.none, Option.none⟩

/-- A node of a document. -/
inductive Node where
  /-- A scalar, and whether it was written plain. -/
  | scalar (properties : Properties) (text : String) (plain : Bool)
  /-- Nodes in order. -/
  | sequence (properties : Properties) (items : List Node)
  /-- Pairs of nodes in order. -/
  | mapping (properties : Properties) (entries : List (Node × Node))
  /-- The node with the anchor of this number. -/
  | alias (number : Nat)
deriving Repr, Inhabited

namespace Node

/-- The node where nothing is written. -/
def empty : Node := .scalar Properties.none "" true

mutual
/-- How many steps it takes to go through a node: one for a scalar or an alias,
two for the ends of a collection. -/
def steps : Node → Nat
  | .scalar _ _ _ => 1
  | .sequence _ items => 2 + itemSteps items
  | .mapping _ entries => 2 + entrySteps entries
  | .alias _ => 1
/-- The steps of items. -/
def itemSteps : List Node → Nat
  | [] => 0
  | n :: ns => n.steps + itemSteps ns
/-- The steps of entries. -/
def entrySteps : List (Node × Node) → Nat
  | [] => 0
  | (k, v) :: es => k.steps + v.steps + entrySteps es
end

/-- A node under the number of its anchor. -/
def underAnchor (properties : Properties) (n : Node) : List (Nat × Node) :=
  match properties.anchor with
  | some number => [(number, n)]
  | none => []

mutual
/-- The anchored nodes in the order in which they start. -/
def anchored : Node → List (Nat × Node)
  | .scalar properties text plain => underAnchor properties (.scalar properties text plain)
  | .sequence properties items =>
    underAnchor properties (.sequence properties items) ++ anchoredItems items
  | .mapping properties entries =>
    underAnchor properties (.mapping properties entries) ++ anchoredEntries entries
  | .alias _ => []
/-- The anchored nodes of items. -/
def anchoredItems : List Node → List (Nat × Node)
  | [] => []
  | n :: ns => n.anchored ++ anchoredItems ns
/-- The anchored nodes of entries. -/
def anchoredEntries : List (Node × Node) → List (Nat × Node)
  | [] => []
  | (k, v) :: es => k.anchored ++ (v.anchored ++ anchoredEntries es)
end

end Node

/-- The state of the reader of nodes. -/
structure NodeReader where
  /-- The tokens still to be read. -/
  tokens : List Token
  /-- What the handles of tags stand for. -/
  handles : List (String × List UInt8)
  /-- The names of anchors with their numbers. -/
  names : List (String × Nat)
deriving Inhabited

/-- A step of the reader of nodes. -/
abbrev Reading := StateT NodeReader (Except Fault)

namespace NodeReader

/-- End with a fault. -/
def fault {α : Type} (problem : String) : Reading α :=
  fun _ => .error ⟨problem, none⟩

/-- The next token. -/
def peek : Reading (Option Token) :=
  fun s => .ok (s.tokens.head?, s)

/-- Move over a token. -/
def advance : Reading Unit :=
  fun s => .ok ((), { s with tokens := s.tokens.tail })

/-- The next token is one of the given ones; the end is not. -/
def nextIn (tokens : List Token) : Reading Bool := do
  match ← peek with
  | some t => pure (tokens.contains t)
  | none => pure false

/-- Move over a token if it is the given one, and say whether it was. -/
def accept (t : Token) : Reading Bool := do
  if ← nextIn [t] then
    advance
    pure true
  else pure false

/-- Number an anchor with the count of distinct names before it. A name that is
met again is numbered anew and counts once. -/
def number (name : String) : Reading Nat :=
  fun s =>
    let n := s.names.length
    let names := s.names.filter fun e => e.1 ≠ name
    .ok (n, { s with names := (name, n) :: names })

/-- The number of a name. -/
def lookup (name : String) : Reading Nat :=
  fun s =>
    match s.names.find? fun e => e.1 == name with
    | some e => .ok (e.2, s)
    | none => .error ⟨"unknown anchor", none⟩

/-- The tag that a handle and the bytes behind it write. -/
def resolveTag (handle : String) (bytes : List UInt8) : Reading (List UInt8) :=
  fun s =>
    if handle.isEmpty then .ok (bytes, s)
    else
      match s.handles.find? fun h => h.1 == handle with
      | some h => .ok (h.2 ++ bytes, s)
      | none => .error ⟨"found undefined tag handle", none⟩

/-- Read a tag, if there is one. -/
def readTag? : Reading (Option (List UInt8)) := do
  match ← peek with
  | some (.tag handle bytes) =>
    advance
    pure (some (← resolveTag handle bytes))
  | _ => pure none

/-- Read an anchor, if there is one. -/
def readAnchor? : Reading (Option Nat) := do
  match ← peek with
  | some (.anchor name) =>
    advance
    pure (some (← number name))
  | _ => pure none

/-- Read a tag and an anchor in either order. -/
def readProperties : Reading Properties := do
  match ← readAnchor? with
  | some anchor =>
    let tag ← readTag?
    pure ⟨tag, some anchor⟩
  | none =>
    let tag ← readTag?
    if tag.isSome then
      let anchor ← readAnchor?
      pure ⟨tag, anchor⟩
    else pure ⟨none, none⟩

mutual
/-- Read a node. Block collections are possible only where `block` holds, a
sequence without indentation of its own only where `level` holds. -/
def readNode : Nat → Bool → Bool → Reading Node
  | 0, _, _ => fault "the text is nested too deeply"
  | fuel + 1, block, level => do
    match ← peek with
    | some (.alias name) =>
      advance
      let n ← lookup name
      pure (.alias n)
    | _ =>
      let p ← readProperties
      match ← peek with
      | some (.scalar text plain) =>
        advance
        pure (.scalar p text plain)
      | some .openSequence =>
        advance
        let items ← readFlowItems fuel true
        pure (.sequence p items)
      | some .openMapping =>
        advance
        let entries ← readFlowEntries fuel true
        pure (.mapping p entries)
      | some .item =>
        if level then
          let items ← readLevelItems fuel
          pure (.sequence p items)
        else readNothing p
      | some .blockSequence =>
        if block then
          advance
          let items ← readBlockItems fuel
          pure (.sequence p items)
        else readNothing p
      | some .blockMapping =>
        if block then
          advance
          let entries ← readBlockEntries fuel
          pure (.mapping p entries)
        else readNothing p
      | _ => readNothing p
termination_by structural fuel => fuel
/-- A node of which only the properties are written. -/
def readNothing (p : Properties) : Reading Node :=
  if p.tag.isSome || p.anchor.isSome then pure (.scalar p "" true)
  else fault "did not find expected node content"
/-- Read a node unless one of the given tokens shows that nothing is written. -/
def readUnless : Nat → List Token → Bool → Bool → Reading Node
  | 0, _, _, _ => fault "the text is nested too deeply"
  | fuel + 1, stops, block, level => do
    if ← nextIn stops then pure Node.empty else readNode fuel block level
termination_by structural fuel => fuel
/-- Read the items of a block sequence up to its end. -/
def readBlockItems : Nat → Reading (List Node)
  | 0 => fault "the text is nested too deeply"
  | fuel + 1 => do
    if ← accept .item then
      let item ← readUnless fuel [.item, .blockEnd] true false
      let items ← readBlockItems fuel
      pure (item :: items)
    else if ← accept .blockEnd then pure []
    else fault "did not find expected '-' indicator"
termination_by structural fuel => fuel
/-- Read the items of a sequence that is not indented in its mapping. -/
def readLevelItems : Nat → Reading (List Node)
  | 0 => fault "the text is nested too deeply"
  | fuel + 1 => do
    if ← accept .item then
      let item ← readUnless fuel [.item, .key, .value, .blockEnd] true false
      let items ← readLevelItems fuel
      pure (item :: items)
    else pure []
termination_by structural fuel => fuel
/-- Read the entries of a block mapping up to its end. -/
def readBlockEntries : Nat → Reading (List (Node × Node))
  | 0 => fault "the text is nested too deeply"
  | fuel + 1 => do
    if ← accept .key then
      let k ← readUnless fuel [.key, .value, .blockEnd] true true
      let v ← readBlockValue fuel
      let entries ← readBlockEntries fuel
      pure ((k, v) :: entries)
    else if ← accept .blockEnd then pure []
    else fault "did not find expected key"
termination_by structural fuel => fuel
/-- Read the value of an entry of a block mapping. -/
def readBlockValue : Nat → Reading Node
  | 0 => fault "the text is nested too deeply"
  | fuel + 1 => do
    if ← accept .value then readUnless fuel [.key, .value, .blockEnd] true true
    else pure Node.empty
termination_by structural fuel => fuel
/-- Read the items of a flow sequence up to its end. -/
def readFlowItems : Nat → Bool → Reading (List Node)
  | 0, _ => fault "the text is nested too deeply"
  | fuel + 1, first => do
    if ← accept .closeSequence then pure []
    else
      let parted ← if first then pure true else accept .comma
      if !parted then fault "did not find expected ',' or ']'"
      else if ← accept .closeSequence then pure []
      else
        let item ← readFlowItem fuel
        let items ← readFlowItems fuel false
        pure (item :: items)
termination_by structural fuel => fuel
/-- Read an item of a flow sequence. A key makes it a mapping of one entry; a
key of which nothing is written takes the token behind it along. -/
def readFlowItem : Nat → Reading Node
  | 0 => fault "the text is nested too deeply"
  | fuel + 1 => do
    if ← accept .key then
      let k ←
        if ← nextIn [.value, .comma, .closeSequence] then
          advance
          pure Node.empty
        else readNode fuel false false
      let v ← readFlowValue fuel .closeSequence
      pure (.mapping Properties.none [(k, v)])
    else readNode fuel false false
termination_by structural fuel => fuel
/-- Read the value of an entry in a flow collection with the given end. -/
def readFlowValue : Nat → Token → Reading Node
  | 0, _ => fault "the text is nested too deeply"
  | fuel + 1, close => do
    if ← accept .value then readUnless fuel [.comma, close] false false
    else pure Node.empty
termination_by structural fuel => fuel
/-- Read the entries of a flow mapping up to its end. -/
def readFlowEntries : Nat → Bool → Reading (List (Node × Node))
  | 0, _ => fault "the text is nested too deeply"
  | fuel + 1, first => do
    if ← accept .closeMapping then pure []
    else
      let parted ← if first then pure true else accept .comma
      if !parted then fault "did not find expected ',' or a closing brace"
      else if ← accept .closeMapping then pure []
      else
        let entry ← readFlowEntry fuel
        let entries ← readFlowEntries fuel false
        pure (entry :: entries)
termination_by structural fuel => fuel
/-- Read an entry of a flow mapping. Without a key indicator it has no value. -/
def readFlowEntry : Nat → Reading (Node × Node)
  | 0 => fault "the text is nested too deeply"
  | fuel + 1 => do
    if ← accept .key then
      let k ← readUnless fuel [.value, .comma, .closeMapping] false false
      let v ← readFlowValue fuel .closeMapping
      pure (k, v)
    else
      let k ← readNode fuel false false
      pure (k, Node.empty)
termination_by structural fuel => fuel
end

/-- The handles that are always known. -/
def defaultHandles : List (String × List UInt8) :=
  [("!", Token.bytesOf ['!']), ("!!", Token.bytesOf "tag:yaml.org,2002:".toList)]

/-- Read directives; no handle may be given twice, and only one version. -/
def readDirectives : List Token → Bool → List (String × List UInt8) →
    Except Fault (List Token × List (String × List UInt8))
  | .version major minor :: rest, versioned, handles =>
    if versioned then .error ⟨"found duplicate %YAML directive", none⟩
    else if major = 1 ∧ (minor = 1 ∨ minor = 2) then readDirectives rest true handles
    else .error ⟨"found incompatible YAML document", none⟩
  | .tagHandle handle bytes :: rest, versioned, handles =>
    if handles.any fun h => h.1 == handle then
      .error ⟨"found duplicate %TAG directive", none⟩
    else readDirectives rest versioned (handles ++ [(handle, bytes)])
  | tokens, _, handles => .ok (tokens, handles)

/-- The token starts a document or stands before its start. -/
def opensDocument : Token → Bool
  | .version _ _ | .tagHandle _ _ | .documentStart => true
  | _ => false

/-- Read the content of a document that has been started. -/
def readContent (fuel : Nat) : Reading Node := do
  match ← peek with
  | none | some .documentEnd => pure Node.empty
  | some t => if opensDocument t then pure Node.empty else readNode fuel true false

/-- Read the one document of the tokens. -/
def readDocument (tokens : List Token) : Except Fault (Option Node) := do
  let fuel := 3 * tokens.length + 8
  match tokens with
  | [] => pure none
  | t :: _ =>
    let (n, s) ←
      if opensDocument t then
        let (rest, handles) ← readDirectives tokens false []
        match rest with
        | .documentStart :: rest => (readContent fuel).run ⟨rest, handles ++ defaultHandles, []⟩
        | _ => throw ⟨"did not find expected <document start>", none⟩
      else (readNode fuel true false).run ⟨tokens, defaultHandles, []⟩
    if s.tokens.all (· == .documentEnd) then pure (some n)
    else throw ⟨"deserializing from YAML containing more than one document is not supported", none⟩

end NodeReader

/-- The document of a text, if there is one. A second one is a fault. -/
def Node.ofText (text : String) : Except Fault (Option Node) := do
  let tokens ← Token.ofText text.toList
  NodeReader.readDocument tokens

end ManifestRules.Yaml
