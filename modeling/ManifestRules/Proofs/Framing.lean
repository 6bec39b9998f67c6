import ManifestRules.Graph
import ManifestRules.Proofs.Fragments
import ManifestRules.Stream
import Mathlib.Data.List.DropRight
import Mathlib.Data.List.Forall2
import Mathlib.Data.List.TakeWhile
/-!
# Framing

A stream is taken apart at the lines that it was put together with. Lines do not depend on what
follows their line feed (`Text.lines_append`), lines without a separator stay in one piece
(`Stream.pieces_append`), and so the fragments of a stream are the texts that were written to it,
without the white space around them (`Stream.splitDocuments_serializeDocuments`). If these decode
to the bodies, then the documents are recovered from the stream.
-/

namespace ManifestRules

/-- Two steps succeed if the first does and the second goes on from what it gives. -/
theorem bind_eq_ok_iff {α β : Type} {x : Except Error α} {f : α → Except Error β} {b : β} :
    x >>= f = .ok b ↔ ∃ a, x = .ok a ∧ f a = .ok b := by
  cases x <;> simp [bind, Except.bind]

/-- A traversal succeeds if all its steps do, and gives what they give. -/
theorem mapM_eq_ok_iff {α β : Type} {f : α → Except Error β} {l : List α} {bs : List β} :
    l.mapM f = .ok bs ↔ List.Forall₂ (fun a b => f a = .ok b) l bs := by
  induction l generalizing bs with
  | nil => cases bs <;> simp [pure, Except.pure]
  | cons a l ih =>
    rw [List.mapM_cons]
    cases ha : f a with
    | error fault => cases bs <;> simp [bind, Except.bind, ha]
    | ok b =>
      cases hl : l.mapM f with
      | error fault => cases bs <;> simp [bind, Except.bind, ← ih, hl, ha]
      | ok rest => cases bs <;> simp [bind, Except.bind, pure, Except.pure, ← ih, hl, ha]

/-- If every item of a list is related to something with a property, then the list is related to a
list of such things, item by item. -/
theorem exists_forall₂ {α β : Type} {R : α → β → Prop} {P : β → Prop} {l : List α}
    (hl : ∀ a ∈ l, ∃ b, R a b ∧ P b) : ∃ bs, List.Forall₂ R l bs ∧ ∀ b ∈ bs, P b := by
  induction l with
  | nil => exact ⟨[], .nil, by simp⟩
  | cons a l ih =>
    obtain ⟨⟨b, hab, hb⟩, hrest⟩ := List.forall_mem_cons.mp hl
    obtain ⟨bs, hbs, hall⟩ := ih hrest
    exact ⟨b :: bs, .cons hab hbs, List.forall_mem_cons.mpr ⟨hb, hall⟩⟩

namespace Document

/-- A document is made of a body that has a kind, and captures it. -/
theorem ofBody_eq_ok_iff {body : Mapping} {source : String} {d : Document} :
    ofBody body source = .ok d ↔ body = d.body ∧ kindOf? d.body = some d.kind := by
  obtain ⟨kind, entries⟩ := d
  rw [ofBody]
  constructor
  · intro hd
    cases hk : kindOf? body with
    | none => simp [hk] at hd
    | some k =>
      rw [hk] at hd
      cases hd
      exact ⟨rfl, hk⟩
  · rintro ⟨rfl, hk⟩
    rw [hk]

/-- A document is made of a mapping that has a kind. -/
theorem ofValue_eq_ok_iff {v : Value} {source : String} {d : Document} :
    ofValue v source = .ok d ↔ v = .mapping d.body ∧ kindOf? d.body = some d.kind := by
  cases v with
  | mapping body => rw [ofValue, ofBody_eq_ok_iff, Value.mapping.injEq]
  | _ => simp [ofValue]

end Document

namespace Text

/-- Nothing is left of a text only if it is blank. -/
theorem isBlankText_of_trim_eq_nil {s : List Char} (hs : trim s = []) : isBlankText s = true := by
  have hstart : ∀ c ∈ trimStart s, isBlank c = true := List.rdropWhile_eq_nil_iff.mp hs
  -- What is left at the start does not begin with white space, so there is nothing left.
  cases hrest : s.dropWhile isBlank with
  | nil => exact List.all_eq_true.mpr (List.dropWhile_eq_nil_iff.mp hrest)
  | cons c rest =>
    have hc : isBlank c = true := hstart c (by rw [trimStart, hrest]; exact List.mem_cons_self)
    have hnot := List.head_dropWhile_not isBlank (l := s) (by simp [hrest])
    simp only [hrest, List.head_cons, hc] at hnot
    cases hnot

/-- Only the empty text has no lines. -/
theorem eq_nil_of_lines_eq_nil {s : List Char} (hs : lines s = []) : s = [] := by
  rw [← flatten_lines s, hs]
  rfl

/-- What follows a line feed is on lines of its own. -/
theorem lines_append {s : List Char} (hs : ∀ c, s.getLast? = some c → c = '\n') (t : List Char) :
    lines (s ++ t) = lines s ++ lines t := by
  induction s with
  | nil => rfl
  | cons c s ih =>
    by_cases hc : c = '\n'
    · have hrest : ∀ d, s.getLast? = some d → d = '\n' := by
        intro d hd
        refine hs d ?_
        rw [List.getLast?_cons, hd]
        rfl
      simp only [List.cons_append, lines, hc, if_true, ih hrest]
    · have hne : s ≠ [] := by
        intro hnil
        exact hc (hs c (by rw [hnil]; rfl))
      have hrest : ∀ d, s.getLast? = some d → d = '\n' := by
        intro d hd
        refine hs d ?_
        rw [List.getLast?_cons, hd]
        rfl
      simp only [List.cons_append, lines, hc, if_false, ih hrest]
      cases hl : lines s with
      | nil => exact absurd (eq_nil_of_lines_eq_nil hl) hne
      | cons line more => rfl

/-- A line feed at the end of a text that has none there belongs to its last line. -/
theorem lines_concat {s : List Char} (hs : s.getLast? ≠ some '\n') :
    lines (s ++ ['\n']) = (lines s).dropLast ++ [(lines s).getLastD [] ++ ['\n']] := by
  induction s with
  | nil => rfl
  | cons c s ih =>
    cases s with
    | nil =>
      have hc : c ≠ '\n' := fun hc => hs (by rw [hc]; rfl)
      simp [lines, hc]
    | cons d s =>
      have hrest := ih hs
      have hne : lines (d :: s) ≠ [] := fun hnil => List.cons_ne_nil _ _ (eq_nil_of_lines_eq_nil hnil)
      obtain ⟨line, more, hl⟩ := List.exists_cons_of_ne_nil hne
      rw [hl] at hrest
      by_cases hc : c = '\n'
      · rw [List.cons_append, lines, if_pos hc, hrest, lines, if_pos hc, hl]
        rfl
      · rw [List.cons_append, lines, if_neg hc, hrest, lines, if_neg hc, hl]
        cases more <;> rfl

end Text

namespace Stream

open Text

/-- A line feed does not make a separator of a line, or keep it from being one. -/
theorem isSeparator_concat (line : List Char) : isSeparator (line ++ ['\n']) = isSeparator line := by
  have hblank : ∀ c ∈ ['\n'], isBlank c = true := List.all_eq_true.mp (by decide)
  rw [isSeparator, isSeparator, trimEnd_append hblank]

/-- There is no separator among the lines of a text. -/
def IsWhole (s : List Char) : Prop := ∀ line ∈ lines s, isSeparator line = false

/-- It can be decided whether a text has separators. -/
instance (s : List Char) : Decidable (IsWhole s) :=
  inferInstanceAs (Decidable (∀ line ∈ lines s, isSeparator line = false))

/-- The characters of a text with a line feed at its end. -/
theorem toList_endLine (e : String) :
    (endLine e).toList = if e.toList.getLast? = some '\n' then e.toList else e.toList ++ ['\n'] := by
  rw [endLine]
  split
  · rfl
  · rw [String.toList_append]
    rfl

/-- With a line feed at its end a text has as few separators as without. -/
theorem isWhole_endLine {e : String} (he : IsWhole e.toList) : IsWhole (endLine e).toList := by
  rw [toList_endLine]
  split
  · exact he
  · rename_i hlast
    intro line hline
    rw [lines_concat hlast, List.mem_append, List.mem_singleton] at hline
    obtain hline | rfl := hline
    · exact he line (List.dropLast_subset _ hline)
    · rw [isSeparator_concat]
      cases hl : (lines e.toList).getLast? with
      | none =>
        rw [List.getLastD_eq_getLast?, hl]
        rfl
      | some line =>
        rw [List.getLastD_eq_getLast?, hl]
        exact he line (List.mem_of_getLast? hl)

/-- A text with a line feed at its end is trimmed to the same. -/
theorem trim_endLine (e : String) : trim (endLine e).toList = trim e.toList := by
  rw [toList_endLine]
  split
  · rfl
  · exact trim_append (List.all_eq_true.mp (by decide))

/-- Every text with a line feed at its end ends in one. -/
theorem getLast?_endLine (e : String) : (endLine e).toList.getLast? = some '\n' := by
  rw [toList_endLine]
  split
  · assumption
  · exact List.getLast?_concat

/-- Lines without a separator are all in the first piece. -/
theorem pieces_append {ls more : List (List Char)} {piece : List Char} {rest : List (List Char)}
    (hls : ∀ line ∈ ls, isSeparator line = false) (hmore : pieces more = piece :: rest) :
    pieces (ls ++ more) = (ls.flatten ++ piece) :: rest := by
  induction ls with
  | nil => exact hmore
  | cons line ls ih =>
    obtain ⟨hline, hls⟩ := List.forall_mem_cons.mp hls
    rw [List.cons_append, pieces_cons_of_not_separator hline (ih hls), List.flatten_cons,
      List.append_assoc]

/-- A text without separators is one piece. -/
theorem pieces_lines {s : List Char} (hs : IsWhole s) : pieces (lines s) = [s] := by
  have hnone : pieces [] = [[]] := rfl
  have hpiece := pieces_append hs hnone
  simpa [flatten_lines] using hpiece

/-- A text as it stands in a stream. -/
def frame (e : String) : List Char := separator.toList ++ '\n' :: (endLine e).toList

/-- The lines of framed texts one behind the other: before each text, a separator. -/
theorem lines_frames (es : List String) :
    lines (es.flatMap frame) =
      es.flatMap fun e => (separator.toList ++ ['\n']) :: lines (endLine e).toList := by
  induction es with
  | nil => rfl
  | cons e es ih =>
    have hend : ∀ c, (frame e).getLast? = some c → c = '\n' := by
      intro c hc
      have hlast : (frame e).getLast? = some '\n' := by
        rw [frame, List.getLast?_append, List.getLast?_cons, getLast?_endLine]
        rfl
      exact (Option.some.inj (hlast.symm.trans hc)).symm
    have hframe : lines (frame e) = (separator.toList ++ ['\n']) :: lines (endLine e).toList := by
      have happend : frame e = (separator.toList ++ ['\n']) ++ (endLine e).toList := by
        rw [frame, List.append_assoc]
        rfl
      rw [happend, lines_append (by simp)]
      rfl
    rw [List.flatMap_cons, List.flatMap_cons, lines_append hend, hframe, ih]

/-- The pieces of framed texts: the empty one before the first separator, and then the texts. -/
theorem pieces_frames {es : List String} (hes : ∀ e ∈ es, IsWhole e.toList) :
    pieces (lines (es.flatMap frame)) = [] :: es.map fun e => (endLine e).toList := by
  rw [lines_frames]
  induction es with
  | nil => rfl
  | cons e es ih =>
    obtain ⟨he, hes⟩ := List.forall_mem_cons.mp hes
    have hseparator : isSeparator (separator.toList ++ ['\n']) = true := by decide
    have hrest := pieces_append (isWhole_endLine he) (ih hes)
    rw [flatten_lines, List.append_nil] at hrest
    rw [List.flatMap_cons, List.cons_append, pieces_cons_of_separator hseparator, hrest,
      List.map_cons]

/-- A text can be framed: it is not blank and has no separator of its own. -/
structure IsFramable (e : String) : Prop where
  /-- There is something in it. -/
  nonblank : isBlankString e = false
  /-- No line of it is a separator. -/
  whole : IsWhole e.toList

/-- The fragments of framed texts are these texts, trimmed. -/
theorem splitDocuments_frames {es : List String} (hes : ∀ e ∈ es, IsFramable e) :
    splitDocuments (String.ofList (es.flatMap frame)) = es.map trimString := by
  have hkept : ∀ e ∈ es, (trim e.toList).isEmpty = false := by
    intro e he
    have hblank : isBlankText e.toList = false := (hes e he).nonblank
    rw [List.isEmpty_eq_false_iff]
    intro hnil
    rw [isBlankText_of_trim_eq_nil hnil] at hblank
    cases hblank
  have htrim : (fun e : String => trim (endLine e).toList) = fun e => trim e.toList :=
    funext trim_endLine
  have hempty : (trim []).isEmpty = true := rfl
  rw [splitDocuments_eq, String.toList_ofList, pieces_frames fun e he => (hes e he).whole, fragmentsOf,
    List.map_cons, List.map_map, Function.comp_def, htrim, List.filterMap_cons, hempty,
    List.filterMap_map, ← List.filterMap_eq_map]
  refine List.filterMap_congr ?_
  intro e he
  simp only [Function.comp_apply, hkept e he, trimString]
  rfl

/-- Documents are written as their framed encodings, if they have any. -/
theorem mapM_writeDocument (codec : Codec) (ds : List Document) :
    ds.mapM (writeDocument codec) =
      (ds.mapM fun d => codec.encode (.mapping d.body)).map
        (List.map fun e => separator ++ "\n" ++ endLine e) := by
  induction ds with
  | nil => rfl
  | cons d ds ih =>
    rw [List.mapM_cons, List.mapM_cons, writeDocument, ih]
    cases codec.encode (.mapping d.body) with
    | error f => rfl
    | ok e => cases ds.mapM fun d => codec.encode (.mapping d.body) <;> rfl

/-- The characters of joined frames. -/
theorem join_frames (es : List String) :
    String.join (es.map fun e => separator ++ "\n" ++ endLine e) =
      String.ofList (es.flatMap frame) := by
  have hframe : ∀ e, (separator ++ "\n" ++ endLine e).toList = frame e := by
    intro e
    rw [String.toList_append, String.toList_append, List.append_assoc]
    rfl
  rw [← String.toList_inj, String.toList_join, String.toList_ofList, List.flatMap_map]
  simp only [hframe]

/-- The stream of documents that have encodings consists of these, framed. -/
theorem serializeDocuments_of_encodings {codec : Codec} {g : Graph} {es : List String}
    (hes : List.Forall₂ (fun d e => codec.encode (.mapping d.body) = .ok e) g.toList es) :
    serializeDocuments codec g = .ok (String.ofList (es.flatMap frame)) := by
  rw [serializeDocuments, mapM_writeDocument, mapM_eq_ok_iff.mpr hes, ← join_frames]
  rfl

/-- A fragment is a document if it decodes to a mapping with a kind. -/
theorem parseDocument_eq_ok_iff {codec : Codec} {fragment : String} {d : Document} :
    parseDocument codec fragment = .ok d ↔
      codec.decode fragment = .ok (.mapping d.body) ∧ Document.kindOf? d.body = some d.kind := by
  rw [parseDocument]
  cases codec.decode fragment with
  | error f => simp [bind, Except.bind]
  | ok v => simpa [bind, Except.bind] using Document.ofValue_eq_ok_iff

/-- What every document that is parsed has, all documents of a stream have. -/
theorem forall_of_parseDocuments {codec : Codec} {P : Document → Prop} {text : String}
    {ds : List Document} (hds : parseDocuments codec text = .ok ds)
    (hP : ∀ fragment d, parseDocument codec fragment = .ok d → P d) : ∀ d ∈ ds, P d := by
  have hall := mapM_eq_ok_iff.mp hds
  clear hds
  generalize splitDocuments text = fragments at hall
  induction hall with
  | nil => simp
  | cons hparse _ ih => exact List.forall_mem_cons.mpr ⟨hP _ _ hparse, ih⟩

/-- Fragments are parsed to documents with the given bodies if they decode to these, and each of
these has a kind. -/
theorem exists_parsed_iff {codec : Codec} {fragments : List String} {bodies : List Mapping} :
    (∃ ds, fragments.mapM (parseDocument codec) = .ok ds ∧ ds.map Document.body = bodies) ↔
      List.Forall₂ (fun fragment body => codec.decode fragment = .ok (.mapping body) ∧
        (Document.kindOf? body).isSome) fragments bodies := by
  constructor
  · rintro ⟨ds, hds, rfl⟩
    rw [List.forall₂_map_right_iff]
    refine (mapM_eq_ok_iff.mp hds).imp ?_
    intro fragment d hd
    obtain ⟨hdecode, hkind⟩ := parseDocument_eq_ok_iff.mp hd
    exact ⟨hdecode, by rw [hkind]; rfl⟩
  · intro h
    induction h with
    | nil => exact ⟨[], rfl, rfl⟩
    | @cons fragment body fragments bodies hfirst _ ih =>
      obtain ⟨kind, hkind⟩ := Option.isSome_iff_exists.mp hfirst.2
      obtain ⟨ds, hds, hbodies⟩ := ih
      have hd : parseDocument codec fragment = .ok ⟨kind, body⟩ :=
        parseDocument_eq_ok_iff.mpr ⟨hfirst.1, hkind⟩
      refine ⟨⟨kind, body⟩ :: ds, ?_, by rw [List.map_cons, hbodies]⟩
      exact mapM_eq_ok_iff.mpr (.cons hd (mapM_eq_ok_iff.mp hds))

/-- The stream of documents that have encodings is parsed to these documents if every encoding,
trimmed, decodes to its body and every body has a kind. -/
theorem exists_parsed_frames_iff {codec : Codec} {ds : List Document} {es : List String}
    (hes : ∀ e ∈ es, IsFramable e) :
    (∃ parsed, parseDocuments codec (String.ofList (es.flatMap frame)) = .ok parsed ∧
        parsed.map Document.body = ds.map Document.body) ↔
      List.Forall₂ (fun d e => codec.decode (trimString e) = .ok (.mapping d.body) ∧
        (Document.kindOf? d.body).isSome) ds es := by
  rw [parseDocuments, splitDocuments_frames hes, exists_parsed_iff, List.forall₂_map_left_iff,
    List.forall₂_map_right_iff]
  exact ⟨.flip, .flip⟩

/-- Framing loses nothing, whatever the codec is. If every document has an encoding in which there
is something, but no separator, then the fragments of the stream are these encodings, trimmed, one
for each document and in their order. So the stream is parsed to documents with the same bodies
exactly if every encoding decodes to its body after it has been trimmed, and every body has a
kind. -/
theorem splitDocuments_serializeDocuments (codec : Codec) (g : Graph)
    (hg : ∀ d ∈ g.toList, ∃ e, codec.encode (.mapping d.body) = .ok e ∧ IsFramable e) :
    ∃ text es, serializeDocuments codec g = .ok text ∧
      List.Forall₂ (fun d e => codec.encode (.mapping d.body) = .ok e) g.toList es ∧
      splitDocuments text = es.map trimString ∧
      ((∃ ds, parseDocuments codec text = .ok ds ∧
          ds.map Document.body = g.toList.map Document.body) ↔
        List.Forall₂ (fun d e => codec.decode (trimString e) = .ok (.mapping d.body) ∧
          (Document.kindOf? d.body).isSome) g.toList es) := by
  obtain ⟨es, hencode, hframable⟩ := exists_forall₂ hg
  exact ⟨_, es, serializeDocuments_of_encodings hencode, hencode, splitDocuments_frames hframable,
    exists_parsed_frames_iff hframable⟩

/-- A codec for documents that have nothing but a kind: their text is the kind. -/
def kindCodec : Codec where
  decode text := .ok (.mapping [(Document.kindKey, .string text)])
  encode v :=
    match v with
    | .mapping [(_, .string kind)] => .ok kind
    | _ => .error (.serialization "not a kind")

/-- A document that has nothing but a kind. -/
def bare (kind : String) : Document := ⟨kind, [(Document.kindKey, .string kind)]⟩

/-- Kinds may have several lines, also with dashes, as long as none of them is a separator. The
text need not have a line feed at its end. -/
theorem bare_framed :
    (∀ d ∈ (Graph.ofList [bare "Job\n--- 2", bare "App"]).toList, ∃ e,
      kindCodec.encode (.mapping d.body) = .ok e ∧ IsFramable e) ∧
    ∃ text, serializeDocuments kindCodec (.ofList [bare "Job\n--- 2", bare "App"]) = .ok text ∧
      splitDocuments text = ["Job\n--- 2", "App"] ∧
      ∃ ds, parseDocuments kindCodec text = .ok ds ∧
        ds.map Document.body = [(bare "Job\n--- 2").body, (bare "App").body] := by
  have hframable : ∀ d ∈ (Graph.ofList [bare "Job\n--- 2", bare "App"]).toList, ∃ e,
      kindCodec.encode (.mapping d.body) = .ok e ∧ IsFramable e := by
    refine List.forall_mem_cons.mpr ⟨⟨"Job\n--- 2", rfl, by decide, by decide⟩, ?_⟩
    exact List.forall_mem_cons.mpr ⟨⟨"App", rfl, by decide, by decide⟩, by simp⟩
  obtain ⟨text, es, htext, hencode, hsplit, hparse⟩ := splitDocuments_serializeDocuments _ _ hframable
  obtain rfl : ["Job\n--- 2", "App"] = es := Except.ok.inj (mapM_eq_ok_iff.mpr hencode)
  refine ⟨hframable, text, htext, hsplit, hparse.mpr ?_⟩
  exact .cons ⟨rfl, rfl⟩ (.cons ⟨rfl, rfl⟩ .nil)

end Stream

end ManifestRules
