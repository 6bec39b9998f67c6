import ManifestRules.Proofs.Trimming
import ManifestRules.Stream
import Mathlib.Data.List.Forall2
import Mathlib.Data.String.Basic
/-!
# Fragments of a stream

A stream is cut by bytes: while its lines are gone through, the byte is kept at which the present
part starts, and the byte at which the next line does. These are bytes at which characters start,
and between them lie the lines between two separators (`Stream.forall₂_marks`). So the fragments of a
stream are the runs of its lines without separators, trimmed, and nothing but white space and
separators is lost of it (`Stream.splitDocuments_keeps_text`).
-/

namespace ManifestRules

namespace Text

/-- The characters of a text that are not white space. -/
def inked (s : List Char) : List Char := s.filter fun c => !isBlank c

/-- Behind a text stands what is not white space in it, and then what is not in the next one. -/
theorem inked_append (s t : List Char) : inked (s ++ t) = inked s ++ inked t := List.filter_append ..

/-- In white space there is nothing else. -/
theorem inked_of_blank {s : List Char} (hs : ∀ c ∈ s, isBlank c = true) : inked s = [] := by
  rw [inked, List.filter_eq_nil_iff]
  intro c hc
  simp [hs c hc]

/-- Trimming takes nothing but white space. -/
theorem inked_trim (s : List Char) : inked (trim s) = inked s := by
  obtain ⟨before, behind, hs, hbefore, hbehind⟩ := pads_trim s
  conv_rhs => rw [hs, inked_append, inked_append, inked_of_blank hbefore, inked_of_blank hbehind,
    List.nil_append, List.append_nil]

end Text

namespace Stream

open Text

/-- The texts between the separator lines, one more than there are such lines. -/
def pieces : List (List Char) → List (List Char)
  | [] => [[]]
  | line :: rest =>
    if isSeparator line then [] :: pieces rest
    else
      match pieces rest with
      | [] => [line]
      | piece :: more => (line ++ piece) :: more

/-- The trimmed pieces of a stream that are not empty. -/
def fragmentsOf (ps : List (List Char)) : List String :=
  (ps.map trim).filterMap fun piece => if piece.isEmpty then none else some (String.ofList piece)

/-- There is always a piece. -/
theorem pieces_ne_nil (ls : List (List Char)) : pieces ls ≠ [] := by
  cases ls with
  | nil => simp [pieces]
  | cons line ls =>
    rw [pieces]
    split
    · exact List.cons_ne_nil _ _
    · cases pieces ls <;> exact List.cons_ne_nil _ _

/-- A separator stands behind an empty piece. -/
theorem pieces_cons_of_separator {line : List Char} (hline : isSeparator line = true)
    (rest : List (List Char)) : pieces (line :: rest) = [] :: pieces rest := by
  rw [pieces, if_pos hline]

/-- Any other line is at the start of the first piece. -/
theorem pieces_cons_of_not_separator {line piece : List Char} {rest more : List (List Char)}
    (hline : isSeparator line = false) (hrest : pieces rest = piece :: more) :
    pieces (line :: rest) = (line ++ piece) :: more := by
  rw [pieces, hrest, hline, if_neg Bool.false_ne_true]

/-- The pieces are the runs of lines between separators. -/
theorem pieces_eq_map_splitOnP (ls : List (List Char)) :
    pieces ls = (ls.splitOnP isSeparator).map List.flatten := by
  induction ls with
  | nil => rfl
  | cons line rest ih =>
    rw [List.splitOnP_cons_eq_if_modifyHead]
    cases hline : isSeparator line with
    | true => rw [pieces_cons_of_separator hline, ih, if_pos rfl, List.map_cons, List.flatten_nil]
    | false =>
      obtain ⟨run, runs, hruns⟩ := List.exists_cons_of_ne_nil (List.splitOnP_ne_nil isSeparator rest)
      rw [hruns, List.map_cons] at ih
      rw [pieces_cons_of_not_separator hline ih, hruns, if_neg Bool.false_ne_true,
        List.modifyHead_cons, List.map_cons, List.flatten_cons]

/-- The pieces hold all lines but the separators. -/
theorem flatten_pieces (ls : List (List Char)) :
    (pieces ls).flatten = (ls.filter fun line => !isSeparator line).flatten := by
  induction ls with
  | nil => rfl
  | cons line rest ih =>
    cases hline : isSeparator line with
    | true =>
      rw [pieces_cons_of_separator hline, List.flatten_cons, ih, List.filter_cons, hline]
      rfl
    | false =>
      obtain ⟨piece, more, hrest⟩ := List.exists_cons_of_ne_nil (pieces_ne_nil rest)
      rw [hrest, List.flatten_cons] at ih
      rw [pieces_cons_of_not_separator hline hrest, List.flatten_cons, List.append_assoc, ih,
        List.filter_cons, hline]
      rfl

/-- An extent marks a piece of a text: it starts and ends with it. -/
def Extent.Marks (text : String) (e : Extent) (piece : List Char) : Prop :=
  ∃ before behind, text.toList = before ++ piece ++ behind ∧
    e.start = ⟨String.utf8Len before⟩ ∧ e.stop = ⟨String.utf8Len before + String.utf8Len piece⟩

namespace Extent

variable {text : String} {e : Extent} {piece : List Char}

/-- What stands in an extent is the piece that it marks. -/
theorem Marks.content (h : e.Marks text piece) : e.content text = piece := by
  obtain ⟨before, behind, htext, hstart, hstop⟩ := h
  rw [Extent.content, hstart, hstop, ← String.ofList_toList (s := text), htext,
    String.extract_of_valid, String.toList_ofList]

/-- An extent that marks a piece lies in the text, and characters start at its ends. -/
theorem Marks.valid (h : e.Marks text piece) : e.start ≤ e.stop ∧ e.stop ≤ text.rawEndPos ∧
    e.start.IsValid text ∧ e.stop.IsValid text := by
  obtain ⟨before, behind, htext, hstart, hstop⟩ := h
  have hend : e.stop.IsValid text := by
    refine String.Pos.Raw.isValid_iff_exists_append.mpr
      ⟨String.ofList (before ++ piece), String.ofList behind, ?_, ?_⟩
    · rw [← String.ofList_append, ← htext, String.ofList_toList]
    · rw [hstop, String.rawEndPos_ofList, String.utf8Len_append]
  refine ⟨?_, hend.le_rawEndPos, ?_, hend⟩
  · rw [hstart, hstop, String.Pos.Raw.le_iff]
    exact Nat.le_add_right _ _
  · refine String.Pos.Raw.isValid_iff_exists_append.mpr
      ⟨String.ofList before, String.ofList (piece ++ behind), ?_, ?_⟩
    · rw [← String.ofList_append, ← List.append_assoc, ← htext, String.ofList_toList]
    · rw [hstart, String.rawEndPos_ofList]

end Extent

/-- The byte behind a line is where the text before it ends, with the line. -/
theorem offset_line (before line : List Char) :
    (⟨String.utf8Len before⟩ : String.Pos.Raw) + String.ofList line =
      ⟨String.utf8Len (before ++ line)⟩ := by
  rw [String.utf8Len_append, String.Pos.Raw.ext_iff, String.Pos.Raw.byteIdx_add_string,
    String.utf8ByteSize_ofList]

/-- While the lines of a text are gone through, the part before the present piece and the lines of
that piece so far say at which bytes it starts and the next line does. -/
theorem marks_extentsFrom {text : String} (ls : List (List Char)) (before opened : List Char)
    {piece : List Char} {more : List (List Char)}
    (htext : text.toList = before ++ opened ++ ls.flatten) (hpieces : pieces ls = piece :: more) :
    List.Forall₂ (Extent.Marks text)
      (extentsFrom ⟨String.utf8Len before⟩ ⟨String.utf8Len (before ++ opened)⟩ text.rawEndPos ls)
      ((opened ++ piece) :: more) := by
  induction ls generalizing before opened piece more with
  | nil =>
    obtain ⟨rfl, rfl⟩ := List.cons.inj hpieces
    refine .cons ⟨before, [], by simpa using htext, rfl, ?_⟩ .nil
    rw [← String.ofList_toList (s := text), htext, String.rawEndPos_ofList]
    simp
  | cons line rest ih =>
    rw [extentsFrom, offset_line, List.append_assoc]
    cases hline : isSeparator line with
    | true =>
      rw [pieces_cons_of_separator hline] at hpieces
      obtain ⟨rfl, rfl⟩ := List.cons.inj hpieces
      obtain ⟨next, others, hrest⟩ := List.exists_cons_of_ne_nil (pieces_ne_nil rest)
      rw [if_pos rfl, List.append_nil, hrest]
      -- The next piece has no lines yet: it starts where the next line does.
      have hnext := ih (before ++ (opened ++ line)) [] (by simp [htext]) hrest
      rw [List.append_nil] at hnext
      refine .cons ⟨before, line ++ rest.flatten, ?_, rfl, ?_⟩ hnext
      · rw [htext, List.flatten_cons]
      · rw [String.utf8Len_append]
    | false =>
      obtain ⟨next, others, hrest⟩ := List.exists_cons_of_ne_nil (pieces_ne_nil rest)
      rw [pieces_cons_of_not_separator hline hrest] at hpieces
      obtain ⟨rfl, rfl⟩ := List.cons.inj hpieces
      rw [if_neg Bool.false_ne_true, ← List.append_assoc opened]
      exact ih before (opened ++ line) (by simp [htext]) hrest

/-- The extents of a text mark its pieces. -/
theorem forall₂_marks (text : String) :
    List.Forall₂ (Extent.Marks text) (extents text) (pieces (lines text.toList)) := by
  obtain ⟨piece, more, hpieces⟩ := List.exists_cons_of_ne_nil (pieces_ne_nil (lines text.toList))
  have hmarks := marks_extentsFrom (lines text.toList) [] [] (flatten_lines _).symm hpieces
  rwa [hpieces]

/-- What stands in the extents of a text is its pieces. -/
theorem map_content_extents (text : String) :
    (extents text).map (fun e => e.content text) = pieces (lines text.toList) := by
  rw [← List.forall₂_eq_eq_eq, List.forall₂_map_left_iff]
  exact (forall₂_marks text).imp fun _ _ h => h.content

/-- The fragments of a text are those of its pieces. -/
theorem splitDocuments_eq (text : String) :
    splitDocuments text = fragmentsOf (pieces (lines text.toList)) := by
  rw [splitDocuments, fragmentsOf, ← map_content_extents, List.map_map]
  rfl

/-- The fragments of pieces, the empty ones left out by a filter. -/
theorem fragmentsOf_eq_map_filter (ps : List (List Char)) :
    fragmentsOf ps = ((ps.map trim).filter fun piece => !piece.isEmpty).map String.ofList := by
  rw [fragmentsOf]
  induction ps.map trim with
  | nil => rfl
  | cons piece rest ih =>
    rw [List.filterMap_cons, List.filter_cons]
    cases piece.isEmpty <;> simpa using ih

/-- No fragment is empty, and none has white space around it. -/
theorem of_mem_fragmentsOf {ps : List (List Char)} {fragment : String}
    (h : fragment ∈ fragmentsOf ps) : fragment ≠ "" ∧ trimString fragment = fragment := by
  rw [fragmentsOf_eq_map_filter, List.mem_map] at h
  obtain ⟨trimmed, hkept, rfl⟩ := h
  obtain ⟨hmem, hne⟩ := List.mem_filter.mp hkept
  obtain ⟨piece, -, rfl⟩ := List.mem_map.mp hmem
  constructor
  · intro hempty
    rw [String.ofList_eq_empty_iff] at hempty
    simp [hempty] at hne
  · rw [trimString, String.toList_ofList, (isTrimmed_trim piece).trim_eq]

/-- The fragments hold all that is not white space in the pieces. -/
theorem inked_fragmentsOf (ps : List (List Char)) :
    (fragmentsOf ps).flatMap (fun fragment => inked fragment.toList) = inked ps.flatten := by
  induction ps with
  | nil => rfl
  | cons piece rest ih =>
    rw [List.flatten_cons, inked_append, ← ih, ← inked_trim piece, fragmentsOf, List.map_cons,
      List.filterMap_cons]
    cases htrim : trim piece with
    | nil => rfl
    | cons c kept => rw [List.isEmpty_cons, if_neg Bool.false_ne_true, List.flatMap_cons,
        String.toList_ofList, fragmentsOf]

/-- A stream loses nothing but white space and separators when it is split. Its fragments are the runs
of lines without a separator, each run joined, trimmed, and left out if nothing is left of it. The
runs are cut from the text at bytes in it at which characters start. No fragment is empty or has
white space around it, and the characters of the fragments that are not white space are those of all
lines but the separators. -/
theorem splitDocuments_keeps_text (text : String) :
    splitDocuments text =
      ((((lines text.toList).splitOnP isSeparator).map fun run => trim run.flatten).filter
        fun piece => !piece.isEmpty).map String.ofList ∧
    (extents text).map (fun e => e.content text) =
      ((lines text.toList).splitOnP isSeparator).map List.flatten ∧
    (∀ e ∈ extents text, e.start ≤ e.stop ∧ e.stop ≤ text.rawEndPos ∧
      e.start.IsValid text ∧ e.stop.IsValid text) ∧
    (∀ fragment ∈ splitDocuments text, fragment ≠ "" ∧ trimString fragment = fragment) ∧
    (splitDocuments text).flatMap (fun fragment => inked fragment.toList) =
      inked ((lines text.toList).filter fun line => !isSeparator line).flatten := by
  rw [splitDocuments_eq]
  refine ⟨?_, ?_, ?_, fun _ hfragment => of_mem_fragmentsOf hfragment, ?_⟩
  · rw [fragmentsOf_eq_map_filter, pieces_eq_map_splitOnP, List.map_map]
    rfl
  · rw [map_content_extents, pieces_eq_map_splitOnP]
  · have hvalid := (forall₂_marks text).imp fun _ _ hmarks => And.intro hmarks.valid hmarks
    exact ((List.forall₂_and_left _ _).mp hvalid).1
  · rw [inked_fragmentsOf, flatten_pieces]

/-- The first separator stands behind four bytes and has nine, and no line stands between it and the
second one. -/
example : extents "ä\r\n--- # ö\n---" = [⟨⟨0⟩, ⟨4⟩⟩, ⟨⟨13⟩, ⟨13⟩⟩, ⟨⟨16⟩, ⟨16⟩⟩] := by
  decide +kernel

end Stream

end ManifestRules
