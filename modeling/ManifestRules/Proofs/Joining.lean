import ManifestRules.Input
import ManifestRules.Proofs.Framing
/-!
# Joining

Texts are joined by separator lines. Whatever a text ends with, the line feed of the joint closes its
last line, so that the separator has a line of its own (`Stream.splitDocuments_joint`). The
fragments of joined texts are therefore those of every text, one text after the other, and the
documents of the input at a location are those of its files (`Input.parseDocuments_loadFrom`).
-/

namespace ManifestRules

section Traversals

variable {α β : Type}

/-- A traversal fails exactly if an item fails, with the failure of the first such item. -/
theorem mapM_eq_error_iff {f : α → Except Error β} {l : List α} {fault : Error} :
    l.mapM f = .error fault ↔ ∃ before a behind, l = before ++ a :: behind ∧
      (∀ x ∈ before, ∃ b, f x = .ok b) ∧ f a = .error fault := by
  induction l with
  | nil => simp [pure, Except.pure]
  | cons x l ih =>
    cases hx : f x with
    | error other =>
      have hfirst : (x :: l).mapM f = .error fault ↔ other = fault := by
        rw [List.mapM_cons, hx]
        simp [bind, Except.bind]
      rw [hfirst]
      constructor
      · rintro rfl
        exact ⟨[], x, l, rfl, by simp, hx⟩
      · rintro ⟨before, a, behind, hl, hbefore, ha⟩
        cases before with
        | nil =>
          obtain ⟨rfl, -⟩ := List.cons.inj hl
          exact Except.error.inj (hx.symm.trans ha)
        | cons y before =>
          obtain ⟨rfl, -⟩ := List.cons.inj hl
          obtain ⟨b, hb⟩ := hbefore x List.mem_cons_self
          cases hx.symm.trans hb
    | ok b =>
      have hrest : (x :: l).mapM f = .error fault ↔ l.mapM f = .error fault := by
        rw [List.mapM_cons, hx]
        cases l.mapM f <;> simp [bind, Except.bind, pure, Except.pure]
      rw [hrest, ih]
      constructor
      · rintro ⟨before, a, behind, rfl, hbefore, ha⟩
        exact ⟨x :: before, a, behind, rfl, List.forall_mem_cons.mpr ⟨⟨b, hx⟩, hbefore⟩, ha⟩
      · rintro ⟨before, a, behind, hl, hbefore, ha⟩
        cases before with
        | nil =>
          obtain ⟨rfl, -⟩ := List.cons.inj hl
          cases hx.symm.trans ha
        | cons y before =>
          obtain ⟨rfl, rfl⟩ := List.cons.inj hl
          exact ⟨before, a, behind, rfl, (List.forall_mem_cons.mp hbefore).2, ha⟩

/-- To go through the parts of all items is to go through the parts of each item in turn. -/
theorem mapM_flatMap {γ : Type} (parts : γ → List α) (f : α → Except Error β) (l : List γ) :
    (l.flatMap parts).mapM f = (l.mapM fun c => (parts c).mapM f).map List.flatten := by
  induction l with
  | nil => rfl
  | cons c l ih =>
    rw [List.flatMap_cons, List.mapM_append, List.mapM_cons, ih]
    cases (parts c).mapM f with
    | error fault => rfl
    | ok bs => cases l.mapM fun c => (parts c).mapM f <;> rfl

end Traversals

namespace Stream

open Text

/-- The fragments of two lists of pieces come one after the other. -/
theorem fragmentsOf_append (ps qs : List (List Char)) :
    fragmentsOf (ps ++ qs) = fragmentsOf ps ++ fragmentsOf qs := by
  rw [fragmentsOf, List.map_append, List.filterMap_append]
  rfl

/-- A separator parts the pieces of the lines before it from those of the lines behind it. -/
theorem pieces_append_separator {separator : List Char} (hseparator : isSeparator separator = true)
    (ls more : List (List Char)) :
    pieces (ls ++ separator :: more) = pieces ls ++ pieces more := by
  induction ls with
  | nil => exact pieces_cons_of_separator hseparator more
  | cons line ls ih =>
    rw [List.cons_append, pieces, pieces, ih]
    split
    · rfl
    · obtain ⟨piece, rest, hpieces⟩ := List.exists_cons_of_ne_nil (pieces_ne_nil ls)
      simp only [hpieces, List.cons_append]

/-- A text is another one, perhaps with a line feed more at its end. -/
def MayEndLine (p q : List Char) : Prop := q = p ∨ q = p ++ ['\n']

/-- A line feed at the end of pieces does not show in their fragments. -/
theorem fragmentsOf_congr {ps qs : List (List Char)} (h : List.Forall₂ MayEndLine ps qs) :
    fragmentsOf qs = fragmentsOf ps := by
  have htrim : qs.map trim = ps.map trim := by
    induction h with
    | nil => rfl
    | @cons p q ps qs hpq _ ih =>
      have hsame : trim q = trim p := by
        rcases hpq with rfl | rfl
        · rfl
        · exact trim_append (List.all_eq_true.mp (by decide))
      rw [List.map_cons, List.map_cons, ih, hsame]
  rw [fragmentsOf, htrim, fragmentsOf]

/-- Pieces that may end a line are joined to lines before them as before. -/
theorem pieces_append_congr {more more' : List (List Char)}
    (h : List.Forall₂ MayEndLine (pieces more) (pieces more')) (ls : List (List Char)) :
    List.Forall₂ MayEndLine (pieces (ls ++ more)) (pieces (ls ++ more')) := by
  induction ls with
  | nil => exact h
  | cons line ls ih =>
    rw [List.cons_append, List.cons_append, pieces, pieces]
    split
    · exact .cons (.inl rfl) ih
    · cases hp : pieces (ls ++ more) with
      | nil => exact absurd hp (pieces_ne_nil _)
      | cons p ps =>
        rw [hp] at ih
        cases hq : pieces (ls ++ more') with
        | nil => exact absurd hq (pieces_ne_nil _)
        | cons q qs =>
          rw [hq] at ih
          obtain ⟨hfirst, hrest⟩ := List.forall₂_cons.mp ih
          refine .cons ?_ hrest
          rcases hfirst with rfl | rfl
          · exact .inl rfl
          · exact .inr (List.append_assoc ..).symm

/-- The pieces of a single line. -/
theorem pieces_singleton (line : List Char) :
    pieces [line] = if isSeparator line = true then [[], []] else [line] := by
  simp [pieces]

/-- A line feed behind a text ends its last piece and changes nothing else: it belongs to the last
line, or is an empty line of its own. -/
theorem pieces_lineFeed (s : List Char) :
    List.Forall₂ MayEndLine (pieces (lines s)) (pieces (lines (s ++ ['\n']))) := by
  by_cases hs : s.getLast? = some '\n'
  · have hend : ∀ c, s.getLast? = some c → c = '\n' := fun c hc => Option.some.inj (hc.symm.trans hs)
    have hempty : List.Forall₂ MayEndLine (pieces []) (pieces (lines ['\n'])) :=
      .cons (.inr rfl) .nil
    have hlines := pieces_append_congr hempty (lines s)
    rwa [List.append_nil, ← lines_append hend] at hlines
  · rw [lines_concat hs]
    rcases List.eq_nil_or_concat (lines s) with hnil | ⟨ls, line, hlast⟩
    · rw [hnil]
      exact .cons (.inr rfl) .nil
    · have hline : List.Forall₂ MayEndLine (pieces [line]) (pieces [line ++ ['\n']]) := by
        rw [pieces_singleton, pieces_singleton, isSeparator_concat]
        split
        · exact .cons (.inl rfl) (.cons (.inl rfl) .nil)
        · exact .cons (.inr rfl) .nil
      have hlines := pieces_append_congr hline ls
      rw [hlast]
      simpa using hlines

/-- The fragments of two texts with a joint between them are those of the one and those of the
other, whatever the one ends or the other begins with. -/
theorem splitDocuments_joint (a b : String) :
    splitDocuments (a ++ Input.joint ++ b) = splitDocuments a ++ splitDocuments b := by
  have hseparator : isSeparator (separator.toList ++ ['\n']) = true := by decide
  have htext : (a ++ Input.joint ++ b).toList =
      (a.toList ++ ['\n']) ++ ((separator.toList ++ ['\n']) ++ b.toList) := by
    simp [Input.joint]
  have hlines : lines (a ++ Input.joint ++ b).toList =
      lines (a.toList ++ ['\n']) ++ (separator.toList ++ ['\n']) :: lines b.toList := by
    have hbehind : lines ((separator.toList ++ ['\n']) ++ b.toList) =
        (separator.toList ++ ['\n']) :: lines b.toList := by
      rw [lines_append (by simp)]
      rfl
    rw [htext, lines_append (by simp), hbehind]
  calc splitDocuments (a ++ Input.joint ++ b)
      = fragmentsOf (pieces (lines (a ++ Input.joint ++ b).toList)) := splitDocuments_eq _
    _ = fragmentsOf (pieces (lines (a.toList ++ ['\n']))) ++
          fragmentsOf (pieces (lines b.toList)) := by
        rw [hlines, pieces_append_separator hseparator, fragmentsOf_append]
    _ = splitDocuments a ++ splitDocuments b := by
        rw [fragmentsOf_congr (pieces_lineFeed a.toList), splitDocuments_eq, splitDocuments_eq]

/-- The fragments of joined texts are those of every text in turn. -/
theorem splitDocuments_intercalate (texts : List String) :
    splitDocuments (Input.joint.intercalate texts) = texts.flatMap splitDocuments := by
  induction texts with
  | nil => rfl
  | cons text texts ih =>
    cases texts with
    | nil => simp
    | cons next texts =>
      rw [String.intercalate_cons_cons, splitDocuments_joint, ih, ← List.flatMap_cons]

/-- The one text ends in a separator with a comment, and the other begins with a separator. -/
example : splitDocuments (Input.joint.intercalate ["kind: A\r\n--- # end", "--- \nkind: B"]) =
    ["kind: A", "kind: B"] := by decide +kernel

/-- The documents of joined texts are those of every text in turn. -/
theorem parseDocuments_intercalate (codec : Codec) (texts : List String) :
    parseDocuments codec (Input.joint.intercalate texts) =
      (texts.mapM (parseDocuments codec)).map List.flatten := by
  rw [parseDocuments, splitDocuments_intercalate, mapM_flatMap]
  rfl

/-- A failure comes from the first bad fragment of the texts: all texts before its own one are
parsed, and so are all fragments before it. -/
def IsFirstFault (codec : Codec) (texts : List String) (fault : Error) : Prop :=
  ∃ before text behind, texts = before ++ text :: behind ∧
    (∀ t ∈ before, ∃ ds, parseDocuments codec t = .ok ds) ∧
    ∃ good bad more, splitDocuments text = good ++ bad :: more ∧
      (∀ fragment ∈ good, ∃ d, parseDocument codec fragment = .ok d) ∧
      parseDocument codec bad = .error fault

/-- Joined texts fail to be parsed exactly for their first bad fragment. -/
theorem parseDocuments_intercalate_eq_error_iff {codec : Codec} {texts : List String}
    {fault : Error} :
    parseDocuments codec (Input.joint.intercalate texts) = .error fault ↔
      IsFirstFault codec texts fault := by
  have hmap : (texts.mapM (parseDocuments codec)).map List.flatten = .error fault ↔
      texts.mapM (parseDocuments codec) = .error fault := by
    cases texts.mapM (parseDocuments codec) <;> simp [Except.map]
  rw [parseDocuments_intercalate, hmap, mapM_eq_error_iff, IsFirstFault]
  simp only [parseDocuments, mapM_eq_error_iff]

/-- Joined texts are parsed to the documents of every text in turn, if all of them are parsed. -/
theorem parseDocuments_intercalate_eq_ok_iff {codec : Codec} {texts : List String}
    {ds : List Document} :
    parseDocuments codec (Input.joint.intercalate texts) = .ok ds ↔
      ∃ parts, List.Forall₂ (fun text part => parseDocuments codec text = .ok part) texts parts ∧
        ds = parts.flatten := by
  rw [parseDocuments_intercalate]
  constructor
  · intro h
    cases hparts : texts.mapM (parseDocuments codec) with
    | error fault => simp [hparts, Except.map] at h
    | ok parts =>
      rw [hparts] at h
      exact ⟨parts, mapM_eq_ok_iff.mp hparts, (Except.ok.inj h).symm⟩
  · rintro ⟨parts, hparts, rfl⟩
    rw [mapM_eq_ok_iff.mpr hparts]
    rfl

end Stream

namespace Input

variable {m : Type → Type} [Monad m]

/-- The texts of the files that the input at a location is joined from, in their order. -/
def loadTexts (fs : Files m) (location : String) : ExceptT Error m (List String) := do
  match ← fs.kind location with
  | some .file => pure [← readFile fs location]
  | some .directory =>
    let locations ← manifestFiles fs location
    if locations.isEmpty then
      throw (.input ("no *.yaml or *.yml files found under " ++ location))
    locations.mapM (readFile fs)
  | _ => throw (.input (location ++ " does not exist"))

/-- The input at a location is joined from the texts of its files. -/
theorem loadFrom_eq_map [LawfulMonad m] (fs : Files m) (location : String) :
    loadFrom fs location = joint.intercalate <$> loadTexts fs location := by
  have hfail : ∀ f : Error, joint.intercalate <$> (throw f : ExceptT Error m (List String)) =
      throw f := by
    intro f
    exact ExceptT.ext (by simp)
  rw [loadFrom, loadTexts, map_bind]
  congr 1
  funext kind
  cases kind with
  | none => exact (hfail _).symm
  | some kind =>
    cases kind with
    | file => simp
    | directory =>
      dsimp only
      rw [map_bind]
      congr 1
      funext locations
      by_cases hnone : locations.isEmpty
      · simp [hnone, hfail]
      · simp [hnone]
    | special => exact (hfail _).symm

/-- Files are joined without mixing their documents, whatever their texts end or begin with. The
fragments of joined texts are those of every text in turn. So joined texts are parsed to the
documents of every text in turn, or fail as the first bad document among them does; and the documents
of the input at a location, a directory for instance, are the own documents of each of its files, in
the order of the files. -/
theorem parseDocuments_loadFrom :
    (∀ texts, Stream.splitDocuments (joint.intercalate texts) =
      texts.flatMap Stream.splitDocuments) ∧
    (∀ codec texts ds, Stream.parseDocuments codec (joint.intercalate texts) = .ok ds ↔
      ∃ parts, List.Forall₂ (fun text part => Stream.parseDocuments codec text = .ok part)
        texts parts ∧ ds = parts.flatten) ∧
    (∀ codec texts fault, Stream.parseDocuments codec (joint.intercalate texts) = .error fault ↔
      Stream.IsFirstFault codec texts fault) ∧
    ∀ {m : Type → Type} [Monad m] [LawfulMonad m] (fs : Files m) (codec : Codec) (location : String),
      (do
        let text ← loadFrom fs location
        ExceptT.mk (pure (Stream.parseDocuments codec text))) =
      (do
        let texts ← loadTexts fs location
        let parts ← ExceptT.mk (pure (texts.mapM (Stream.parseDocuments codec)))
        pure parts.flatten : ExceptT Error m (List Document)) := by
  refine ⟨Stream.splitDocuments_intercalate, fun _ _ _ => Stream.parseDocuments_intercalate_eq_ok_iff,
    fun _ _ _ => Stream.parseDocuments_intercalate_eq_error_iff, ?_⟩
  intro m _ _ fs codec location
  rw [loadFrom_eq_map, bind_map_left]
  congr 1
  funext texts
  rw [Stream.parseDocuments_intercalate]
  cases texts.mapM (Stream.parseDocuments codec) with
  | error fault => exact ExceptT.ext (by simp [Except.map])
  | ok parts => exact ExceptT.ext (by simp [Except.map])

end Input

end ManifestRules
