import ManifestRules.Proofs.RoundTrip
import ManifestRules.Proofs.Slack.LastText
import ManifestRules.Template.Helper
/-!
# YAML text without the line feed at its end

A value that is put into a template as YAML text loses all white space at the end of the text, not
only the line feed there. This makes no difference to what is decoded if the scalar that is written
last is in quotes or does not end in white space (`Template.decode_yamlText`). In quotes nothing is
lost: only a block takes the line feed along, and no block that ends with the text has been read as
a text in quotes, or as one that has the word for the lack of a value behind it
(`Yaml.not_takesAlong`).
-/

namespace ManifestRules

open Text

/-- A value is written so that the text at its end is not lost with the white space there: a text
that is written last is in quotes or does not end in white space. -/
def Value.KeepsEnd (v : Value) : Prop := ∀ s, v.closing? = some s → Yaml.Written.keepsEnd s = true

/-- It can be tried out whether a value keeps its end. -/
instance (v : Value) : Decidable v.KeepsEnd :=
  decidable_of_iff (v.closing?.all Yaml.Written.keepsEnd = true) (Option.all_eq_true _ _)

namespace Yaml

namespace Written

/-- What is written for a text starts with something else than a line feed. -/
theorem head?_text_append_ne (indent : Nat) (s : String) (r : List Char) :
    (text indent s ++ r).head? ≠ some '\n' := by
  rw [text]
  cases hstyle : ScalarStyle.ofText s with
  | plain =>
    have hfeed : '\n' ∉ s.toList := by
      intro hfeed
      obtain hblock | hdouble := style_of_lineFeed hfeed
      · cases hstyle.symm.trans hblock
      · cases hstyle.symm.trans hdouble
    have hne : s.toList ≠ [] := ne_nil_of_style (by rw [hstyle]; decide)
    obtain ⟨c, rest, hs⟩ := List.exists_cons_of_ne_nil hne
    rw [hs, List.mem_cons, not_or] at hfeed
    simpa [hs] using Ne.symm hfeed.1
  | single => simp [single]
  | double => simp [double]
  | literal => simp [literal, literalHeader]

/-- The row of a scalar starts with something else than a line feed, apart from the space. -/
theorem head?_endRow_ne {s : List Char} (hs : IsSolid s) : (endRow s).head? ≠ some '\n' := by
  obtain ⟨c, rest, rfl⟩ := List.exists_cons_of_ne_nil hs.ne_nil
  have hc := hs.isBlank_of_mem List.mem_cons_self
  have hne : c ≠ '\n' := by
    rintro rfl
    cases hc
  rw [endRow]
  split <;> simpa using hne

/-- What is written for a value starts with something else than a line feed. -/
theorem head?_node_root_ne (v : Value) : ((node Place.root v).drop 1).head? ≠ some '\n' := by
  match v with
  | .null | .sequence [] | .mapping [] => decide
  | .bool b => cases b <;> decide
  | .number n => exact head?_endRow_ne (isSolid_number n)
  | .string s =>
    have hnone := head?_text_append_ne Place.root.scalarAt s []
    have hfeed := head?_text_append_ne Place.root.scalarAt s ['\n']
    rw [List.append_nil] at hnone
    change (endRow (text Place.root.scalarAt s)).head? ≠ some '\n'
    rw [endRow]
    split
    · exact hnone
    · exact hfeed
  | .sequence (first :: more) => exact fun h => by cases h
  | .mapping ((k, v) :: more) =>
    change (entries 0 ((k, v) :: more)).head? ≠ some '\n'
    rw [entries]
    split
    · rename_i hk
      have hfeed := (isWord_simpleKey k hk).lineFeed
      rw [List.append_assoc]
      cases hkey : simpleKey k with
      | nil => simp
      | cons c rest =>
        rw [hkey, List.mem_cons, not_or] at hfeed
        simpa using Ne.symm hfeed.1
    · simp
  | .tagged t inner =>
    obtain ⟨rest, hrest⟩ := exists_tag_eq t
    rw [node, hrest]
    exact fun h => by cases h

end Written

/-- If a value keeps its end, then it is written as a text that does not end in white space, with a
line feed behind it. -/
theorem exists_write_eq {v : Value} (hv : v.KeepsEnd) :
    ∃ front c, (write v).toList = front ++ [c] ++ ['\n'] ∧ isBlank c = false := by
  obtain ⟨front, c, hnode, hc⟩ := (Written.endsIn_node Written.Place.root v).endsRow hv
  obtain ⟨rest, hspace⟩ := Written.exists_node_eq (p := Written.Place.root) rfl v
  rw [write, String.toList_ofList, hspace, List.drop_one, List.tail_cons]
  cases front with
  | nil =>
    obtain ⟨rfl, -⟩ := List.cons.inj (hspace.symm.trans hnode)
    cases hc
  | cons d front =>
    obtain ⟨-, rfl⟩ := List.cons.inj (hspace.symm.trans hnode)
    exact ⟨front, c, by simp, hc⟩

/-- The text that stands last in a value and has a line feed is written in front of the rows of
values that are not there. -/
theorem exists_write_eq_text {v : Value} {s : String} (hv : v.lastText? = some s)
    (hs : '\n' ∈ s.toList) :
    ∃ front n columns, (write v).toList =
        front ++ (Written.endRow (Written.text n s) ++ Written.nullRows columns) ∧
      (columns = [] → v.closing? = some s) := by
  obtain ⟨front, n, columns, hnode, hclosing⟩ := Written.endsInText_node Written.Place.root v hv hs
  rw [write, String.toList_ofList, hnode, Written.scalarRow]
  cases front with
  | nil => exact ⟨[], n, columns, rfl, hclosing⟩
  | cons c front => exact ⟨front ++ [' '], n, columns, by simp, hclosing⟩

/-- A value that keeps its end does not end in a text that could have taken the line feed along. -/
theorem not_takesAlong {v : Value} (hv : v.KeepsEnd) {base : List Char}
    (hwrite : (write v).toList = base ++ ['\n']) {s : String} (hs : v.lastText? = some s) :
    ¬ TakesAlong base ['\n'] s.toList := by
  rintro ⟨block, gap, hparts, hne, hgap, hback⟩
  rw [(hgap.feed rfl).resolve_left hne] at hparts
  have hlast : s.toList.getLast? = some '\n' := by rw [hparts, List.getLast?_concat]
  have hfeed := List.mem_of_getLast? hlast
  obtain ⟨front, n, columns, hrows, hclosing⟩ := exists_write_eq_text hs hfeed
  rw [hwrite] at hrows
  obtain hliteral | hdouble := Written.style_of_lineFeed hfeed
  · have hcolumns : columns ≠ [] := by
      intro hnil
      have hfirm := Written.getLast?_of_keepsEnd (hv s (hclosing hnil)) (by rw [hliteral]; rfl)
      rw [hlast] at hfirm
      cases hfirm
    have hrow : Written.endRow (Written.text n s) =
        Written.literalHeader s.toList ++ '\n' :: Written.padLines n true s.toList := by
      have hend : (Written.literal n s.toList).getLast? = some '\n' := by
        rw [Written.literal, List.getLast?_append, List.getLast?_cons, Written.getLast?_padLines,
          hlast]
        rfl
      simp only [Written.endRow, Written.text, hliteral, hend]
      rfl
    rw [hrow, List.append_assoc, ← List.append_assoc front] at hrows
    refine Written.not_reachesBack_of_lines ?_ hcolumns hrows hback
    rw [Written.solids_padLines, hparts, solids_append]
    exact List.append_nil _
  · have hquote : (Written.double s.toList).getLast? = some '"' := by
      rw [Written.double, ← List.cons_append, List.getLast?_concat]
    have hrow : Written.endRow (Written.text n s) = Written.double s.toList ++ ['\n'] := by
      simp only [Written.endRow, Written.text, hdouble, hquote]
      rfl
    rw [hrow, List.append_assoc] at hrows
    exact Written.not_reachesBack_of_double hparts hdouble hrows hback

/-- A value is decoded from what is written for it without the white space at the end, if it is
decoded from that as it is and keeps its end. -/
theorem decode_trimEnd_write {v : Value} (hv : decode (write v) = .ok v) (hends : v.KeepsEnd) :
    decode (trimEndString (write v)) = .ok v := by
  obtain ⟨front, c, hwrite, hc⟩ := exists_write_eq hends
  have htrim : (trimEndString (write v)).toList = front ++ [c] := by
    rw [trimEndString, String.toList_ofList, hwrite,
      trimEnd_append (List.forall_mem_singleton.mpr rfl)]
    simp [trimEnd, hc]
  have hhead : (front ++ [c] ++ ['\n']).head? ≠ some '\n' := by
    rw [← hwrite, write, String.toList_ofList]
    exact Written.head?_node_root_ne v
  have hfirm : ∀ d, (front ++ [c]).getLast? = some d → isGap d = false := by
    intro d hd
    rw [List.getLast?_concat, Option.some_inj] at hd
    have hblank : (some d).any isBlank = false := hd ▸ hc
    exact any_isGap_of_any_isBlank hblank
  cases hts : Token.ofText (write v).toList with
  | error fault =>
    rw [decode, Node.ofText, hts] at hv
    cases hv
  | ok ts =>
    have hwhole : Token.ofText ([] ++ (front ++ [c] ++ ['\n'])) = .ok ts := by
      rwa [List.nil_append, ← hwrite]
    have htail : ∀ ch ∈ ['\n'], isGap ch = true := List.forall_mem_singleton.mpr rfl
    obtain ⟨us, hus, hsame⟩ := Token.exists_ofText (by decide) hhead hfirm htail hwhole
    rw [← htrim] at hus
    exact decode_of_sameButEnd hts hus hsame hv fun s hs => not_takesAlong hends hwrite hs

end Yaml

namespace Template

/-- A value that is put into a template as YAML text is decoded from that text, if it is decoded from
what is written for it and keeps its end. -/
theorem decode_yamlText (env : Env) {f : Found} (more : List Found)
    (hf : Yaml.codec.decode (Yaml.write f.json.toValue) = .ok f.json.toValue)
    (hends : f.json.toValue.KeepsEnd) :
    ∃ text, ValueHelper.toYaml.apply env (f :: more) = pure (.string text) ∧
      Yaml.codec.decode text = .ok f.json.toValue := by
  rw [Yaml.codec_decode_eq_ok_iff] at hf
  exact ⟨yamlText f.json, rfl, Yaml.codec_decode_eq_ok_iff.mpr (Yaml.decode_trimEnd_write hf hends)⟩

/-- Settings in which texts end in line feeds, of which the last one is written in quotes. -/
def settings : Json :=
  .object [("motd", .string "a\n\n"), ("ports", .array [.null, .number (.int 80), .string " b \n"])]

/-- The settings are decoded from the text that a template gets for them. -/
theorem settings_decoded :
    Yaml.codec.decode (Yaml.write (Found.value settings).json.toValue) =
      .ok (Found.value settings).json.toValue ∧
    (Found.value settings).json.toValue.KeepsEnd ∧
    ∃ text, ValueHelper.toYaml.apply ⟨true, .null, none⟩ [.value settings] = pure (.string text) ∧
      Yaml.codec.decode text = .ok (Found.value settings).json.toValue := by
  have hdecode : Yaml.codec.decode (Yaml.write (Found.value settings).json.toValue) =
      .ok (Found.value settings).json.toValue := by decide +kernel
  have hends : (Found.value settings).json.toValue.KeepsEnd := by decide +kernel
  exact ⟨hdecode, hends, decode_yamlText ⟨true, .null, none⟩ [] hdecode hends⟩

/-- The line feed at the end of a key is not lost if there is no value behind it. -/
example :
    (Json.object [("a\n", .null)]).toValue.KeepsEnd ∧
    yamlText (.object [("a\n", .null)]) = "? |\n  a\n: null" ∧
    Yaml.codec.decode "? |\n  a\n: null" = .ok (Json.object [("a\n", .null)]).toValue := by
  decide +kernel

/-- White space at the end of a block or of a plain text is lost, be it a line feed or not. -/
theorem end_lost_in_yamlText :
    Yaml.codec.decode (Yaml.write (Json.string "x\n").toValue) = .ok (.string "x\n") ∧
    ValueHelper.toYaml.apply ⟨true, .null, none⟩ [.value (.string "x\n")] =
      pure (.string "|\n  x") ∧
    Yaml.codec.decode "|\n  x" = .ok (.string "x") ∧
    Yaml.codec.decode (Yaml.write (Json.string "x\u00a0").toValue) = .ok (.string "x\u00a0") ∧
    ValueHelper.toYaml.apply ⟨true, .null, none⟩ [.value (.string "x\u00a0")] =
      pure (.string "x") := by
  have hblock : yamlText (.string "x\n") = "|\n  x" := by decide +kernel
  have hplain : yamlText (.string "x\u00a0") = "x" := by decide +kernel
  refine ⟨by decide +kernel, ?_, by decide +kernel, by decide +kernel, ?_⟩
  · exact congrArg (fun text => pure (Json.string text)) hblock
  · exact congrArg (fun text => pure (Json.string text)) hplain

end Template

end ManifestRules
