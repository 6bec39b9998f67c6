import ManifestRules.Proofs.Framing
import ManifestRules.Proofs.Rows
import ManifestRules.Proofs.Slack.Trim
import ManifestRules.Proofs.Slack.Written
import ManifestRules.Value.Equality
import ManifestRules.Yaml.Codec
/-!
# What a stream keeps of its documents

A stream is split into trimmed fragments, while the text of a single mapping is decoded as it is. So
the two agree exactly where the decoder does not need the white space around the text. For a text
that stands free and a value whose last text does not end in white space they agree
(`Stream.parseDocuments_of_parseMapping`), and a graph of flush documents is read back from the
stream that is written for it (`Stream.parseDocuments_serializeDocuments`). A block scalar at the
end of a document loses the line feed behind it (`Stream.lineFeed_lost_in_stream`).
-/

namespace ManifestRules

open Text

namespace Yaml

/-- The codec decodes what the decoder does. -/
theorem codec_decode_eq_ok_iff {text : String} {v : Value} :
    codec.decode text = .ok v ↔ decode text = .ok v := by
  change decodeDocument text = .ok v ↔ decode text = .ok v
  rw [decodeDocument]
  cases decode text with
  | error fault => simp
  | ok w => simp

/-- What the codec encodes is what is written. -/
theorem eq_write_of_encode {v : Value} {e : String} (he : codec.encode v = .ok e) : e = write v := by
  change encodeDocument v = .ok e at he
  rw [encodeDocument] at he
  split at he
  · exact (Except.ok.inj he).symm
  · cases he

end Yaml

namespace Stream

open Yaml (StandsFree)

/-- Where a mapping is parsed, it is decoded, unless it is empty. -/
theorem decode_of_parseMapping {codec : Codec} {text : String} {m : Mapping}
    (hm : parseMapping codec text = .ok m) (hne : m ≠ []) : codec.decode text = .ok (.mapping m) := by
  rw [parseMapping] at hm
  split at hm
  · cases hm
    exact absurd rfl hne
  · split at hm
    · cases hm
    · rename_i hdecode
      cases hm
      exact hdecode
    · cases hm
      exact absurd rfl hne
    · cases hm

/-- A text without separators is one fragment, unless it is blank. -/
theorem splitDocuments_of_isWhole {text : String} (hwhole : IsWhole text.toList)
    (hblank : isBlankString text = false) : splitDocuments text = [trimString text] := by
  have hne : (trim text.toList).isEmpty = false := by
    rw [List.isEmpty_eq_false_iff]
    intro hnil
    rw [isBlankString, isBlankText_of_trim_eq_nil hnil] at hblank
    cases hblank
  rw [splitDocuments_eq, pieces_lines hwhole, fragmentsOf]
  simp only [List.map_cons, List.map_nil, List.filterMap_cons, hne, Bool.false_eq_true, if_false,
    List.filterMap_nil, trimString]

/-- A document with a text in it. -/
def note (text : String) : Document :=
  ⟨"Note", [(Document.kindKey, .string "Note"), (.string "text", .string text)]⟩

/-- A text in which there is no separator means the same as the text of a mapping and as a stream,
exactly if it decodes to the mapping after it has been trimmed. This is so if the text stands free
and the text that stands last in the mapping does not end in a space, a tab or a line break. -/
theorem parseDocuments_of_parseMapping {text : String} {m : Mapping} (hwhole : IsWhole text.toList)
    (hm : parseMapping Yaml.codec text = .ok m) (hkind : (Document.kindOf? m).isSome) :
    ((∃ d, parseDocuments Yaml.codec text = .ok [d] ∧ d.body = m) ↔
      Yaml.decode (trimString text) = .ok (.mapping m)) ∧
    (StandsFree text.toList → (Value.mapping m).lastChar?.any Yaml.isGap = false →
      ∃ d, parseDocuments Yaml.codec text = .ok [d] ∧ d.body = m) := by
  have hne : m ≠ [] := by
    rintro rfl
    cases hkind
  have hdecode := Yaml.codec_decode_eq_ok_iff.mp (decode_of_parseMapping hm hne)
  have hblank : isBlankString text = false := by
    rw [← Bool.not_eq_true]
    intro hblank
    rw [parseMapping, if_pos hblank] at hm
    exact hne (Except.ok.inj hm).symm
  have hparsed : (∃ ds, parseDocuments Yaml.codec text = .ok ds ∧ ds.map Document.body = [m]) ↔
      Yaml.decode (trimString text) = .ok (.mapping m) := by
    rw [parseDocuments, splitDocuments_of_isWhole hwhole hblank, exists_parsed_iff,
      List.forall₂_cons, Yaml.codec_decode_eq_ok_iff]
    exact ⟨fun h => h.1.1, fun h => ⟨⟨h, hkind⟩, .nil⟩⟩
  have hsame : (∃ d, parseDocuments Yaml.codec text = .ok [d] ∧ d.body = m) ↔
      Yaml.decode (trimString text) = .ok (.mapping m) := by
    rw [← hparsed]
    constructor
    · rintro ⟨d, hd, rfl⟩
      exact ⟨[d], hd, rfl⟩
    · rintro ⟨ds, hds, hbodies⟩
      obtain ⟨d, rfl, hd⟩ := List.map_eq_singleton_iff.mp hbodies
      exact ⟨d, hds, hd⟩
  exact ⟨hsame, fun hfree hlast => hsame.mpr (Yaml.decode_trimString hfree hdecode hlast)⟩

/-- Blank lines around a text do not matter, and neither do comments. -/
theorem note_agrees :
    IsWhole "\n  \nkind: Note # a\ntext: >-\n  b\n  c\n\n".toList ∧
    parseMapping Yaml.codec "\n  \nkind: Note # a\ntext: >-\n  b\n  c\n\n" =
      .ok (note "b c").body ∧
    StandsFree "\n  \nkind: Note # a\ntext: >-\n  b\n  c\n\n".toList ∧
    ∃ d, parseDocuments Yaml.codec "\n  \nkind: Note # a\ntext: >-\n  b\n  c\n\n" = .ok [d] ∧
      d.body = (note "b c").body := by
  have hwhole : IsWhole "\n  \nkind: Note # a\ntext: >-\n  b\n  c\n\n".toList := by decide +kernel
  have hparsed : parseMapping Yaml.codec "\n  \nkind: Note # a\ntext: >-\n  b\n  c\n\n" =
      .ok (note "b c").body := by decide +kernel
  have hfree : StandsFree "\n  \nkind: Note # a\ntext: >-\n  b\n  c\n\n".toList := by decide +kernel
  exact ⟨hwhole, hparsed, hfree,
    (parseDocuments_of_parseMapping hwhole hparsed (by decide)).2 hfree (by decide)⟩

/-- The line feed at the end of a text is part of it when the text is decoded as a mapping, and is
lost when it is decoded as a stream. -/
theorem lineFeed_disagrees :
    IsWhole "kind: Note\ntext: |\n  a\n".toList ∧
    parseMapping Yaml.codec "kind: Note\ntext: |\n  a\n" = .ok (note "a\n").body ∧
    (Document.kindOf? (note "a\n").body).isSome ∧
    (parseDocuments Yaml.codec "kind: Note\ntext: |\n  a\n").map (List.map Document.body) =
      .ok [(note "a").body] ∧
    (note "a").body ≠ (note "a\n").body := by
  decide +kernel

/-- A graph is read back from the stream that is written for it exactly if every body is decoded
from its encoding after that has been trimmed. This is so if the bodies are flush. -/
theorem parseDocuments_serializeDocuments (g : Graph)
    (hg : ∀ d ∈ g.toList, (Document.kindOf? d.body).isSome ∧
      ∃ e, Yaml.codec.encode (.mapping d.body) = .ok e ∧ Yaml.codec.decode e = .ok (.mapping d.body)) :
    ∃ text, serializeDocuments Yaml.codec g = .ok text ∧
      ((∃ ds, parseDocuments Yaml.codec text = .ok ds ∧
          ds.map Document.body = g.toList.map Document.body) ↔
        ∀ d ∈ g.toList, Yaml.decode (trimString (Yaml.write (.mapping d.body))) =
          .ok (.mapping d.body)) ∧
      ((∀ d ∈ g.toList, d.body.IsFlush) →
        ∃ ds, parseDocuments Yaml.codec text = .ok ds ∧
          ds.map Document.body = g.toList.map Document.body) := by
  have hencode : List.Forall₂ (fun d e => Yaml.codec.encode (.mapping d.body) = .ok e) g.toList
      (g.toList.map fun d => Yaml.write (.mapping d.body)) := by
    rw [List.forall₂_map_right_iff, List.forall₂_same]
    intro d hd
    obtain ⟨-, e, he, -⟩ := hg d hd
    rw [he, Yaml.eq_write_of_encode he]
  have hframable : ∀ e ∈ g.toList.map fun d => Yaml.write (.mapping d.body), IsFramable e := by
    rw [List.forall_mem_map]
    exact fun d _ => Yaml.isFramable_write d.body
  have hsame : (∃ ds, parseDocuments Yaml.codec (String.ofList
        ((g.toList.map fun d => Yaml.write (.mapping d.body)).flatMap frame)) = .ok ds ∧
          ds.map Document.body = g.toList.map Document.body) ↔
      ∀ d ∈ g.toList, Yaml.decode (trimString (Yaml.write (.mapping d.body))) =
        .ok (.mapping d.body) := by
    rw [exists_parsed_frames_iff hframable, List.forall₂_map_right_iff, List.forall₂_same]
    refine forall₂_congr fun d hd => ?_
    rw [Yaml.codec_decode_eq_ok_iff]
    exact and_iff_left (hg d hd).1
  refine ⟨_, serializeDocuments_of_encodings hencode, hsame, fun hflush => hsame.mpr ?_⟩
  intro d hd
  obtain ⟨-, e, he, hdecode⟩ := hg d hd
  rw [Yaml.eq_write_of_encode he, Yaml.codec_decode_eq_ok_iff] at hdecode
  exact Yaml.decode_trimString (Yaml.standsFree_write (hflush d hd)) hdecode
    (Yaml.isGap_lastChar? (hflush d hd))

/-- Documents that end in a block, in quotes and in a plain text are read back. -/
theorem notes_recovered :
    (∀ d ∈ (Graph.ofList [note "a\n\nb", note " c", note "d"]).toList,
      (Document.kindOf? d.body).isSome ∧ ∃ e, Yaml.codec.encode (.mapping d.body) = .ok e ∧
        Yaml.codec.decode e = .ok (.mapping d.body)) ∧
    (∀ d ∈ (Graph.ofList [note "a\n\nb", note " c", note "d"]).toList, d.body.IsFlush) ∧
    ∃ text, serializeDocuments Yaml.codec (.ofList [note "a\n\nb", note " c", note "d"]) = .ok text ∧
      ∃ ds, parseDocuments Yaml.codec text = .ok ds ∧
        ds.map Document.body = [(note "a\n\nb").body, (note " c").body, (note "d").body] := by
  have hencoded : ∀ d ∈ (Graph.ofList [note "a\n\nb", note " c", note "d"]).toList,
      (Document.kindOf? d.body).isSome ∧ ∃ e, Yaml.codec.encode (.mapping d.body) = .ok e ∧
        Yaml.codec.decode e = .ok (.mapping d.body) := by
    refine List.forall_mem_cons.mpr ⟨⟨by decide, "kind: Note\ntext: |-\n  a\n\n  b\n", ?_⟩, ?_⟩
    · decide +kernel
    refine List.forall_mem_cons.mpr ⟨⟨by decide, "kind: Note\ntext: ' c'\n", ?_⟩, ?_⟩
    · decide +kernel
    refine List.forall_mem_cons.mpr ⟨⟨by decide, "kind: Note\ntext: d\n", ?_⟩, by simp⟩
    decide +kernel
  have hflush : ∀ d ∈ (Graph.ofList [note "a\n\nb", note " c", note "d"]).toList, d.body.IsFlush := by
    refine List.forall_mem_cons.mpr ⟨by decide, ?_⟩
    exact List.forall_mem_cons.mpr ⟨by decide, List.forall_mem_cons.mpr ⟨by decide, by simp⟩⟩
  obtain ⟨text, htext, -, hrecovered⟩ := parseDocuments_serializeDocuments _ hencoded
  exact ⟨hencoded, hflush, text, htext, hrecovered hflush⟩

/-- The line feed at the end of the last text of a document is lost in a stream, though the document
can be encoded and decoded on its own: what is written for the text is trimmed. -/
theorem lineFeed_lost_in_stream : (Document.kindOf? (note "a\n").body).isSome ∧
    Yaml.codec.encode (.mapping (note "a\n").body) = .ok "kind: Note\ntext: |\n  a\n" ∧
    Yaml.codec.decode "kind: Note\ntext: |\n  a\n" = .ok (.mapping (note "a\n").body) ∧
    serializeDocuments Yaml.codec (.ofList [note "a\n"]) =
      .ok "---\nkind: Note\ntext: |\n  a\n" ∧
    (parseDocuments Yaml.codec "---\nkind: Note\ntext: |\n  a\n").map (List.map Document.body) =
      .ok [(note "a").body] ∧
    (note "a").body ≠ (note "a\n").body := by
  decide +kernel

end Stream

end ManifestRules
