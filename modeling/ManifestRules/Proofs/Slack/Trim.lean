import ManifestRules.Proofs.Slack.Tokens
import ManifestRules.Proofs.Slack.Value
import ManifestRules.Proofs.Trimming
/-!
# Decoding a trimmed text

Trimming takes all white space from both ends of a text. The decoder does not see the difference if
only blank lines stand before the text and only spaces, tabs and line breaks behind it
(`StandsFree`), and if the text that stands last in the value does not end in these
(`decode_trimString`).
-/

namespace ManifestRules

/-- The character that the text at the end of a value ends in. -/
def Value.lastChar? (v : Value) : Option Char := v.lastText?.bind fun s => s.toList.getLast?

namespace Yaml

open Text

/-- Before and behind the text there is only white space that parts tokens, and the first line that
is not blank starts without it. -/
structure StandsFree (s : List Char) : Prop where
  /-- What comes before are blank lines. -/
  lead : IsBlankLines (s.takeWhile isBlank)
  /-- What comes behind is a gap. -/
  tail : (s.reverse.takeWhile isBlank).all isGap = true

/-- It can be tried out whether a text stands free. -/
instance (s : List Char) : Decidable (StandsFree s) :=
  decidable_of_iff (IsBlankLines (s.takeWhile isBlank) ∧ (s.reverse.takeWhile isBlank).all isGap = true)
    ⟨fun h => ⟨h.1, h.2⟩, fun h => ⟨h.lead, h.tail⟩⟩

/-- Gaps are blank. -/
theorem isBlank_of_isGap {c : Char} (hc : isGap c = true) : isBlank c = true :=
  forall_gap (P := fun c => isBlank c = true) (by decide) hc

/-- What is not blank is no gap. -/
theorem any_isGap_of_any_isBlank {c? : Option Char} (hc : c?.any isBlank = false) :
    c?.any isGap = false := by
  cases c? with
  | none => rfl
  | some c =>
    rw [Option.any_some] at hc ⊢
    rw [← Bool.not_eq_true]
    intro hgap
    rw [isBlank_of_isGap hgap] at hc
    cases hc

/-- Around a text that stands free there are blank lines and a gap. -/
theorem StandsFree.exists_eq {s : List Char} (h : StandsFree s) :
    ∃ lead tail, s = lead ++ (trim s ++ tail) ∧ IsBlankLines lead ∧
      (trim s ++ tail).head? ≠ some '\n' ∧ ∀ c ∈ tail, isGap c = true := by
  have hstart := takeWhile_append_trimStart s
  have hend : trim s ++ ((trimStart s).reverse.takeWhile isBlank).reverse = trimStart s :=
    trimEnd_append_takeWhile (trimStart s)
  refine ⟨s.takeWhile isBlank, ((trimStart s).reverse.takeWhile isBlank).reverse, ?_, h.lead, ?_, ?_⟩
  · rw [hend, hstart]
  · rw [hend]
    intro hhead
    exact absurd (isBlank_of_head?_trimStart hhead) (by decide)
  · intro c hc
    refine List.all_eq_true.mp h.tail c ?_
    rw [← hstart, List.reverse_append, List.takeWhile_append]
    rw [List.mem_reverse] at hc
    split
    · rename_i hall
      exact List.mem_append_left _ ((List.takeWhile_prefix isBlank).mem hc)
    · exact hc

open NodeReader (Ahead)

/-- A text may have taken white space along behind another one that it ends. -/
def TakesAlong (base tail s : List Char) : Prop :=
  ∃ front gap, s = front ++ gap ∧ gap ≠ [] ∧ Scalar.Surplus tail gap ∧ Scalar.ReachesBack base front

/-- What takes white space along ends in it. -/
theorem TakesAlong.exists_getLast? {base tail s : List Char} (h : TakesAlong base tail s) :
    ∃ g, s.getLast? = some g ∧ isGap g = true := by
  obtain ⟨front, gap, rfl, hne, hgap, -⟩ := h
  refine ⟨gap.getLast hne, ?_, hgap.blank _ (List.getLast_mem hne)⟩
  rw [List.getLast?_append, List.getLast?_eq_some_getLast hne, Option.some_or]

/-- If the tokens of a text and of the trimmed text differ, then the text has a scalar that has taken
white space along as the last token. -/
theorem exists_ahead {base tail : List Char} {ts us : List Token}
    (h : Lexer.SameButEnd base tail ts us) :
    ts = us ∨ ∃ text, Ahead text ts ∧ TakesAlong base tail text.toList := by
  obtain heq | ⟨_, _, m, ⟨text, text', gap, front, rfl, rfl, htext, hgap, hback⟩, rfl, rfl⟩ := h
  · exact .inl heq
  by_cases hne : gap = []
  · rw [hne, List.append_nil, String.toList_inj] at htext
    exact .inl (by rw [htext])
  · refine .inr ⟨text, ⟨front.reverse, List.replicate m .blockEnd, ?_, ?_⟩, ?_⟩
    · rw [List.reverse_cons, List.append_assoc]
      rfl
    · exact fun t ht => List.eq_of_mem_replicate ht
    · exact ⟨text'.toList, gap, htext, hne, hgap, hback⟩

/-- Behind the tokens of a text it does not matter what the text was. -/
theorem decode_eq {text : String} {ts : List Token} (hts : Token.ofText text.toList = .ok ts) :
    decode text = (do
      match ← NodeReader.readDocument ts with
      | none => pure .null
      | some n => (Decoding.value (NodeTable.ofNode n) depthLimit n).run' 0) := by
  rw [decode, Node.ofText, hts]
  rfl

/-- The scalar that is the last token of a text is the text that stands last in the value, if there
is white space in it. -/
theorem lastText?_of_decode {text last : String} {ts : List Token} {v : Value} {g : Char}
    (hts : Token.ofText text.toList = .ok ts) (hv : decode text = .ok v)
    (hahead : Ahead last ts) (hg : isGap g = true) (hmem : g ∈ last.toList) :
    v.lastText? = some last := by
  rw [decode_eq hts] at hv
  cases hread : NodeReader.readDocument ts with
  | error fault =>
    rw [hread] at hv
    cases hv
  | ok n? =>
    obtain ⟨n, rfl, hn⟩ := NodeReader.endsIn_of_readDocument hahead hread
    rw [hread] at hv
    exact (Decoding.yields_endsIn hn hg hmem _ _).of_run hv

/-- Two texts with the same tokens, up to white space at the end of a scalar that is the last one, are
decoded alike, unless the last text has taken some along. -/
theorem decode_of_sameButEnd {text other : String} {base tail : List Char} {ts us : List Token}
    {v : Value} (hts : Token.ofText text.toList = .ok ts) (hus : Token.ofText other.toList = .ok us)
    (hsame : Lexer.SameButEnd base tail ts us) (hv : decode text = .ok v)
    (hlast : ∀ s, v.lastText? = some s → ¬ TakesAlong base tail s.toList) :
    decode other = .ok v := by
  obtain rfl | ⟨last, hahead, htakes⟩ := exists_ahead hsame
  · rw [decode_eq hus, ← decode_eq hts]
    exact hv
  · obtain ⟨g, hg, hgap⟩ := htakes.exists_getLast?
    have hv := lastText?_of_decode hts hv hahead hgap (List.mem_of_getLast? hg)
    exact absurd htakes (hlast last hv)

/-- Trimming does not change what is decoded from a text that stands free, unless white space may be
lost at the end of the text that stands last in the value. -/
theorem decode_trimString {text : String} (htext : StandsFree text.toList) {v : Value}
    (hv : decode text = .ok v) (hlast : v.lastChar?.any isGap = false) :
    decode (trimString text) = .ok v := by
  obtain ⟨lead, tail, hparts, hlead, hhead, htail⟩ := htext.exists_eq
  have hfirm : ∀ c, (trim text.toList).getLast? = some c → isGap c = false := by
    intro c hc
    have hblank : (some c).any isBlank = false := isBlank_of_getLast?_trimEnd hc
    exact any_isGap_of_any_isBlank hblank
  cases hts : Token.ofText text.toList with
  | error fault =>
    rw [decode, Node.ofText, hts] at hv
    cases hv
  | ok ts =>
    have hwhole := hts
    rw [hparts] at hwhole
    obtain ⟨us, hus, hsame⟩ := Token.exists_ofText hlead hhead hfirm htail hwhole
    have htrim : Token.ofText (trimString text).toList = .ok us := by
      rwa [trimString, String.toList_ofList]
    refine decode_of_sameButEnd hts htrim hsame hv fun s hs htakes => ?_
    obtain ⟨g, hg, hgap⟩ := htakes.exists_getLast?
    rw [Value.lastChar?, hs, Option.bind_some, hg, Option.any_some, hgap] at hlast
    cases hlast

end Yaml

end ManifestRules
