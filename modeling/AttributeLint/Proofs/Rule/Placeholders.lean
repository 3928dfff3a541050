import AttributeLint.Proofs.Rule.Validity

/-!
# Placeholders — what a rule puts in their place

A violation fills two placeholders, and a definition that writes another number is refused. But a
numeral may be one that is not read as a number: it is in the digits of another script, or a word of
64 bits is too short for it. Definitions with such numerals are not refused, and their placeholders
stay in the messages as they are written (`toRule_of_unread_numerals`). All others are replaced, so
what stands for a placeholder is told by its digits alone (`exists_format_eq`).
-/

namespace AttributeLint

open Text Message

namespace RuleDefinition

/-- What stands for a placeholder in the message of a violation with the arguments `a` and `b`. -/
inductive StandsFor (a b : String) (ds : List Char) : List Char → Prop where
  | first (hwrites : WritesNumber ds 0) : StandsFor a b ds a.toList
  | second (hwrites : WritesNumber ds 1) : StandsFor a b ds b.toList
  /-- The placeholder itself, if it writes no number of 64 bits in ASCII digits. -/
  | itself (hunread : ∀ n, WritesNumber ds n → 2 ^ 64 ≤ n) :
    StandsFor a b ds (Segment.placeholder ds).written

variable {d : RuleDefinition} {r : Rule} {ds : List Char} {a b : String}

/-- In a valid template, only a numeral that is not read as a number is without an argument. -/
theorem Valid.standsFor (h : d.Valid) (hmem : Segment.placeholder ds ∈ segments d.template.toList)
    {text : List Char} (hgives : (Segment.placeholder ds).Gives [a, b] text) :
    StandsFor a b ds text := by
  have hbound (n : Nat) (hwrites : WritesNumber ds n) (hfits : n < 2 ^ 64) : n ≤ 1 :=
    h.number_le ds n hmem (number?_eq_some_iff.mpr ⟨hwrites, hfits⟩)
  cases hgives with
  | @argument _ n argument hwrites hfits hgiven =>
    rcases Nat.le_one_iff_eq_zero_or_eq_one.mp (hbound n hwrites hfits) with rfl | rfl
    · cases hgiven
      exact .first hwrites
    · cases hgiven
      exact .second hwrites
  | asWritten hmissing =>
    refine .itself fun n hwrites => Nat.le_of_not_lt fun hfits => ?_
    have htwo : 2 ≤ n := hmissing n hwrites hfits
    have := hbound n hwrites hfits
    omega

/-- A placeholder of a rule is replaced wherever it is written, except that a numeral which writes
no number of 64 bits in ASCII digits stays as it is. What is before it and behind it is filled by
itself. -/
theorem exists_format_eq (h : d.toRule = .ok r) (hnumeral : Numeral ds) {before after : List Char}
    (htext : r.descriptor.messageFormat.toList =
      before ++ ((Segment.placeholder ds).written ++ after)) (a b : String) :
    ∃ text, StandsFor a b ds text ∧
      r.descriptor.format [a, b] =
        fill (String.ofList before) [a, b] ++ String.ofList text ++
          fill (String.ofList after) [a, b] := by
  obtain ⟨hvalid, rfl⟩ := toRule_eq_ok_iff.mp h
  have hsegments := segments_append_written hnumeral before after
  rw [← htext] at hsegments
  have hmem : Segment.placeholder ds ∈ segments d.template.toList := by
    show Segment.placeholder ds ∈ segments d.described.descriptor.messageFormat.toList
    rw [hsegments]
    exact List.mem_append_right _ List.mem_cons_self
  refine ⟨_, hvalid.standsFor hmem ((Segment.placeholder ds).gives_fill [a, b]), ?_⟩
  rw [Descriptor.format, fill, hsegments]
  simp [fill, String.append_assoc]

/-- A definition with the given template. -/
def withTemplate (template : String) : RuleDefinition :=
  { id := "R1"
    title := ""
    messageFormat? := some template
    category? := none
    severity := .warning
    enabled := true
    attributeName := "ErrorAttribute"
    disallowed := ['?']
    positionMode := .violationCount
    malformed := .skip }

/-- Leading zeros do not keep a placeholder from being replaced, between braces that are none. -/
theorem exists_format_eq_leading_zeros :
    ∃ text, StandsFor "?" "Why?" ['0', '0', '1'] text ∧
      (withTemplate "\x7b\x7b001\x7d\x7d").described.descriptor.format ["?", "Why?"] =
        fill (String.ofList ['\x7b']) ["?", "Why?"] ++ String.ofList text ++
          fill (String.ofList ['\x7d']) ["?", "Why?"] := by
  have hvalid : (withTemplate "\x7b\x7b001\x7d\x7d").toRule =
      .ok (withTemplate "\x7b\x7b001\x7d\x7d").described := by decide +kernel
  exact exists_format_eq hvalid (by decide) rfl "?" "Why?"

/-- Neither 2^64 nor the Arabic digit one is refused or replaced. -/
theorem toRule_of_unread_numerals :
    Numeral "18446744073709551616".toList ∧ Numeral ['\u0661'] ∧
      (withTemplate "\x7b0\x7d: \x7b18446744073709551616\x7d \x7b\u0661\x7d").toRule.map
        (·.descriptor.format ["?", "Why?"]) =
      .ok "?: \x7b18446744073709551616\x7d \x7b\u0661\x7d" := by
  decide +kernel

end RuleDefinition

end AttributeLint
