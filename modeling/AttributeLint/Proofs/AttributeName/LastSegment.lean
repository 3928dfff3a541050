import AttributeLint.Proofs.Rule.Validity
import AttributeLint.Proofs.Text.Mark
import Mathlib.Data.List.Infix

/-!
# LastSegment — what a rule takes from the attribute name in its definition

A definition is refused if its attribute name is blank, but a rule is about the last segment of that
name alone. The last segment has no white space at its end. It is empty if the name ends with a
separator, and it begins with white space if the last separator is followed by some
(`full_of_toRule`), so a rule that was accepted may be about an attribute that no usage is of
(`toRule_of_dangling_separators`).
-/

namespace AttributeLint

open Text

/-! ## Trimmed texts -/

namespace Text

variable {p : Char → Bool} {cs : List Char} {c : Char}

theorem strip_prefix_dropWhile (p : Char → Bool) (cs : List Char) :
    strip p cs <+: cs.dropWhile p := by
  have hsuffix := List.dropWhile_suffix p (l := (cs.dropWhile p).reverse)
  rw [strip]
  exact List.reverse_suffix.mp (by rwa [List.reverse_reverse])

theorem of_head?_strip (h : (strip p cs).head? = some c) : p c = false := by
  obtain ⟨behind, hbehind⟩ := strip_prefix_dropWhile p cs
  have hfront := List.head?_dropWhile_not p cs
  rw [← hbehind, List.head?_append, h] at hfront
  exact hfront

theorem of_getLast?_strip (h : (strip p cs).getLast? = some c) : p c = false := by
  have hback := List.head?_dropWhile_not p (cs.dropWhile p).reverse
  rw [strip, List.getLast?_reverse] at h
  rw [h] at hback
  exact hback

end Text

/-! ## Separators -/

/-- A point or two colons. -/
inductive IsSeparator : List Char → Prop
  | point : IsSeparator ['.']
  | colons : IsSeparator [':', ':']

/-- The last thing in the text is a separator. -/
def EndsWithSeparator (text : List Char) : Prop :=
  ∃ mark, IsSeparator mark ∧ mark <:+ text

/-- The last separator of the text is followed by white space. -/
def SpacedLastSegment (text : List Char) : Prop :=
  ∃ front mark c rest, IsSeparator mark ∧ text = front ++ (mark ++ c :: rest) ∧ isBlank c = true ∧
    ∀ mark', IsSeparator mark' → ¬ mark' <:+: rest

theorem IsSeparator.not_mem_of_isBlank {mark : List Char} {c : Char} (h : IsSeparator mark)
    (hc : isBlank c = true) : c ∉ mark := by
  have hmarks : mark.any isBlank = false := by
    cases h with
    | point => decide
    | colons => decide
  intro hmem
  rw [List.any_eq_true.mpr ⟨c, hmem, hc⟩] at hmarks
  cases hmarks

/-! ## The last segment -/

variable {name : String} {c : Char}

theorem toList_lastSegment (name : String) :
    (lastSegment name).toList = afterLast ['.'] (afterLast [':', ':'] (trim name).toList) := by
  rw [lastSegment, trim, String.toList_ofList, String.toList_ofList]

theorem lastSegment_suffix (name : String) : (lastSegment name).toList <:+ (trim name).toList := by
  rw [toList_lastSegment]
  exact (afterLast_suffix (by decide) _).trans (afterLast_suffix (by decide) _)

/-- Of a name that is not blank, the last segment is empty if a separator ends the name. -/
theorem lastSegment_eq_empty_iff (h : trim name ≠ "") :
    lastSegment name = "" ↔ EndsWithSeparator (trim name).toList := by
  have hne : (trim name).toList ≠ [] := fun hempty => h (String.toList_inj.mp hempty)
  rw [← String.toList_inj, toList_lastSegment, String.toList_empty,
    afterLast_eq_nil_iff (by decide), afterLast_eq_nil_iff (by decide)]
  constructor
  · rintro ((hempty | hcolons) | hpoint)
    · exact absurd hempty hne
    · exact ⟨_, .colons, hcolons⟩
    · exact ⟨_, .point, hpoint.trans (afterLast_suffix (by decide) _)⟩
  · rintro ⟨_, hmark, hends⟩
    cases hmark with
    | colons => exact .inl (.inr hends)
    | point =>
      obtain ⟨front, hfront⟩ := hends
      -- the point is behind the last `::`
      rw [← hfront, afterLast_append_cons (by decide) (by decide) (by decide)]
      exact .inr (List.suffix_append _ _)

/-- The last segment holds no separator. -/
theorem not_infix_lastSegment {mark : List Char} (h : IsSeparator mark) (name : String) :
    ¬ mark <:+: (lastSegment name).toList := by
  rw [toList_lastSegment]
  cases h with
  | point => exact (afterLast_cases (by decide) _).1
  | colons =>
    intro hinside
    exact (afterLast_cases (by decide) (trim name).toList).1
      (hinside.trans (afterLast_suffix (by decide) _).isInfix)

/-- The last segment is all of the name, or there is a separator in front of it. -/
theorem lastSegment_cases (name : String) :
    (lastSegment name).toList = (trim name).toList ∨
      ∃ front mark, IsSeparator mark ∧
        (trim name).toList = front ++ (mark ++ (lastSegment name).toList) := by
  rw [toList_lastSegment]
  generalize (trim name).toList = text
  rcases (afterLast_cases (by decide : ['.'] ≠ []) (afterLast [':', ':'] text)).2 with
    hwhole | ⟨u, hcut⟩
  · rw [hwhole]
    rcases (afterLast_cases (by decide : [':', ':'] ≠ []) text).2 with hwhole | ⟨u, hcut⟩
    · exact .inl hwhole
    · exact .inr ⟨u, _, .colons, hcut⟩
  · obtain ⟨front, hfront⟩ := afterLast_suffix (by decide : [':', ':'] ≠ []) text
    refine .inr ⟨front ++ u, _, .point, ?_⟩
    rw [List.append_assoc, ← hcut, hfront]

/-- A last segment that begins with white space is behind a separator, for the trimmed name does not
begin with any. -/
theorem spacedLastSegment_of_head? (hhead : (lastSegment name).toList.head? = some c)
    (hc : isBlank c = true) : SpacedLastSegment (trim name).toList := by
  rcases lastSegment_cases name with hwhole | ⟨front, mark, hmark, htext⟩
  · rw [hwhole, trim, String.toList_ofList] at hhead
    rw [of_head?_strip hhead] at hc
    cases hc
  · obtain ⟨rest, hsegment⟩ := List.head?_eq_some_iff.mp hhead
    rw [hsegment] at htext
    refine ⟨front, mark, c, rest, hmark, htext, hc, fun mark' hmark' hinside => ?_⟩
    refine not_infix_lastSegment hmark' name ?_
    rw [hsegment]
    exact hinside.trans (List.suffix_cons c rest).isInfix

/-- White space behind the last separator is where the last segment begins. -/
theorem SpacedLastSegment.exists_head? (h : SpacedLastSegment (trim name).toList) :
    ∃ c, (lastSegment name).toList.head? = some c ∧ isBlank c = true := by
  obtain ⟨front, mark, c, rest, hmark, htext, hc, hrest⟩ := h
  have hcolon : c ∉ [':', ':'] := IsSeparator.colons.not_mem_of_isBlank hc
  have hpoint : ¬ ['.'] <:+: c :: rest := by
    intro hinside
    rcases List.mem_cons.mp (hinside.subset (List.mem_singleton_self _)) with hhere | hthere
    · exact IsSeparator.point.not_mem_of_isBlank hc (List.mem_singleton.mpr hhere.symm)
    · exact hrest _ .point ((List.singleton_infix_iff _ _).mpr hthere)
  have hcolons : afterLast [':', ':'] (trim name).toList =
      afterLast [':', ':'] (front ++ mark) ++ c :: rest := by
    rw [htext, ← List.append_assoc]
    exact afterLast_append_cons (by decide) hcolon (hrest _ .colons) _
  have hsegment : (lastSegment name).toList = c :: rest := by
    rw [toList_lastSegment, hcolons]
    cases hmark with
    | point =>
      have hfront : afterLast [':', ':'] (front ++ ['.']) = afterLast [':', ':'] front ++ ['.'] :=
        afterLast_append_cons (by decide) (by decide) (by decide) front
      rw [hfront, List.append_assoc]
      exact afterLast_append (by decide) hpoint _
    | colons =>
      have hempty : afterLast [':', ':'] (front ++ [':', ':']) = [] :=
        (afterLast_eq_nil_iff (by decide)).mpr (.inr (List.suffix_append _ _))
      rw [hempty, List.nil_append]
      exact afterLast_of_absent (by decide) hpoint
  exact ⟨c, by rw [hsegment, List.head?_cons], hc⟩

theorem not_isBlank_of_getLast?_lastSegment (h : (lastSegment name).toList.getLast? = some c) :
    isBlank c = false := by
  obtain ⟨front, hfront⟩ := lastSegment_suffix name
  have hlast : (trim name).toList.getLast? = some c := by
    rw [← hfront, List.getLast?_append, h, Option.some_or]
  rw [trim, String.toList_ofList] at hlast
  exact of_getLast?_strip hlast

/-! ## The names of rules -/

namespace RuleDefinition

variable {d : RuleDefinition} {r : Rule}

/-- The attribute of a rule has the empty name exactly if the trimmed name in the definition ends
with a separator. It has a name that begins with white space exactly if there is some behind the
last separator. It has no name that ends with white space. -/
theorem full_of_toRule (h : d.toRule = .ok r) :
    (r.attributeName.full = "" ↔ EndsWithSeparator (trim d.attributeName).toList) ∧
      ((∃ c, r.attributeName.full.toList.head? = some c ∧ isBlank c = true) ↔
        SpacedLastSegment (trim d.attributeName).toList) ∧
      ∀ c, r.attributeName.full.toList.getLast? = some c → isBlank c = false := by
  obtain ⟨hvalid, rfl⟩ := toRule_eq_ok_iff.mp h
  refine ⟨lastSegment_eq_empty_iff hvalid.attributeName_ne, ⟨?_, ?_⟩, ?_⟩
  · rintro ⟨c, hhead, hc⟩
    exact spacedLastSegment_of_head? hhead hc
  · exact SpacedLastSegment.exists_head?
  · intro c hlast
    exact not_isBlank_of_getLast?_lastSegment hlast

/-- A definition of a rule about the attribute with the given name. -/
def about (attributeName : String) : RuleDefinition :=
  { id := "R1"
    title := ""
    messageFormat? := none
    category? := none
    severity := .warning
    enabled := true
    attributeName
    disallowed := ['?']
    positionMode := .violationCount
    malformed := .skip }

/-- The white space in the middle of this name is kept, and that at its ends is not. -/
theorem full_of_toRule_spaced :
    (about " My:: Error ").toRule = .ok (about " My:: Error ").described ∧
      (about " My:: Error ").described.attributeName.full = " Error" ∧
      ¬ EndsWithSeparator (trim " My:: Error ").toList ∧
      SpacedLastSegment (trim " My:: Error ").toList ∧ isBlank 'r' = false := by
  have haccepted : (about " My:: Error ").toRule = .ok (about " My:: Error ").described := by
    decide +kernel
  have hfull : (about " My:: Error ").described.attributeName.full = " Error" := by decide +kernel
  obtain ⟨hempty, hspaced, hlast⟩ := full_of_toRule haccepted
  rw [hfull] at hempty hspaced hlast
  exact ⟨haccepted, hfull, fun hends => absurd (hempty.mpr hends) (by decide),
    hspaced.mp ⟨' ', by decide +kernel, by decide⟩, hlast 'r' (by decide +kernel)⟩

/-- Neither an empty last segment nor one that begins with white space is refused. -/
theorem toRule_of_dangling_separators :
    (about "ErrorAttribute.").toRule.map (·.attributeName.full) = .ok "" ∧
      (about "My:: Error").toRule.map (·.attributeName.full) = .ok " Error" := by
  decide +kernel

end RuleDefinition

end AttributeLint
