import AttributeLint.Proofs.Message.Segmentation
import AttributeLint.Rule.Definition

/-!
# Validity — which definitions become rules

A definition becomes a rule exactly if it has an identifier, names an attribute and writes no
number in a placeholder but those that a violation fills (`toRule_eq_ok_iff`). The rule then takes
over what the definition says, with the default template and the default category where the
definition gives none.
-/

namespace AttributeLint

open Text Message

namespace RuleDefinition

variable {d : RuleDefinition} {r : Rule}

/-- The template of the messages. -/
def template (d : RuleDefinition) : String :=
  d.messageFormat?.getD Descriptor.defaultMessageFormat

/-- The rule that the definition describes if it is valid. -/
def described (d : RuleDefinition) : Rule :=
  { descriptor :=
      { id := Text.trim d.id
        title := d.title
        messageFormat := d.template
        category := d.category?.getD Descriptor.defaultCategory
        severity := d.severity }
    attributeName := .ofName d.attributeName
    disallowed := .ofList d.disallowed
    positionMode := d.positionMode
    malformed := d.malformed
    enabled := d.enabled }

/-- What is asked of a definition. -/
structure Valid (d : RuleDefinition) : Prop where
  id_ne : Text.trim d.id ≠ ""
  attributeName_ne : Text.trim d.attributeName ≠ ""
  /-- A number that is read from a placeholder is that of an argument. -/
  number_le : ∀ ds n, Segment.placeholder ds ∈ segments d.template.toList →
    number? ds = some n → n ≤ lastPlaceholder

/-- The greatest number of a template is among the first ones if all numbers are. -/
theorem filter_maxPlaceholder_eq_none_iff {template : String} {last : Nat} :
    (maxPlaceholder template).filter (last < ·) = none ↔
      ∀ ds n, Segment.placeholder ds ∈ segments template.toList → number? ds = some n →
        n ≤ last := by
  have hnumbers (n : Nat) : n ∈ (segments template.toList).filterMap Segment.number? ↔
      ∃ ds, Segment.placeholder ds ∈ segments template.toList ∧ number? ds = some n := by
    rw [List.mem_filterMap]
    constructor
    · rintro ⟨s, hs, hn⟩
      cases s with
      | literal c => cases hn
      | placeholder ds => exact ⟨ds, hs, hn⟩
    · rintro ⟨ds, hds, hn⟩
      exact ⟨.placeholder ds, hds, hn⟩
  simp only [Option.filter_eq_none_iff, decide_eq_true_eq, Nat.not_lt]
  constructor
  · intro h ds n hds hn
    have hmem := (hnumbers n).mpr ⟨ds, hds, hn⟩
    obtain ⟨greatest, hgreatest⟩ := Option.isSome_iff_exists.mp (List.isSome_max?_of_mem hmem)
    exact Nat.le_trans ((List.max?_eq_some_iff.mp hgreatest).2 n hmem) (h greatest hgreatest)
  · intro h greatest hgreatest
    obtain ⟨ds, hds, hn⟩ := (hnumbers greatest).mp (List.max?_eq_some_iff.mp hgreatest).1
    exact h ds greatest hds hn

/-- A definition becomes a rule exactly if it is valid, and then the one that it describes. -/
theorem toRule_eq_ok_iff : d.toRule = .ok r ↔ d.Valid ∧ r = d.described := by
  rw [toRule]
  constructor
  · intro h
    split at h
    · cases h
    split at h
    · cases h
    · rename_i hid hattribute
      dsimp only at h
      split at h
      · cases h
      · rename_i hplaceholders
        cases h
        exact ⟨⟨hid, hattribute, filter_maxPlaceholder_eq_none_iff.mp hplaceholders⟩, rfl⟩
  · rintro ⟨hvalid, rfl⟩
    have hplaceholders := filter_maxPlaceholder_eq_none_iff.mpr hvalid.number_le
    rw [if_neg hvalid.id_ne, if_neg hvalid.attributeName_ne]
    dsimp only
    split
    · rename_i number hnumber
      rw [template] at hplaceholders
      rw [hplaceholders] at hnumber
      cases hnumber
    · rfl

end RuleDefinition

end AttributeLint
