import AttributeLint.Text.Digits
import Mathlib.Data.Nat.Digits.Defs

/-!
# Decimal — numbers in ASCII digits

A text writes the number that its characters are the ASCII digits of, behind any zeros
(`WritesNumber`). The number is read exactly if a word of 64 bits can hold it, and other texts are
not read as numbers (`number?_eq_some_iff`).
-/

namespace AttributeLint.Text

/-- The ASCII character of a digit. -/
def digitChar (d : Fin 10) : Char :=
  Char.ofNat (48 + d.val)

/-- The text writes the number in ASCII digits. -/
def WritesNumber (cs : List Char) (n : Nat) : Prop :=
  ∃ ds : List (Fin 10), ds ≠ [] ∧ cs = ds.map digitChar ∧
    n = Nat.ofDigits 10 (ds.map Fin.val).reverse

theorem hexDigit?_digitChar (d : Fin 10) : hexDigit? (digitChar d) = some d.val := by
  revert d
  decide

theorem isDigit_digitChar (d : Fin 10) : (digitChar d).isDigit := by
  revert d
  decide

theorem exists_digitChar {c : Char} (h : c.isDigit) : ∃ d, c = digitChar d := by
  have hrange : 48 ≤ c.toNat ∧ c.toNat ≤ 57 := by
    simpa [Char.isDigit, UInt32.le_iff_toNat_le] using h
  refine ⟨⟨c.toNat - 48, by omega⟩, ?_⟩
  rw [digitChar, Nat.add_sub_cancel' hrange.1, Char.ofNat_toNat]

theorem exists_map_digitChar {cs : List Char} (h : ∀ c ∈ cs, c.isDigit) :
    ∃ ds : List (Fin 10), cs = ds.map digitChar := by
  induction cs with
  | nil => exact ⟨[], rfl⟩
  | cons c cs ih =>
    obtain ⟨hc, hcs⟩ := List.forall_mem_cons.mp h
    obtain ⟨d, rfl⟩ := exists_digitChar hc
    obtain ⟨ds, rfl⟩ := ih hcs
    exact ⟨d :: ds, rfl⟩

theorem digitsValue_map_digitChar (ds : List (Fin 10)) :
    digitsValue 10 (ds.map digitChar) = Nat.ofDigits 10 (ds.map Fin.val).reverse := by
  rw [digitsValue, Nat.ofDigits_eq_foldr, List.foldr_reverse, List.foldl_map, List.foldl_map]
  simp only [hexDigit?_digitChar, Option.getD_some, Nat.cast_id, Nat.add_comm]

theorem le_maxNumber_iff {n : Nat} : n ≤ maxNumber ↔ n < 2 ^ 64 := by
  show n ≤ 2 ^ 64 - 1 ↔ n < 2 ^ 64
  omega

/-- A number is read exactly from the texts that write it, unless a word of 64 bits is too short
for it. -/
theorem number?_eq_some_iff {cs : List Char} {n : Nat} :
    number? cs = some n ↔ WritesNumber cs n ∧ n < 2 ^ 64 := by
  rw [number?]
  constructor
  · intro h
    split at h
    · rename_i hread
      cases h
      simp only [Bool.and_eq_true, Bool.not_eq_true', List.isEmpty_eq_false_iff, List.all_eq_true,
        decide_eq_true_eq, le_maxNumber_iff] at hread
      obtain ⟨⟨hne, hdigits⟩, hfits⟩ := hread
      obtain ⟨ds, rfl⟩ := exists_map_digitChar hdigits
      exact ⟨⟨ds, fun h => hne (by rw [h]; rfl), rfl, digitsValue_map_digitChar ds⟩, hfits⟩
    · cases h
  · rintro ⟨⟨ds, hne, rfl, rfl⟩, hfits⟩
    have hdigits : ∀ c ∈ ds.map digitChar, c.isDigit := by
      intro c hc
      obtain ⟨d, -, rfl⟩ := List.mem_map.mp hc
      exact isDigit_digitChar d
    rw [← digitsValue_map_digitChar] at hfits ⊢
    rw [if_pos]
    simp only [Bool.and_eq_true, Bool.not_eq_true', List.isEmpty_eq_false_iff, List.all_eq_true,
      decide_eq_true_eq, le_maxNumber_iff]
    exact ⟨⟨fun h => hne (List.map_eq_nil_iff.mp h), hdigits⟩, hfits⟩

end AttributeLint.Text
