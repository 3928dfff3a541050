import AttributeLint.Proofs.Token.LocalPieces
import AttributeLint.Proofs.Token.Pieces
import Mathlib.Data.List.TakeWhile

/-!
# Identifiers — the texts of identifiers

A text is that of an identifier, in whatever source it may stand, exactly if it is one character
that may begin an identifier and any number that may continue one, perhaps behind an `@`
(`isIdentifier_iff`). None of these characters is white space, and none of them separates the parts
of a qualified name (`IsIdentifier.of_mem`).
-/

namespace AttributeLint

/-! ## Classes of characters -/

namespace Text

variable {ranges ranges' : CodeRanges} {n : Nat} {c : Char}

theorem CodeRanges.exists_of_containsCode (h : ranges.containsCode n) :
    ∃ range ∈ ranges, range.1 ≤ n ∧ n ≤ range.2 := by
  induction ranges with
  | nil => cases h
  | cons range ranges ih =>
    rw [containsCode] at h
    split at h
    · cases h
    · split at h
      · exact ⟨range, List.mem_cons_self, by omega, by omega⟩
      · obtain ⟨range', hmem, hrange'⟩ := ih h
        exact ⟨range', List.mem_cons_of_mem range hmem, hrange'⟩

/-- A code point is not in two classes if each range of the one is apart from each of the other. -/
theorem CodeRanges.not_containsCode
    (hapart : ∀ range ∈ ranges, ∀ range' ∈ ranges', range.2 < range'.1 ∨ range'.2 < range.1)
    (h : ranges.containsCode n) : ¬ ranges'.containsCode n := by
  intro h'
  obtain ⟨range, hrange, hlow, hhigh⟩ := exists_of_containsCode h
  obtain ⟨range', hrange', hlow', hhigh'⟩ := exists_of_containsCode h'
  rcases hapart range hrange range' hrange' with hbefore | hbehind <;> omega

theorem not_isBlank_of_isAlphabetic (h : isAlphabetic c) : ¬ isBlank c :=
  CodeRanges.not_containsCode (by decide +kernel) h

theorem not_isBlank_of_isNumeric (h : isNumeric c) : ¬ isBlank c :=
  CodeRanges.not_containsCode (by decide +kernel) h

theorem not_isAlphabetic_of_isDigit (h : c.isDigit) : ¬ isAlphabetic c := by
  have hdigit : CodeRanges.containsCode [(0x30, 0x39)] c.toNat := by
    simp only [Char.isDigit, Bool.and_eq_true, decide_eq_true_eq, ge_iff_le,
      UInt32.le_iff_toNat_le] at h
    obtain ⟨hlow, hhigh⟩ := h
    exact (if_neg (Nat.not_lt.mpr hlow)).trans (if_pos hhigh)
  exact CodeRanges.not_containsCode (by decide +kernel) hdigit

end Text

namespace Token

open Text

variable {c : Char} {cs : List Char}

theorem not_isBlank_of_isIdentContinue (h : isIdentContinue c) : ¬ isBlank c := by
  simp only [isIdentContinue, isAlphanumeric, Bool.or_eq_true, decide_eq_true_eq] at h
  rcases h with rfl | h | h
  · decide
  · exact not_isBlank_of_isAlphabetic h
  · exact not_isBlank_of_isNumeric h

theorem not_isDigit_of_isIdentStart (h : isIdentStart c) : ¬ c.isDigit := by
  simp only [isIdentStart, Bool.or_eq_true, decide_eq_true_eq] at h
  rcases h with rfl | h
  · decide
  · intro hdigit
    exact not_isAlphabetic_of_isDigit hdigit h

/-- The character is none of those that begin another token or trivia, or separate names. -/
theorem ne_of_isIdentContinue (h : isIdentContinue c) :
    ∀ d ∈ ['"', '$', '@', '\'', '#', '/', '.', ':'], c ≠ d := by
  have hnone : ['"', '$', '@', '\'', '#', '/', '.', ':'].all (!isIdentContinue ·) = true := by
    decide +kernel
  rintro d hd rfl
  have hc := List.all_eq_true.mp hnone c hd
  rw [h] at hc
  cases hc

/-! ## Reading an identifier -/

/-- An identifier begins with `c`, with `cs` behind it. -/
def BeginsIdent (c : Char) (cs : List Char) : Prop :=
  isIdentStart c ∨ (c = '@' ∧ cs.head?.any isIdentStart)

theorem scan_of_beginsIdent (h : BeginsIdent c cs) :
    scan c cs = .run .ident isIdentContinue c cs := by
  have hnone : c ≠ '"' ∧ c ≠ '\'' ∧ ¬ c.isDigit ∧
      ¬ ((c = '$' ∨ c = '@') ∧
        (cs.head? = some '"' ∨ cs.head? = some '$' ∨ cs.head? = some '@')) ∧
      ¬ (c = '@' ∧ cs.head? = some '"') := by
    rcases h with hstart | ⟨rfl, hnext⟩
    · have hne := ne_of_isIdentContinue (isIdentContinue_of_isIdentStart hstart)
      simp only [List.forall_mem_cons] at hne
      obtain ⟨hquote, hdollar, hat, hapostrophe, -⟩ := hne
      refine ⟨hquote, hapostrophe, not_isDigit_of_isIdentStart hstart, ?_, fun h => hat h.1⟩
      rintro ⟨hdollar' | hat', -⟩
      · exact hdollar hdollar'
      · exact hat hat'
    · obtain ⟨d, hd, hstart⟩ := (Option.any_eq_true _ _).mp hnext
      have hne := ne_of_isIdentContinue (isIdentContinue_of_isIdentStart hstart)
      simp only [List.forall_mem_cons] at hne
      obtain ⟨hquote, hdollar, hat, -⟩ := hne
      rw [hd]
      simp [hquote, hdollar, hat]
  obtain ⟨hquote, hapostrophe, hdigit, hinterpolated, hverbatim⟩ := hnone
  rw [scan, if_neg hquote, if_neg hverbatim, if_neg hinterpolated, if_neg hapostrophe,
    if_neg hdigit]
  exact if_pos h

theorem Kind.ofValue_ne_ident (value : Option (List Char)) : Kind.ofValue value ≠ .ident := by
  cases value <;> simp [ofValue]

/-- Nothing else is read as an identifier. -/
theorem beginsIdent_of_scan (h : (scan c cs).value = .ident) : BeginsIdent c cs := by
  unfold scan at h
  dsimp only at h
  split at h
  · split at h
    · exact absurd h (Kind.ofValue_ne_ident _)
    · exact absurd h (Kind.ofValue_ne_ident _)
  split at h
  · exact absurd h (Kind.ofValue_ne_ident _)
  split at h
  · cases h
  split at h
  · cases h
  split at h
  · cases h
  split at h
  · assumption
  · have hpunctuation := isPunctuation_punctuation c cs
    rw [h] at hpunctuation
    cases hpunctuation

/-! ## The text of an identifier -/

/-- Perhaps an `@`, a character that may begin an identifier, and others that may continue it. -/
def SpellsIdent (cs : List Char) : Prop :=
  ∃ marks c rest, cs = marks ++ c :: rest ∧ (marks = [] ∨ marks = ['@']) ∧ isIdentStart c ∧
    ∀ d ∈ rest, isIdentContinue d

/-- The name is the text of an identifier in some source. -/
def IsIdentifier (name : String) : Prop :=
  ∃ source, ∃ t ∈ tokenize source, t.kind = .ident ∧ t.text = name

theorem BeginsIdent.spellsIdent_scan (h : BeginsIdent c cs) : SpellsIdent (scan c cs).text := by
  have htaken (ds : List Char) : ∀ d ∈ ds.takeWhile isIdentContinue, isIdentContinue d := by
    intro d hd
    exact List.mem_takeWhile_imp hd
  rw [scan_of_beginsIdent h, Cutting.run]
  rcases h with hstart | ⟨rfl, hnext⟩
  · exact ⟨[], c, _, rfl, .inl rfl, hstart, htaken cs⟩
  · obtain ⟨d, hd, hstart⟩ := (Option.any_eq_true _ _).mp hnext
    obtain ⟨ds, rfl⟩ := List.head?_eq_some_iff.mp hd
    refine ⟨['@'], d, ds.takeWhile isIdentContinue, ?_, .inr rfl, hstart, htaken ds⟩
    rw [List.takeWhile_cons_of_pos (isIdentContinue_of_isIdentStart hstart)]
    rfl

/-- A text that spells an identifier is one piece, unless what follows could go on with it. -/
theorem SpellsIdent.pieces_append {rest : List Char} (h : SpellsIdent cs)
    (hrest : ∀ d, rest.head? = some d → isIdentContinue d = false) (lineStart : Bool) :
    pieces lineStart (cs ++ rest) =
      { role := .token .ident, text := cs } :: pieces false rest := by
  obtain ⟨marks, c, tail, rfl, hmarks, hstart, htail⟩ := h
  have hcontinue := isIdentContinue_of_isIdentStart hstart
  -- whether it begins with the `@` or not, the scan takes all of it
  obtain ⟨d, ds, hcons, hbegins, hds, hd⟩ : ∃ d ds, marks ++ c :: tail = d :: ds ∧
      BeginsIdent d (ds ++ rest) ∧ (∀ e ∈ ds, isIdentContinue e) ∧
      (isBlank d = false ∧ d ≠ '#' ∧ d ≠ '/') := by
    rcases hmarks with rfl | rfl
    · have hne := ne_of_isIdentContinue hcontinue
      refine ⟨c, tail, rfl, .inl hstart, htail, ?_, hne '#' (by decide), hne '/' (by decide)⟩
      exact Bool.eq_false_iff.mpr (not_isBlank_of_isIdentContinue hcontinue)
    · refine ⟨'@', c :: tail, rfl, .inr ⟨rfl, hstart⟩, ?_, by decide⟩
      exact List.forall_mem_cons.mpr ⟨hcontinue, htail⟩
  obtain ⟨htake, hdrop⟩ := takeWhile_append_of_head? hds hrest
  have hscan : scan d (ds ++ rest) = { value := .ident, text := d :: ds, rest } := by
    rw [scan_of_beginsIdent hbegins, Cutting.run, htake, hdrop]
  rw [hcons, List.cons_append, pieces_eq_scan lineStart _ hd.1 hd.2.1 hd.2.2, hscan]

theorem SpellsIdent.tokenize_eq {name : String} (h : SpellsIdent name.toList) :
    tokenize name = [{ kind := .ident, text := name, start := 0 }] := by
  have hpieces : pieces true (name.toList ++ []) = _ := h.pieces_append (by simp) true
  rw [List.append_nil] at hpieces
  rw [tokenize, hpieces, place_token, String.ofList_toList, pieces]
  rfl

theorem isIdentifier_of_tokenize_eq {name : String}
    (h : tokenize name = [{ kind := .ident, text := name, start := 0 }]) : IsIdentifier name := by
  refine ⟨name, { kind := .ident, text := name, start := 0 }, ?_, rfl, rfl⟩
  rw [h]
  exact List.mem_singleton_self _

/-- The texts of identifiers are told by their characters alone. -/
theorem isIdentifier_iff {name : String} : IsIdentifier name ↔ SpellsIdent name.toList := by
  constructor
  · rintro ⟨source, t, ht, hkind, rfl⟩
    obtain ⟨c, rest, hscan, htext⟩ := exists_scan_of_mem_tokenize ht
    rw [htext, String.toList_ofList]
    exact (beginsIdent_of_scan (hscan.trans hkind)).spellsIdent_scan
  · intro h
    exact isIdentifier_of_tokenize_eq h.tokenize_eq

variable {name : String}

theorem IsIdentifier.ne_empty (h : IsIdentifier name) : name ≠ "" := by
  rintro rfl
  obtain ⟨marks, c, rest, hname, -⟩ := isIdentifier_iff.mp h
  exact List.append_ne_nil_of_right_ne_nil marks (List.cons_ne_nil c rest) hname.symm

/-- An identifier without an `@` is one with it, too. -/
theorem IsIdentifier.marked (h : IsIdentifier name) (hmark : name.toList.head? ≠ some '@') :
    IsIdentifier ("@" ++ name) := by
  obtain ⟨marks, c, rest, hname, rfl | rfl, hstart, hrest⟩ := isIdentifier_iff.mp h
  · refine isIdentifier_iff.mpr ⟨['@'], c, rest, ?_, .inr rfl, hstart, hrest⟩
    rw [String.toList_append, hname]
    rfl
  · rw [hname] at hmark
    exact absurd rfl hmark

/-- An identifier has no white space, and no character of a separator of names. -/
theorem IsIdentifier.of_mem (h : IsIdentifier name) (hc : c ∈ name.toList) :
    ¬ isBlank c ∧ c ≠ '.' ∧ c ≠ ':' := by
  obtain ⟨marks, d, rest, hname, hmarks, hstart, hrest⟩ := isIdentifier_iff.mp h
  have hall : ∀ e ∈ d :: rest, isIdentContinue e :=
    List.forall_mem_cons.mpr ⟨isIdentContinue_of_isIdentStart hstart, hrest⟩
  rw [hname] at hc
  rcases List.mem_append.mp hc with hmark | hmem
  · rcases hmarks with rfl | rfl
    · cases hmark
    · rw [List.mem_singleton.mp hmark]
      decide
  · have hcontinue := hall c hmem
    have hne := ne_of_isIdentContinue hcontinue
    exact ⟨not_isBlank_of_isIdentContinue hcontinue, hne '.' (by decide), hne ':' (by decide)⟩

end Token

end AttributeLint
