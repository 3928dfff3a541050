import AttributeLint.Proofs.Token.Pieces

/-!
# DecodedLength — what a literal denotes is no longer than its text

Every form of constant string shortens what it spells or leaves it as it is: an escape of at least
two characters stands for one or for itself, two quotes stand for one, and the lines of a raw string
only lose characters. The two quotes around a literal are not part of its value, so the value has at
least two characters less than the text (`length_add_two_le_of_mem_tokenize`).
-/

namespace AttributeLint

namespace Text

/-! ## Lines that are joined -/

variable {sep : List Char} {ls ls' : List (List Char)}

theorem length_intercalate_of_sublist (h : ls.Sublist ls') :
    (sep.intercalate ls).length ≤ (sep.intercalate ls').length := by
  induction h with
  | slnil => exact Nat.le_refl _
  | @cons ls ls' l h ih =>
    cases ls' with
    | nil =>
      rw [List.sublist_nil.mp h]
      exact Nat.zero_le _
    | cons l' ls' =>
      rw [List.intercalate_cons_cons, List.length_append]
      omega
  | @cons_cons ls ls' l h ih =>
    cases ls with
    | nil =>
      cases ls' with
      | nil => exact Nat.le_refl _
      | cons l' ls' =>
        rw [List.intercalate_cons_cons, List.append_assoc, List.length_append]
        simp
    | cons m ls =>
      cases ls' with
      | nil => cases h
      | cons l' ls' =>
        rw [List.intercalate_cons_cons, List.intercalate_cons_cons]
        simp only [List.length_append]
        omega

theorem length_intercalate_map_le {f : List Char → List Char} (h : ∀ l, (f l).length ≤ l.length)
    (ls : List (List Char)) :
    (sep.intercalate (ls.map f)).length ≤ (sep.intercalate ls).length := by
  induction ls with
  | nil => exact Nat.le_refl _
  | cons l ls ih =>
    have hl := h l
    cases ls with
    | nil => simpa using hl
    | cons m ls =>
      simp only [List.map_cons] at ih ⊢
      rw [List.intercalate_cons_cons, List.intercalate_cons_cons]
      simp only [List.length_append]
      omega

theorem length_stripEnd_le (p : Char → Bool) (cs : List Char) :
    (stripEnd p cs).length ≤ cs.length := by
  have := (List.dropWhile_suffix p (l := cs.reverse)).length_le
  simpa [stripEnd] using this

end Text

namespace Token

open Text

/-! ## Literals -/

namespace Literal

variable {cs value u : List Char} {reading : Option (List Char) × List Char}

theorem prepend_eq_some (h : (prepend u reading).1 = some value) :
    ∃ v, reading.1 = some v ∧ value = u ++ v := by
  obtain ⟨v, hv, rfl⟩ := Option.map_eq_some_iff.mp h
  exact ⟨v, hv, rfl⟩

/-- With its backslash, an escape is at least as long as what it denotes. -/
theorem length_escape (cs : List Char) :
    (escape cs).1.length + (escape cs).2.length ≤ cs.length + 1 := by
  cases cs with
  | nil => exact Nat.le_refl _
  | cons c cs =>
    rw [escape]
    split
    · simp only [List.length_cons, List.length_nil]
      omega
    · split
      · simp only [List.length_cons, List.length_nil]
        omega
      · dsimp only
        split
        · simp only [List.length_cons, List.length_nil]
          omega
        · split
          · simp only [List.length_cons, List.length_nil, List.length_drop]
            omega
          · simp only [List.length_cons, List.length_nil]
            omega

theorem length_regular (h : (regular cs).1 = some value) :
    value.length + (regular cs).2.length + 1 ≤ cs.length := by
  fun_induction regular cs generalizing value with
  | case1 => cases h
  | case2 =>
    cases h
    simp
  | case3 => cases h
  | case4 cs _ _ ih =>
    obtain ⟨v, hv, rfl⟩ := prepend_eq_some h
    have hrest := ih hv
    have hescape := length_escape cs
    simp only [prepend, List.length_append, List.length_cons]
    omega
  | case5 c cs _ _ _ ih =>
    obtain ⟨v, hv, rfl⟩ := prepend_eq_some h
    have hrest := ih hv
    simp only [prepend, List.length_append, List.length_cons, List.length_nil]
    omega

theorem length_verbatim (h : (verbatim cs).1 = some value) :
    value.length + (verbatim cs).2.length + 1 ≤ cs.length := by
  fun_induction verbatim cs generalizing value with
  | case1 => cases h
  | case2 cs ih =>
    obtain ⟨v, hv, rfl⟩ := prepend_eq_some h
    have hrest := ih hv
    simp only [prepend, List.length_append, List.length_cons, List.length_nil]
    omega
  | case3 =>
    cases h
    simp
  | case4 c cs _ _ ih =>
    obtain ⟨v, hv, rfl⟩ := prepend_eq_some h
    have hrest := ih hv
    simp only [prepend, List.length_append, List.length_cons, List.length_nil]
    omega

theorem length_dedent_le (indent line : List Char) :
    (dedent indent line).length ≤ line.length := by
  have hstrip := length_stripEnd_le (· = '\r') line
  rw [dedent]
  split
  · rename_i rest hafter
    have := congrArg List.length (after?_eq_some_iff.mp hafter)
    rw [List.length_append] at this
    omega
  · have := (List.dropWhile_suffix isBlank (l := stripEnd (· = '\r') line)).length_le
    omega

theorem length_rawValue? {content : List Char} (h : rawValue? content = some value) :
    value.length ≤ content.length := by
  unfold rawValue? at h
  split at h
  · cases h
    exact Nat.le_refl _
  · cases h
    exact Nat.le_refl _
  · rename_i first second rest hlines
    dsimp only at h
    split at h
    · cases h
      have hcontent : ['\n'].intercalate (first :: second :: rest) = content := by
        rw [← hlines]
        exact List.intercalate_splitOn '\n'
      have hbody : ((second :: rest).dropLast).Sublist (first :: second :: rest) :=
        (List.dropLast_sublist _).trans (List.sublist_cons_self first _)
      calc (['\n'].intercalate (((second :: rest).dropLast).map (dedent _))).length
          ≤ (['\n'].intercalate (second :: rest).dropLast).length :=
            length_intercalate_map_le (length_dedent_le _) _
        _ ≤ (['\n'].intercalate (first :: second :: rest)).length :=
            length_intercalate_of_sublist hbody
        _ = content.length := by rw [hcontent]
    · cases h

/-- A raw string has at least two quotes more than its value. -/
theorem length_raw (h : (raw ('"' :: cs)).1 = some value) :
    value.length + (raw ('"' :: cs)).2.length + 2 ≤ cs.length + 1 := by
  unfold raw at h ⊢
  cases hcut : cutAt (('"' :: cs).takeWhile isQuote) (('"' :: cs).dropWhile isQuote) with
  | none =>
    rw [hcut] at h
    cases h
  | some parts =>
    obtain ⟨content, rest⟩ := parts
    rw [hcut] at h
    have hquotes := congrArg List.length (List.takeWhile_append_dropWhile (p := isQuote)
      (l := '"' :: cs))
    have hcontent := congrArg List.length (eq_of_cutAt hcut)
    have hvalue := length_rawValue? h
    have hrest := (List.dropWhile_suffix isQuote (l := rest)).length_le
    have hopening : 0 < (('"' :: cs).takeWhile isQuote).length := by
      rw [List.takeWhile_cons_of_pos (by decide)]
      exact Nat.succ_pos _
    simp only [List.length_append, List.length_cons] at *
    omega

end Literal

/-! ## Tokens -/

theorem Kind.ofValue_eq_str {reading : Option (List Char)} {value : String}
    (h : Kind.ofValue reading = .str value) : ∃ v, reading = some v ∧ value.length = v.length := by
  cases reading with
  | none => cases h
  | some v =>
    cases h
    exact ⟨v, rfl, String.length_ofList⟩

variable {c : Char} {cs : List Char} {value : String}

theorem length_constant {reading : Option (List Char) × List Char}
    (hvalue : (constant reading c cs).value = .str value)
    (hlength : ∀ v, reading.1 = some v → v.length + reading.2.length + 1 ≤ cs.length) :
    value.length + 2 ≤ (constant reading c cs).text.length := by
  obtain ⟨v, hv, hlengths⟩ := Kind.ofValue_eq_str hvalue
  have hle := hlength v hv
  have htext : (constant reading c cs).text.length = cs.length + 1 - reading.2.length := by
    simp [constant, Cutting.upTo, upTo]
  omega

/-- Only the literals that are closed have a value, and it is shorter than the token. -/
theorem length_scan (h : (scan c cs).value = .str value) :
    value.length + 2 ≤ (scan c cs).text.length := by
  unfold scan at h ⊢
  dsimp only at h ⊢
  split at h
  · rename_i hc
    subst hc
    rw [if_pos rfl]
    split at h
    · rename_i hraw
      rw [if_pos hraw]
      refine length_constant h fun v hv => ?_
      have := Literal.length_raw hv
      omega
    · rename_i hregular
      rw [if_neg hregular]
      exact length_constant h fun v hv => Literal.length_regular hv
  rename_i hquote
  rw [if_neg hquote]
  split at h
  · rename_i hverbatim
    rw [if_pos hverbatim]
    obtain ⟨cs, rfl⟩ := List.head?_eq_some_iff.mp hverbatim.2
    refine length_constant h fun v hv => ?_
    have := Literal.length_verbatim hv
    simp only [List.tail_cons, List.length_cons] at *
    omega
  split at h
  · cases h
  split at h
  · cases h
  split at h
  · cases h
  split at h
  · cases h
  · have hpunctuation := isPunctuation_punctuation c cs
    rw [h] at hpunctuation
    cases hpunctuation

/-- The value of a constant string has at least two characters less than the token has bytes. -/
theorem length_add_two_le_of_mem_tokenize {source : String} {t : Token}
    (ht : t ∈ tokenize source) (h : t.kind = .str value) :
    value.length + 2 ≤ width t.text.toList := by
  obtain ⟨c, rest, hkind, htext⟩ := exists_scan_of_mem_tokenize ht
  rw [h] at hkind
  have hscan := length_scan hkind
  have hwidth := length_le_width (scan c rest).text
  rw [htext, String.toList_ofList]
  omega

end Token

end AttributeLint
