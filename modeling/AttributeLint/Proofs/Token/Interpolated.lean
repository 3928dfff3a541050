import AttributeLint.Proofs.Token.LocalPieces

/-!
# Interpolated — the marks, the holes and the end of an interpolated string

An interpolated string is one literal, holes included, and the reader finds its end by counting the
braces that are open. A doubled brace stands for itself and opens no hole, but the reader counts it
as two braces. It still finds the closing quote if every `{{` is followed by a `}}` of its own,
since the count does not fall below zero; if some `{{` is not, the literal takes what stands behind
it (`exists_tokenize_interpolated`).
-/

namespace AttributeLint.Token.Literal

open Text

variable {c : Char} {cs marks more rest : List Char}

/-! ## Marks -/

/-- What follows an interpolated string with the given marks, read with `depth` holes open. -/
def holes (marks : List Char) (depth : Nat) : List Char → List Char :=
  if marks.contains '@' then verbatimHoles depth else escapedHoles depth

theorem holes_nil (marks : List Char) (depth : Nat) : holes marks depth [] = [] := by
  unfold holes
  split
  · rw [verbatimHoles]
  · rw [escapedHoles]

theorem interpolated_marks (hmarks : ∀ c ∈ marks, isMark c) (cs : List Char) :
    interpolated (marks ++ '"' :: cs) = holes marks 0 cs := by
  have hquote : ∀ c, ('"' :: cs).head? = some c → isMark c = false := by
    intro c hc
    cases hc
    rfl
  obtain ⟨htake, hdrop⟩ := takeWhile_append_of_head? hmarks hquote
  have hbody : (after? ['"'] ('"' :: cs)).getD ('"' :: cs) = cs := by simp [after?]
  rw [interpolated_eq_afterMarks, htake, hdrop, afterMarks, hbody, holes]
  split
  · rfl
  · rfl

theorem scan_marks (hmarks : ∀ d ∈ c :: more, isMark d) (hverbatim : c :: more ≠ ['@'])
    (cs : List Char) :
    scan c (more ++ '"' :: cs) =
      .upTo .literal (holes (c :: more) 0 cs) c (more ++ '"' :: cs) := by
  have hc := isMark_iff.mp (hmarks c List.mem_cons_self)
  have hnext : (more ++ '"' :: cs).head? = some '"' ∨ (more ++ '"' :: cs).head? = some '$' ∨
      (more ++ '"' :: cs).head? = some '@' := by
    cases more with
    | nil => exact .inl rfl
    | cons d more =>
      have hd : d ∈ c :: d :: more := List.mem_cons_of_mem c List.mem_cons_self
      rcases isMark_iff.mp (hmarks d hd) with rfl | rfl
      · exact .inr (.inl rfl)
      · exact .inr (.inr rfl)
  have hquote : c ≠ '"' := by
    rcases hc with rfl | rfl
    · decide
    · decide
  have hsingle : ¬(c = '@' ∧ (more ++ '"' :: cs).head? = some '"') := by
    rintro ⟨rfl, hhead⟩
    cases more with
    | nil => exact hverbatim rfl
    | cons d more =>
      have hd := hmarks d (by simp)
      rw [Option.some.inj hhead] at hd
      cases hd
  rw [scan, if_neg hquote, if_neg hsingle, if_pos ⟨hc, hnext⟩, ← List.cons_append,
    interpolated_marks hmarks]

/-- Marks, a quote, and what is read behind the quote are one literal. -/
theorem pieces_marks (hmarks : ∀ d ∈ marks, isMark d) (hne : marks ≠ []) (hverbatim : marks ≠ ['@'])
    (lineStart : Bool) {taken left : List Char} (hread : holes marks 0 (taken ++ left) = left) :
    pieces lineStart (marks ++ '"' :: (taken ++ left)) =
      { role := .token .literal, text := marks ++ '"' :: taken } :: pieces false left := by
  cases marks with
  | nil => exact absurd rfl hne
  | cons c more =>
    have hc : isBlank c = false ∧ c ≠ '#' ∧ c ≠ '/' := by
      rcases isMark_iff.mp (hmarks c List.mem_cons_self) with rfl | rfl
      · decide
      · decide
    have htext : c :: (more ++ '"' :: (taken ++ left)) = c :: (more ++ '"' :: taken) ++ left := by
      simp
    rw [List.cons_append, pieces_eq_scan lineStart _ hc.1 hc.2.1 hc.2.2,
      scan_marks hmarks hverbatim, hread, Cutting.upTo, htext, upTo_append_self]
    rfl

/-! ## Doubled braces -/

/-- A part of an interpolated string outside its holes. -/
inductive Part where
  /-- A character that stands for itself in every form of string. -/
  | char (c : Char) (hallowed : c ≠ '"' ∧ c ≠ '\\' ∧ c ≠ '\n' ∧ c ≠ '{' ∧ c ≠ '}')
  /-- The opening brace, written twice. -/
  | opening
  /-- The closing brace, written twice. -/
  | closing
  deriving DecidableEq, Repr

namespace Part

/-- How the part is written. -/
def text : Part → List Char
  | .char c _ => [c]
  | .opening => ['\x7b', '\x7b']
  | .closing => ['\x7d', '\x7d']

/-- The number of holes that the reader takes to be open behind the part, of `depth` before it. -/
def holesAfter (depth : Nat) : Part → Nat
  | .char _ _ => depth
  | .opening => depth + 2
  | .closing => depth - 2

end Part

/-- Every opening brace has a closing one of its own behind it: no end of the parts has more opening
braces than closing ones. -/
def Settled (ps : List Part) : Prop :=
  ∀ v, v <:+ ps → v.count .opening ≤ v.count .closing

theorem holes_part (p : Part) (marks : List Char) (depth : Nat) (cs : List Char) :
    holes marks depth (p.text ++ cs) = holes marks (p.holesAfter depth) cs := by
  unfold holes
  cases p with
  | char c hallowed =>
    obtain ⟨hquote, hbackslash, hfeed, hopening, hclosing⟩ := hallowed
    split
    · simp [Part.text, Part.holesAfter, verbatimHoles_cons depth fun h => absurd h hquote, hquote,
        hopening, hclosing]
    · simp [Part.text, Part.holesAfter, escapedHoles_cons depth fun h => absurd h hbackslash,
        hquote, hfeed, hopening, hclosing]
  | opening =>
    split
    · simp [Part.text, Part.holesAfter, verbatimHoles]
    · simp [Part.text, Part.holesAfter, escapedHoles]
  | closing =>
    split
    · simp [Part.text, Part.holesAfter, verbatimHoles, Nat.sub_sub]
    · simp [Part.text, Part.holesAfter, escapedHoles, Nat.sub_sub]

theorem holes_parts (ps : List Part) (marks : List Char) (depth : Nat) (cs : List Char) :
    holes marks depth (ps.flatMap Part.text ++ cs) =
      holes marks (ps.foldl Part.holesAfter depth) cs := by
  induction ps generalizing depth with
  | nil => rfl
  | cons p ps ih =>
    rw [List.flatMap_cons, List.append_assoc, holes_part, ih, List.foldl_cons]

theorem settled_cons_iff {p : Part} {ps : List Part} :
    Settled (p :: ps) ↔ (p :: ps).count .opening ≤ (p :: ps).count .closing ∧ Settled ps := by
  simp [Settled, List.suffix_cons_iff, or_imp, forall_and]

theorem Settled.count_le {ps : List Part} (h : Settled ps) :
    ps.count .opening ≤ ps.count .closing :=
  h ps List.suffix_rfl

/-- No hole is open in the end exactly if the parts close all that were open before and all of their
own. -/
theorem foldl_holesAfter_eq_zero_iff (ps : List Part) (depth : Nat) :
    ps.foldl Part.holesAfter depth = 0 ↔
      Settled ps ∧ depth + 2 * ps.count .opening ≤ 2 * ps.count .closing := by
  induction ps generalizing depth with
  | nil => simp [Settled]
  | cons p ps ih =>
    rw [List.foldl_cons, ih, settled_cons_iff]
    by_cases hsettled : Settled ps
    · have hle := hsettled.count_le
      simp only [hsettled, true_and, and_true, List.count_cons]
      cases p with
      | char c hallowed =>
        simp only [Part.holesAfter, beq_iff_eq, reduceCtorEq, if_false]
        omega
      | opening =>
        simp only [Part.holesAfter, beq_iff_eq, reduceCtorEq, if_true, if_false]
        omega
      | closing =>
        simp only [Part.holesAfter, beq_iff_eq, reduceCtorEq, if_true, if_false]
        omega
    · simp [hsettled]

/-! ## The closing quote -/

theorem holes_quote (marks : List Char) (h : rest.head? ≠ some '"') :
    holes marks 0 ('"' :: rest) = rest := by
  unfold holes
  split
  · simp [verbatimHoles_cons 0 fun _ => h]
  · simp [escapedHoles]

/-- A quote inside a hole is passed over. -/
theorem holes_quote_inside (marks : List Char) {depth : Nat} (hdepth : depth ≠ 0)
    (h : rest.head? ≠ some '"') : holes marks depth ('"' :: rest) = holes marks depth rest := by
  unfold holes
  split
  · simp [verbatimHoles_cons depth fun _ => h, hdepth]
  · simp [escapedHoles, hdepth]

/-- The reader takes one character at least. -/
theorem holes_cons_suffix (marks : List Char) (depth : Nat) (c : Char) (cs : List Char) :
    holes marks depth (c :: cs) <:+ cs := by
  unfold holes
  split
  · by_cases hpair : c = '"' ∧ cs.head? = some '"'
    · obtain ⟨rfl, hhead⟩ := hpair
      obtain ⟨cs, rfl⟩ := List.head?_eq_some_iff.mp hhead
      exact (verbatimHoles_suffix depth cs).trans (List.suffix_cons _ cs)
    · rw [verbatimHoles_cons depth fun hc hhead => hpair ⟨hc, hhead⟩]
      split
      · exact verbatimHoles_suffix _ cs
      split
      · exact verbatimHoles_suffix _ cs
      split
      · exact List.suffix_rfl
      · exact verbatimHoles_suffix _ cs
  · by_cases hpair : c = '\\' ∧ cs ≠ []
    · obtain ⟨rfl, hne⟩ := hpair
      obtain ⟨d, cs, rfl⟩ := List.exists_cons_of_ne_nil hne
      exact (escapedHoles_suffix depth cs).trans (List.suffix_cons d cs)
    · rw [escapedHoles_cons depth fun hc => by simpa [hc] using hpair]
      split
      · exact escapedHoles_suffix _ cs
      split
      · exact escapedHoles_suffix _ cs
      split
      · exact List.suffix_rfl
      · exact escapedHoles_suffix _ cs

/-! ## Tokens -/

/-- The marks of interpolated strings that are not raw. -/
inductive Marks where
  /-- Written `$`. -/
  | escaped
  /-- Written `$@`. -/
  | verbatim
  /-- Written `@$`. -/
  | verbatimFirst
  deriving DecidableEq, Repr

/-- How the marks are written. -/
def Marks.text : Marks → List Char
  | .escaped => ['$']
  | .verbatim => ['$', '@']
  | .verbatimFirst => ['@', '$']

/-- The literal with the given marks and parts. -/
def ofParts (marks : Marks) (ps : List Part) : List Char :=
  marks.text ++ '"' :: (ps.flatMap Part.text ++ ['"'])

theorem Marks.isMark_of_mem (marks : Marks) : ∀ c ∈ marks.text, isMark c := by
  cases marks with
  | escaped => simp [Marks.text, isMark]
  | verbatim => simp [Marks.text, isMark]
  | verbatimFirst => simp [Marks.text, isMark]

theorem Marks.text_ne (marks : Marks) : marks.text ≠ [] ∧ marks.text ≠ ['@'] := by
  cases marks with
  | escaped => decide
  | verbatim => decide
  | verbatimFirst => decide

theorem settled_iff_foldl {ps : List Part} : Settled ps ↔ ps.foldl Part.holesAfter 0 = 0 := by
  rw [foldl_holesAfter_eq_zero_iff]
  constructor
  · intro h
    have := h.count_le
    exact ⟨h, by omega⟩
  · exact And.left

instance (ps : List Part) : Decidable (Settled ps) :=
  decidable_of_iff' _ settled_iff_foldl

/-- What the reader takes behind the closing quote: nothing if every doubled opening brace is
closed, and otherwise something if there is anything. -/
theorem exists_holes_parts (marks : List Char) (ps : List Part) (h : rest.head? ≠ some '"') :
    ∃ more left, rest = more ++ left ∧ (more = [] ↔ rest = [] ∨ Settled ps) ∧
      holes marks 0 (ps.flatMap Part.text ++ '"' :: rest) = left := by
  rw [holes_parts]
  by_cases hsettled : Settled ps
  · rw [settled_iff_foldl.mp hsettled]
    exact ⟨[], rest, rfl, by simp [hsettled], holes_quote marks h⟩
  · have hdepth : ps.foldl Part.holesAfter 0 ≠ 0 := mt settled_iff_foldl.mpr hsettled
    rw [holes_quote_inside marks hdepth h]
    cases rest with
    | nil => exact ⟨[], [], rfl, by simp, holes_nil marks _⟩
    | cons c cs =>
      obtain ⟨more, hmore⟩ := holes_cons_suffix marks (ps.foldl Part.holesAfter 0) c cs
      exact ⟨c :: more, _, by rw [List.cons_append, hmore], by simp [hsettled], rfl⟩

/-- The first token is the literal, and what follows is read as code, exactly if every doubled
opening brace is closed by a doubled brace behind it or nothing follows. Otherwise the first token
is the literal with a stretch of what follows. -/
theorem exists_tokenize_interpolated (marks : Marks) (ps : List Part) {rest : List Char}
    (h : rest.head? ≠ some '"') :
    ∃ more left, rest = more ++ left ∧ (more = [] ↔ rest = [] ∨ Settled ps) ∧
      tokenize (String.ofList (ofParts marks ps ++ rest)) =
        { kind := .literal, text := String.ofList (ofParts marks ps ++ more), start := 0 } ::
          place (width (ofParts marks ps ++ more)) (pieces false left) := by
  obtain ⟨more, left, hrest, hmore, hread⟩ := exists_holes_parts marks.text ps h
  refine ⟨more, left, hrest, hmore, ?_⟩
  have hsource : ofParts marks ps ++ rest =
      marks.text ++ '"' :: (ps.flatMap Part.text ++ '"' :: more ++ left) := by
    simp [ofParts, hrest]
  have hread' : holes marks.text 0 (ps.flatMap Part.text ++ '"' :: more ++ left) = left := by
    rw [List.append_assoc, List.cons_append, ← hrest, hread]
  have htext : marks.text ++ '"' :: (ps.flatMap Part.text ++ '"' :: more) =
      ofParts marks ps ++ more := by
    simp [ofParts]
  rw [tokenize, String.toList_ofList, hsource,
    pieces_marks marks.isMark_of_mem marks.text_ne.1 marks.text_ne.2 true hread', place_token,
    htext, Nat.zero_add]

/-- Braces in any order end with the literal if each opening one is closed behind it. -/
theorem exists_tokenize_interpolated_settled :
    tokenize "@$\"\x7d\x7d\x7b\x7b?\x7d\x7d\", [A]" =
      { kind := .literal, text := "@$\"\x7d\x7d\x7b\x7b?\x7d\x7d\"", start := 0 } ::
        place 11 (pieces false ", [A]".toList) := by
  have hhead : ", [A]".toList.head? ≠ some '"' := by decide
  obtain ⟨more, left, hrest, hmore, htokens⟩ :=
    exists_tokenize_interpolated .verbatimFirst
      [.closing, .opening, .char '?' (by decide), .closing] hhead
  have hnil : more = [] := hmore.mpr (.inr (by decide))
  rw [hnil, List.nil_append] at hrest
  rw [hnil, ← hrest] at htokens
  exact htokens

/-- A doubled opening brace that nothing closes makes what follows a part of the literal. -/
theorem tokenize_doubled_opening :
    ¬ Settled [.opening] ∧
      String.ofList (ofParts .escaped [.opening]) = "$\"\x7b\x7b\"" ∧
      tokenize "$\"\x7b\x7b\"; [A]" =
        [{ kind := .literal, text := "$\"\x7b\x7b\"; [A]", start := 0 }] := by
  decide +kernel

end AttributeLint.Token.Literal
