import AttributeLint.Proofs.Token.LocalReading

/-!
# LocalPieces — pieces do not depend on what follows them

Every piece of a source ends where its own text says that it ends: the lexer cuts the same piece in
front of any text that may stand in the place of what followed it (`cutsLocally_nextPiece`). In
particular it does so in front of a line feed, and at the end of the text.
-/

namespace AttributeLint.Token

open Text

variable {α β : Type} {c : Char} {cs taken rest : List Char} {cut cut' : List Char → Cutting α}

/-- What is cut off the front of the text `c :: cs` is also cut off in front of all that may stand
in the place of the text left. -/
def CutsLocally (cut : List Char → Cutting α) (c : Char) (cs : List Char) : Prop :=
  ∃ taken, (cut cs).text = c :: taken ∧ cs = taken ++ (cut cs).rest ∧
    ∀ rest, Replaces rest (cut cs).rest → cut (taken ++ rest) = { cut cs with rest }

/-! ## Ways to cut -/

theorem cutsLocally_single (value : α) (c : Char) (cs : List Char) :
    CutsLocally (.single value c) c cs :=
  ⟨[], rfl, rfl, fun _ _ => rfl⟩

theorem cutsLocally_pair (value : α) (hcs : cs ≠ []) : CutsLocally (.pair value c) c cs := by
  obtain ⟨d, cs, rfl⟩ := List.exists_cons_of_ne_nil hcs
  exact ⟨[d], rfl, rfl, fun _ _ => rfl⟩

theorem cutsLocally_run (value : α) {p : Char → Bool} (hp : p '\n' = false) (c : Char)
    (cs : List Char) : CutsLocally (.run value p c) c cs := by
  refine ⟨cs.takeWhile p, rfl, List.takeWhile_append_dropWhile.symm, fun rest hrest => ?_⟩
  obtain ⟨htake, hdrop⟩ := takeWhile_of_replaces hp hrest
  rw [Cutting.run, htake, hdrop]
  rfl

theorem cutting_upTo_eq (value : α) (c : Char) {cs taken rest : List Char}
    (h : cs = taken ++ rest) :
    Cutting.upTo value rest c cs = { value, text := c :: taken, rest } := by
  rw [Cutting.upTo, h, ← List.cons_append, upTo_append_self]

theorem cutsLocally_upTo {read : List Char → β × List Char} (h : ReadsLocally read cs)
    (value : β → α) (c : Char) :
    CutsLocally (fun cs => .upTo (value (read cs).1) (read cs).2 c cs) c cs := by
  obtain ⟨taken, htaken, hread⟩ := h
  have hcut := cutting_upTo_eq (value (read cs).1) c htaken
  refine ⟨taken, congrArg Cutting.text hcut, htaken, fun rest hrest => ?_⟩
  simp only [hread rest hrest, hcut]
  exact cutting_upTo_eq _ c rfl

theorem CutsLocally.map (h : CutsLocally cut c cs) (f : α → β) :
    CutsLocally (fun cs => { cut cs with value := f (cut cs).value }) c cs := by
  obtain ⟨taken, htext, htaken, hcut⟩ := h
  refine ⟨taken, htext, htaken, fun rest hrest => ?_⟩
  simp only [hcut rest hrest]

/-- Two ways to cut that agree on the text, and on what may stand in its place. -/
theorem CutsLocally.congr (h : CutsLocally cut' c cs)
    (hcut : ∀ taken rest, cs = taken ++ (cut' cs).rest → Replaces rest (cut' cs).rest →
      cut (taken ++ rest) = cut' (taken ++ rest)) : CutsLocally cut c cs := by
  obtain ⟨taken, htext, htaken, hlocal⟩ := h
  have hsame : cut cs = cut' cs := by
    have hself := hcut taken _ htaken (.refl _)
    rwa [← htaken] at hself
  unfold CutsLocally
  rw [hsame]
  refine ⟨taken, htext, htaken, fun rest hrest => ?_⟩
  rw [hcut taken rest htaken hrest, hlocal rest hrest]

/-- Which of two cuttings is made may depend on the next character if the first cutting takes it,
and is made neither at the end of a line nor at that of the text. -/
theorem CutsLocally.ite {p : Option Char → Prop} [DecidablePred p] (hnone : ¬ p none)
    (hfeed : ¬ p (some '\n'))
    (hthen : p cs.head? → CutsLocally cut c cs ∧ (cut cs).rest ≠ cs)
    (helse : ¬ p cs.head? → CutsLocally cut' c cs) :
    CutsLocally (fun cs => if p cs.head? then cut cs else cut' cs) c cs := by
  by_cases hp : p cs.head?
  · obtain ⟨hlocal, hshorter⟩ := hthen hp
    refine hlocal.congr fun taken rest htaken _ => if_pos ?_
    cases taken with
    | nil => exact absurd htaken.symm hshorter
    | cons d taken =>
      rw [htaken] at hp
      exact hp
  · refine (helse hp).congr fun taken rest htaken hrest => if_neg ?_
    have hbehind : Replaces (taken ++ rest) cs := hrest.append_of_eq htaken
    rcases hbehind with hnil | ⟨-, hhead | hhead⟩
    · rwa [hnil]
    · rwa [hhead]
    · rwa [hhead]

/-! ## Tokens -/

theorem ne_cons_of_suffix {rest tail : List Char} (h : rest <:+ tail) (d : Char) :
    rest ≠ d :: tail := by
  rintro rfl
  have hlength := h.length_le
  rw [List.length_cons] at hlength
  omega

theorem cutsLocally_punctuation (c : Char) (cs : List Char) :
    CutsLocally (punctuation c) c cs := by
  have hpair {d : Char} (kind : Kind) (hnext : cs.head? = some d) :
      CutsLocally (.pair kind c) c cs ∧ (Cutting.pair kind c cs).rest ≠ cs := by
    obtain ⟨cs, rfl⟩ := List.head?_eq_some_iff.mp hnext
    exact ⟨cutsLocally_pair kind (List.cons_ne_nil d cs), ne_cons_of_suffix List.suffix_rfl d⟩
  refine .ite (p := fun next => c = ':' ∧ next = some ':') (by simp) (by simp)
    (fun h => hpair _ h.2) fun _ => ?_
  refine .ite (p := fun next => c = '=' ∧ (next = some '=' ∨ next = some '>')) (by simp) (by simp)
    ?_ fun _ => cutsLocally_single _ c cs
  rintro ⟨-, hnext | hnext⟩
  · exact hpair _ hnext
  · exact hpair _ hnext

theorem scan_raw {inside : List Char} (hcs : after? ['"', '"'] cs = some inside) :
    scan '"' cs = constant (Literal.raw ('"' :: cs)) '"' cs := by
  rw [scan, hcs]
  rfl

theorem cutsLocally_scan_raw (inside : List Char) :
    CutsLocally (scan '"') '"' ('"' :: '"' :: inside) := by
  obtain ⟨u, hu⟩ : (Literal.raw ('"' :: '"' :: '"' :: inside)).2 <:+ inside :=
    (Literal.raw_suffix _).trans (List.dropWhile_suffix (l := inside) Literal.isQuote)
  have htaken : ['"', '"'] ++ u ++ (Literal.raw ('"' :: '"' :: '"' :: inside)).2 =
      '"' :: '"' :: inside := congrArg (['"', '"'] ++ ·) hu
  have hquote : ('"' :: '"' :: '"' :: inside).head? = some '"' := rfl
  have hread := (Literal.readsLocally_raw hquote).behind ⟨_, htaken⟩
  refine (cutsLocally_upTo hread Kind.ofValue '"').congr fun taken rest htaken' _ => ?_
  -- the quotes that make the string a raw one belong to it
  obtain rfl : taken = ['"', '"'] ++ u := List.append_cancel_right (htaken'.symm.trans htaken.symm)
  have hquotes : after? ['"', '"'] (['"', '"'] ++ u ++ rest) = some (u ++ rest) := rfl
  exact scan_raw hquotes

/-- The first two characters of a text tell a regular string from a raw one, and they stay when what
follows the regular string changes. -/
theorem after?_quotes_of_replaces (hcs : after? ['"', '"'] cs = none)
    (htaken : cs = taken ++ (Literal.regular cs).2) (hrest : Replaces rest (Literal.regular cs).2) :
    after? ['"', '"'] (taken ++ rest) = none := by
  rw [Option.eq_none_iff_forall_ne_some]
  intro inside hinside
  have hquotes : taken ++ rest = '"' :: '"' :: inside := after?_eq_some_iff.mp hinside
  have hbehind : Replaces (taken ++ rest) cs := hrest.append_of_eq htaken
  have hhead : cs.head? = some '"' := Decidable.byContradiction fun hne =>
    hbehind.head?_ne (by decide) hne (by rw [hquotes]; rfl)
  obtain ⟨tail, rfl⟩ := List.head?_eq_some_iff.mp hhead
  -- the string is empty, and its closing quote has no quote behind it
  have hempty : (Literal.regular ('"' :: tail)).2 = tail := by simp [Literal.regular]
  have htail : tail.head? ≠ some '"' := head?_ne fun inside htail => by simp [htail, after?] at hcs
  rw [hempty] at htaken hrest
  obtain rfl : taken = ['"'] := List.append_cancel_right htaken.symm
  obtain rfl : rest = '"' :: inside := (List.cons.inj hquotes).2
  exact hrest.head?_ne (by decide) htail rfl

theorem cutsLocally_scan_regular (hcs : after? ['"', '"'] cs = none) :
    CutsLocally (scan '"') '"' cs :=
  (cutsLocally_upTo (Literal.readsLocally_regular cs) Kind.ofValue '"').congr
    fun _ _ htaken hrest => scan_regular (after?_quotes_of_replaces hcs htaken hrest)

theorem isIdentContinue_of_isIdentStart (h : isIdentStart c) : isIdentContinue c := by
  simp only [isIdentStart, isIdentContinue, isAlphanumeric, Bool.or_eq_true] at h ⊢
  exact h.imp_right .inl

/-- Marks and an opening quote are taken by the interpolated string that they begin. -/
theorem interpolated_suffix_of_head? (hc : c = '$' ∨ c = '@') {d : Char}
    (hd : d = '"' ∨ d = '$' ∨ d = '@') (cs : List Char) :
    Literal.interpolated (c :: d :: cs) <:+ cs := by
  have hmark : Literal.isMark c := Literal.isMark_iff.mpr hc
  rcases hd with rfl | hd
  · have hbody : Literal.interpolated (c :: '"' :: cs) = Literal.afterMarks [c] ('"' :: cs) := by
      rw [Literal.interpolated_eq_afterMarks, List.takeWhile_cons_of_pos hmark,
        List.dropWhile_cons_of_pos hmark]
      rfl
    rw [hbody, Literal.afterMarks]
    split
    · exact Literal.verbatimHoles_suffix 0 cs
    · exact Literal.escapedHoles_suffix 0 cs
  · have hmark' : Literal.isMark d := Literal.isMark_iff.mpr hd
    refine (Literal.interpolated_suffix _).trans ?_
    rw [List.dropWhile_cons_of_pos hmark, List.dropWhile_cons_of_pos hmark']
    exact List.dropWhile_suffix _

theorem cutsLocally_scan (c : Char) (cs : List Char) : CutsLocally (scan c) c cs := by
  by_cases hquote : c = '"'
  · subst hquote
    cases hquotes : after? ['"', '"'] cs with
    | none => exact cutsLocally_scan_regular hquotes
    | some inside =>
      obtain rfl := after?_eq_some_iff.mp hquotes
      exact cutsLocally_scan_raw inside
  unfold scan
  simp only [hquote, if_false]
  refine .ite (p := fun next => c = '@' ∧ next = some '"') (by simp) (by simp) ?_ fun _ => ?_
  · rintro ⟨rfl, hnext⟩
    obtain ⟨cs, rfl⟩ := List.head?_eq_some_iff.mp hnext
    have hread := (Literal.readsLocally_verbatim cs).tail '"'
    exact ⟨cutsLocally_upTo hread Kind.ofValue '@',
      ne_cons_of_suffix (Literal.verbatim_suffix cs) _⟩
  refine .ite (p := fun next => (c = '$' ∨ c = '@') ∧
    (next = some '"' ∨ next = some '$' ∨ next = some '@')) (by simp) (by simp) ?_ fun _ => ?_
  · rintro ⟨hc, hnext⟩
    obtain ⟨d, cs, rfl, hd⟩ : ∃ d cs', cs = d :: cs' ∧ (d = '"' ∨ d = '$' ∨ d = '@') := by
      cases cs with
      | nil => simp at hnext
      | cons d cs => exact ⟨d, cs, rfl, by simpa using hnext⟩
    have hsuffix := interpolated_suffix_of_head? hc hd cs
    have hread := (Literal.skipsLocally_interpolated (c :: d :: cs)).readsLocally.behind
      (hsuffix.trans (List.suffix_cons d cs))
    exact ⟨cutsLocally_upTo hread (fun _ => Kind.literal) c, ne_cons_of_suffix hsuffix d⟩
  by_cases hcharacter : c = '\''
  · simp only [hcharacter, if_true]
    have hread := (Literal.skipsLocally_character cs).readsLocally
    exact cutsLocally_upTo hread (fun _ => Kind.literal) '\''
  simp only [hcharacter, if_false]
  by_cases hdigit : c.isDigit = true
  · simp only [hdigit, if_true]
    exact cutsLocally_run Kind.literal rfl c cs
  simp only [hdigit, Bool.false_eq_true, if_false]
  have hrun : CutsLocally (.run Kind.ident isIdentContinue c) c cs :=
    cutsLocally_run Kind.ident rfl c cs
  by_cases hident : isIdentStart c
  · simpa only [hident, true_or, if_true] using hrun
  simp only [hident, Bool.false_eq_true, false_or]
  refine .ite (p := fun next => c = '@' ∧ next.any isIdentStart) (by simp)
    (fun h => absurd h.2 (by decide)) ?_ fun _ => cutsLocally_punctuation c cs
  rintro ⟨-, hnext⟩
  cases cs with
  | nil => simp at hnext
  | cons d cs =>
    refine ⟨hrun, ne_cons_of_suffix ?_ d⟩
    rw [Cutting.run, List.dropWhile_cons_of_pos (isIdentContinue_of_isIdentStart hnext)]
    exact List.dropWhile_suffix _

/-! ## Pieces -/

/-- A piece ends where its own text says so. -/
theorem cutsLocally_nextPiece (lineStart : Bool) (c : Char) (cs : List Char) :
    CutsLocally (nextPiece lineStart c) c cs := by
  unfold nextPiece
  by_cases hfeed : c = '\n'
  · simp only [hfeed, if_true]
    exact cutsLocally_single _ '\n' cs
  simp only [hfeed, if_false]
  by_cases hblank : isBlank c = true
  · simp only [hblank, if_true]
    exact cutsLocally_single _ c cs
  simp only [hblank, Bool.false_eq_true, if_false]
  by_cases hdirective : c = '#' ∧ lineStart
  · simp only [hdirective]
    exact cutsLocally_run _ rfl '#' cs
  simp only [hdirective, if_false]
  refine .ite (p := fun next => c = '/' ∧ next = some '/') (by simp) (by simp) ?_ fun _ => ?_
  · rintro ⟨-, hnext⟩
    obtain ⟨cs, rfl⟩ := List.head?_eq_some_iff.mp hnext
    exact ⟨cutsLocally_run _ rfl c _, ne_cons_of_suffix (List.dropWhile_suffix (l := cs) _) _⟩
  refine .ite (p := fun next => c = '/' ∧ next = some '*') (by simp) (by simp) ?_ fun _ => ?_
  · rintro ⟨-, hnext⟩
    obtain ⟨cs, rfl⟩ := List.head?_eq_some_iff.mp hnext
    have hread := (skipsLocally_afterBlockComment cs).readsLocally.tail '*'
    exact ⟨cutsLocally_upTo hread (fun _ => Piece.Role.trivia .blockComment) c,
      ne_cons_of_suffix (afterBlockComment_suffix cs) _⟩
  · exact (cutsLocally_scan c cs).map Piece.Role.token

/-- The piece that begins with `c` may be cut off again with another text behind it. -/
theorem exists_nextPiece_eq (lineStart : Bool) (c : Char) (cs : List Char) :
    ∃ role taken rest, cs = taken ++ rest ∧ ∀ rest', Replaces rest' rest →
      nextPiece lineStart c (taken ++ rest') =
        { value := role, text := c :: taken, rest := rest' } := by
  obtain ⟨taken, htext, htaken, hcut⟩ := cutsLocally_nextPiece lineStart c cs
  refine ⟨(nextPiece lineStart c cs).value, taken, _, htaken, fun rest' hrest => ?_⟩
  rw [hcut rest' hrest, ← htext]

end AttributeLint.Token
