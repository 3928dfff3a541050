import AttributeLint.Proofs.Token.Cursor
import AttributeLint.Proofs.Token.Pieces

/-!
# CursorTokens — the cursor finds the tokens of the source

Each loop of the cursor, started where an end of the source begins, stops where the reader of that
end leaves off. The place of an end is a character boundary, so every read succeeds, and each loop
ends because the reader takes the end from the front. `tokens?_eq` puts the loops together.
-/

namespace AttributeLint.Token

open Text

/-- The token with both of its ends. -/
def lexeme (t : Token) : Lexeme :=
  { kind := t.kind, text := t.text, start := t.start, stop := t.stop }

namespace Cursor

variable {source : List Char}

/-! ## Moving -/

theorem peek?_placeOf {cs : List Char} (h : cs <:+ source) :
    peek? source (placeOf source cs) = some cs.head? := by
  rw [peek?, dropBytes?_placeOf h]
  rfl

theorem peekSecond?_placeOf {cs : List Char} (h : cs <:+ source) :
    peekSecond? source (placeOf source cs) = some cs.tail.head? := by
  rw [peekSecond?, dropBytes?_placeOf h]
  rfl

theorem startsWith?_placeOf {cs : List Char} (mark : List Char) (h : cs <:+ source) :
    startsWith? source mark (placeOf source cs) = some (after? mark cs).isSome := by
  rw [startsWith?, dropBytes?_placeOf h]
  rfl

theorem bump?_placeOf_nil :
    bump? source (placeOf source []) = some (none, placeOf source []) := by
  simp [bump?, peek?_placeOf (List.nil_suffix (l := source))]

theorem bump?_placeOf_cons {c : Char} {cs : List Char} (h : c :: cs <:+ source) :
    bump? source (placeOf source (c :: cs)) = some (some c, placeOf source cs) := by
  simp [bump?, peek?_placeOf h, placeOf_add_utf8Size h]

/-- After a bump the cursor is at the tail of what was left. -/
theorem bump?_placeOf {cs : List Char} (h : cs <:+ source) :
    bump? source (placeOf source cs) = some (cs.head?, placeOf source cs.tail) := by
  cases cs with
  | nil => exact bump?_placeOf_nil
  | cons c cs => exact bump?_placeOf_cons h

theorem eatWhile?_placeOf (p : Char → Bool) {cs : List Char} (h : cs <:+ source) :
    eatWhile? source p (placeOf source cs) = some (placeOf source (cs.dropWhile p)) := by
  induction cs with
  | nil =>
    refine Pass.loop?_done ?_
    simp [eatPass?, peek?_placeOf h]
  | cons c cs ih =>
    have htail : cs <:+ source := (List.suffix_cons c cs).trans h
    by_cases hc : p c
    · rw [List.dropWhile_cons_of_pos hc]
      refine (Pass.loop?_again ?_).trans (ih htail)
      simp [eatPass?, peek?_placeOf h, hc, placeOf_add_utf8Size h]
    · rw [List.dropWhile_cons_of_neg hc]
      refine Pass.loop?_done ?_
      simp [eatPass?, peek?_placeOf h, hc]

/-! ## Strings with a value -/

theorem utf8Size_of_isHexDigit {c : Char} (h : isHexDigit c) : c.utf8Size = 1 := by
  have hle : c ≤ 'f' := by
    unfold isHexDigit hexDigit? at h
    split at h
    · exact Char.le_trans (by simp_all) (show '9' ≤ 'f' by decide)
    split at h
    · simp_all
    split at h
    · exact Char.le_trans (by simp_all) (show 'F' ≤ 'f' by decide)
    · simp at h
  exact Char.utf8Size_eq_one_iff.mpr (UInt32.le_trans hle (by decide))

/-- The digits after an escape letter have one byte each. -/
theorem width_hexDigits (most : Nat) (cs : List Char) :
    width ((cs.take most).takeWhile isHexDigit) = ((cs.take most).takeWhile isHexDigit).length := by
  refine width_eq_length fun c hc => utf8Size_of_isHexDigit ?_
  exact List.all_eq_true.mp List.all_takeWhile c hc

theorem hexEscape_placeOf {c : Char} {cs : List Char} {least most : Nat} (value : List Char)
    (h : cs <:+ source) (hsimple : Literal.simpleEscape? c = none)
    (hhex : Literal.hexEscape? c = some (least, most)) :
    hexEscape source c least most (placeOf source cs) value =
      some (placeOf source (Literal.escape (c :: cs)).2,
        value ++ (Literal.escape (c :: cs)).1) := by
  have hwidth := width_hexDigits most cs
  have hdigits : (cs.take most).takeWhile isHexDigit ++
      cs.drop ((cs.take most).takeWhile isHexDigit).length = cs :=
    List.prefix_iff_eq_append.mp ((List.takeWhile_prefix _).trans (List.take_prefix most cs))
  simp only [hexEscape, dropBytes?_placeOf h, Literal.escape, hsimple, hhex, Option.bind_eq_bind,
    Option.bind_some, hwidth]
  generalize (cs.take most).takeWhile isHexDigit = digits at hwidth hdigits ⊢
  by_cases hleast : digits.length < least
  · simp [hleast, Nat.not_le.mpr hleast]
  · rw [if_neg hleast, if_pos (Nat.not_lt.mp hleast)]
    cases charOfCode? (digitsValue 16 digits) with
    | none => rfl
    | some d =>
      have hplace : placeOf source cs + digits.length = placeOf source (cs.drop digits.length) := by
        have := @placeOf_add_width source digits (cs.drop digits.length) (by rwa [hdigits])
        rwa [hdigits, hwidth] at this
      simp [hplace]

theorem escape?_placeOf {cs : List Char} (value : List Char) (h : cs <:+ source) :
    escape? source (placeOf source cs) value =
      some (placeOf source (Literal.escape cs).2, value ++ (Literal.escape cs).1) := by
  cases cs with
  | nil => simp [escape?, bump?_placeOf_nil, Literal.escape]
  | cons c cs =>
    have htail : cs <:+ source := (List.suffix_cons c cs).trans h
    cases hsimple : Literal.simpleEscape? c with
    | some d => simp [escape?, bump?_placeOf_cons h, Literal.escape, hsimple]
    | none =>
      cases hhex : Literal.hexEscape? c with
      | none => simp [escape?, bump?_placeOf_cons h, Literal.escape, hsimple, hhex]
      | some bounds =>
        rw [← hexEscape_placeOf value htail hsimple hhex]
        simp [escape?, bump?_placeOf_cons h, hsimple, hhex]

/-- What is put in front of a value may as well be put behind what stands before it. -/
theorem map_prepend (value u : List Char) (reading : Option (List Char) × List Char) :
    (Literal.prepend u reading).1.map (value ++ ·) = reading.1.map (value ++ u ++ ·) := by
  simp [Literal.prepend, Function.comp_def]

/-- Inside a regular string the cursor stops where the string ends, with its value behind what was
read before. -/
theorem regularLoop_placeOf {cs : List Char} (value : List Char) (h : cs <:+ source) :
    Pass.loop? (regularPass? source) (placeOf source cs, value) =
      some (placeOf source (Literal.regular cs).2, (Literal.regular cs).1.map (value ++ ·)) := by
  fun_induction Literal.regular cs generalizing value with
  | case1 =>
    refine Pass.loop?_done ?_
    simp [regularPass?, peek?_placeOf h]
  | case2 cs =>
    refine Pass.loop?_done ?_
    simp [regularPass?, peek?_placeOf h, bump?_placeOf_cons h]
  | case3 cs _ =>
    refine Pass.loop?_done ?_
    simp [regularPass?, peek?_placeOf h]
  | case4 cs _ _ ih =>
    -- the pass takes the whole escape, however long it is
    have htail : cs <:+ source := (List.suffix_cons _ cs).trans h
    have hrest := (Literal.escape_suffix cs).trans htail
    rw [map_prepend]
    refine (Pass.loop?_again ?_).trans (ih (value ++ (Literal.escape cs).1) hrest)
    simp [regularPass?, peek?_placeOf h, bump?_placeOf_cons h, escape?_placeOf value htail]
  | case5 c cs hquote hbreak hslash ih =>
    have htail : cs <:+ source := (List.suffix_cons c cs).trans h
    rw [map_prepend]
    refine (Pass.loop?_again ?_).trans (ih (value ++ [c]) htail)
    simp [regularPass?, peek?_placeOf h, bump?_placeOf_cons h, hquote, hbreak, hslash]

theorem regular?_placeOf {cs : List Char} (h : cs <:+ source) :
    regular? source (placeOf source cs) =
      some (placeOf source (Literal.regular cs).2, (Literal.regular cs).1) := by
  have hloop := regularLoop_placeOf [] h
  simp only [List.nil_append, Option.map_id'] at hloop
  exact hloop

/-- Likewise for a verbatim string. -/
theorem verbatimLoop_placeOf {cs : List Char} (value : List Char) (h : cs <:+ source) :
    Pass.loop? (verbatimPass? source) (placeOf source cs, value) =
      some (placeOf source (Literal.verbatim cs).2, (Literal.verbatim cs).1.map (value ++ ·)) := by
  fun_induction Literal.verbatim cs generalizing value with
  | case1 =>
    refine Pass.loop?_done ?_
    simp [verbatimPass?, bump?_placeOf_nil]
  | case2 cs ih =>
    have htail : '"' :: cs <:+ source := (List.suffix_cons _ _).trans h
    have hrest : cs <:+ source := (List.suffix_cons _ cs).trans htail
    rw [map_prepend]
    refine (Pass.loop?_again ?_).trans (ih (value ++ ['"']) hrest)
    simp [verbatimPass?, bump?_placeOf_cons h, peek?_placeOf htail, bump?_placeOf_cons htail]
  | case3 cs hnext =>
    have htail : cs <:+ source := (List.suffix_cons _ cs).trans h
    have hhead : cs.head? ≠ some '"' := head?_ne fun rest => hnext rest rfl
    refine Pass.loop?_done ?_
    simp [verbatimPass?, bump?_placeOf_cons h, peek?_placeOf htail, hhead]
  | case4 c cs _ hquote ih =>
    have htail : cs <:+ source := (List.suffix_cons c cs).trans h
    rw [map_prepend]
    refine (Pass.loop?_again ?_).trans (ih (value ++ [c]) htail)
    simp [verbatimPass?, bump?_placeOf_cons h, hquote]

theorem verbatim?_placeOf {cs : List Char} (h : cs <:+ source) :
    verbatim? source (placeOf source cs) =
      some (placeOf source (Literal.verbatim cs).2, (Literal.verbatim cs).1) := by
  have hloop := verbatimLoop_placeOf [] h
  simp only [List.nil_append, Option.map_id'] at hloop
  exact hloop

/-! ## Other literals -/

theorem character?_placeOf {cs : List Char} (h : cs <:+ source) :
    character? source (placeOf source cs) = some (placeOf source (Literal.character cs)) := by
  fun_induction Literal.character cs with
  | case1 =>
    refine Pass.loop?_done ?_
    simp [characterPass?, peek?_placeOf h]
  | case2 d cs ih =>
    have htail : d :: cs <:+ source := (List.suffix_cons _ _).trans h
    refine (Pass.loop?_again ?_).trans (ih ((List.suffix_cons d cs).trans htail))
    simp [characterPass?, peek?_placeOf h, bump?_placeOf_cons h, bump?_placeOf_cons htail]
  | case3 cs =>
    refine Pass.loop?_done ?_
    simp [characterPass?, peek?_placeOf h, bump?_placeOf_cons h]
  | case4 cs =>
    refine Pass.loop?_done ?_
    simp [characterPass?, peek?_placeOf h]
  | case5 c cs hpair hquote hbreak ih =>
    have htail : cs <:+ source := (List.suffix_cons c cs).trans h
    refine (Pass.loop?_again ?_).trans (ih htail)
    by_cases hslash : c = '\\'
    -- a backslash stands at the end here, where the second bump does not move
    · cases cs with
      | nil =>
        subst hslash
        simp [characterPass?, peek?_placeOf h, bump?_placeOf_cons h, bump?_placeOf_nil]
      | cons d cs => exact absurd rfl (hpair d cs hslash)
    · simp [characterPass?, peek?_placeOf h, bump?_placeOf_cons h, hquote, hbreak, hslash]

theorem escapedLoop_placeOf (depth : Nat) {cs : List Char} (h : cs <:+ source) :
    Pass.loop? (interpolatedPass? source false) (depth, placeOf source cs) =
      some (placeOf source (Literal.escapedHoles depth cs)) := by
  fun_induction Literal.escapedHoles depth cs with
  | case1 depth =>
    refine Pass.loop?_done ?_
    simp [interpolatedPass?, bump?_placeOf_nil]
  | case2 depth d cs ih =>
    have htail : d :: cs <:+ source := (List.suffix_cons _ _).trans h
    refine (Pass.loop?_again ?_).trans (ih ((List.suffix_cons d cs).trans htail))
    simp [interpolatedPass?, bump?_placeOf_cons h, bump?_placeOf_cons htail]
  | case3 depth cs hpair ih =>
    refine (Pass.loop?_again ?_).trans (ih ((List.suffix_cons _ cs).trans h))
    simp [interpolatedPass?, bump?_placeOf_cons h]
  | case4 depth cs hpair hopen ih =>
    refine (Pass.loop?_again ?_).trans (ih ((List.suffix_cons _ cs).trans h))
    simp [interpolatedPass?, bump?_placeOf_cons h]
  | case5 depth c cs hpair hopen hclose hend =>
    have htail : cs <:+ source := (List.suffix_cons c cs).trans h
    refine Pass.loop?_done ?_
    rcases hend with ⟨rfl, rfl | rfl⟩
    · simp [interpolatedPass?, bump?_placeOf_cons h, peek?_placeOf htail]
    · simp [interpolatedPass?, bump?_placeOf_cons h, peek?_placeOf htail]
  | case6 depth c cs hpair hopen hclose hend ih =>
    have htail : cs <:+ source := (List.suffix_cons c cs).trans h
    have hquote : ¬(c = '"' ∧ depth = 0) := fun hc => hend ⟨hc.2, .inl hc.1⟩
    have hbreak : ¬(c = '\n' ∧ depth = 0) := fun hc => hend ⟨hc.2, .inr hc.1⟩
    refine (Pass.loop?_again ?_).trans (ih htail)
    by_cases hslash : c = '\\'
    -- as in a character literal, a backslash at the end is taken alone
    · cases cs with
      | nil =>
        subst hslash
        simp [interpolatedPass?, bump?_placeOf_cons h, bump?_placeOf_nil]
      | cons d cs => exact absurd rfl (hpair d cs hslash)
    · simp [interpolatedPass?, bump?_placeOf_cons h, peek?_placeOf htail, hopen, hclose, hslash,
        hquote, hbreak]

theorem verbatimHolesLoop_placeOf (depth : Nat) {cs : List Char} (h : cs <:+ source) :
    Pass.loop? (interpolatedPass? source true) (depth, placeOf source cs) =
      some (placeOf source (Literal.verbatimHoles depth cs)) := by
  fun_induction Literal.verbatimHoles depth cs with
  | case1 depth =>
    refine Pass.loop?_done ?_
    simp [interpolatedPass?, bump?_placeOf_nil]
  | case2 depth cs ih =>
    have htail : '"' :: cs <:+ source := (List.suffix_cons _ _).trans h
    refine (Pass.loop?_again ?_).trans (ih ((List.suffix_cons _ cs).trans htail))
    simp [interpolatedPass?, bump?_placeOf_cons h, peek?_placeOf htail, bump?_placeOf_cons htail]
  | case3 depth cs hpair ih =>
    refine (Pass.loop?_again ?_).trans (ih ((List.suffix_cons _ cs).trans h))
    simp [interpolatedPass?, bump?_placeOf_cons h]
  | case4 depth cs hpair hopen ih =>
    refine (Pass.loop?_again ?_).trans (ih ((List.suffix_cons _ cs).trans h))
    simp [interpolatedPass?, bump?_placeOf_cons h]
  | case5 depth c cs hpair hopen hclose hend =>
    have htail : cs <:+ source := (List.suffix_cons c cs).trans h
    obtain ⟨rfl, rfl⟩ := hend
    have hsingle : cs.head? ≠ some '"' := head?_ne fun rest => hpair rest rfl
    refine Pass.loop?_done ?_
    simp [interpolatedPass?, bump?_placeOf_cons h, peek?_placeOf htail, hsingle]
  | case6 depth c cs hpair hopen hclose hend ih =>
    have htail : cs <:+ source := (List.suffix_cons c cs).trans h
    have hdouble : ¬(c = '"' ∧ cs.head? = some '"') := by
      rintro ⟨hc, hhead⟩
      exact head?_ne (fun rest => hpair rest hc) hhead
    have hquote : ¬(c = '"' ∧ depth = 0) := fun hc => hend ⟨hc.2, hc.1⟩
    refine (Pass.loop?_again ?_).trans (ih htail)
    simp [interpolatedPass?, bump?_placeOf_cons h, peek?_placeOf htail, hopen, hclose, hdouble,
      hquote]

theorem interpolated?_placeOf (isVerbatim : Bool) {cs : List Char} (h : cs <:+ source) :
    interpolated? source isVerbatim (placeOf source cs) =
      some (placeOf source
        (if isVerbatim then Literal.verbatimHoles 0 cs else Literal.escapedHoles 0 cs)) := by
  cases isVerbatim with
  | false => exact escapedLoop_placeOf 0 h
  | true => exact verbatimHolesLoop_placeOf 0 h

/-! ## Tokens -/

variable {c : Char} {cs : List Char}

theorem regularLexeme?_placeOf (h : c :: cs <:+ source) :
    regularLexeme? source (placeOf source (c :: cs)) =
      lexeme? source (Kind.ofValue (Literal.regular cs).1) (placeOf source (c :: cs))
        (placeOf source (Literal.regular cs).2) := by
  have htail : cs <:+ source := (List.suffix_cons c cs).trans h
  simp [regularLexeme?, bump?_placeOf_cons h, regular?_placeOf htail]

theorem verbatimLexeme?_placeOf (hnext : cs.head? = some '"') (h : '@' :: cs <:+ source) :
    verbatimLexeme? source (placeOf source ('@' :: cs)) =
      lexeme? source (Kind.ofValue (Literal.verbatim cs.tail).1) (placeOf source ('@' :: cs))
        (placeOf source (Literal.verbatim cs.tail).2) := by
  obtain ⟨rest, rfl⟩ := List.head?_eq_some_iff.mp hnext
  have hrest : rest <:+ source := (List.suffix_append ['@', '"'] rest).trans h
  have hstart : placeOf source ('@' :: '"' :: rest) + 2 = placeOf source rest :=
    @placeOf_add_width source ['@', '"'] rest h
  simp [verbatimLexeme?, hstart, verbatim?_placeOf hrest]

/-- The quotes that open a raw string, counted, give the mark that closes it. -/
theorem replicate_quotes (cs : List Char) :
    List.replicate (cs.takeWhile Literal.isQuote).length '"' = cs.takeWhile Literal.isQuote := by
  refine (List.eq_replicate_iff.mpr ⟨rfl, fun c hc => ?_⟩).symm
  have := List.all_eq_true.mp List.all_takeWhile c hc
  simpa [Literal.isQuote] using this

theorem width_quotes (cs : List Char) :
    width (cs.takeWhile Literal.isQuote) = (cs.takeWhile Literal.isQuote).length := by
  refine width_eq_length fun c hc => ?_
  rw [← replicate_quotes] at hc
  rw [List.eq_of_mem_replicate hc]
  rfl

theorem rawLexeme?_placeOf (h : cs <:+ source) :
    rawLexeme? source (placeOf source cs) =
      lexeme? source (Kind.ofValue (Literal.raw cs).1) (placeOf source cs)
        (placeOf source (Literal.raw cs).2) := by
  have hmark := replicate_quotes cs
  have hwidth := width_quotes cs
  have hcs : cs.takeWhile Literal.isQuote ++ cs.dropWhile Literal.isQuote = cs :=
    List.takeWhile_append_dropWhile
  have hinside : cs.dropWhile Literal.isQuote <:+ source := (List.dropWhile_suffix _).trans h
  simp only [rawLexeme?, Literal.raw, dropBytes?_placeOf h, Option.bind_eq_bind, Option.bind_some]
  generalize cs.takeWhile Literal.isQuote = mark at hmark hwidth hcs ⊢
  generalize cs.dropWhile Literal.isQuote = inside at hcs hinside ⊢
  subst hcs
  have hstart : placeOf source (mark ++ inside) + mark.length = placeOf source inside := by
    rw [← hwidth, placeOf_add_width h]
  rw [hstart, dropBytes?_placeOf hinside, Option.bind_some, hmark]
  cases hcut : cutAt mark inside with
  | none => simp [Kind.ofValue, placeOf_nil]
  | some parts =>
    obtain ⟨content, rest⟩ := parts
    -- the content ends where its closing mark begins, and the mark is as wide as it is long
    obtain rfl : inside = content ++ (mark ++ rest) := by
      rw [eq_of_cutAt hcut, List.append_assoc]
    have hclose : mark ++ rest <:+ source := (List.suffix_append content _).trans hinside
    have hrest : rest <:+ source := (List.suffix_append mark rest).trans hclose
    have hcontent := slice?_placeOf hinside
    simp only [placeOf_add_width hinside, hcontent]
    rw [← hwidth, placeOf_add_width hclose, eatWhile?_placeOf _ hrest]
    rfl

theorem interpolatedLexeme?_placeOf (h : cs <:+ source) :
    interpolatedLexeme? source (placeOf source cs) =
      lexeme? source .literal (placeOf source cs) (placeOf source (Literal.interpolated cs)) := by
  have hcs : cs.takeWhile Literal.isMark ++ cs.dropWhile Literal.isMark = cs :=
    List.takeWhile_append_dropWhile
  have hmarks := @slice?_placeOf source (cs.takeWhile Literal.isMark) (cs.dropWhile Literal.isMark)
  rw [hcs] at hmarks
  have hafter : cs.dropWhile Literal.isMark <:+ source := (List.dropWhile_suffix _).trans h
  simp only [interpolatedLexeme?, Literal.interpolated, eatWhile?_placeOf _ h, hmarks h,
    peek?_placeOf hafter, Option.bind_eq_bind, Option.bind_some]
  generalize cs.dropWhile Literal.isMark = body at hafter ⊢
  cases hquote : after? ['"'] body with
  | some rest =>
    obtain rfl : body = '"' :: rest := after?_eq_some_iff.mp hquote
    have hrest : rest <:+ source := (List.suffix_cons _ rest).trans hafter
    simp [bump?_placeOf_cons hafter, interpolated?_placeOf _ hrest]
  | none =>
    have hhead : body.head? ≠ some '"' := head?_ne fun rest hbody => by
      simp [hbody, after?] at hquote
    simp [hhead, interpolated?_placeOf _ hafter]

theorem characterLexeme?_placeOf (h : c :: cs <:+ source) :
    characterLexeme? source (placeOf source (c :: cs)) =
      lexeme? source .literal (placeOf source (c :: cs))
        (placeOf source (Literal.character cs)) := by
  have htail : cs <:+ source := (List.suffix_cons c cs).trans h
  simp [characterLexeme?, bump?_placeOf_cons h, character?_placeOf htail]

theorem numberLexeme?_placeOf (hc : isNumberContinue c) (h : c :: cs <:+ source) :
    numberLexeme? source (placeOf source (c :: cs)) =
      lexeme? source .literal (placeOf source (c :: cs))
        (placeOf source (cs.dropWhile isNumberContinue)) := by
  simp [numberLexeme?, eatWhile?_placeOf _ h, hc]

theorem identifierLexeme?_placeOf (h : c :: cs <:+ source) :
    identifierLexeme? source (placeOf source (c :: cs)) =
      lexeme? source .ident (placeOf source (c :: cs))
        (placeOf source (cs.dropWhile isIdentContinue)) := by
  have htail : cs <:+ source := (List.suffix_cons c cs).trans h
  simp [identifierLexeme?, bump?_placeOf_cons h, eatWhile?_placeOf _ htail]

theorem punctuationLexeme?_placeOf (h : c :: cs <:+ source) :
    punctuationLexeme? source c (placeOf source (c :: cs)) =
      lexeme? source (punctuation c cs).value (placeOf source (c :: cs))
        (placeOf source (punctuation c cs).rest) := by
  have htail : cs <:+ source := (List.suffix_cons c cs).trans h
  simp only [punctuationLexeme?, punctuation, bump?_placeOf_cons h, peek?_placeOf htail,
    bump?_placeOf htail, Option.bind_eq_bind, Option.bind_some]
  split
  · cases cs <;> rfl
  split
  · cases cs <;> rfl
  · rfl

/-- The token that a cutting of an end of the source makes. -/
def cut (source whole : List Char) (k : Cutting Kind) : Lexeme :=
  { kind := k.value, text := String.ofList k.text, start := placeOf source whole,
    stop := placeOf source k.rest }

theorem lexeme?_cut {k : Cutting Kind} (hk : k.Divides c cs) (h : c :: cs <:+ source) :
    lexeme? source k.value (placeOf source (c :: cs)) (placeOf source k.rest) =
      some (cut source (c :: cs) k) := by
  have hslice := @slice?_placeOf source k.text k.rest (by rwa [hk.append])
  rw [hk.append] at hslice
  simp [lexeme?, hslice, cut]

/-- The token that the cursor finds is the one that the scanner cuts off. -/
theorem token?_placeOf (h : c :: cs <:+ source) :
    token? source c (placeOf source (c :: cs)) = some (cut source (c :: cs) (scan c cs)) := by
  rw [← lexeme?_cut (scan_divides c cs) h]
  simp only [token?, scan, peekSecond?_placeOf h, startsWith?_placeOf _ h, List.tail_cons,
    Option.bind_eq_bind, Option.bind_some]
  split
  · rename_i hc
    have hstart : after? ['"', '"', '"'] (c :: cs) = after? ['"', '"'] cs := by
      simp [after?, hc]
    rw [hstart]
    split
    · exact rawLexeme?_placeOf h
    · exact regularLexeme?_placeOf h
  split
  · rename_i hverbatim
    obtain ⟨rfl, hnext⟩ := hverbatim
    exact verbatimLexeme?_placeOf hnext h
  split
  · exact interpolatedLexeme?_placeOf h
  split
  · exact characterLexeme?_placeOf h
  split
  · rename_i hdigit
    exact numberLexeme?_placeOf (by simp [isNumberContinue, Char.isAlphanum, hdigit]) h
  split
  · exact identifierLexeme?_placeOf h
  · exact punctuationLexeme?_placeOf h

/-! ## Runs -/

theorem afterComment?_placeOf (h : '/' :: '*' :: cs <:+ source) :
    afterComment? source (placeOf source ('/' :: '*' :: cs)) =
      some (placeOf source (afterBlockComment cs)) := by
  have hrest : cs <:+ source := (List.suffix_append ['/', '*'] cs).trans h
  have hstart : placeOf source ('/' :: '*' :: cs) + 2 = placeOf source cs :=
    @placeOf_add_width source ['/', '*'] cs h
  simp only [afterComment?, afterBlockComment, hstart, dropBytes?_placeOf hrest,
    Option.bind_eq_bind, Option.bind_some]
  cases hcut : cutAt ['*', '/'] cs with
  | none => simp [placeOf_nil]
  | some parts =>
    obtain ⟨before, rest⟩ := parts
    obtain rfl : cs = before ++ (['*', '/'] ++ rest) := by
      rw [eq_of_cutAt hcut, List.append_assoc]
    have hclose : ['*', '/'] ++ rest <:+ source := (List.suffix_append before _).trans hrest
    simp only [placeOf_add_width hrest]
    exact congrArg some (placeOf_add_width hclose)

/-- A mark of two characters stands at the front. -/
theorem isSome_after?_pair (d e : Char) :
    (after? [d, e] (c :: cs)).isSome = decide (c = d ∧ cs.head? = some e) := by
  cases cs with
  | nil => by_cases hd : d = c <;> simp [after?, hd]
  | cons x cs =>
    by_cases hd : d = c
    · by_cases he : e = x
      · simp [after?, hd, he]
      · simp [after?, hd, he, Ne.symm he]
    · simp [after?, hd, Ne.symm hd]

/-- The token that a piece of an end of the source is, if it is one. -/
def tokenOf (source whole : List Char) (piece : Cutting Piece.Role) : List Lexeme :=
  match piece.value with
  | .trivia _ => []
  | .token kind => [cut source whole { piece with value := kind }]

/-- A pass handles the piece that the cursor stands at as a whole. -/
theorem scanPass?_placeOf (lineStart : Bool) (found : List Lexeme) (h : c :: cs <:+ source) :
    scanPass? source (lineStart, placeOf source (c :: cs), found) =
      some (.again ((nextPiece lineStart c cs).value.keepsLineStart lineStart,
        placeOf source (nextPiece lineStart c cs).rest,
        found ++ tokenOf source (c :: cs) (nextPiece lineStart c cs))) := by
  simp only [scanPass?, peek?_placeOf h, List.head?_cons, Option.bind_eq_bind, Option.bind_some,
    nextPiece, startsWith?_placeOf _ h, bump?_placeOf_cons h, eatWhile?_placeOf _ h,
    token?_placeOf h, isSome_after?_pair, decide_eq_true_eq]
  split
  · simp [tokenOf, Cutting.single, Piece.Role.keepsLineStart]
  split
  · simp [tokenOf, Cutting.single, Piece.Role.keepsLineStart]
  split
  · rename_i hdirective
    simp [hdirective, isWithinLine, tokenOf, Cutting.run, Piece.Role.keepsLineStart]
  split
  · rename_i hline
    simp [hline, isWithinLine, tokenOf, Cutting.run, Piece.Role.keepsLineStart]
  split
  · rename_i hblock
    obtain ⟨rfl, hnext⟩ := hblock
    obtain ⟨rest, rfl⟩ := List.head?_eq_some_iff.mp hnext
    rw [afterComment?_placeOf h]
    simp [tokenOf, Cutting.upTo, Piece.Role.keepsLineStart]
  · rfl

theorem scanLoop_placeOf (lineStart : Bool) (found : List Lexeme) (h : cs <:+ source) :
    Pass.loop? (scanPass? source) (lineStart, placeOf source cs, found) =
      some (found ++ (place (placeOf source cs) (pieces lineStart cs)).map lexeme) := by
  fun_induction pieces lineStart cs generalizing found with
  | case1 lineStart =>
    refine Pass.loop?_done ?_
    simp [scanPass?, peek?_placeOf h, place]
  | case2 lineStart c cs piece ih =>
    have hdivides : piece.Divides c cs := nextPiece_divides lineStart c cs
    have hrest : piece.rest <:+ source := hdivides.suffix.trans ((List.suffix_cons c cs).trans h)
    have hplace : placeOf source (c :: cs) + width piece.text = placeOf source piece.rest := by
      have := @placeOf_add_width source piece.text piece.rest (by rwa [hdivides.append])
      rwa [hdivides.append] at this
    -- one pass takes one piece, and what it finds stands in front of what the rest gives
    have htokens : found ++ (place (placeOf source (c :: cs))
        ({ role := piece.value, text := piece.text } ::
          pieces (piece.value.keepsLineStart lineStart) piece.rest)).map lexeme =
        found ++ tokenOf source (c :: cs) piece ++ (place (placeOf source piece.rest)
          (pieces (piece.value.keepsLineStart lineStart) piece.rest)).map lexeme := by
      rw [place, hplace, tokenOf]
      cases piece.value with
      | trivia trivia => simp
      | token kind => simp [cut, lexeme, stop, hplace]
    rw [htokens]
    exact (Pass.loop?_again (scanPass?_placeOf lineStart found h)).trans (ih _ hrest)

/-- The cursor reads every source to its end without a fault, and finds the tokens. -/
theorem tokens?_eq (source : String) :
    tokens? source.toList = some ((tokenize source).map lexeme) := by
  have hloop := scanLoop_placeOf true [] (List.suffix_refl source.toList)
  rwa [placeOf_self, List.nil_append] at hloop

end Cursor

end AttributeLint.Token
