import AttributeLint.Proofs.Text.Mark
import AttributeLint.Proofs.Token.Spelling

/-!
# LocalReading — literals do not depend on what follows them

Where a literal ends can depend on the character behind it, as when a quote may be doubled, but on
nothing further. So a reader leaves any other text in the same way (`ReadsLocally`) if that text
begins with the same character, or with a line feed, or is empty (`Replaces`): no literal goes on
at a line feed at which it could have ended. Only the end of the text takes the place of the end of
the text, since a literal that is not closed may run up to it.
-/

namespace AttributeLint.Token

open Text

/-! ## Texts in the place of others -/

/-- The text `rest'` may take the place of the text `rest` that a reader left. -/
def Replaces (rest' rest : List Char) : Prop :=
  rest' = [] ∨ rest ≠ [] ∧ (rest'.head? = rest.head? ∨ rest'.head? = some '\n')

/-- What a reader takes from the front of `cs`, it takes in front of all that may stand in the place
of what it leaves, with the same value. -/
def ReadsLocally {α : Type} (read : List Char → α × List Char) (cs : List Char) : Prop :=
  ∃ taken, cs = taken ++ (read cs).2 ∧
    ∀ rest, Replaces rest (read cs).2 → read (taken ++ rest) = ((read cs).1, rest)

/-- Likewise for a reader without a value. -/
def SkipsLocally (skip : List Char → List Char) (cs : List Char) : Prop :=
  ∃ taken, cs = taken ++ skip cs ∧ ∀ rest, Replaces rest (skip cs) → skip (taken ++ rest) = rest

variable {c d : Char} {cs rest rest' taken : List Char}

theorem Replaces.eq_nil (h : Replaces rest []) : rest = [] := by
  rcases h with rfl | ⟨h, _⟩
  · rfl
  · exact absurd rfl h

theorem Replaces.append (h : Replaces rest' rest) (taken : List Char) :
    Replaces (taken ++ rest') (taken ++ rest) := by
  cases taken with
  | nil => exact h
  | cons c taken => exact .inr ⟨List.cons_ne_nil _ _, .inl rfl⟩

/-- Behind what was taken off a text, another end makes another text that takes its place. -/
theorem Replaces.append_of_eq (h : Replaces rest' rest) (htaken : cs = taken ++ rest) :
    Replaces (taken ++ rest') cs := by
  rw [htaken]
  exact h.append taken

/-- A text does not begin with a character other than the line feed when what it takes the place of
does not. -/
theorem Replaces.head?_ne (h : Replaces rest' rest) (hc : c ≠ '\n') (hrest : rest.head? ≠ some c) :
    rest'.head? ≠ some c := by
  rcases h with rfl | ⟨_, heq | hfeed⟩
  · simp
  · rwa [heq]
  · rw [hfeed]
    exact fun h => hc (Option.some.inj h).symm

/-- Where a line ends, only its end or that of the text takes the place. -/
theorem Replaces.of_feed (h : Replaces rest' ('\n' :: rest)) :
    rest' = [] ∨ ∃ more, rest' = '\n' :: more := by
  rcases h with rfl | ⟨_, hhead | hhead⟩
  · exact .inl rfl
  · exact .inr (List.head?_eq_some_iff.mp hhead)
  · exact .inr (List.head?_eq_some_iff.mp hhead)

/-- A text begins with a character of a class that the line feed is not in only if what it takes the
place of does. -/
theorem Replaces.head?_not (h : Replaces rest' rest) {p : Char → Bool} (hp : p '\n' = false)
    (hrest : ∀ c, rest.head? = some c → p c = false) :
    ∀ c, rest'.head? = some c → p c = false := by
  intro c hc
  rcases h with rfl | ⟨_, heq | hfeed⟩
  · cases hc
  · exact hrest c (heq ▸ hc)
  · rw [hfeed] at hc
    cases hc
    exact hp

theorem Replaces.refl (rest : List Char) : Replaces rest rest := by
  cases rest with
  | nil => exact .inl rfl
  | cons c rest => exact .inr ⟨List.cons_ne_nil c rest, .inl rfl⟩

theorem Replaces.eq_nil_of_not_cons (h : Replaces rest' rest)
    (hrest : ∀ c cs, rest = c :: cs → False) : rest' = [] := by
  cases rest with
  | nil => exact h.eq_nil
  | cons c cs => exact (hrest c cs rfl).elim

/-! ## Readers that go on behind a character -/

theorem skipsLocally_nil {skip : List Char → List Char} (h : skip [] = []) :
    SkipsLocally skip [] := by
  refine ⟨[], by rw [h, List.append_nil], fun rest hrest => ?_⟩
  rw [h] at hrest
  rw [hrest.eq_nil, List.nil_append, h]

theorem skipsLocally_id : SkipsLocally id cs :=
  ⟨[], rfl, fun _ _ => rfl⟩

/-- A reader that goes on as another one behind a character, whatever may stand there. -/
theorem SkipsLocally.cons {skip skip' : List Char → List Char} (h : SkipsLocally skip' cs)
    (hcons : ∀ rest, Replaces rest cs → skip (c :: rest) = skip' rest) :
    SkipsLocally skip (c :: cs) := by
  obtain ⟨taken, htaken, hskip⟩ := h
  have hleft : skip (c :: cs) = skip' cs := hcons cs (.refl cs)
  refine ⟨c :: taken, by rw [hleft, List.cons_append, ← htaken], fun rest hrest => ?_⟩
  rw [hleft] at hrest
  have hbehind : Replaces (taken ++ rest) cs := hrest.append_of_eq htaken
  rw [List.cons_append, hcons _ hbehind, hskip rest hrest]

/-- Two characters that are read together, such as a doubled quote. -/
theorem SkipsLocally.pair {skip skip' : List Char → List Char} (h : SkipsLocally skip' cs)
    (hpair : ∀ rest, skip (c :: d :: rest) = skip' rest) : SkipsLocally skip (c :: d :: cs) :=
  have hsecond : SkipsLocally (fun cs => skip (c :: cs)) (d :: cs) :=
    h.cons fun rest _ => hpair rest
  hsecond.cons fun _ _ => rfl

/-- A reader whose first character is given to it separately. -/
theorem ReadsLocally.behind {α : Type} {read : List Char → α × List Char}
    (h : ReadsLocally read (c :: cs)) (hsuffix : (read (c :: cs)).2 <:+ cs) :
    ReadsLocally (fun cs => read (c :: cs)) cs := by
  obtain ⟨taken, htaken, hread⟩ := h
  cases taken with
  | nil =>
    have hlength := hsuffix.length_le
    have hall : (read (c :: cs)).2 = c :: cs := htaken.symm
    rw [hall, List.length_cons] at hlength
    omega
  | cons d taken =>
    obtain ⟨rfl, hcs⟩ := List.cons.inj htaken
    exact ⟨taken, hcs, hread⟩

/-- A reader without a value is one whose value says nothing. -/
theorem SkipsLocally.readsLocally {skip : List Char → List Char} (h : SkipsLocally skip cs) :
    ReadsLocally (fun cs => ((), skip cs)) cs := by
  obtain ⟨taken, htaken, hskip⟩ := h
  exact ⟨taken, htaken, fun rest hrest => congrArg _ (hskip rest hrest)⟩

/-- A reader that passes over a character first. -/
theorem ReadsLocally.tail {α : Type} {read : List Char → α × List Char} (h : ReadsLocally read cs)
    (d : Char) : ReadsLocally (fun cs => read cs.tail) (d :: cs) := by
  obtain ⟨taken, htaken, hread⟩ := h
  exact ⟨d :: taken, congrArg (d :: ·) htaken, hread⟩

/-! ## Runs of characters -/

theorem dropWhile_head?_not (p : Char → Bool) (cs : List Char) :
    ∀ c, (cs.dropWhile p).head? = some c → p c = false := by
  intro c hc
  have := List.head?_dropWhile_not p cs
  rw [hc] at this
  simpa using this

theorem takeWhile_append_of_head? {p : Char → Bool} (h : ∀ c ∈ taken, p c)
    (hrest : ∀ c, rest.head? = some c → p c = false) :
    (taken ++ rest).takeWhile p = taken ∧ (taken ++ rest).dropWhile p = rest := by
  rw [List.takeWhile_append_of_pos h, List.dropWhile_append_of_pos h]
  cases rest with
  | nil => simp
  | cons c rest => simp [hrest c rfl]

/-- A run of characters ends alike in front of every text that may stand behind it. -/
theorem takeWhile_of_replaces {p : Char → Bool} (hp : p '\n' = false)
    (h : Replaces rest (cs.dropWhile p)) :
    (cs.takeWhile p ++ rest).takeWhile p = cs.takeWhile p ∧
      (cs.takeWhile p ++ rest).dropWhile p = rest :=
  takeWhile_append_of_head? (List.all_eq_true.mp List.all_takeWhile)
    (h.head?_not hp (dropWhile_head?_not p cs))

/-! ## Marks -/

theorem after?_append_of_length_le {mark u : List Char} (h : mark.length ≤ u.length)
    (v : List Char) : after? mark (u ++ v) = (after? mark u).map (· ++ v) := by
  induction mark generalizing u with
  | nil => rfl
  | cons m mark ih =>
    cases u with
    | nil => simp at h
    | cons c u =>
      rw [List.cons_append, after?, after?]
      split
      · exact ih (by simpa using h)
      · rfl

/-- Where a mark first appears does not depend on what follows it. -/
theorem cutAt_of_cutAt {mark before : List Char}
    (h : cutAt mark (before ++ (mark ++ rest)) = some (before, rest)) (rest' : List Char) :
    cutAt mark (before ++ (mark ++ rest')) = some (before, rest') := by
  induction before with
  | nil => exact cutAt_append_self mark rest'
  | cons c before ih =>
    -- a mark in front of the text would lie before what follows, and would have been the first
    have hlength : mark.length ≤ (c :: (before ++ mark)).length := by
      simp only [List.length_cons, List.length_append]
      omega
    have hafter (rest : List Char) : after? mark (c :: (before ++ (mark ++ rest))) =
        (after? mark (c :: (before ++ mark))).map (· ++ rest) := by
      rw [← after?_append_of_length_le hlength, List.cons_append, List.append_assoc]
    rw [List.cons_append, cutAt, hafter] at h ⊢
    cases hmark : after? mark (c :: (before ++ mark)) with
    | some tail =>
      rw [hmark] at h
      cases h
    | none =>
      rw [hmark] at h
      obtain ⟨⟨u, v⟩, hcut, he⟩ := Option.map_eq_some_iff.mp h
      cases he
      simp [ih hcut]

namespace Literal

/-! ## Strings with a value -/

/-- An escape behind a letter takes no more than the letter and the digits that it needs, so it
depends on the text behind only in the digits that this begins with. -/
theorem escape_local (c : Char) (cs : List Char) :
    ∃ taken, cs = taken ++ (escape (c :: cs)).2 ∧ ∀ rest,
      rest.takeWhile isHexDigit = (escape (c :: cs)).2.takeWhile isHexDigit →
        escape (c :: (taken ++ rest)) = ((escape (c :: cs)).1, rest) := by
  cases hsimple : simpleEscape? c with
  | some d => exact ⟨[], by simp [escape, hsimple], fun rest _ => by simp [escape, hsimple]⟩
  | none =>
    cases hhex : hexEscape? c with
    | none =>
      exact ⟨[], by simp [escape, hsimple, hhex], fun rest _ => by simp [escape, hsimple, hhex]⟩
    | some bounds =>
      obtain ⟨least, most⟩ := bounds
      have hdigits (cs : List Char) : (cs.take most).takeWhile isHexDigit =
          (cs.takeWhile isHexDigit).take most := List.take_takeWhile.symm
      simp only [escape, hsimple, hhex, hdigits]
      generalize hall : (cs.takeWhile isHexDigit).take most = digits
      by_cases hleast : digits.length < least
      · refine ⟨[], by simp [hleast], fun rest hrest => ?_⟩
        simp only [hleast, if_true] at hrest
        simp [hrest, hall, hleast]
      cases hcode : charOfCode? (digitsValue 16 digits) with
      | none =>
        refine ⟨[], by simp [hleast], fun rest hrest => ?_⟩
        simp only [hleast, if_false] at hrest
        simp [hrest, hall, hleast, hcode]
      | some d =>
        have hprefix : digits <+: cs :=
          hall ▸ (List.take_prefix _ _).trans (List.takeWhile_prefix _)
        have hcs : digits ++ cs.drop digits.length = cs := List.prefix_iff_eq_append.mp hprefix
        have hhex : ∀ c ∈ digits, isHexDigit c := by
          intro c hc
          rw [← hall] at hc
          exact List.all_eq_true.mp List.all_takeWhile c (List.mem_of_mem_take hc)
        refine ⟨digits, by simp [hleast, hcs], fun rest hrest => ?_⟩
        simp only [hleast, if_false] at hrest
        have hsame : (digits ++ rest).takeWhile isHexDigit = cs.takeWhile isHexDigit := by
          rw [← hcs, List.takeWhile_append_of_pos hhex, List.takeWhile_append_of_pos hhex, hrest]
        simp [hsame, hall, hleast, hcode]

/-- Digits that an escape looks for inside a regular string stand inside it, too. -/
theorem regular_local (cs : List Char) :
    ∃ taken, cs = taken ++ (regular cs).2 ∧ ∀ rest, Replaces rest (regular cs).2 →
      regular (taken ++ rest) = ((regular cs).1, rest) ∧
        (taken ++ rest).takeWhile isHexDigit = cs.takeWhile isHexDigit := by
  fun_induction regular cs with
  | case1 =>
    refine ⟨[], rfl, fun rest hrest => ?_⟩
    rw [hrest.eq_nil]
    simp [regular]
  | case2 cs => exact ⟨['"'], rfl, fun rest _ => by simp [regular, isHexDigit, hexDigit?]⟩
  | case3 cs =>
    refine ⟨[], rfl, fun rest hrest => ?_⟩
    rcases hrest.of_feed with rfl | ⟨rest, rfl⟩
    · simp [regular, isHexDigit, hexDigit?]
    · simp [regular, isHexDigit, hexDigit?]
  | case4 cs _ _ ih =>
    cases cs with
    | nil =>
      refine ⟨['\\'], by simp [escape, regular, prepend], fun rest hrest => ?_⟩
      obtain rfl : rest = [] := by
        refine Replaces.eq_nil ?_
        simpa [escape, regular, prepend] using hrest
      simp [regular, escape, prepend]
    | cons c cs =>
      obtain ⟨digits, hdigits, hescape⟩ := escape_local c cs
      obtain ⟨taken, htaken, hregular⟩ := ih
      refine ⟨'\\' :: c :: (digits ++ taken), ?_, fun rest hrest => ?_⟩
      · rw [prepend, List.cons_append, List.cons_append, List.append_assoc, ← htaken, ← hdigits]
      · obtain ⟨hread, hhex⟩ := hregular rest hrest
        have hread' := hescape (taken ++ rest) hhex
        constructor
        · rw [List.cons_append, List.cons_append, List.append_assoc, regular]
          simp [hread', hread, prepend]
        · simp [isHexDigit, hexDigit?]
  | case5 c cs hquote hfeed hslash ih =>
    obtain ⟨taken, htaken, hregular⟩ := ih
    refine ⟨c :: taken, by rw [prepend, List.cons_append, ← htaken], fun rest hrest => ?_⟩
    obtain ⟨hread, hhex⟩ := hregular rest hrest
    constructor
    · simp [regular, hquote, hfeed, hslash, hread, prepend]
    · rw [List.cons_append, List.takeWhile_cons, List.takeWhile_cons, hhex]

theorem readsLocally_regular (cs : List Char) : ReadsLocally regular cs := by
  obtain ⟨taken, htaken, hregular⟩ := regular_local cs
  exact ⟨taken, htaken, fun rest hrest => (hregular rest hrest).1⟩

theorem readsLocally_verbatim (cs : List Char) : ReadsLocally verbatim cs := by
  unfold ReadsLocally
  fun_induction verbatim cs with
  | case1 =>
    refine ⟨[], rfl, fun rest hrest => ?_⟩
    rw [hrest.eq_nil]
    rfl
  | case2 cs ih =>
    obtain ⟨taken, htaken, hread⟩ := ih
    refine ⟨'"' :: '"' :: taken, ?_, fun rest hrest => ?_⟩
    · rw [prepend, List.cons_append, List.cons_append, ← htaken]
    · rw [List.cons_append, List.cons_append, verbatim, hread rest hrest]
      rfl
  | case3 cs hsingle =>
    refine ⟨['"'], rfl, fun rest hrest => ?_⟩
    exact verbatim_quote (hrest.head?_ne (by decide) (head?_ne fun rest => hsingle rest rfl))
  | case4 c cs _ hquote ih =>
    obtain ⟨taken, htaken, hread⟩ := ih
    refine ⟨c :: taken, by rw [prepend, List.cons_append, ← htaken], fun rest hrest => ?_⟩
    rw [List.cons_append, verbatim_cons_of_ne hquote, hread rest hrest]
    rfl

/-- A raw string is read from its opening quotes. -/
theorem readsLocally_raw (hcs : cs.head? = some '"') : ReadsLocally raw cs := by
  have hsplit : cs.takeWhile isQuote ++ cs.dropWhile isQuote = cs :=
    List.takeWhile_append_dropWhile
  have hquotes : ∀ c ∈ cs.takeWhile isQuote, isQuote c := List.all_eq_true.mp List.all_takeWhile
  have hinside := dropWhile_head?_not isQuote cs
  have hmark : cs.takeWhile isQuote ≠ [] := by
    obtain ⟨tail, rfl⟩ := List.head?_eq_some_iff.mp hcs
    simp [isQuote]
  unfold ReadsLocally
  rw [raw]
  generalize cs.takeWhile isQuote = mark at hsplit hquotes hmark ⊢
  generalize cs.dropWhile isQuote = inside at hsplit hinside ⊢
  subst hsplit
  cases hcut : cutAt mark inside with
  | none =>
    refine ⟨mark ++ inside, by simp, fun rest hrest => ?_⟩
    obtain rfl := hrest.eq_nil
    obtain ⟨htake, hdrop⟩ := takeWhile_append_of_head? hquotes hinside
    rw [List.append_nil, raw, htake, hdrop, hcut]
  | some parts =>
    obtain ⟨content, after⟩ := parts
    obtain rfl : inside = content ++ (mark ++ after) := by rw [eq_of_cutAt hcut, List.append_assoc]
    refine ⟨mark ++ (content ++ (mark ++ after.takeWhile isQuote)), ?_, fun rest hrest => ?_⟩
    · simp only [List.append_assoc, List.takeWhile_append_dropWhile]
    · -- the text inside the quotes begins as before, the mark included
      have hbegins : ∀ c, (content ++ (mark ++ (after.takeWhile isQuote ++ rest))).head? = some c →
          isQuote c = false := by
        intro c hc
        refine hinside c ?_
        cases content with
        | nil =>
          cases mark with
          | nil => exact absurd rfl hmark
          | cons m mark => exact hc
        | cons d content => exact hc
      obtain ⟨htake, hdrop⟩ := takeWhile_append_of_head? hquotes hbegins
      have hextra := takeWhile_of_replaces (p := isQuote) rfl hrest
      simp only [List.append_assoc]
      rw [raw, htake, hdrop, cutAt_of_cutAt hcut]
      simp only [hextra.2]

/-! ## Literals without a value -/

/-- A backslash with nothing behind it is a character like any other. -/
theorem character_cons (h : c = '\\' → cs = []) :
    character (c :: cs) =
      if c = '\'' then cs else if c = '\n' then c :: cs else character cs := by
  rw [character]
  rintro d cs' hc rfl
  cases h hc

theorem escapedHoles_cons (depth : Nat) (h : c = '\\' → cs = []) :
    escapedHoles depth (c :: cs) =
      if c = '{' then escapedHoles (depth + 1) cs
      else if c = '}' then escapedHoles (depth - 1) cs
      else if depth = 0 ∧ (c = '"' ∨ c = '\n') then cs
      else escapedHoles depth cs := by
  rw [escapedHoles]
  rintro d cs' hc rfl
  cases h hc

theorem verbatimHoles_cons (depth : Nat) (h : c = '"' → cs.head? ≠ some '"') :
    verbatimHoles depth (c :: cs) =
      if c = '{' then verbatimHoles (depth + 1) cs
      else if c = '}' then verbatimHoles (depth - 1) cs
      else if depth = 0 ∧ c = '"' then cs
      else verbatimHoles depth cs := by
  rw [verbatimHoles]
  rintro cs' hc rfl
  exact h hc rfl

theorem skipsLocally_character (cs : List Char) : SkipsLocally character cs := by
  fun_induction character cs with
  | case1 => exact skipsLocally_nil rfl
  | case2 d cs ih => exact ih.pair fun rest => by rw [character]
  | case3 cs => exact skipsLocally_id.cons fun rest _ => by simp [character]
  | case4 cs =>
    refine ⟨[], by simp [character], fun rest hrest => ?_⟩
    rw [character_cons (by simp), if_neg (by decide), if_pos rfl] at hrest
    rcases hrest.of_feed with rfl | ⟨rest, rfl⟩
    · rfl
    · simp [character]
  | case5 c cs hpair hquote hfeed ih =>
    refine ih.cons fun rest hrest => ?_
    rw [character_cons fun hc => hrest.eq_nil_of_not_cons (hpair · · hc), if_neg hquote,
      if_neg hfeed]

theorem skipsLocally_escapedHoles (depth : Nat) (cs : List Char) :
    SkipsLocally (escapedHoles depth) cs := by
  fun_induction escapedHoles depth cs with
  | case1 => exact skipsLocally_nil rfl
  | case2 depth d cs ih => exact ih.pair fun rest => by rw [escapedHoles]
  | case3 depth cs hpair ih => exact ih.cons fun rest _ => by simp [escapedHoles]
  | case4 depth cs hpair hopen ih => exact ih.cons fun rest _ => by simp [escapedHoles]
  | case5 depth c cs hpair hopen hclose hend =>
    refine skipsLocally_id.cons fun rest hrest => ?_
    rw [escapedHoles_cons _ fun hc => hrest.eq_nil_of_not_cons (hpair · · hc), if_neg hopen,
      if_neg hclose, if_pos hend, id]
  | case6 depth c cs hpair hopen hclose hend ih =>
    refine ih.cons fun rest hrest => ?_
    rw [escapedHoles_cons _ fun hc => hrest.eq_nil_of_not_cons (hpair · · hc), if_neg hopen,
      if_neg hclose, if_neg hend]

theorem skipsLocally_verbatimHoles (depth : Nat) (cs : List Char) :
    SkipsLocally (verbatimHoles depth) cs := by
  fun_induction verbatimHoles depth cs with
  | case1 => exact skipsLocally_nil rfl
  | case2 depth cs ih => exact ih.pair fun rest => by rw [verbatimHoles]
  | case3 depth cs hpair ih => exact ih.cons fun rest _ => by simp [verbatimHoles]
  | case4 depth cs hpair hopen ih => exact ih.cons fun rest _ => by simp [verbatimHoles]
  | case5 depth c cs hpair hopen hclose hend =>
    refine skipsLocally_id.cons fun rest hrest => ?_
    rw [verbatimHoles_cons _ fun hc => hrest.head?_ne (by decide) (head?_ne (hpair · hc)),
      if_neg hopen, if_neg hclose, if_pos hend, id]
  | case6 depth c cs hpair hopen hclose hend ih =>
    refine ih.cons fun rest hrest => ?_
    rw [verbatimHoles_cons _ fun hc => hrest.head?_ne (by decide) (head?_ne (hpair · hc)),
      if_neg hopen, if_neg hclose, if_neg hend]

/-- An opening quote is passed over if there is one. -/
theorem skipsLocally_afterQuote {skip : List Char → List Char} (h : ∀ cs, SkipsLocally skip cs)
    (cs : List Char) : SkipsLocally (fun cs => skip ((after? ['"'] cs).getD cs)) cs := by
  cases hquote : after? ['"'] cs with
  | some inside =>
    obtain rfl := after?_eq_some_iff.mp hquote
    exact (h inside).cons fun rest _ => by simp [after?]
  | none =>
    have hhead : cs.head? ≠ some '"' := head?_ne fun inside hcs => by simp [hcs, after?] at hquote
    obtain ⟨taken, htaken, hskip⟩ := h cs
    simp only [SkipsLocally, hquote, Option.getD_none]
    refine ⟨taken, htaken, fun rest hrest => ?_⟩
    have hbehind : (taken ++ rest).head? ≠ some '"' :=
      (hrest.append_of_eq htaken).head?_ne (by decide) hhead
    have hnone : after? ['"'] (taken ++ rest) = none := by
      rw [Option.eq_none_iff_forall_ne_some]
      intro inside hinside
      exact hbehind (by rw [after?_eq_some_iff.mp hinside]; rfl)
    rw [hnone, Option.getD_none, hskip rest hrest]

/-- What follows an interpolated string, read from just after its marks. -/
def afterMarks (marks cs : List Char) : List Char :=
  let body := (after? ['"'] cs).getD cs
  if marks.contains '@' then verbatimHoles 0 body else escapedHoles 0 body

theorem interpolated_eq_afterMarks (cs : List Char) :
    interpolated cs = afterMarks (cs.takeWhile isMark) (cs.dropWhile isMark) :=
  rfl

theorem skipsLocally_afterMarks (marks cs : List Char) : SkipsLocally (afterMarks marks) cs := by
  unfold afterMarks
  cases marks.contains '@' with
  | true => exact skipsLocally_afterQuote (skipsLocally_verbatimHoles 0) cs
  | false => exact skipsLocally_afterQuote (skipsLocally_escapedHoles 0) cs

theorem skipsLocally_interpolated (cs : List Char) : SkipsLocally interpolated cs := by
  obtain ⟨taken, htaken, hskip⟩ :=
    skipsLocally_afterMarks (cs.takeWhile isMark) (cs.dropWhile isMark)
  refine ⟨cs.takeWhile isMark ++ taken, ?_, fun rest hrest => ?_⟩
  · rw [List.append_assoc, interpolated_eq_afterMarks, ← htaken, List.takeWhile_append_dropWhile]
  · rw [interpolated_eq_afterMarks] at hrest
    have hbehind : Replaces (taken ++ rest) (cs.dropWhile isMark) := hrest.append_of_eq htaken
    obtain ⟨hmarks, hinside⟩ := takeWhile_of_replaces (p := isMark) rfl hbehind
    rw [List.append_assoc, interpolated_eq_afterMarks, hmarks, hinside, hskip rest hrest]

end Literal

/-! ## Comments -/

theorem skipsLocally_afterBlockComment (cs : List Char) : SkipsLocally afterBlockComment cs := by
  unfold SkipsLocally
  rw [afterBlockComment]
  cases hcut : cutAt ['*', '/'] cs with
  | none =>
    refine ⟨cs, by simp, fun rest hrest => ?_⟩
    obtain rfl := hrest.eq_nil
    rw [List.append_nil, afterBlockComment, hcut]
  | some parts =>
    obtain ⟨comment, after⟩ := parts
    obtain rfl : cs = comment ++ (['*', '/'] ++ after) := by
      rw [eq_of_cutAt hcut, List.append_assoc]
    refine ⟨comment ++ ['*', '/'], by simp, fun rest _ => ?_⟩
    rw [List.append_assoc, afterBlockComment, cutAt_of_cutAt hcut]

end AttributeLint.Token
