import AttributeLint.Proofs.Token.Escapes
import AttributeLint.Proofs.Token.Restart

/-!
# Unclosed — strings and characters that their line does not close

A string or a character that is not closed is meant to end with its line, so that the code on the
next line is seen. Both forms are read in one way (`onLine`): a backslash takes the character behind
it, whatever that is, and the digits of an escape are characters like any others. So the line break
is stepped over if a backslash of its own stands in front of it, and only then
(`tokenize_unclosed_iff`).
-/

namespace AttributeLint.Token

open Text

/-! ## Backslashes at the end of a text -/

/-- How many backslashes stand at the end of a text. -/
def lastBackslashes (u : List Char) : Nat :=
  (u.reverse.takeWhile (· = '\\')).length

/-- The last character of the text is a backslash that no backslash in front of it escapes. -/
def EndsEscaping (u : List Char) : Prop :=
  lastBackslashes u % 2 = 1

instance (u : List Char) : Decidable (EndsEscaping u) :=
  inferInstanceAs (Decidable (_ = _))

variable {quote c : Char} {u cs rest : List Char}

theorem lastBackslashes_le (u : List Char) : lastBackslashes u ≤ u.length := by
  have := (List.takeWhile_sublist (fun c => decide (c = '\\')) (l := u.reverse)).length_le
  simpa [lastBackslashes] using this

/-- A character in front counts only if it is a backslash and nothing else follows it. -/
theorem lastBackslashes_cons (c : Char) (u : List Char) :
    lastBackslashes (c :: u) =
      if c = '\\' ∧ lastBackslashes u = u.length then u.length + 1 else lastBackslashes u := by
  simp only [lastBackslashes, List.reverse_cons, List.takeWhile_append, List.length_reverse]
  by_cases hall : (u.reverse.takeWhile (· = '\\')).length = u.length
  · by_cases hc : c = '\\'
    · simp [hall, hc]
    · simp [hall, hc]
  · simp [hall]

theorem not_endsEscaping_nil : ¬ EndsEscaping [] := by
  simp [EndsEscaping, lastBackslashes]

theorem endsEscaping_cons_of_ne (hc : c ≠ '\\') (u : List Char) :
    EndsEscaping (c :: u) ↔ EndsEscaping u := by
  simp [EndsEscaping, lastBackslashes_cons, hc]

/-- A backslash and the character that it escapes, which may be a backslash, change nothing. -/
theorem endsEscaping_pair (c : Char) (u : List Char) :
    EndsEscaping ('\\' :: c :: u) ↔ EndsEscaping u := by
  have hle := lastBackslashes_le u
  simp only [EndsEscaping, lastBackslashes_cons, List.length_cons, true_and]
  by_cases hc : c = '\\'
  · by_cases hall : lastBackslashes u = u.length
    · simp only [hc, hall, true_and, if_true]
      omega
    · have hfew : lastBackslashes u ≠ u.length + 1 := by omega
      simp [hall, hfew]
  · have hfew : lastBackslashes u ≠ u.length + 1 := by omega
    simp [hc, hfew]

/-! ## Literals that a quote or the line break ends -/

namespace Literal

/-- Whether a literal is closed by `quote` on the line on which it begins, and what follows it, read
from just after its opening quote. -/
def onLine (quote : Char) : List Char → Bool × List Char
  | [] => (false, [])
  | '\\' :: _ :: cs => onLine quote cs
  | c :: cs =>
    if c = quote then (true, cs)
    else if c = '\n' then (false, c :: cs)
    else onLine quote cs

/-- A backslash with nothing behind it is a character like any other. -/
theorem onLine_cons (h : c = '\\' → cs = []) :
    onLine quote (c :: cs) =
      if c = quote then (true, cs) else if c = '\n' then (false, c :: cs) else onLine quote cs := by
  rw [onLine]
  intro d cs' hc hcs
  rw [h hc] at hcs
  cases hcs

theorem character_eq_onLine (cs : List Char) : character cs = (onLine '\'' cs).2 := by
  fun_induction character cs with
  | case1 => rfl
  | case2 d cs ih => rw [ih, onLine]
  | case3 cs => simp [onLine]
  | case4 cs => simp [onLine]
  | case5 c cs hpair hquote hfeed ih =>
    have hlast : c = '\\' → cs = [] := by
      intro hc
      cases cs with
      | nil => rfl
      | cons d cs => exact absurd rfl (hpair d cs hc)
    rw [onLine_cons hlast, if_neg hquote, if_neg hfeed, ih]

/-- Whether a reading has a value, and what it leaves. -/
def outcome (reading : Option (List Char) × List Char) : Bool × List Char :=
  (reading.1.isSome, reading.2)

@[simp] theorem outcome_prepend (u : List Char) (reading : Option (List Char) × List Char) :
    outcome (prepend u reading) = outcome reading := by
  simp [outcome, prepend]

/-- Behind the letter of an escape, an escape takes nothing but hexadecimal digits. -/
theorem exists_digits_escape (c : Char) (cs : List Char) :
    ∃ digits, cs = digits ++ (escape (c :: cs)).2 ∧ ∀ d ∈ digits, isHexDigit d := by
  simp only [escape]
  split
  · exact ⟨[], rfl, by simp⟩
  split
  · exact ⟨[], rfl, by simp⟩
  · rename_i least most _
    generalize hdigits : (cs.take most).takeWhile isHexDigit = digits
    split
    · exact ⟨[], rfl, by simp⟩
    split
    · have hprefix : digits <+: cs :=
        hdigits ▸ (List.takeWhile_prefix _).trans (List.take_prefix _ _)
      refine ⟨digits, (List.prefix_iff_eq_append.mp hprefix).symm, ?_⟩
      rw [← hdigits]
      exact List.all_eq_true.mp List.all_takeWhile
    · exact ⟨[], rfl, by simp⟩

/-- Digits are passed over wherever they stand in a string. -/
theorem outcome_regular_digits {digits : List Char} (h : ∀ d ∈ digits, isHexDigit d)
    (cs : List Char) : outcome (regular (digits ++ cs)) = outcome (regular cs) := by
  induction digits with
  | nil => rfl
  | cons d digits ih =>
    have hd : isHexDigit d := h d List.mem_cons_self
    have hne {e : Char} (he : isHexDigit e = false) : d ≠ e := by
      intro hde
      rw [hde, he] at hd
      cases hd
    rw [List.cons_append, regular, if_neg (hne (by decide)), if_neg (hne (by decide)),
      if_neg (hne (by decide)), outcome_prepend,
      ih fun e he => h e (List.mem_cons_of_mem d he)]

/-- A string ends where a literal of that quote ends, and has a value if it is closed. -/
theorem outcome_regular (cs : List Char) : outcome (regular cs) = onLine '"' cs := by
  fun_induction onLine '"' cs with
  | case1 => simp [regular, outcome]
  | case2 c cs ih =>
    obtain ⟨digits, hdigits, hhex⟩ := exists_digits_escape c cs
    have hescape := outcome_regular_digits hhex (escape (c :: cs)).2
    rw [← hdigits] at hescape
    rw [regular_backslash, outcome_prepend, ← hescape, ih]
  | case3 cs => simp [regular, outcome]
  | case4 cs => simp [regular, outcome]
  | case5 c cs hpair hquote hfeed ih =>
    by_cases hc : c = '\\'
    · cases cs with
      | nil => simp [hc, regular_backslash, escape, ih]
      | cons d cs => exact absurd rfl (hpair d cs hc)
    · rw [regular, if_neg hquote, if_neg hfeed, if_neg hc, outcome_prepend, ih]

/-- A literal that its line does not close ends in front of the line break. Only a backslash that
nothing escapes takes the line break with it, and the literal goes on behind. -/
theorem onLine_append_feed (hline : quote ≠ '\n') (hquote : quote ∉ u) (hfeed : '\n' ∉ u)
    (rest : List Char) :
    onLine quote (u ++ '\n' :: rest) =
      if EndsEscaping u then onLine quote rest else (false, '\n' :: rest) := by
  fun_induction onLine quote u with
  | case1 => simp [onLine, not_endsEscaping_nil, hline.symm]
  | case2 d cs ih =>
    simp only [List.mem_cons, not_or] at hquote hfeed
    simp only [List.cons_append, onLine, endsEscaping_pair]
    exact ih hquote.2.2 hfeed.2.2
  | case3 cs => exact absurd List.mem_cons_self hquote
  | case4 => exact absurd List.mem_cons_self hfeed
  | case5 c cs hpair hc hfeed' ih =>
    simp only [List.mem_cons, not_or] at hquote hfeed
    by_cases hslash : c = '\\'
    · cases cs with
      | nil =>
        have hends : EndsEscaping [c] := by
          rw [hslash]
          decide
        rw [if_pos hends, hslash]
        rfl
      | cons d cs => exact absurd rfl (hpair d cs hslash)
    · rw [List.cons_append, onLine_cons fun h => absurd h hslash, if_neg hc, if_neg hfeed',
        ih hquote.2 hfeed.2]
      simp only [endsEscaping_cons_of_ne hslash]

theorem onLine_suffix (quote : Char) (cs : List Char) : (onLine quote cs).2 <:+ cs := by
  fun_induction onLine quote cs with
  | case1 => exact List.suffix_rfl
  | case2 d cs ih => exact ih.trans (List.suffix_append ['\\', d] cs)
  | case3 cs => exact List.suffix_cons _ cs
  | case4 => exact List.suffix_rfl
  | case5 c cs _ _ _ ih => exact ih.trans (List.suffix_cons c cs)

end Literal

/-! ## Tokens -/

open Literal

/-- A quote on its own begins a literal that is read on its line. -/
theorem scan_onLine (hquote : quote = '"' ∨ quote = '\'')
    (hsingle : quote = '"' → after? ['"', '"'] cs = none) :
    ∃ kind, scan quote cs = .upTo kind (onLine quote cs).2 quote cs ∧
      ((onLine quote cs).1 = false → kind = .literal) := by
  rcases hquote with rfl | rfl
  · have hread := outcome_regular cs
    rw [scan_regular (hsingle rfl), constant, ← hread, outcome]
    refine ⟨_, rfl, ?_⟩
    intro hopen
    rw [Option.isSome_eq_false_iff, Option.isNone_iff_eq_none] at hopen
    rw [hopen]
    rfl
  · refine ⟨.literal, ?_, fun _ => rfl⟩
    rw [← character_eq_onLine]
    rfl

/-- A line without a quote does not begin with two of them. -/
theorem after?_quotes_append_feed (hu : '"' ∉ u) (rest : List Char) :
    after? ['"', '"'] (u ++ '\n' :: rest) = none := by
  cases u with
  | nil => simp [after?]
  | cons c u =>
    have hc : '"' ≠ c := by
      intro hc
      exact hu (hc ▸ List.mem_cons_self)
    simp [after?, hc]

/-- A literal that is not closed on its line is a piece of its own, up to the line break or, with a
backslash that escapes the line break, up to where it ends behind it. -/
theorem pieces_append_feed_unclosed (hquote : quote = '"' ∨ quote = '\'') (hu : quote ∉ u)
    (hfeed : '\n' ∉ u) (lineStart : Bool) (rest : List Char) :
    (¬ EndsEscaping u →
      pieces lineStart (quote :: (u ++ '\n' :: rest)) =
        { role := .token .literal, text := quote :: u } ::
          { role := .trivia .lineBreak, text := ['\n'] } :: pieces true rest) ∧
    (EndsEscaping u → ∃ kind taken, taken ++ (onLine quote rest).2 = rest ∧
      pieces lineStart (quote :: (u ++ '\n' :: rest)) =
        { role := .token kind, text := quote :: (u ++ '\n' :: taken) } ::
          pieces false (onLine quote rest).2) := by
  have hline : quote ≠ '\n' ∧ isBlank quote = false ∧ quote ≠ '#' ∧ quote ≠ '/' := by
    rcases hquote with rfl | rfl
    · decide
    · decide
  obtain ⟨hline, hblank, hhash, hslash⟩ := hline
  have hsingle (h : quote = '"') : after? ['"', '"'] (u ++ '\n' :: rest) = none := by
    rw [h] at hu
    exact after?_quotes_append_feed hu rest
  obtain ⟨kind, hscan, hkind⟩ := scan_onLine hquote hsingle
  have hread := onLine_append_feed hline hu hfeed rest
  rw [pieces_eq_scan lineStart _ hblank hhash hslash, hscan]
  constructor
  · intro hends
    rw [if_neg hends] at hread
    rw [hread] at hkind ⊢
    rw [hkind rfl, Cutting.upTo, ← List.cons_append, upTo_append_self, pieces_feed]
  · intro hends
    rw [if_pos hends] at hread
    obtain ⟨taken, htaken⟩ := onLine_suffix quote rest
    refine ⟨kind, taken, htaken, ?_⟩
    have htext : quote :: (u ++ '\n' :: rest) =
        quote :: (u ++ '\n' :: taken) ++ (onLine quote rest).2 := by
      rw [List.cons_append, List.append_assoc, List.cons_append, htaken]
    rw [hread, Cutting.upTo, htext, upTo_append_self]

section Source

variable {u : String}

theorem toList_unclosed (quote : Char) (u rest : String) :
    (String.singleton quote ++ u ++ "\n" ++ rest).toList =
      quote :: (u.toList ++ '\n' :: rest.toList) := by
  simp

theorem ofList_quote (quote : Char) (u : String) :
    String.ofList (quote :: u.toList) = String.singleton quote ++ u := by
  apply String.toList_inj.mp
  simp

theorem width_quote (hquote : quote = '"' ∨ quote = '\'') (u : String) :
    width (quote :: u.toList) = u.utf8ByteSize + 1 := by
  rw [width_cons, width_toList]
  rcases hquote with rfl | rfl
  · exact Nat.add_comm 1 _
  · exact Nat.add_comm 1 _

theorem tokenize_unclosed (hquote : quote = '"' ∨ quote = '\'') (hu : quote ∉ u.toList)
    (hfeed : '\n' ∉ u.toList) (hends : ¬ EndsEscaping u.toList) (rest : String) :
    tokenize (String.singleton quote ++ u ++ "\n" ++ rest) =
      { kind := .literal, text := String.singleton quote ++ u, start := 0 } ::
        (tokenize rest).map (shift (u.utf8ByteSize + 2)) := by
  have hpieces := (pieces_append_feed_unclosed hquote hu hfeed true rest.toList).1 hends
  have hshift := place_add 0 (u.utf8ByteSize + 2) (pieces true rest.toList)
  rw [tokenize, toList_unclosed, hpieces, place_token, place_trivia, ofList_quote,
    width_quote hquote]
  rw [Nat.zero_add] at hshift ⊢
  exact congrArg (_ :: ·) hshift

theorem exists_tokenize_escaping (hquote : quote = '"' ∨ quote = '\'') (hu : quote ∉ u.toList)
    (hfeed : '\n' ∉ u.toList) (hends : EndsEscaping u.toList) (rest : String) :
    ∃ kind taken, taken ++ (onLine quote rest.toList).2 = rest.toList ∧
      tokenize (String.singleton quote ++ u ++ "\n" ++ rest) =
        { kind, text := String.singleton quote ++ u ++ "\n" ++ String.ofList taken, start := 0 } ::
          place (u.utf8ByteSize + 2 + width taken)
            (pieces false (onLine quote rest.toList).2) := by
  obtain ⟨kind, taken, htaken, hpieces⟩ :=
    (pieces_append_feed_unclosed hquote hu hfeed true rest.toList).2 hends
  refine ⟨kind, taken, htaken, ?_⟩
  have htext : String.ofList (quote :: (u.toList ++ '\n' :: taken)) =
      String.singleton quote ++ u ++ "\n" ++ String.ofList taken := by
    apply String.toList_inj.mp
    simp
  have hstop : width (quote :: (u.toList ++ '\n' :: taken)) =
      u.utf8ByteSize + 2 + width taken := by
    have hsize : ('\n' : Char).utf8Size = 1 := rfl
    rw [← List.cons_append, width_append, width_quote hquote, width_cons, hsize]
    omega
  rw [tokenize, toList_unclosed, hpieces, place_token, htext, hstop, Nat.zero_add]

end Source

/-- A string or a character that is not closed is one token up to the line break, and the next line
has the tokens that it has by itself, exactly if no backslash escapes the line break. If one does,
the literal goes on behind the line break as if it had begun there. -/
theorem tokenize_unclosed_iff (hquote : quote = '"' ∨ quote = '\'') {u : String}
    (hu : quote ∉ u.toList) (hfeed : '\n' ∉ u.toList) (rest : String) :
    (tokenize (String.singleton quote ++ u ++ "\n" ++ rest) =
        { kind := .literal, text := String.singleton quote ++ u, start := 0 } ::
          (tokenize rest).map (shift (u.utf8ByteSize + 2)) ↔
      ¬ EndsEscaping u.toList) ∧
    (EndsEscaping u.toList → ∃ kind taken, taken ++ (onLine quote rest.toList).2 = rest.toList ∧
      tokenize (String.singleton quote ++ u ++ "\n" ++ rest) =
        { kind, text := String.singleton quote ++ u ++ "\n" ++ String.ofList taken, start := 0 } ::
          place (u.utf8ByteSize + 2 + width taken)
            (pieces false (onLine quote rest.toList).2)) := by
  refine ⟨?_, fun hends => exists_tokenize_escaping hquote hu hfeed hends rest⟩
  constructor
  · intro htokens hends
    obtain ⟨kind, taken, -, hgoesOn⟩ := exists_tokenize_escaping hquote hu hfeed hends rest
    rw [hgoesOn] at htokens
    -- the two first tokens differ in the line break
    have htext := congrArg (fun t : Token => t.text.toList.length) (List.cons.inj htokens).1
    simp at htext
  · intro hends
    exact tokenize_unclosed hquote hu hfeed hends rest

/-- Escapes that are none and a backslash that is escaped do not reach the line break. -/
theorem tokenize_unclosed_iff_malformed :
    tokenize (String.singleton '"' ++ "\\u00g\\x\\U12\\\\" ++ "\n" ++ "# \"\n[B]") =
      { kind := .literal, text := String.singleton '"' ++ "\\u00g\\x\\U12\\\\", start := 0 } ::
        (tokenize "# \"\n[B]").map (shift 15) :=
  (tokenize_unclosed_iff (.inl rfl) (by decide) (by decide) "# \"\n[B]").1.mpr (by decide)

/-- A backslash in front of the line break makes the next line a part of the literal. -/
theorem tokenize_unclosed_backslash :
    tokenize "\"\\\n[A]" = [{ kind := .literal, text := "\"\\\n[A]", start := 0 }] ∧
      tokenize "'\\\n[A]" = [{ kind := .literal, text := "'\\\n[A]", start := 0 }] := by
  decide +kernel

end AttributeLint.Token
