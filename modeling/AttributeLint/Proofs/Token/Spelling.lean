import AttributeLint.Proofs.Token.Pieces

/-!
# Spelling — strings written as literals

A string can be written as a regular literal, with quotes, backslashes and line feeds escaped, or as
a verbatim literal, with quotes doubled. Both are read back as one piece that carries the string
(`pieces_write`), whatever the string contains, unless the text that follows begins with a quote.
Literals joined by `+` are read back as their pieces with the operator between them
(`pieces_joined`).
-/

namespace AttributeLint.Token

open Text

/-! ## Literals -/

/-- The two ways to spell a string. -/
inductive Spelling where
  | regular
  | verbatim
  deriving DecidableEq, Repr

namespace Spelling

/-- A character inside a regular literal. -/
def regularChar (c : Char) : List Char :=
  if c = '"' then ['\\', '"']
  else if c = '\\' then ['\\', '\\']
  else if c = '\n' then ['\\', 'n']
  else [c]

/-- A character inside a verbatim literal. -/
def verbatimChar (c : Char) : List Char :=
  if c = '"' then ['"', '"'] else [c]

/-- The literal that spells a text. -/
def write : Spelling → List Char → List Char
  | .regular, cs => '"' :: (cs.flatMap regularChar ++ ['"'])
  | .verbatim, cs => '@' :: '"' :: (cs.flatMap verbatimChar ++ ['"'])

end Spelling

namespace Literal

theorem regular_flatMap_regularChar (cs rest : List Char) :
    regular (cs.flatMap Spelling.regularChar ++ '"' :: rest) = (some cs, rest) := by
  induction cs with
  | nil => simp [regular]
  | cons c cs ih =>
    rw [List.flatMap_cons, List.append_assoc, Spelling.regularChar]
    by_cases hquote : c = '"'
    · subst hquote
      simp [regular, escape, simpleEscape?, ih, prepend]
    by_cases hbackslash : c = '\\'
    · subst hbackslash
      simp [regular, escape, simpleEscape?, ih, prepend]
    by_cases hfeed : c = '\n'
    · subst hfeed
      simp [regular, escape, simpleEscape?, ih, prepend]
    · simp [regular, hquote, hbackslash, hfeed, ih, prepend]

/-- A character other than a quote is taken over into the value of a verbatim string. -/
theorem verbatim_cons_of_ne {c : Char} (hc : c ≠ '"') (cs : List Char) :
    verbatim (c :: cs) = prepend [c] (verbatim cs) := by
  rw [verbatim, if_neg hc]
  rintro cs' rfl
  exact absurd rfl hc

/-- A quote that no other quote follows closes a verbatim string. -/
theorem verbatim_quote {rest : List Char} (h : rest.head? ≠ some '"') :
    verbatim ('"' :: rest) = (some [], rest) := by
  rw [verbatim, if_pos rfl]
  rintro cs' - rfl
  exact h rfl

theorem verbatim_flatMap_verbatimChar (cs : List Char) {rest : List Char}
    (h : rest.head? ≠ some '"') :
    verbatim (cs.flatMap Spelling.verbatimChar ++ '"' :: rest) = (some cs, rest) := by
  induction cs with
  | nil => exact verbatim_quote h
  | cons c cs ih =>
    rw [List.flatMap_cons, List.append_assoc, Spelling.verbatimChar]
    by_cases hquote : c = '"'
    · subst hquote
      simp [verbatim, ih, prepend]
    · rw [if_neg hquote, List.singleton_append, verbatim_cons_of_ne hquote, ih]
      rfl

end Literal

/-! ## Pieces -/

theorem scan_regular {cs : List Char} (hsingle : after? ['"', '"'] cs = none) :
    scan '"' cs = constant (Literal.regular cs) '"' cs := by
  rw [scan, hsingle]
  rfl

theorem scan_verbatim (cs : List Char) :
    scan '@' ('"' :: cs) = constant (Literal.verbatim cs) '@' ('"' :: cs) := rfl

namespace Spelling

theorem regularChar_eq_cons (c : Char) : ∃ d ds, regularChar c = d :: ds ∧ d ≠ '"' := by
  rw [regularChar]
  by_cases hquote : c = '"'
  · exact ⟨'\\', ['"'], if_pos hquote, by decide⟩
  rw [if_neg hquote]
  split
  · exact ⟨'\\', ['\\'], rfl, by decide⟩
  split
  · exact ⟨'\\', ['n'], rfl, by decide⟩
  · exact ⟨c, [], rfl, hquote⟩

theorem head?_flatMap_regularChar_ne_quote (cs : List Char) :
    (cs.flatMap regularChar).head? ≠ some '"' := by
  cases cs with
  | nil => exact fun h => by cases h
  | cons c cs =>
    obtain ⟨d, ds, hd, hne⟩ := regularChar_eq_cons c
    rw [List.flatMap_cons, hd]
    exact fun h => hne (Option.some.inj h)

end Spelling

/-- A regular literal is not taken for a raw one: its opening quote stands alone. -/
theorem after?_quotes_regular {body rest : List Char} (hfirst : body.head? ≠ some '"')
    (hsingle : body = [] → rest.head? ≠ some '"') :
    after? ['"', '"'] (body ++ '"' :: rest) = none := by
  cases body with
  | nil =>
    -- the closing quote comes at once, and what follows is no quote
    rw [List.nil_append, after?, if_pos rfl]
    cases rest with
    | nil => rfl
    | cons d rest => exact if_neg fun hd => hsingle rfl (by rw [← hd]; rfl)
  | cons c body =>
    rw [List.cons_append, after?, if_neg fun hc => hfirst (by rw [← hc]; rfl)]

/-- What stands between two quotes and is read as a value up to the second of them is one piece that
carries the value. -/
theorem pieces_regular (lineStart : Bool) {body value rest : List Char}
    (hread : Literal.regular (body ++ '"' :: rest) = (some value, rest))
    (hfirst : body.head? ≠ some '"') (hsingle : body = [] → rest.head? ≠ some '"') :
    pieces lineStart ('"' :: (body ++ ['"']) ++ rest) =
      { role := .token (.str (String.ofList value)), text := '"' :: (body ++ ['"']) } ::
        pieces false rest := by
  have htext : '"' :: (body ++ ['"']) ++ rest = '"' :: (body ++ '"' :: rest) := by simp
  rw [htext, pieces_eq_scan lineStart _ (by decide) (by decide) (by decide),
    scan_regular (after?_quotes_regular hfirst hsingle), hread, constant, Cutting.upTo, ← htext,
    upTo_append_self]
  rfl

/-- A literal is read back as one piece that carries the string. -/
theorem pieces_write (lineStart : Bool) (spelling : Spelling) (cs : List Char) {rest : List Char}
    (h : rest.head? ≠ some '"') :
    pieces lineStart (spelling.write cs ++ rest) =
      { role := .token (.str (String.ofList cs)), text := spelling.write cs } ::
        pieces false rest := by
  cases spelling with
  | regular =>
    exact pieces_regular lineStart (Literal.regular_flatMap_regularChar cs rest)
      (Spelling.head?_flatMap_regularChar_ne_quote cs) fun _ => h
  | verbatim =>
    have htext : Spelling.verbatim.write cs ++ rest =
        '@' :: '"' :: (cs.flatMap Spelling.verbatimChar ++ '"' :: rest) := by simp [Spelling.write]
    have hread := Literal.verbatim_flatMap_verbatimChar cs h
    rw [htext, pieces_eq_scan lineStart _ (by decide) (by decide) (by decide), scan_verbatim,
      hread, constant, Cutting.upTo, ← htext, upTo_append_self]
    rfl

/-- A string with the way in which it is spelled. -/
structure Spelled where
  spelling : Spelling
  value : String
  deriving DecidableEq, Repr

namespace Spelled

/-- The literal. -/
def text (s : Spelled) : List Char :=
  s.spelling.write s.value.toList

/-- The piece that the literal is read back as. -/
def piece (s : Spelled) : Piece :=
  { role := .token (.str s.value), text := s.text }

end Spelled

/-- The operator that joins strings. -/
def plus : Piece :=
  { role := .token .other, text := ['+'] }

theorem pieces_plus (lineStart : Bool) (rest : List Char) :
    pieces lineStart ('+' :: rest) = plus :: pieces false rest := by
  rw [pieces_eq_scan lineStart _ (by decide) (by decide) (by decide)]
  rfl

/-- The literals joined by `+`. -/
def joined (first : Spelled) (rest : List Spelled) : List Char :=
  List.intercalate ['+'] ((first :: rest).map Spelled.text)

theorem joined_cons (first second : Spelled) (rest : List Spelled) :
    joined first (second :: rest) = first.text ++ '+' :: joined second rest := by
  simp [joined, List.intercalate]

/-- The pieces of literals joined by `+`. -/
def joinedPieces (first : Spelled) : List Spelled → List Piece
  | [] => [first.piece]
  | second :: rest => first.piece :: plus :: joinedPieces second rest

theorem flatMap_text_joinedPieces (first : Spelled) (rest : List Spelled) :
    (joinedPieces first rest).flatMap (·.text) = joined first rest := by
  induction rest generalizing first with
  | nil => simp [joinedPieces, joined, List.intercalate, Spelled.piece]
  | cons second rest ih =>
    rw [joined_cons, joinedPieces, List.flatMap_cons, List.flatMap_cons, ih]
    rfl

theorem pieces_spelled (lineStart : Bool) (s : Spelled) {after : List Char}
    (h : after.head? ≠ some '"') :
    pieces lineStart (s.text ++ after) = s.piece :: pieces false after := by
  have := pieces_write lineStart s.spelling s.value.toList h
  rw [String.ofList_toList] at this
  exact this

/-- Literals joined by `+` are read back as their pieces, unless a quote follows them. -/
theorem pieces_joined (lineStart : Bool) (first : Spelled) (rest : List Spelled)
    {after : List Char} (h : after.head? ≠ some '"') :
    pieces lineStart (joined first rest ++ after) =
      joinedPieces first rest ++ pieces false after := by
  induction rest generalizing first lineStart with
  | nil =>
    have hone : joined first [] = first.text := by simp [joined, List.intercalate]
    rw [hone, pieces_spelled lineStart first h]
    rfl
  | cons second rest ih =>
    rw [joined_cons, List.append_assoc, List.cons_append,
      pieces_spelled lineStart first (by simp), pieces_plus, ih]
    rfl

end AttributeLint.Token
