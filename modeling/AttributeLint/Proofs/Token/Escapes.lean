import AttributeLint.Proofs.Token.Spelling
import Mathlib.Tactic.Ring

/-!
# Escapes — the grammar of regular string literals

Between its quotes a regular literal is a sequence of elements: characters that stand for
themselves, escapes, and backslashes that begin no escape. An element is read as what it denotes,
whatever element or quote follows it (`regular_text`), with one condition: a hexadecimal
escape of fewer digits than it may have must not run into another digit (`Separated`). So a whole
literal is read as what its elements denote one after the other (`head?_tokenize_literal`).
-/

namespace AttributeLint.Token.Literal

open Text

/-! ## Hexadecimal digits -/

/-- A hexadecimal digit, with the case in which it is written if it is a letter. -/
structure Hex where
  value : Fin 16
  capital : Bool
  deriving DecidableEq, Repr

namespace Hex

/-- The character of a digit. -/
def char (d : Hex) : Char :=
  if d.value.val < 10 then Char.ofNat (48 + d.value.val)
  else if d.capital then Char.ofNat (55 + d.value.val)
  else Char.ofNat (87 + d.value.val)

/-- The number that digits write, the first of them counting most. -/
def number : List Hex → Nat
  | [] => 0
  | d :: ds => d.value.val * 16 ^ ds.length + number ds

theorem number_lt (ds : List Hex) : number ds < 16 ^ ds.length := by
  induction ds with
  | nil => decide
  | cons d ds ih =>
    have hfirst : d.value.val * 16 ^ ds.length ≤ 15 * 16 ^ ds.length :=
      Nat.mul_le_mul_right _ (Nat.le_of_lt_succ d.value.isLt)
    rw [number, List.length_cons, Nat.pow_succ]
    omega

theorem hexDigit?_char (d : Hex) : hexDigit? d.char = some d.value.val := by
  obtain ⟨value, capital⟩ := d
  revert value capital
  decide

theorem isHexDigit_char (d : Hex) : isHexDigit d.char = true := by
  rw [isHexDigit, hexDigit?_char]
  rfl

theorem char_ne {c : Char} (h : isHexDigit c = false) (d : Hex) : d.char ≠ c := by
  rintro rfl
  exact Bool.false_ne_true (h.symm.trans d.isHexDigit_char)

/-- A character that is read as a digit is the character of one. -/
theorem exists_of_isHexDigit {c : Char} (h : isHexDigit c = true) : ∃ d : Hex, d.char = c := by
  have htoNat {a b : Char} (h : a ≤ b) : a.toNat ≤ b.toNat := h
  unfold isHexDigit hexDigit? at h
  split at h
  case isTrue hrange =>
    have hlow : 48 ≤ c.toNat := htoNat hrange.1
    have hhigh : c.toNat ≤ 57 := htoNat hrange.2
    refine ⟨⟨⟨c.toNat - 48, by omega⟩, false⟩, ?_⟩
    rw [char, if_pos (by dsimp only; omega), Nat.add_sub_cancel' hlow, Char.ofNat_toNat]
  split at h
  case isTrue hrange =>
    have hlow : 97 ≤ c.toNat := htoNat hrange.1
    have hhigh : c.toNat ≤ 102 := htoNat hrange.2
    refine ⟨⟨⟨c.toNat - 87, by omega⟩, false⟩, ?_⟩
    rw [char, if_neg (by dsimp only; omega), if_neg Bool.false_ne_true,
      Nat.add_sub_cancel' (by omega), Char.ofNat_toNat]
  split at h
  case isTrue hrange =>
    have hlow : 65 ≤ c.toNat := htoNat hrange.1
    have hhigh : c.toNat ≤ 70 := htoNat hrange.2
    refine ⟨⟨⟨c.toNat - 55, by omega⟩, true⟩, ?_⟩
    rw [char, if_neg (by dsimp only; omega), if_pos rfl,
      Nat.add_sub_cancel' (by omega), Char.ofNat_toNat]
  cases h

theorem digitsValue_map_char (ds : List Hex) : digitsValue 16 (ds.map char) = number ds := by
  have hfold (n : Nat) : (ds.map char).foldl (fun n c => 16 * n + (hexDigit? c).getD 0) n =
      n * 16 ^ ds.length + number ds := by
    induction ds generalizing n with
    | nil => simp [number]
    | cons d ds ih =>
      rw [List.map_cons, List.foldl_cons, ih, hexDigit?_char, number, List.length_cons,
        Nat.pow_succ, Option.getD_some]
      ring
  rw [digitsValue, hfold, Nat.zero_mul, Nat.zero_add]

end Hex

/-- The code point is one half of a pair of surrogates, and no character. -/
def Surrogate (n : Nat) : Prop :=
  0xd800 ≤ n ∧ n ≤ 0xdfff

instance (n : Nat) : Decidable (Surrogate n) :=
  inferInstanceAs (Decidable (_ ∧ _))

theorem isValidChar_of_not_surrogate {n : Nat} (hrange : n < 0x110000) (hscalar : ¬ Surrogate n) :
    n.isValidChar := by
  simp only [Surrogate] at hscalar
  simp only [Nat.isValidChar]
  omega

/-! ## Elements -/

/-- The letters of simple escapes and the characters that they denote. -/
def simpleEscapes : List (Char × Char) :=
  [('\'', '\''), ('"', '"'), ('\\', '\\'), ('0', '\x00'), ('a', '\x07'), ('b', '\x08'),
    ('f', '\x0c'), ('n', '\n'), ('r', '\r'), ('t', '\t'), ('v', '\x0b')]

/-- An element of a regular string literal. -/
inductive Element where
  /-- A character that stands for itself. -/
  | plain (c : Char) (hallowed : c ≠ '"' ∧ c ≠ '\\' ∧ c ≠ '\n')
  /-- A backslash and a letter. -/
  | simple (letter denoted : Char) (hknown : (letter, denoted) ∈ simpleEscapes)
  /-- A backslash, `u` and four digits. -/
  | short (digits : List Hex) (hfour : digits.length = 4)
    (hscalar : ¬ Surrogate (Hex.number digits))
  /-- A backslash, `U` and eight digits. -/
  | long (digits : List Hex) (height : digits.length = 8)
    (hscalar : Hex.number digits < 0x110000 ∧ ¬ Surrogate (Hex.number digits))
  /-- A backslash, `x` and one to four digits. -/
  | hex (digits : List Hex) (hupToFour : 1 ≤ digits.length ∧ digits.length ≤ 4)
    (hscalar : ¬ Surrogate (Hex.number digits))
  /-- A backslash that begins no escape, and the character after it. -/
  | stray (c : Char) (hunknown : c ∉ simpleEscapes.map (·.1))
    (hother : c ≠ '\n' ∧ c ≠ 'u' ∧ c ≠ 'U' ∧ c ≠ 'x')

namespace Element

/-- The element as it is written. -/
def text : Element → List Char
  | plain c _ => [c]
  | simple letter _ _ => ['\\', letter]
  | short digits _ _ => '\\' :: 'u' :: digits.map Hex.char
  | long digits _ _ => '\\' :: 'U' :: digits.map Hex.char
  | hex digits _ _ => '\\' :: 'x' :: digits.map Hex.char
  | stray c _ _ => ['\\', c]

/-- What the element denotes. -/
def value : Element → List Char
  | plain c _ => [c]
  | simple _ denoted _ => [denoted]
  | short digits _ _ | long digits _ _ | hex digits _ _ => [Char.ofNat (Hex.number digits)]
  | stray c _ _ => ['\\', c]

/-- A digit behind the element would belong to it. -/
def TakesDigit : Element → Prop
  | hex digits _ _ => digits.length < 4
  | _ => False

end Element

/-- No element is followed by a digit that would belong to it. -/
def Separated : List Element → Prop
  | [] => True
  | e :: es =>
    (e.TakesDigit → ∀ d : Hex, (es.flatMap Element.text).head? ≠ some d.char) ∧ Separated es

/-- The literal that consists of the elements. -/
def ofElements (es : List Element) : List Char :=
  '"' :: (es.flatMap Element.text ++ ['"'])

/-! ## Reading -/

theorem simpleEscape?_of_mem {letter denoted : Char} (hknown : (letter, denoted) ∈ simpleEscapes) :
    simpleEscape? letter = some denoted := by
  have hall : ∀ p ∈ simpleEscapes, simpleEscape? p.1 = some p.2 := by decide
  exact hall _ hknown

theorem simpleEscape?_eq_none {c : Char} (hunknown : c ∉ simpleEscapes.map (·.1)) :
    simpleEscape? c = none := by
  unfold simpleEscape?
  split
  case h_12 => rfl
  all_goals exact absurd (by decide) hunknown

theorem hexEscape?_eq_none {c : Char} (h : c ≠ 'u' ∧ c ≠ 'U' ∧ c ≠ 'x') :
    hexEscape? c = none := by
  unfold hexEscape?
  split
  · exact absurd rfl h.1
  · exact absurd rfl h.2.1
  · exact absurd rfl h.2.2
  · rfl

/-- An escape takes all of its digits and no more, unless another digit runs into them. -/
theorem takeWhile_digits {ds : List Hex} {most : Nat} {rest : List Char}
    (hatMost : ds.length ≤ most)
    (hapart : ds.length < most → ∀ d : Hex, rest.head? ≠ some d.char) :
    ((ds.map Hex.char ++ rest).take most).takeWhile isHexDigit = ds.map Hex.char := by
  have hdigits : ∀ c ∈ ds.map Hex.char, isHexDigit c = true := by
    intro c hc
    obtain ⟨d, -, rfl⟩ := List.mem_map.mp hc
    exact d.isHexDigit_char
  rw [← List.take_takeWhile, List.takeWhile_append_of_pos hdigits]
  rcases Nat.lt_or_eq_of_le hatMost with hfewer | hall
  · have hstops : rest.takeWhile isHexDigit = [] := by
      cases rest with
      | nil => rfl
      | cons c rest =>
        refine List.takeWhile_cons_of_neg fun hdigit => ?_
        obtain ⟨d, rfl⟩ := Hex.exists_of_isHexDigit hdigit
        exact hapart hfewer d rfl
    rw [hstops, List.append_nil]
    exact List.take_of_length_le (by rwa [List.length_map])
  · exact List.take_left' (by rw [List.length_map, hall])

theorem escape_hex {letter : Char} {least most : Nat} {ds : List Hex} {rest : List Char}
    (hsimple : simpleEscape? letter = none) (hform : hexEscape? letter = some (least, most))
    (henough : least ≤ ds.length) (hatMost : ds.length ≤ most)
    (hvalid : (Hex.number ds).isValidChar)
    (hapart : ds.length < most → ∀ d : Hex, rest.head? ≠ some d.char) :
    escape (letter :: (ds.map Hex.char ++ rest)) = ([Char.ofNat (Hex.number ds)], rest) := by
  simp only [escape, hsimple, hform, takeWhile_digits hatMost hapart, List.length_map,
    Hex.digitsValue_map_char, charOfCode?, if_pos hvalid]
  rw [if_neg (Nat.not_lt.mpr henough), List.drop_left' (List.length_map _)]

theorem regular_backslash (cs : List Char) :
    regular ('\\' :: cs) = prepend (escape cs).1 (regular (escape cs).2) := by
  rw [regular]
  simp

/-- A backslash, the letter of a hexadecimal escape and digits are read as the character with the
number that the digits write. -/
theorem regular_hex {letter : Char} {least most : Nat} {ds : List Hex} {rest : List Char}
    (hsimple : simpleEscape? letter = none) (hform : hexEscape? letter = some (least, most))
    (henough : least ≤ ds.length) (hatMost : ds.length ≤ most)
    (hvalid : (Hex.number ds).isValidChar)
    (hapart : ds.length < most → ∀ d : Hex, rest.head? ≠ some d.char) :
    regular ('\\' :: letter :: (ds.map Hex.char ++ rest)) =
      prepend [Char.ofNat (Hex.number ds)] (regular rest) := by
  rw [regular_backslash, escape_hex hsimple hform henough hatMost hvalid hapart]

/-- An element is read as what it denotes, in front of any text that begins with no digit that would
belong to the element. -/
theorem regular_text (e : Element) {rest : List Char}
    (hapart : e.TakesDigit → ∀ d : Hex, rest.head? ≠ some d.char) :
    regular (e.text ++ rest) = prepend e.value (regular rest) := by
  cases e with
  | plain c hallowed =>
    obtain ⟨hquote, hbackslash, hfeed⟩ := hallowed
    simp [Element.text, Element.value, regular, hquote, hbackslash, hfeed]
  | simple letter denoted hknown =>
    simp [Element.text, Element.value, regular_backslash, escape, simpleEscape?_of_mem hknown]
  | short digits hfour hscalar =>
    have hrange := Hex.number_lt digits
    rw [hfour] at hrange
    have hvalid := isValidChar_of_not_surrogate (by omega) hscalar
    exact regular_hex rfl rfl hfour.ge hfour.le hvalid (by omega)
  | long digits height hscalar =>
    have hvalid := isValidChar_of_not_surrogate hscalar.1 hscalar.2
    exact regular_hex rfl rfl height.ge height.le hvalid (by omega)
  | hex digits hupToFour hscalar =>
    have hrange := Hex.number_lt digits
    have hbound : 16 ^ digits.length ≤ 16 ^ 4 := Nat.pow_le_pow_right (by decide) hupToFour.2
    have hvalid := isValidChar_of_not_surrogate (by omega) hscalar
    exact regular_hex rfl rfl hupToFour.1 hupToFour.2 hvalid hapart
  | stray c hunknown hother =>
    simp [Element.text, Element.value, regular_backslash, escape, simpleEscape?_eq_none hunknown,
      hexEscape?_eq_none hother.2]

/-- The elements of a literal are read as what they denote, and the quote behind them closes it. -/
theorem regular_elements {es : List Element} (hseparated : Separated es) (rest : List Char) :
    regular (es.flatMap Element.text ++ '"' :: rest) = (some (es.flatMap Element.value), rest) := by
  induction es with
  | nil => simp [regular]
  | cons e es ih =>
    obtain ⟨hapart, hseparated⟩ := hseparated
    have hapart' (htakes : e.TakesDigit) (d : Hex) :
        (es.flatMap Element.text ++ '"' :: rest).head? ≠ some d.char := by
      cases htext : es.flatMap Element.text with
      | nil =>
        intro h
        exact d.char_ne (by decide) (Option.some.inj h).symm
      | cons c cs =>
        have := hapart htakes d
        rwa [htext] at this
    rw [List.flatMap_cons, List.append_assoc, regular_text e hapart', ih hseparated,
      List.flatMap_cons]
    rfl

theorem head?_text_ne_quote (e : Element) (cs : List Char) : (e.text ++ cs).head? ≠ some '"' := by
  cases e with
  | plain c hallowed => exact fun h => hallowed.1 (Option.some.inj h)
  | simple | short | long | hex | stray => exact fun h => by cases h

theorem text_ne_nil (e : Element) : e.text ≠ [] := by
  cases e <;> exact List.cons_ne_nil _ _

/-- A literal in front of any text is the first token, with what its elements denote for a value.
Only a literal of no elements may not be followed by a quote, with which it would open a raw
string. -/
theorem head?_tokenize_literal (es : List Element) (hseparated : Separated es) (rest : List Char)
    (hsingle : es = [] → rest.head? ≠ some '"') :
    (tokenize (String.ofList (ofElements es ++ rest))).head? =
      some { kind := .str (String.ofList (es.flatMap Element.value)),
             text := String.ofList (ofElements es), start := 0 } := by
  have hfirst : (es.flatMap Element.text).head? ≠ some '"' := by
    cases es with
    | nil => exact fun h => by cases h
    | cons e es =>
      rw [List.flatMap_cons]
      exact head?_text_ne_quote e _
  have hempty (h : es.flatMap Element.text = []) : rest.head? ≠ some '"' := by
    refine hsingle (List.eq_nil_iff_forall_not_mem.mpr fun e he => ?_)
    exact text_ne_nil e (List.flatMap_eq_nil_iff.mp h e he)
  rw [tokenize, String.toList_ofList, ofElements,
    pieces_regular true (regular_elements hseparated rest) hfirst hempty, place_token]
  rfl

/-- Every form of element in one literal, which ends in an escape that has digits to spare and is
followed by a quote. -/
theorem head?_tokenize_literal_forms :
    (tokenize "\"p\\n\\u00e9\\U0001F600\\x41g\\q\\xE9\"\"a").head? =
      some { kind := .str "p\né😀Ag\\qé", text := "\"p\\n\\u00e9\\U0001F600\\x41g\\q\\xE9\"",
             start := 0 } := by
  have hseparated : Separated
      [.plain 'p' (by decide), .simple 'n' '\n' (by decide),
        .short [⟨0, false⟩, ⟨0, false⟩, ⟨14, false⟩, ⟨9, false⟩] rfl (by decide),
        .long [⟨0, false⟩, ⟨0, false⟩, ⟨0, false⟩, ⟨1, false⟩, ⟨15, true⟩, ⟨6, false⟩, ⟨0, false⟩,
          ⟨0, false⟩] rfl (by decide),
        .hex [⟨4, false⟩, ⟨1, false⟩] (by decide) (by decide), .plain 'g' (by decide),
        .stray 'q' (by decide) (by decide),
        .hex [⟨14, true⟩, ⟨9, false⟩] (by decide) (by decide)] := by
    refine ⟨False.elim, False.elim, False.elim, False.elim, ?_, False.elim, False.elim, ?_, trivial⟩
    · -- the escape of two digits is followed by a letter that is no digit
      intro _ d h
      exact d.char_ne (by decide) (Option.some.inj h).symm
    · intro _ d h
      cases h
  exact head?_tokenize_literal _ hseparated ['"', 'a'] fun h => by cases h

end AttributeLint.Token.Literal
