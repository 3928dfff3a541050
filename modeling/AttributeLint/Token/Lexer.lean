import AttributeLint.Text.Cutting
import AttributeLint.Text.Numeric
import AttributeLint.Token.Literal

/-!
# Lexer — a source as pieces, and its tokens

A source is cut into pieces from left to right: tokens, and the trivia between them (line breaks,
other white space, comments and directives). The texts of the pieces make up the source, so the
offset of a token is the width of the pieces before it. A line whose first character that is not
white space is `#` is a directive and is trivia as a whole; this is the only way in which a piece
depends on what stands before it.
-/

namespace AttributeLint.Token

open Text

/-! ## One token -/

/-- The character may begin an identifier. -/
def isIdentStart (c : Char) : Bool :=
  c = '_' || isAlphabetic c

/-- The character may continue an identifier. -/
def isIdentContinue (c : Char) : Bool :=
  c = '_' || isAlphanumeric c

/-- The character may continue a number: ASCII letters, digits, points and underscores. -/
def isNumberContinue (c : Char) : Bool :=
  c.isAlphanum || c = '.' || c = '_'

/-- The sort of a string literal with the given value, or of one that has none. -/
def Kind.ofValue : Option (List Char) → Kind
  | some value => .str (String.ofList value)
  | none => .literal

/-- The sort of a single character that begins no longer token. -/
def Kind.ofChar : Char → Kind
  | '[' => .lBracket
  | ']' => .rBracket
  | '(' => .lParen
  | ')' => .rParen
  | '{' => .lBrace
  | '}' => .rBrace
  | ',' => .comma
  | ';' => .semicolon
  | '.' => .dot
  | ':' => .colon
  | '=' => .equals
  | _ => .other

/-- The punctuation that begins with `c`. -/
def punctuation (c : Char) (cs : List Char) : Cutting Kind :=
  if c = ':' ∧ cs.head? = some ':' then .pair .doubleColon c cs
  else if c = '=' ∧ (cs.head? = some '=' ∨ cs.head? = some '>') then .pair .other c cs
  else .single (Kind.ofChar c) c cs

/-- The string literal that begins with `c` and was read as `reading`. -/
def constant (reading : Option (List Char) × List Char) (c : Char) (cs : List Char) :
    Cutting Kind :=
  .upTo (Kind.ofValue reading.1) reading.2 c cs

/-- The token that begins with `c`. -/
def scan (c : Char) (cs : List Char) : Cutting Kind :=
  let next := cs.head?
  if c = '"' then
    if (after? ['"', '"'] cs).isSome then constant (Literal.raw (c :: cs)) c cs
    else constant (Literal.regular cs) c cs
  else if c = '@' ∧ next = some '"' then constant (Literal.verbatim cs.tail) c cs
  else if (c = '$' ∨ c = '@') ∧ (next = some '"' ∨ next = some '$' ∨ next = some '@') then
    .upTo .literal (Literal.interpolated (c :: cs)) c cs
  else if c = '\'' then .upTo .literal (Literal.character cs) c cs
  else if c.isDigit then .run .literal isNumberContinue c cs
  else if isIdentStart c ∨ (c = '@' ∧ next.any isIdentStart) then .run .ident isIdentContinue c cs
  else punctuation c cs

/-! ## Pieces -/

/-- What separates tokens. -/
inductive Trivia where
  | lineBreak
  /-- White space other than a line feed. -/
  | blank
  /-- A line that begins with `#`. -/
  | directive
  | lineComment
  | blockComment
  deriving DecidableEq, Repr

/-- What a piece of source is: trivia or a token of some sort. -/
inductive Piece.Role where
  | trivia (trivia : Trivia)
  | token (kind : Kind)
  deriving DecidableEq, Repr

/-- A stretch of source that is one token or one item of trivia. -/
structure Piece where
  role : Piece.Role
  text : List Char
  deriving DecidableEq, Repr

/-- Whether only white space stands before the next piece on its line, given that this held of a
piece of the given role. A directive keeps it, since nothing but the line break can follow. -/
def Piece.Role.keepsLineStart (lineStart : Bool) : Role → Bool
  | .trivia .lineBreak => true
  | .trivia .blank | .trivia .directive => lineStart
  | _ => false

/-- The character does not end a line. -/
def isWithinLine (c : Char) : Bool :=
  c ≠ '\n'

/-- What follows a block comment, read from just after its opening mark. -/
def afterBlockComment (cs : List Char) : List Char :=
  match cutAt ['*', '/'] cs with
  | some (_, rest) => rest
  | none => []

/-- The piece that begins with `c`. The line feed after a directive or a comment is left in
place. -/
def nextPiece (lineStart : Bool) (c : Char) (cs : List Char) : Cutting Piece.Role :=
  if c = '\n' then .single (.trivia .lineBreak) c cs
  else if isBlank c then .single (.trivia .blank) c cs
  else if c = '#' ∧ lineStart then .run (.trivia .directive) isWithinLine c cs
  else if c = '/' ∧ cs.head? = some '/' then .run (.trivia .lineComment) isWithinLine c cs
  else if c = '/' ∧ cs.head? = some '*' then
    .upTo (.trivia .blockComment) (afterBlockComment cs.tail) c cs
  else
    let token := scan c cs
    { token with value := .token token.value }

theorem punctuation_divides (c : Char) (cs : List Char) : (punctuation c cs).Divides c cs := by
  unfold punctuation
  split
  · exact Cutting.divides_pair _ c cs
  · split
    · exact Cutting.divides_pair _ c cs
    · exact Cutting.divides_single _ c cs

theorem afterBlockComment_suffix (cs : List Char) : afterBlockComment cs <:+ cs := by
  unfold afterBlockComment
  split
  · rename_i h
    exact cutAt_suffix h
  · exact List.nil_suffix

theorem scan_divides (c : Char) (cs : List Char) : (scan c cs).Divides c cs := by
  unfold scan
  dsimp only
  split
  · rename_i hc
    split
    · refine Cutting.divides_upTo _ c ((Literal.raw_suffix (c :: cs)).trans ?_)
      rw [List.dropWhile_cons_of_pos (by simp [Literal.isQuote, hc])]
      exact List.dropWhile_suffix _
    · exact Cutting.divides_upTo _ c (Literal.regular_suffix cs)
  split
  · exact Cutting.divides_upTo _ c ((Literal.verbatim_suffix _).trans (List.tail_suffix cs))
  split
  · rename_i hc
    refine Cutting.divides_upTo _ c ((Literal.interpolated_suffix (c :: cs)).trans ?_)
    rw [List.dropWhile_cons_of_pos (Literal.isMark_iff.mpr hc.1)]
    exact List.dropWhile_suffix _
  split
  · exact Cutting.divides_upTo _ c (Literal.character_suffix cs)
  split
  · exact Cutting.divides_run _ _ c cs
  split
  · exact Cutting.divides_run _ _ c cs
  · exact punctuation_divides c cs

theorem nextPiece_divides (lineStart : Bool) (c : Char) (cs : List Char) :
    (nextPiece lineStart c cs).Divides c cs := by
  unfold nextPiece
  split
  · exact Cutting.divides_single _ c cs
  split
  · exact Cutting.divides_single _ c cs
  split
  · exact Cutting.divides_run _ _ c cs
  split
  · exact Cutting.divides_run _ _ c cs
  split
  · exact Cutting.divides_upTo _ c ((afterBlockComment_suffix _).trans (List.tail_suffix cs))
  · exact ⟨(scan_divides c cs).append, (scan_divides c cs).suffix⟩

/-- The pieces of a text. -/
def pieces (lineStart : Bool) : List Char → List Piece
  | [] => []
  | c :: cs =>
    let piece := nextPiece lineStart c cs
    { role := piece.value, text := piece.text } ::
      pieces (piece.value.keepsLineStart lineStart) piece.rest
termination_by cs => cs.length
decreasing_by
  have := (nextPiece_divides lineStart c cs).suffix.length_le
  simp only [List.length_cons]
  omega

/-- The texts of the pieces make up the text. -/
theorem flatMap_text_pieces (lineStart : Bool) (cs : List Char) :
    (pieces lineStart cs).flatMap (·.text) = cs := by
  fun_induction pieces lineStart cs with
  | case1 => rfl
  | case2 lineStart c cs piece ih =>
    rw [List.flatMap_cons, ih]
    exact (nextPiece_divides lineStart c cs).append

/-! ## Tokens -/

/-- The tokens among the pieces, the first of which stands at the given offset. -/
def place (offset : Nat) : List Piece → List Token
  | [] => []
  | piece :: rest =>
    match piece.role with
    | .token kind =>
      { kind, text := String.ofList piece.text, start := offset } ::
        place (offset + width piece.text) rest
    | .trivia _ => place (offset + width piece.text) rest

/-- The tokens of a source. -/
def tokenize (source : String) : List Token :=
  place 0 (pieces true source.toList)

end AttributeLint.Token
