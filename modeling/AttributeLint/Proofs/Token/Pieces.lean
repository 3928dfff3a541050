import AttributeLint.Token.Lexer

/-!
# Pieces — cutting a text step by step

The equations that later arguments about sources use instead of unfolding the lexer: what the first
piece of a text is when its first character can only begin a token, and how pieces that stand one
after the other are placed. Conversely, every token of a source was scanned at some place in it
(`exists_scan_of_mem_tokenize`).
-/

namespace AttributeLint.Token

open Text

/-- A text that does not begin with `c` has another first character or none. -/
theorem head?_ne {c : Char} {cs : List Char} (h : ∀ rest, cs = c :: rest → False) :
    cs.head? ≠ some c := by
  intro hhead
  obtain ⟨rest, hrest⟩ := List.head?_eq_some_iff.mp hhead
  exact h rest hrest

/-- The part of a text in front of a given end. -/
@[simp] theorem upTo_append_self (u rest : List Char) : upTo rest (u ++ rest) = u := by
  simp [upTo]

/-- A character that is not blank and begins neither a directive nor a comment begins a token. -/
theorem nextPiece_eq_scan (lineStart : Bool) {c : Char} (cs : List Char)
    (hblank : isBlank c = false) (hhash : c ≠ '#') (hslash : c ≠ '/') :
    nextPiece lineStart c cs = { scan c cs with value := .token (scan c cs).value } := by
  have hfeed : c ≠ '\n' := by
    rintro rfl
    exact absurd hblank (by decide)
  rw [nextPiece, if_neg hfeed, hblank, if_neg Bool.false_ne_true, if_neg (hhash ·.1),
    if_neg (hslash ·.1), if_neg (hslash ·.1)]

theorem pieces_eq_scan (lineStart : Bool) {c : Char} (cs : List Char)
    (hblank : isBlank c = false) (hhash : c ≠ '#') (hslash : c ≠ '/') :
    pieces lineStart (c :: cs) =
      { role := .token (scan c cs).value, text := (scan c cs).text } ::
        pieces false (scan c cs).rest := by
  rw [pieces, nextPiece_eq_scan lineStart cs hblank hhash hslash]
  rfl

/-- A bracket or a point is a token of its own, whatever follows it. -/
theorem pieces_single (lineStart : Bool) {c : Char} (hc : c ∈ ['[', ']', '(', ')', '.'])
    (cs : List Char) :
    pieces lineStart (c :: cs) =
      { role := .token (.ofChar c), text := [c] } :: pieces false cs := by
  simp only [List.mem_cons, List.not_mem_nil, or_false] at hc
  rcases hc with rfl | rfl | rfl | rfl | rfl <;>
  · rw [pieces_eq_scan lineStart _ (by decide) (by decide) (by decide)]
    rfl

/-- The pieces of a text whose first piece is known. -/
theorem pieces_eq_cons {lineStart : Bool} {c : Char} {cs text rest : List Char} {role : Piece.Role}
    (h : nextPiece lineStart c cs = { value := role, text, rest }) :
    pieces lineStart (c :: cs) =
      { role, text } :: pieces (role.keepsLineStart lineStart) rest := by
  rw [pieces, h]

theorem pieces_feed (lineStart : Bool) (cs : List Char) :
    pieces lineStart ('\n' :: cs) =
      { role := .trivia .lineBreak, text := ['\n'] } :: pieces true cs := by
  rw [pieces]
  rfl

@[simp] theorem place_token (offset : Nat) (kind : Kind) (text : List Char) (ps : List Piece) :
    place offset ({ role := .token kind, text } :: ps) =
      { kind, text := String.ofList text, start := offset } :: place (offset + width text) ps :=
  rfl

@[simp] theorem place_trivia (offset : Nat) (trivia : Trivia) (text : List Char)
    (ps : List Piece) :
    place offset ({ role := .trivia trivia, text } :: ps) = place (offset + width text) ps :=
  rfl

theorem place_append (offset : Nat) (ps qs : List Piece) :
    place offset (ps ++ qs) =
      place offset ps ++ place (offset + width (ps.flatMap (·.text))) qs := by
  induction ps generalizing offset with
  | nil => rfl
  | cons p ps ih =>
    rw [List.cons_append, place, place, List.flatMap_cons, width_append, ← Nat.add_assoc]
    cases p.role with
    | trivia trivia => exact ih _
    | token kind => exact congrArg (_ :: ·) (ih _)

/-! ## Where a token comes from -/

/-- The sort is that of punctuation or of an operator. -/
def Kind.isPunctuation : Kind → Bool
  | .ident | .str _ | .literal => false
  | _ => true

theorem Kind.isPunctuation_ofChar (c : Char) : (Kind.ofChar c).isPunctuation := by
  unfold ofChar
  split <;> rfl

theorem isPunctuation_punctuation (c : Char) (cs : List Char) :
    (punctuation c cs).value.isPunctuation := by
  unfold punctuation
  split
  · cases cs <;> rfl
  split
  · cases cs <;> rfl
  · exact Kind.isPunctuation_ofChar c

variable {c : Char} {cs : List Char} {kind : Kind}

/-- A piece that is a token is what was scanned. -/
theorem scan_of_nextPiece {lineStart : Bool}
    (h : (nextPiece lineStart c cs).value = .token kind) :
    (scan c cs).value = kind ∧ (nextPiece lineStart c cs).text = (scan c cs).text := by
  unfold nextPiece at h ⊢
  split at h
  · cases h
  split at h
  · cases h
  split at h
  · cases h
  split at h
  · cases h
  split at h
  · cases h
  · rename_i hfeed hblank hdirective hline hblock
    rw [if_neg hfeed, if_neg hblank, if_neg hdirective, if_neg hline, if_neg hblock]
    exact ⟨Piece.Role.token.inj h, rfl⟩

theorem exists_scan_of_mem_pieces {lineStart : Bool} {p : Piece} (hp : p ∈ pieces lineStart cs)
    (h : p.role = .token kind) :
    ∃ c rest, (scan c rest).value = kind ∧ p.text = (scan c rest).text := by
  fun_induction pieces lineStart cs with
  | case1 => cases hp
  | case2 lineStart c cs piece ih =>
    rcases List.mem_cons.mp hp with rfl | hp
    · exact ⟨c, cs, scan_of_nextPiece h⟩
    · exact ih hp

/-- A token is one of the pieces, at some place. -/
theorem exists_piece_of_mem_place {offset : Nat} {ps : List Piece} {t : Token}
    (h : t ∈ place offset ps) :
    ∃ p ∈ ps, p.role = .token t.kind ∧ t.text = String.ofList p.text := by
  induction ps generalizing offset with
  | nil => cases h
  | cons p ps ih =>
    have hlater {offset : Nat} (h : t ∈ place offset ps) :
        ∃ q ∈ p :: ps, q.role = .token t.kind ∧ t.text = String.ofList q.text := by
      obtain ⟨q, hq, hrole⟩ := ih h
      exact ⟨q, List.mem_cons_of_mem p hq, hrole⟩
    rw [place] at h
    cases hrole : p.role with
    | trivia trivia =>
      rw [hrole] at h
      exact hlater h
    | token kind =>
      rw [hrole] at h
      rcases List.mem_cons.mp h with rfl | h
      · exact ⟨p, List.mem_cons_self, hrole, rfl⟩
      · exact hlater h

/-- Every token of a source was scanned at some place in it. -/
theorem exists_scan_of_mem_tokenize {source : String} {t : Token} (ht : t ∈ tokenize source) :
    ∃ c rest, (scan c rest).value = t.kind ∧ t.text = String.ofList (scan c rest).text := by
  obtain ⟨p, hp, hrole, htext⟩ := exists_piece_of_mem_place ht
  obtain ⟨c, rest, hkind, hscan⟩ := exists_scan_of_mem_pieces hp hrole
  exact ⟨c, rest, hkind, by rw [htext, hscan]⟩

end AttributeLint.Token
