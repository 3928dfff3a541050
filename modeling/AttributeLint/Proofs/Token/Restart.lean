import AttributeLint.Proofs.Token.LocalPieces
import AttributeLint.Proofs.Token.Tiling

/-!
# Restart — tokens on both sides of a line break

When a text leaves no literal and no comment open, the tokens of a line behind it do not depend on
the text, nor the tokens of the text on what is behind it (`tokenize_append_feed`). That nothing is
left open is seen by a single probe: the identifier `x` on the next line is a token of its own.
-/

namespace AttributeLint.Token

open Text

variable {lineStart : Bool} {offset : Nat} {cs u rest : List Char} {ps : List Piece} {t : Token}

/-! ## Tokens further on -/

/-- The same token `n` bytes further on. -/
def shift (n : Nat) (t : Token) : Token :=
  { t with start := t.start + n }

theorem place_add (offset n : Nat) (ps : List Piece) :
    place (offset + n) ps = (place offset ps).map (shift n) := by
  induction ps generalizing offset with
  | nil => rfl
  | cons p ps ih =>
    have hrest := ih (offset + width p.text)
    rw [Nat.add_right_comm] at hrest
    rw [place, place, hrest]
    cases p.role with
    | trivia trivia => rfl
    | token kind => rfl

theorem stop_le_of_mem_place (h : t ∈ place offset ps) :
    t.stop ≤ offset + width (ps.flatMap (·.text)) := by
  induction ps generalizing offset with
  | nil => cases h
  | cons p ps ih =>
    rw [List.flatMap_cons, width_append, ← Nat.add_assoc]
    rw [place] at h
    cases hrole : p.role with
    | trivia trivia =>
      rw [hrole] at h
      exact ih h
    | token kind =>
      rw [hrole] at h
      rcases List.mem_cons.mp h with rfl | h
      · simp [stop]
      · exact ih h

/-! ## A line break after nothing that is open -/

/-- Of all trivia with something behind it, only the line break ends with a line feed. -/
theorem Trivia.Stands.eq_nil_of_feed {trivia : Trivia} {before : List Char}
    (h : trivia.Stands before (u ++ ['\n']) rest) (hrest : rest ≠ []) : u = [] := by
  have hnot {c : Char} {line : List Char} (hc : c ≠ '\n') (hline : '\n' ∉ line) :
      u ++ ['\n'] ≠ c :: line := by
    intro htext
    have hmem : '\n' ∈ c :: line := htext ▸ List.mem_append_right u List.mem_cons_self
    rcases List.mem_cons.mp hmem with hfeed | hmem
    · exact hc hfeed.symm
    · exact hline hmem
  cases trivia with
  | lineBreak =>
    have htext : u ++ ['\n'] = ['\n'] := h
    simpa using htext
  | blank =>
    obtain ⟨c, htext, -⟩ := h
    exact (List.append_eq_singleton_iff.mp htext).elim And.left (by simp)
  | directive =>
    obtain ⟨line, htext, hline, -⟩ := h
    exact absurd htext (hnot (by decide) hline)
  | lineComment =>
    obtain ⟨line, htext, hline, -⟩ := h
    exact absurd htext (hnot (by decide) (by simpa using hline))
  | blockComment =>
    obtain ⟨comment, ⟨htext, -⟩ | ⟨-, hend, -⟩⟩ := h
    · have hmark : '/' :: '*' :: comment ++ ['*', '/'] =
          ('/' :: '*' :: comment ++ ['*']) ++ ['/'] := by simp
      have hlast := (List.append_inj' (htext.trans hmark) rfl).2
      simp at hlast
    · exact absurd hend hrest

/-- If the probe succeeds, the line feed is not inside the piece that the text begins with. -/
theorem exists_of_probe {c : Char} {role : Piece.Role} {taken : List Char}
    (hprobe : place offset (pieces lineStart (c :: (cs ++ ['\n', 'x']))) =
      place offset (pieces lineStart (c :: cs)) ++
        [{ kind := .ident, text := "x", start := offset + width (c :: cs) + 1 }])
    (hcs : cs ++ ['\n', 'x'] = taken ++ rest)
    (hnext : nextPiece lineStart c (cs ++ ['\n', 'x']) =
      { value := role, text := c :: taken, rest }) :
    ∃ left, cs = taken ++ left ∧ rest = left ++ ['\n', 'x'] := by
  obtain ⟨inside, htaken, hfeed⟩ | hleft := List.append_eq_append_iff.mp hcs
  case inr => exact hleft
  cases inside with
  | nil => exact ⟨[], by simpa using htaken.symm, hfeed.symm⟩
  | cons d inside =>
    exfalso
    obtain ⟨rfl, hx⟩ := List.cons.inj hfeed
    subst htaken
    rw [pieces_eq_cons hnext] at hprobe
    cases role with
    | token kind =>
      -- the token would have to be one of the text, but it ends behind the text
      rw [place_token] at hprobe
      rcases List.mem_append.mp (hprobe ▸ List.mem_cons_self) with hmem | hmem
      · have hstop := stop_le_of_mem_place hmem
        rw [flatMap_text_pieces, stop, String.toList_ofList, ← List.cons_append, width_append]
          at hstop
        dsimp only at hstop
        have hfeed : width ('\n' :: inside) = 1 + width inside := rfl
        omega
      · have hstart := congrArg Token.start (List.mem_singleton.mp hmem)
        simp only at hstart
        omega
    | trivia trivia =>
      have hline : lineStart → LineStart [] (c :: (cs ++ ['\n', 'x'])) :=
        fun _ => .inl BlankLine.nil
      have hstands := stands_nextPiece hline (congrArg Cutting.value hnext)
      rw [hnext] at hstands
      cases rest with
      | nil =>
        rw [place_trivia, pieces, place] at hprobe
        exact List.cons_ne_nil _ _ (List.append_eq_nil_iff.mp hprobe.symm).2
      | cons d rest =>
        obtain ⟨hinside, -⟩ : inside = [] ∧ d :: rest = ['x'] := by
          simpa using List.append_eq_singleton_iff.mp hx.symm
        subst hinside
        exact List.cons_ne_nil _ _
          (Trivia.Stands.eq_nil_of_feed (u := c :: cs) hstands (List.cons_ne_nil d rest))

/-- The pieces of the two lines are those of each, with the line break between them. The induction
cuts one piece off the first line, which leaves the probe as it is. -/
theorem pieces_append_feed {lineStart : Bool} {offset : Nat} {cs : List Char}
    (hprobe : place offset (pieces lineStart (cs ++ ['\n', 'x'])) =
      place offset (pieces lineStart cs) ++
        [{ kind := .ident, text := "x", start := offset + width cs + 1 }])
    (more : List Char) :
    pieces lineStart (cs ++ '\n' :: more) =
      pieces lineStart cs ++
        { role := .trivia .lineBreak, text := ['\n'] } :: pieces true more := by
  cases cs with
  | nil =>
    rw [List.nil_append, pieces_feed, pieces, List.nil_append]
  | cons c cs =>
    obtain ⟨role, taken, rest, hcs, hnext⟩ := exists_nextPiece_eq lineStart c (cs ++ ['\n', 'x'])
    have hlong := hnext rest (.refl rest)
    rw [← hcs] at hlong
    obtain ⟨left, rfl, rfl⟩ := exists_of_probe hprobe hcs hlong
    -- the same piece comes first whatever stands behind the text
    have hfirst (behind : List Char) (h : Replaces behind ['\n', 'x']) :
        pieces lineStart (c :: (taken ++ left) ++ behind) =
          { role, text := c :: taken } ::
            pieces (role.keepsLineStart lineStart) (left ++ behind) := by
      rw [List.cons_append, List.append_assoc, pieces_eq_cons (hnext _ (h.append left))]
    have hshort := hfirst [] (.inl rfl)
    rw [List.append_nil, List.append_nil] at hshort
    rw [hfirst _ (.refl _), hshort, ← List.cons_append, width_append, ← Nat.add_assoc] at hprobe
    have hleft : place (offset + width (c :: taken))
        (pieces (role.keepsLineStart lineStart) (left ++ ['\n', 'x'])) =
        place (offset + width (c :: taken)) (pieces (role.keepsLineStart lineStart) left) ++
          [{ kind := .ident, text := "x",
             start := offset + width (c :: taken) + width left + 1 }] := by
      cases role with
      | token kind => exact (List.cons.inj hprobe).2
      | trivia trivia => exact hprobe
    have hmore : Replaces ('\n' :: more) ['\n', 'x'] := .inr ⟨List.cons_ne_nil _ _, .inl rfl⟩
    rw [hfirst _ hmore, pieces_append_feed hleft more, hshort]
    rfl
termination_by cs.length
decreasing_by
  subst_vars
  simp only [List.length_cons, List.length_append]
  omega

/-- Lexing restarts at a line break: when the identifier `x` on the next line is a token of its own,
any text on the next line has the tokens that it has by itself, as much further on. -/
theorem tokenize_append_feed {a : String}
    (hprobe : tokenize (a ++ "\nx") =
      tokenize a ++ [{ kind := .ident, text := "x", start := a.utf8ByteSize + 1 }])
    (b : String) :
    tokenize (a ++ "\n" ++ b) =
      tokenize a ++ (tokenize b).map (shift (a.utf8ByteSize + 1)) := by
  rw [← width_toList] at hprobe ⊢
  have hplaced : place 0 (pieces true (a.toList ++ ['\n', 'x'])) =
      place 0 (pieces true a.toList) ++
        [{ kind := .ident, text := "x", start := 0 + width a.toList + 1 }] := by
    simpa [tokenize] using hprobe
  have hpieces := pieces_append_feed hplaced b.toList
  have hsource : (a ++ "\n" ++ b).toList = a.toList ++ '\n' :: b.toList := by simp
  rw [tokenize, hsource, hpieces, place_append, flatMap_text_pieces, place_trivia, Nat.zero_add]
  have hshift := place_add 0 (width a.toList + 1) (pieces true b.toList)
  rw [Nat.zero_add] at hshift
  exact congrArg (tokenize a ++ ·) hshift

/-- A string that is not closed ends with its line, and the directive behind it is seen as one. -/
theorem tokenize_unclosed_feed_directive :
    tokenize ("[A(\"é" ++ "\n" ++ "# \"\n[B]") =
      tokenize "[A(\"é" ++ (tokenize "# \"\n[B]").map (shift 7) :=
  tokenize_append_feed (by decide +kernel) "# \"\n[B]"

end AttributeLint.Token
