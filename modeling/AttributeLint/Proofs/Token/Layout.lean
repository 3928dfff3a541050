import AttributeLint.Proofs.Token.LocalPieces

/-!
# Layout — the same tokens without what separates them

A source keeps its tokens when everything between them is dropped and each is put on a line of its
own (`map_word_relaid`), for every form of token, those that are not closed included. Only a token
`#` would be read anew, since it begins a directive where it begins a line.
-/

namespace AttributeLint.Token

open Text

/-- What a token is, wherever it stands. -/
def word (t : Token) : Kind × String :=
  (t.kind, t.text)

/-- The tokens of a source, each on a line of its own, and nothing else. -/
def relaid (source : String) : String :=
  "\n".intercalate ((tokenize source).map (·.text))

/-! ## Words -/

/-- The tokens among pieces, with their texts. -/
def words (ps : List Piece) : List (Kind × List Char) :=
  ps.filterMap fun p =>
    match p.role with
    | .token kind => some (kind, p.text)
    | .trivia _ => none

/-- The texts of words, each on a line of its own. -/
def onLines (ws : List (Kind × List Char)) : List Char :=
  List.intercalate ['\n'] (ws.map (·.2))

@[simp] theorem words_token (kind : Kind) (text : List Char) (ps : List Piece) :
    words ({ role := .token kind, text } :: ps) = (kind, text) :: words ps :=
  rfl

@[simp] theorem words_trivia (trivia : Trivia) (text : List Char) (ps : List Piece) :
    words ({ role := .trivia trivia, text } :: ps) = words ps :=
  rfl

theorem map_word_place (offset : Nat) (ps : List Piece) :
    (place offset ps).map word = (words ps).map fun w => (w.1, String.ofList w.2) := by
  induction ps generalizing offset with
  | nil => rfl
  | cons p ps ih =>
    obtain ⟨role, text⟩ := p
    cases role with
    | trivia trivia => exact ih _
    | token kind => exact congrArg (_ :: ·) (ih _)

theorem onLines_singleton (w : Kind × List Char) : onLines [w] = w.2 := by
  simp [onLines]

theorem onLines_cons_cons (w v : Kind × List Char) (ws : List (Kind × List Char)) :
    onLines (w :: v :: ws) = w.2 ++ '\n' :: onLines (v :: ws) := by
  simp [onLines, List.intercalate_cons_cons]

/-! ## Reading words anew -/

theorem nextPiece_eq_of_ne_hash {c : Char} (hc : c ≠ '#') (lineStart lineStart' : Bool)
    (cs : List Char) : nextPiece lineStart c cs = nextPiece lineStart' c cs := by
  simp only [nextPiece, hc, false_and]

/-- A token that begins with `#` is that character alone. -/
theorem text_of_hash {lineStart : Bool} {cs text rest : List Char} {kind : Kind}
    (h : nextPiece lineStart '#' cs = { value := .token kind, text, rest }) : text = ['#'] := by
  cases lineStart with
  | true =>
    have hdirective : nextPiece true '#' cs = .run (.trivia .directive) isWithinLine '#' cs := rfl
    rw [hdirective] at h
    cases h
  | false =>
    have htoken : nextPiece false '#' cs = .single (.token .other) '#' cs := rfl
    rw [htoken] at h
    cases h
    rfl

/-- Each word is read anew as it was, since a line feed or nothing is behind it now. The induction
cuts one piece off the text; only those that are tokens are on the lines. -/
theorem words_onLines {lineStart : Bool} {cs : List Char}
    (hhash : ∀ w ∈ words (pieces lineStart cs), w.2 ≠ ['#']) :
    words (pieces true (onLines (words (pieces lineStart cs)))) = words (pieces lineStart cs) := by
  cases cs with
  | nil =>
    rw [pieces]
    exact congrArg words (pieces.eq_1 true)
  | cons c cs =>
    obtain ⟨role, taken, rest, rfl, hnext⟩ := exists_nextPiece_eq lineStart c cs
    have hself := hnext rest (.refl rest)
    rw [pieces_eq_cons hself] at hhash ⊢
    cases role with
    | trivia trivia => exact words_onLines hhash
    | token kind =>
      rw [words_token] at hhash ⊢
      obtain ⟨hfirst, hhash⟩ := List.forall_mem_cons.mp hhash
      have ih := words_onLines hhash
      have hc : c ≠ '#' := by
        rintro rfl
        exact hfirst (text_of_hash hself)
      have hread (behind : List Char) (h : Replaces behind rest) :
          pieces true (c :: taken ++ behind) =
            { role := .token kind, text := c :: taken } :: pieces false behind := by
        have hbehind := hnext behind h
        rw [nextPiece_eq_of_ne_hash hc lineStart true] at hbehind
        exact pieces_eq_cons hbehind
      cases hwords : words (pieces (Piece.Role.keepsLineStart lineStart (.token kind)) rest) with
      | nil =>
        have hlast := hread [] (.inl rfl)
        rw [List.append_nil] at hlast
        rw [onLines_singleton, hlast, words_token, pieces]
        rfl
      | cons w ws =>
        have hrest : rest ≠ [] := by
          rintro rfl
          rw [pieces] at hwords
          cases hwords
        rw [hwords] at ih
        rw [onLines_cons_cons, hread _ (.inr ⟨hrest, .inr rfl⟩), words_token, pieces_feed,
          words_trivia, ih]
termination_by cs.length
decreasing_by
  all_goals
    subst_vars
    simp only [List.length_cons, List.length_append]
    omega

theorem map_word_tokenize (source : String) :
    (tokenize source).map word =
      (words (pieces true source.toList)).map fun w => (w.1, String.ofList w.2) :=
  map_word_place 0 _

theorem toList_relaid (source : String) :
    (relaid source).toList = onLines (words (pieces true source.toList)) := by
  have htexts : (tokenize source).map (·.text.toList) =
      (words (pieces true source.toList)).map (·.2) := by
    have hwords := congrArg (List.map fun w => w.2.toList) (map_word_tokenize source)
    simpa [word, Function.comp_def] using hwords
  rw [relaid, String.toList_intercalate, onLines, List.map_map, ← htexts]
  rfl

/-- Dropping what separates the tokens leaves their kinds, texts and values. -/
theorem map_word_relaid {source : String} (hhash : ∀ t ∈ tokenize source, t.text ≠ "#") :
    (tokenize (relaid source)).map word = (tokenize source).map word := by
  have hwords : ∀ w ∈ words (pieces true source.toList), w.2 ≠ ['#'] := by
    intro w hw htext
    have hmem : (w.1, String.ofList w.2) ∈ (tokenize source).map word := by
      rw [map_word_tokenize]
      exact List.mem_map_of_mem hw
    obtain ⟨t, ht, heq⟩ := List.mem_map.mp hmem
    refine hhash t ht ((congrArg Prod.snd heq).trans ?_)
    rw [htext]
  rw [map_word_tokenize, map_word_tokenize, toList_relaid, words_onLines hwords]

end AttributeLint.Token
