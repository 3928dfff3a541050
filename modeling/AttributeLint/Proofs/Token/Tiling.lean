import AttributeLint.Proofs.Text.Access
import AttributeLint.Proofs.Token.Pieces

/-!
# Tiling — every character of a source is in a token or in trivia

The pieces of a source make it up, so its tokens stand in it one after the other, each at its
offset, and nothing is between them but trivia. What a stretch of trivia may look like is said here
without the lexer (`Trivia.Stands`), together with what must stand before it and after it: a
directive has only white space before it on its line, and a comment that is not closed has nothing
after it. `Tiling` follows the source from the left; `Tiles` says the same by offsets.
-/

namespace AttributeLint.Token

open Text

/-! ## The first appearance of a mark -/

theorem not_infix_of_cutAt_eq_none {mark cs : List Char} (h : cutAt mark cs = none) :
    ¬ mark <:+: cs := by
  induction cs with
  | nil =>
    intro hinfix
    rw [List.infix_nil] at hinfix
    subst hinfix
    cases h
  | cons c cs ih =>
    simp only [cutAt] at h
    split at h
    · cases h
    · rename_i hfront
      rw [List.infix_cons_iff]
      rintro (⟨rest, hrest⟩ | hinfix)
      · rw [after?_eq_some_iff.mpr hrest.symm] at hfront
        cases hfront
      · exact ih (Option.map_eq_none_iff.mp h) hinfix

/-- A cut is made at the first appearance: the mark is not complete before its last character. -/
theorem not_infix_of_cutAt {mark cs before rest : List Char} (hmark : mark ≠ [])
    (h : cutAt mark cs = some (before, rest)) : ¬ mark <:+: before ++ mark.dropLast := by
  have hshort : ¬ mark <:+: mark.dropLast := by
    intro hinfix
    have := hinfix.length_le
    have := List.length_pos_iff.mpr hmark
    rw [List.length_dropLast] at *
    omega
  induction cs generalizing before with
  | nil =>
    obtain ⟨_, _, he⟩ := Option.map_eq_some_iff.mp h
    cases he
    exact hshort
  | cons c cs ih =>
    simp only [cutAt] at h
    split at h
    · cases h
      exact hshort
    · rename_i hfront
      obtain ⟨⟨u, v⟩, hu, he⟩ := Option.map_eq_some_iff.mp h
      cases he
      rw [List.cons_append, List.infix_cons_iff]
      rintro (hbegins | hinfix)
      -- a mark that stood in front would have been found there
      · have hcs : c :: (u ++ mark.dropLast) <+: c :: cs := by
          rw [eq_of_cutAt hu, List.append_assoc, List.cons_prefix_cons]
          exact ⟨rfl, List.prefix_append_right_inj u |>.mpr
            ((List.dropLast_prefix mark).trans (List.prefix_append mark _))⟩
        obtain ⟨tail, htail⟩ := hbegins.trans hcs
        rw [after?_eq_some_iff.mpr htail.symm] at hfront
        cases hfront
      · exact ih hu hinfix

/-! ## Trivia -/

/-- A line ends at the front of the text. -/
def EndsLine (rest : List Char) : Prop :=
  ∀ c, rest.head? = some c → c = '\n'

/-- Only white space stands after the last line break of the text. -/
def BlankLine (before : List Char) : Prop :=
  ∀ c ∈ before.reverse.takeWhile isWithinLine, isBlank c

/-- The text is trivia of the given sort where it stands, between `before` and `rest`. -/
def Trivia.Stands (before text rest : List Char) : Trivia → Prop
  | .lineBreak => text = ['\n']
  | .blank => ∃ c, text = [c] ∧ isBlank c
  | .directive => ∃ line, text = '#' :: line ∧ '\n' ∉ line ∧ EndsLine rest ∧ BlankLine before
  | .lineComment => ∃ line, text = '/' :: '/' :: line ∧ '\n' ∉ line ∧ EndsLine rest
  | .blockComment => ∃ comment,
      text = '/' :: '*' :: comment ++ ['*', '/'] ∧ ¬ ['*', '/'] <:+: comment ++ ['*'] ∨
        text = '/' :: '*' :: comment ∧ rest = [] ∧ ¬ ['*', '/'] <:+: comment

theorem newline_not_mem_takeWhile (cs : List Char) : '\n' ∉ cs.takeWhile isWithinLine := by
  intro h
  have := List.all_eq_true.mp List.all_takeWhile _ h
  simp [isWithinLine] at this

theorem endsLine_dropWhile (cs : List Char) : EndsLine (cs.dropWhile isWithinLine) := by
  intro c hc
  have := List.head?_dropWhile_not isWithinLine cs
  rw [hc] at this
  simpa [isWithinLine] using this

/-- A block comment ends with the first closing mark, or with the source. -/
theorem stands_blockComment (before cs : List Char) :
    Trivia.Stands before (upTo (afterBlockComment cs) ('/' :: '*' :: cs)) (afterBlockComment cs)
      .blockComment := by
  rw [afterBlockComment]
  cases hcut : cutAt ['*', '/'] cs with
  | none =>
    have htext : upTo [] ('/' :: '*' :: cs) = '/' :: '*' :: cs := by simp [upTo]
    exact ⟨cs, .inr ⟨htext, rfl, not_infix_of_cutAt_eq_none hcut⟩⟩
  | some parts =>
    obtain ⟨comment, rest⟩ := parts
    have hcs : '/' :: '*' :: cs = '/' :: '*' :: comment ++ ['*', '/'] ++ rest := by
      rw [eq_of_cutAt hcut]
      simp
    refine ⟨comment, .inl ⟨?_, not_infix_of_cutAt (List.cons_ne_nil _ _) hcut⟩⟩
    show upTo rest ('/' :: '*' :: cs) = _
    rw [hcs, upTo_append_self]

/-! ## The start of a line -/

/-- What the lexer knows at the start of a line, between `before` and `rest`: the line is blank so
far, or it ends here after a directive. -/
def LineStart (before rest : List Char) : Prop :=
  BlankLine before ∨ EndsLine rest

theorem BlankLine.nil : BlankLine [] := by
  intro c hc
  cases hc

theorem BlankLine.append_newline (before : List Char) : BlankLine (before ++ ['\n']) := by
  intro c hc
  simp [isWithinLine] at hc

theorem BlankLine.append_blank {before : List Char} {c : Char} (hblank : isBlank c)
    (h : BlankLine before) : BlankLine (before ++ [c]) := by
  intro d hd
  rw [List.reverse_append, List.reverse_singleton, List.singleton_append,
    List.takeWhile_cons] at hd
  split at hd
  · rcases List.mem_cons.mp hd with rfl | hd
    · exact hblank
    · exact h d hd
  · cases hd

/-- Trivia after which the lexer is still at the start of a line keeps what it knows there. -/
theorem Trivia.Stands.lineStart {trivia : Trivia} {lineStart : Bool}
    {before text rest : List Char} (h : trivia.Stands before text rest)
    (hline : lineStart → LineStart before (text ++ rest))
    (hkeeps : Piece.Role.keepsLineStart lineStart (.trivia trivia)) :
    LineStart (before ++ text) rest := by
  cases trivia with
  | lineBreak =>
    rw [show text = ['\n'] from h]
    exact .inl (BlankLine.append_newline before)
  | blank =>
    obtain ⟨c, rfl, hblank⟩ := h
    rcases hline hkeeps with hbefore | hends
    · exact .inl (hbefore.append_blank hblank)
    -- behind a directive the white space is the line feed
    · rw [hends c rfl]
      exact .inl (BlankLine.append_newline before)
  | directive =>
    obtain ⟨_, _, _, hends, _⟩ := h
    exact .inr hends
  | lineComment => cases hkeeps
  | blockComment => cases hkeeps

/-! ## The trivia of the lexer -/

/-- The trivia that the lexer skips is trivia. -/
theorem stands_nextPiece {lineStart : Bool} {before cs : List Char} {c : Char} {trivia : Trivia}
    (hline : lineStart → LineStart before (c :: cs))
    (h : (nextPiece lineStart c cs).value = .trivia trivia) :
    trivia.Stands before (nextPiece lineStart c cs).text (nextPiece lineStart c cs).rest := by
  revert h
  unfold nextPiece
  split
  · rename_i hc
    intro h
    cases h
    exact congrArg (fun c => [c]) hc
  split
  · rename_i hblank
    intro h
    cases h
    exact ⟨c, rfl, hblank⟩
  split
  · rename_i hdirective
    obtain ⟨rfl, hstart⟩ := hdirective
    intro h
    cases h
    refine ⟨_, rfl, newline_not_mem_takeWhile cs, endsLine_dropWhile cs, ?_⟩
    rcases hline hstart with hblank | hends
    · exact hblank
    -- a line that ends here does not go on with a directive
    · exact absurd (hends '#' rfl) (by decide)
  split
  · rename_i hcomment
    obtain ⟨rfl, hnext⟩ := hcomment
    obtain ⟨cs, rfl⟩ := List.head?_eq_some_iff.mp hnext
    intro h
    cases h
    exact ⟨cs.takeWhile isWithinLine, rfl, newline_not_mem_takeWhile cs, endsLine_dropWhile cs⟩
  split
  · rename_i hcomment
    obtain ⟨rfl, hnext⟩ := hcomment
    obtain ⟨cs, rfl⟩ := List.head?_eq_some_iff.mp hnext
    intro h
    cases h
    exact stands_blockComment before cs
  · intro h
    cases h

/-! ## Tilings -/

/-- A text that is nothing but trivia where it stands, between `before` and `rest`. -/
inductive Filler : List Char → List Char → List Char → Prop where
  | nil {before rest : List Char} : Filler before [] rest
  | cons {before text more rest : List Char} (trivia : Trivia) :
      trivia.Stands before text (more ++ rest) → Filler (before ++ text) more rest →
        Filler before (text ++ more) rest

/-- The tokens stand one after the other in the text after `before`, each at its offset, with
nothing but trivia around them. -/
inductive Tiling : List Char → List Char → List Token → Prop where
  | last {before text : List Char} : Filler before text [] → Tiling before text []
  | cons {before gap rest : List Char} {t : Token} {ts : List Token} :
      Filler before gap (t.text.toList ++ rest) → t.text.toList ≠ [] →
        t.start = width (before ++ gap) → Tiling (before ++ gap ++ t.text.toList) rest ts →
          Tiling before (gap ++ t.text.toList ++ rest) (t :: ts)

/-- Trivia in front of a tiling belongs to its first gap. -/
theorem Tiling.cons_trivia {before text rest : List Char} {ts : List Token} (trivia : Trivia)
    (hstands : trivia.Stands before text rest) (h : Tiling (before ++ text) rest ts) :
    Tiling before (text ++ rest) ts := by
  cases h with
  | last hfiller =>
    refine .last (.cons trivia ?_ hfiller)
    rwa [List.append_nil]
  | @cons _ gap rest t ts hfiller htext hstart htiling =>
    rw [List.append_assoc before] at hstart htiling
    rw [List.append_assoc] at hstands
    rw [← List.append_assoc, ← List.append_assoc]
    exact .cons (.cons trivia hstands hfiller) htext hstart htiling

/-- A token in front of a tiling has an empty gap before it. -/
theorem Tiling.cons_token {before text rest : List Char} {ts : List Token} (kind : Kind)
    (htext : text ≠ []) (h : Tiling (before ++ text) rest ts) :
    Tiling before (text ++ rest)
      ({ kind, text := String.ofList text, start := width before } :: ts) := by
  have hcons := @Tiling.cons before [] rest
    { kind, text := String.ofList text, start := width before } ts .nil
  simp only [String.toList_ofList, List.append_nil, List.nil_append] at hcons
  exact hcons htext trivial h

/-- The pieces that the lexer cuts make a tiling of the text that they were cut from. -/
theorem tiling_place {lineStart : Bool} {before cs : List Char}
    (hline : lineStart → LineStart before cs) :
    Tiling before cs (place (width before) (pieces lineStart cs)) := by
  -- on the pieces, while the text before them grows by the one that is cut off
  fun_induction pieces lineStart cs generalizing before with
  | case1 => exact .last .nil
  | case2 lineStart c cs piece =>
    rename_i ih
    have hdivides : piece.Divides c cs := nextPiece_divides lineStart c cs
    rw [place, ← width_append]
    cases hrole : piece.value with
    | trivia trivia =>
      rw [hrole] at ih
      have hstands : trivia.Stands before piece.text piece.rest := stands_nextPiece hline hrole
      rw [← hdivides.append] at hline ⊢
      exact .cons_trivia trivia hstands (ih (hstands.lineStart hline))
    | token kind =>
      rw [hrole] at ih
      have htext : piece.text ≠ [] := by
        intro hnil
        have := congrArg List.length hdivides.append
        have := hdivides.suffix.length_le
        simp only [hnil, List.nil_append, List.length_cons] at *
        omega
      rw [← hdivides.append]
      exact .cons_token kind htext (ih fun hfalse => by cases hfalse)

theorem tiling_tokenize (source : String) : Tiling [] source.toList (tokenize source) :=
  tiling_place fun _ => .inl BlankLine.nil

/-! ## Offsets -/

/-- The stretches between the tokens, and those before the first and after the last, from the
offset `start` up to `stop`. -/
def gaps (stop : Nat) : Nat → List Token → List (Nat × Nat)
  | start, [] => [(start, stop)]
  | start, t :: ts => (start, t.start) :: gaps stop t.stop ts

/-- The tokens lie in the source in order, on character boundaries, with their texts and values,
and between them there is nothing but trivia. -/
structure Tiles (source : List Char) (ts : List Token) : Prop where
  /-- No token is empty. -/
  start_lt_stop : ∀ t ∈ ts, t.start < t.stop
  /-- No token begins before an earlier one ends. -/
  ordered : ts.Pairwise fun t u => t.stop ≤ u.start
  stop_le_width : ∀ t ∈ ts, t.stop ≤ width source
  onBoundary : ∀ t ∈ ts, OnBoundary source t.start ∧ OnBoundary source t.stop
  slice?_eq : ∀ t ∈ ts, slice? source t.start t.stop = some t.text.toList
  /-- Exactly the constant strings have a value. -/
  value?_isSome : ∀ t ∈ ts, t.kind.value?.isSome ↔ ∃ value, t.kind = .str value
  filled : ∀ gap ∈ gaps (width source) 0 ts, ∃ before text rest,
    source = before ++ text ++ rest ∧ width before = gap.1 ∧ width (before ++ text) = gap.2 ∧
      Filler before text rest

namespace Tiling

variable {before rest : List Char} {ts : List Token}

/-- Where a token of a tiling stands. -/
theorem stretch (h : Tiling before rest ts) {t : Token} (ht : t ∈ ts) :
    ∃ u v, before ++ rest = u ++ t.text.toList ++ v ∧ width u = t.start ∧
      width before ≤ t.start ∧ t.text.toList ≠ [] := by
  induction h with
  | last => cases ht
  | @cons before gap rest t' ts hfiller htext hstart htiling ih =>
    rcases List.mem_cons.mp ht with rfl | ht
    · refine ⟨before ++ gap, rest, by simp, hstart.symm, ?_, htext⟩
      rw [hstart, width_append]
      omega
    · obtain ⟨u, v, hsource, hu, hle, htext'⟩ := ih ht
      refine ⟨u, v, by simpa using hsource, hu, ?_, htext'⟩
      simp only [width_append] at hle
      omega

theorem pairwise (h : Tiling before rest ts) : ts.Pairwise fun t u => t.stop ≤ u.start := by
  induction h with
  | last => exact .nil
  | @cons before gap rest t ts hfiller htext hstart htiling ih =>
    refine .cons (fun u hu => ?_) ih
    obtain ⟨_, _, _, _, hle, _⟩ := htiling.stretch hu
    rwa [width_append, ← hstart] at hle

theorem filled (h : Tiling before rest ts) :
    ∀ gap ∈ gaps (width (before ++ rest)) (width before) ts, ∃ u text v,
      before ++ rest = u ++ text ++ v ∧ width u = gap.1 ∧ width (u ++ text) = gap.2 ∧
        Filler u text v := by
  induction h with
  | @last before text hfiller =>
    intro gap hgap
    obtain rfl := List.mem_singleton.mp hgap
    exact ⟨before, text, [], by simp, rfl, rfl, hfiller⟩
  | @cons before gap rest t ts hfiller htext hstart htiling ih =>
    intro g hg
    rcases List.mem_cons.mp hg with rfl | hg
    · exact ⟨before, gap, t.text.toList ++ rest, by simp, rfl, hstart.symm, hfiller⟩
    · have hstop : width (before ++ gap ++ t.text.toList) = t.stop := by
        rw [width_append, ← hstart]
        rfl
      rw [hstop] at ih
      simpa using ih g (by simpa using hg)

theorem tiles {source : List Char} (h : Tiling [] source ts) : Tiles source ts where
  start_lt_stop t ht := by
    obtain ⟨_, _, _, _, _, htext⟩ := h.stretch ht
    have hlength := length_le_width t.text.toList
    have := List.length_pos_iff.mpr htext
    rw [stop]
    omega
  ordered := h.pairwise
  stop_le_width t ht := by
    obtain ⟨u, v, hsource, hu, _, _⟩ := h.stretch ht
    rw [List.nil_append] at hsource
    rw [hsource, stop, ← hu, width_append, width_append]
    omega
  onBoundary t ht := by
    obtain ⟨u, v, hsource, hu, _, _⟩ := h.stretch ht
    rw [List.nil_append] at hsource
    refine ⟨⟨u, t.text.toList ++ v, by rw [hsource, List.append_assoc], hu⟩,
      ⟨u ++ t.text.toList, v, hsource, ?_⟩⟩
    rw [width_append, hu, stop]
  slice?_eq t ht := by
    obtain ⟨u, v, hsource, hu, _, _⟩ := h.stretch ht
    rw [List.nil_append] at hsource
    refine slice?_eq_some_iff.mpr ⟨u, v, hsource, hu, ?_⟩
    rw [width_append, hu, stop]
  value?_isSome t _ := by
    cases t.kind with
    | str value => simp [Kind.value?]
    | _ => simp [Kind.value?]
  filled := h.filled

end Tiling

/-- The tokens of a source tile it. -/
theorem tiles_tokenize (source : String) : Tiles source.toList (tokenize source) :=
  (tiling_tokenize source).tiles

end AttributeLint.Token
