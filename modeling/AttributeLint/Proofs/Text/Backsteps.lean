import AttributeLint.Proofs.Text.LineTable

/-!
# Backsteps — later offsets that have an earlier place

The column of an offset inside a character counts bytes, and so it may be greater than the columns
of the characters that follow on the line. Such an offset is placed behind some of the later ones,
and perhaps behind the end of its line (`later_place_earlier`). It happens only so: two offsets are
placed in their order unless the first is inside a character, the second is between characters of
the same line, and there are fewer characters in front of the second than bytes in front of the
first (`lineColumn_le_iff_not_stepsBack`).
-/

namespace AttributeLint.Text

variable {cs u v lines line rest : List Char} {k offset offset' : Nat}

/-! ## The lines of a text -/

theorem length_lines (cs : List Char) : (Text.lines cs).length = cs.count '\n' + 1 := by
  induction cs with
  | nil => rfl
  | cons c cs ih =>
    rw [Text.lines] at ih ⊢
    rw [List.splitOn_cons_eq_if_modifyHead]
    by_cases hc : c = '\n'
    · subst hc
      rw [if_pos (BEq.refl _), List.length_cons, ih, List.count_cons_self]
    · rw [if_neg (by simpa using hc), List.length_modifyHead, ih, List.count_cons_of_ne hc]

/-- The lines behind whole lines. -/
theorem WholeLines.getElem?_lines (h : WholeLines u) (v : List Char) :
    (Text.lines (u ++ v))[u.count '\n']? = (Text.lines v)[0]? := by
  rcases h with rfl | ⟨w, rfl⟩
  · rfl
  · have hcount : (w ++ ['\n']).count '\n' = (Text.lines w).length := by
      rw [length_lines]
      simp
    have hlines : Text.lines (w ++ ['\n'] ++ v) = Text.lines w ++ Text.lines v := by
      rw [List.append_assoc, List.singleton_append]
      exact List.splitOn_append_cons_self w v
    rw [hlines, hcount, List.getElem?_append_right (Nat.le_refl _), Nat.sub_self]

/-- The first line of a text goes up to the first line feed. -/
theorem getElem?_lines_zero (cs : List Char) :
    (Text.lines cs)[0]? = some (cs.takeWhile (· ≠ '\n')) := by
  induction cs with
  | nil => rfl
  | cons c cs ih =>
    rw [Text.lines] at ih ⊢
    rw [List.splitOn_cons_eq_if_modifyHead]
    by_cases hc : c = '\n'
    · subst hc
      rfl
    · rw [if_neg (by simpa using hc), List.takeWhile_cons_of_pos (by simpa using hc)]
      cases hlines : List.splitOn '\n' cs with
      | nil => exact absurd hlines (List.splitOn_ne_nil _ _)
      | cons first others =>
        rw [hlines] at ih
        cases ih
        rfl

/-- The line in which an offset stands goes on behind it up to the next line feed. -/
theorem Stands.getElem?_lines (h : Stands cs lines line rest k offset) :
    (Text.lines cs)[lines.count '\n']? = some (line ++ rest.takeWhile (· ≠ '\n')) := by
  have hline : ∀ c ∈ line, decide (c ≠ '\n') = true := by
    intro c hc
    rw [decide_eq_true_eq]
    rintro rfl
    exact h.feed_not_mem hc
  rw [h.text, List.append_assoc, h.whole.getElem?_lines, getElem?_lines_zero,
    List.takeWhile_append_of_pos hline]

/-! ## The order of places -/

/-- The first offset is inside a character, and the second, or the end of the text if that is past
it, is between characters of the same line. In front of the second, the line has fewer characters
than it has bytes in front of the first. -/
inductive StepsBack (cs : List Char) (offset offset' : Nat) : Prop where
  | mk {lines line line' rest rest' : List Char} {k : Nat}
      (hfirst : Stands cs lines line rest k offset) (hinside : k ≠ 0)
      (hsecond : Stands cs lines line' rest' 0 (min offset' (width cs)))
      (hfewer : line'.length < width line + k) : StepsBack cs offset offset'

/-- An offset that is past the end is no offset inside a character. -/
theorem Stands.eq_of_inside (h : Stands cs lines line rest k (min offset (width cs)))
    (hk : k ≠ 0) : min offset (width cs) = offset := by
  rcases Nat.le_total offset (width cs) with hle | hge
  · exact Nat.min_eq_left hle
  · rw [Nat.min_eq_right hge] at h
    exact absurd (h.onBoundary_iff.mp ⟨cs, [], (List.append_nil cs).symm, rfl⟩) hk

/-- A later offset has an earlier place exactly if the offsets step back. -/
theorem ofOffset_lt_iff_stepsBack (h : offset ≤ offset') :
    LineColumn.ofOffset cs offset' < LineColumn.ofOffset cs offset ↔
      StepsBack cs offset offset' := by
  constructor
  · intro hlt
    rw [LineColumn.ofOffset_min cs offset, LineColumn.ofOffset_min cs offset'] at hlt
    obtain ⟨lines, line, rest, k, hfirst⟩ := exists_stands (Nat.min_le_right offset (width cs))
    obtain ⟨lines', line', rest', k', hsecond⟩ :=
      exists_stands (Nat.min_le_right offset' (width cs))
    rw [hfirst.ofOffset_eq, hsecond.ofOffset_eq, LineColumn.lt_iff] at hlt
    dsimp only at hlt
    have hle : min offset (width cs) ≤ min offset' (width cs) := by omega
    rcases hfirst.later_cases hsecond hle with hmore | ⟨w, rfl, rfl, -, hk⟩
    · omega
    · have hline := length_le_width line
      have hw := length_le_width w
      rw [List.length_append, width_append] at hlt
      by_cases hinside : k = 0
      · rw [if_pos hinside] at hlt
        split at hlt <;> omega
      · rw [if_neg hinside] at hlt
        by_cases hinside' : k' = 0
        · subst hinside'
          rw [if_pos rfl] at hlt
          rw [hfirst.eq_of_inside hinside] at hfirst
          refine .mk hfirst hinside hsecond ?_
          rw [List.length_append]
          omega
        · rw [if_neg hinside'] at hlt
          omega
  · rintro ⟨hfirst, hinside, hsecond, hfewer⟩
    rw [LineColumn.ofOffset_min cs offset', hfirst.ofOffset_eq, hsecond.ofOffset_eq,
      LineColumn.lt_iff, if_neg hinside, if_pos rfl]
    exact .inr ⟨rfl, Nat.succ_lt_succ hfewer⟩

theorem line_ofOffset_le (h : offset ≤ offset') :
    (LineColumn.ofOffset cs offset).line ≤ (LineColumn.ofOffset cs offset').line := by
  rcases le_or_gt (LineColumn.ofOffset cs offset) (LineColumn.ofOffset cs offset') with hle | hlt
  · rcases LineColumn.le_iff.mp hle with hline | ⟨hline, -⟩ <;> omega
  · obtain ⟨hfirst, -, hsecond, -⟩ := (ofOffset_lt_iff_stepsBack h).mp hlt
    rw [LineColumn.ofOffset_min cs offset', hfirst.ofOffset_eq, hsecond.ofOffset_eq]

/-- A column is at most one more than the bytes of its line, and between characters at most one more
than the characters. -/
theorem exists_line_of_column (cs : List Char) (offset : Nat) :
    ∃ l, (Text.lines cs)[(LineColumn.ofOffset cs offset).line - 1]? = some l ∧
      (LineColumn.ofOffset cs offset).column ≤ width l + 1 ∧
      (OnBoundary cs (min offset (width cs)) →
        (LineColumn.ofOffset cs offset).column ≤ l.length + 1) := by
  rw [LineColumn.ofOffset_min]
  obtain ⟨lines, line, rest, k, h⟩ := exists_stands (Nat.min_le_right offset (width cs))
  rw [h.ofOffset_eq]
  refine ⟨_, h.getElem?_lines, ?_, ?_⟩
  · dsimp only
    rw [width_append]
    have hline := length_le_width line
    by_cases hk : k = 0
    · rw [if_pos hk]
      omega
    · rw [if_neg hk]
      rcases h.inside with hzero | ⟨c, after, rfl, hlt⟩
      · exact absurd hzero hk
      · -- a line feed is one byte, so there is nothing inside it
        have hc : c ≠ '\n' := by
          rintro rfl
          have hfeed : ('\n' : Char).utf8Size = 1 := rfl
          omega
        rw [List.takeWhile_cons_of_pos (by simpa using hc), width_cons]
        omega
  · intro hboundary
    dsimp only
    rw [if_pos (h.onBoundary_iff.mp hboundary), List.length_append]
    omega

end AttributeLint.Text

namespace AttributeLint.SourceFile

open Text

/-- Later offsets never have an earlier line. They have an earlier place only where the offsets step
back, and there always. Columns are bounded by the characters of their line, but inside characters
only by its bytes. -/
theorem lineColumn_le_iff_not_stepsBack (file : SourceFile) {offset offset' : Nat}
    (h : offset ≤ offset') :
    (file.lineColumn offset).line ≤ (file.lineColumn offset').line ∧
      (file.lineColumn offset ≤ file.lineColumn offset' ↔
        ¬ StepsBack file.text.toList offset offset') ∧
      ∃ l, (Text.lines file.text.toList)[(file.lineColumn offset).line - 1]? = some l ∧
        (file.lineColumn offset).column ≤ width l + 1 ∧
        (OnBoundary file.text.toList (min offset file.size) →
          (file.lineColumn offset).column ≤ l.length + 1) := by
  refine ⟨line_ofOffset_le h, ?_, exists_line_of_column file.text.toList offset⟩
  rw [← not_lt]
  exact not_congr (ofOffset_lt_iff_stepsBack h)

/-- A file whose first line has a character of three bytes in a comment. -/
def commented : SourceFile :=
  { id := ⟨0, 0⟩, path := "a.cs", text := "[/*\u20ac*/Error(\"???????\")] class C;" }

theorem lineColumn_le_iff_not_stepsBack_commented :
    5 ≤ 6 ∧ ¬ commented.lineColumn 5 ≤ commented.lineColumn 6 ∧
      StepsBack commented.text.toList 5 6 := by
  have hplaces : ¬ commented.lineColumn 5 ≤ commented.lineColumn 6 := by
    rw [LineColumn.le_iff]
    decide +kernel
  have hiff := (commented.lineColumn_le_iff_not_stepsBack (show 5 ≤ 6 by decide)).2.1
  exact ⟨by decide, hplaces, not_not.mp (mt hiff.mpr hplaces)⟩

/-- The last byte of the character has the column 6, and the offset behind it has the column 5. A
line that is this character alone has one character, and its last byte has the column 3. -/
theorem later_place_earlier :
    commented.lineColumn 5 = ⟨1, 6⟩ ∧ commented.lineColumn 6 = ⟨1, 5⟩ ∧
      (SourceFile.mk ⟨0, 0⟩ "a.cs" "\u20ac").lineColumn 2 = ⟨1, 3⟩ ∧
      Text.lines "\u20ac".toList = [['\u20ac']] := by
  decide +kernel

end AttributeLint.SourceFile
