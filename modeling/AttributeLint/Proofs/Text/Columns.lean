import AttributeLint.Proofs.Text.Mark
import AttributeLint.Text.LineColumn
import Mathlib.Data.List.Infix
import Mathlib.Data.Prod.Lex

/-!
# Columns — the line and the column of an offset

What stands in front of an offset is whole lines, the beginning of one more line, and perhaps some
bytes of a character (`Stands`). The whole lines make the line of the offset. Its column is counted
in the characters of the beginning, but in the bytes in front of the offset if that is inside a
character (`Stands.ofOffset_eq`). Of two offsets, the later one stands behind more lines or further
on in the same line (`Stands.later_cases`).
-/

namespace AttributeLint.Text

namespace LineColumn

/-- Places are ordered by line, and on one line by column. -/
instance : LinearOrder LineColumn :=
  LinearOrder.lift' (fun p => toLex (p.line, p.column)) (by
    intro p q h
    have hpair : (p.line, p.column) = (q.line, q.column) := toLex.injective h
    cases p
    cases q
    cases hpair
    rfl)

theorem le_iff {p q : LineColumn} :
    p ≤ q ↔ p.line < q.line ∨ p.line = q.line ∧ p.column ≤ q.column :=
  Prod.Lex.toLex_le_toLex

theorem lt_iff {p q : LineColumn} :
    p < q ↔ p.line < q.line ∨ p.line = q.line ∧ p.column < q.column :=
  Prod.Lex.toLex_lt_toLex

/-! ## The walk over a text -/

variable {u rest cs : List Char} {c : Char}

/-- The walk takes characters of one line together. -/
theorem walk_line (hu : '\n' ∉ u) (line chars bytes : Nat) (rest : List Char) (k : Nat) :
    walk line chars bytes (u ++ rest) (width u + k) =
      walk line (chars + u.length) (bytes + width u) rest k := by
  induction u generalizing chars bytes with
  | nil => simp
  | cons c u ih =>
    have hc : '\n' ≠ c := List.ne_of_not_mem_cons hu
    have hpos := c.utf8Size_pos
    have hstep : c.utf8Size + width u + k - c.utf8Size = width u + k := by omega
    rw [List.cons_append, width_cons, walk, if_neg (by omega), if_neg (by omega),
      if_neg hc.symm, hstep, ih (List.not_mem_of_not_mem_cons hu), List.length_cons,
      Nat.add_assoc chars, Nat.add_comm 1, Nat.add_assoc bytes]

/-- Behind a line feed the walk begins a new line. -/
theorem walk_feed (u : List Char) (line chars bytes : Nat) (rest : List Char) (k : Nat) :
    walk line chars bytes (u ++ '\n' :: rest) (width u + 1 + k) =
      walk (line + u.count '\n' + 1) 0 0 rest k := by
  have hfeed : ('\n' : Char).utf8Size = 1 := rfl
  induction u generalizing line chars bytes with
  | nil =>
    rw [List.nil_append, walk, if_neg (by simp), hfeed, if_neg (by simp), if_pos rfl]
    congr 1
    simp
  | cons c u ih =>
    have hpos := c.utf8Size_pos
    have hstep : c.utf8Size + width u + 1 + k - c.utf8Size = width u + 1 + k := by omega
    rw [List.cons_append, width_cons, walk, if_neg (by omega), if_neg (by omega), hstep]
    by_cases hc : c = '\n'
    · subst hc
      rw [if_pos rfl, ih, List.count_cons_self]
      congr 1
      omega
    · rw [if_neg hc, ih, List.count_cons_of_ne hc]

theorem walk_zero (line chars bytes : Nat) (rest : List Char) :
    walk line chars bytes rest 0 = ⟨line + 1, chars + 1⟩ := by
  cases rest <;> rfl

theorem walk_inside {k : Nat} (hpos : k ≠ 0) (hk : k < c.utf8Size) (line chars bytes : Nat)
    (rest : List Char) : walk line chars bytes (c :: rest) k = ⟨line + 1, bytes + k + 1⟩ := by
  rw [walk, if_neg hpos, if_pos hk]

theorem walk_past {offset : Nat} (h : width cs ≤ offset) (line chars bytes : Nat) :
    walk line chars bytes cs offset = walk line chars bytes cs (width cs) := by
  induction cs generalizing line chars bytes offset with
  | nil => rw [walk, walk]
  | cons c cs ih =>
    rw [width_cons] at h ⊢
    have hpos := c.utf8Size_pos
    have hlast : c.utf8Size + width cs - c.utf8Size = width cs := by omega
    have hrest : width cs ≤ offset - c.utf8Size := by omega
    have hoffset : offset ≠ 0 ∧ ¬ offset < c.utf8Size := by omega
    have hend : c.utf8Size + width cs ≠ 0 ∧ ¬ c.utf8Size + width cs < c.utf8Size := by omega
    rw [walk, if_neg hoffset.1, if_neg hoffset.2, ih hrest, ih hrest]
    rw [walk, if_neg hend.1, if_neg hend.2, hlast]

/-- Past the end an offset has the place of the end. -/
theorem ofOffset_past {offset : Nat} (h : width cs ≤ offset) :
    ofOffset cs offset = ofOffset cs (width cs) :=
  walk_past h 0 0 0

theorem ofOffset_min (cs : List Char) (offset : Nat) :
    ofOffset cs offset = ofOffset cs (min offset (width cs)) := by
  rcases Nat.le_total offset (width cs) with hle | hge
  · rw [Nat.min_eq_left hle]
  · rw [Nat.min_eq_right hge, ofOffset_past hge]

end LineColumn

/-! ## Whole lines -/

/-- Every line of the text has its line feed. -/
def WholeLines (cs : List Char) : Prop :=
  cs = [] ∨ ∃ u, cs = u ++ ['\n']

variable {cs lines line lines' line' w rest : List Char} {offset offset' k k' : Nat}

theorem exists_wholeLines (cs : List Char) :
    ∃ lines line, cs = lines ++ line ∧ WholeLines lines ∧ '\n' ∉ line := by
  induction cs using List.reverseRecOn with
  | nil => exact ⟨[], [], rfl, .inl rfl, List.not_mem_nil⟩
  | append_singleton cs c ih =>
    by_cases hc : c = '\n'
    · subst hc
      exact ⟨cs ++ ['\n'], [], (List.append_nil _).symm, .inr ⟨cs, rfl⟩, List.not_mem_nil⟩
    · obtain ⟨lines, line, rfl, hwhole, hline⟩ := ih
      refine ⟨lines, line ++ [c], List.append_assoc _ _ _, hwhole, ?_⟩
      rw [List.mem_append, List.mem_singleton]
      rintro (h | h)
      · exact hline h
      · exact hc h.symm

/-- The beginning of a line is what stands behind the last line feed. -/
theorem WholeLines.afterLast_append (h : WholeLines lines) (hline : '\n' ∉ line) :
    afterLast ['\n'] (lines ++ line) = line := by
  have habsent : ¬ ['\n'] <:+: line := by rwa [List.singleton_infix_iff]
  rcases h with rfl | ⟨u, rfl⟩
  · exact afterLast_of_absent (List.cons_ne_nil _ _) habsent
  · rw [List.append_assoc]
    exact Text.afterLast_append (List.cons_ne_nil _ _) habsent u

/-- A text is whole lines and the beginning of a line in one way only. -/
theorem WholeLines.unique (h : WholeLines lines) (hline : '\n' ∉ line) (h' : WholeLines lines')
    (hline' : '\n' ∉ line') (heq : lines ++ line = lines' ++ line') :
    lines = lines' ∧ line = line' := by
  have hbehind : line = line' := by
    rw [← h.afterLast_append hline, heq, h'.afterLast_append hline']
  rw [hbehind] at heq
  exact ⟨List.append_cancel_right heq, hbehind⟩

/-- What follows the beginning of a line has a line feed, or goes on with that line. -/
theorem WholeLines.append_cases (h : WholeLines lines) (hline : '\n' ∉ line)
    (h' : WholeLines lines') (hline' : '\n' ∉ line') (heq : lines' ++ line' = lines ++ line ++ w) :
    lines.count '\n' < lines'.count '\n' ∨ lines' = lines ∧ line' = line ++ w := by
  by_cases hw : '\n' ∈ w
  · have hcount := congrArg (List.count '\n') heq
    have hmore := List.count_pos_iff.mpr hw
    rw [List.count_append, List.count_append, List.count_append,
      List.count_eq_zero_of_not_mem hline, List.count_eq_zero_of_not_mem hline'] at hcount
    exact .inl (by omega)
  · have hlonger : '\n' ∉ line ++ w := by
      rw [List.mem_append]
      rintro (hmem | hmem)
      · exact hline hmem
      · exact hw hmem
    rw [List.append_assoc] at heq
    exact .inr (h'.unique hline' h hlonger heq)

/-! ## Where an offset stands -/

/-- Whole `lines`, the beginning `line` of one more, and `k` bytes of the character behind it stand
in front of the offset. -/
structure Stands (cs lines line rest : List Char) (k offset : Nat) : Prop where
  text : cs = lines ++ line ++ rest
  whole : WholeLines lines
  feed_not_mem : '\n' ∉ line
  offset_eq : offset = width (lines ++ line) + k
  /-- The bytes are fewer than the character has. -/
  inside : k = 0 ∨ ∃ c after, rest = c :: after ∧ k < c.utf8Size

theorem exists_inside (h : offset ≤ width cs) :
    ∃ before rest k, cs = before ++ rest ∧ offset = width before + k ∧
      (k = 0 ∨ ∃ c after, rest = c :: after ∧ k < c.utf8Size) := by
  induction cs generalizing offset with
  | nil => exact ⟨[], [], 0, rfl, by simpa using h, .inl rfl⟩
  | cons c cs ih =>
    rw [width_cons] at h
    rcases Nat.lt_or_ge offset c.utf8Size with hlt | hge
    · exact ⟨[], c :: cs, offset, rfl, by simp, .inr ⟨c, cs, rfl, hlt⟩⟩
    · have hrest : offset - c.utf8Size ≤ width cs := by omega
      obtain ⟨before, rest, k, rfl, hoffset, hinside⟩ := ih hrest
      refine ⟨c :: before, rest, k, rfl, ?_, hinside⟩
      clear hinside
      rw [width_cons]
      omega

/-- Every offset that is not past the end stands somewhere. -/
theorem exists_stands (h : offset ≤ width cs) :
    ∃ lines line rest k, Stands cs lines line rest k offset := by
  obtain ⟨before, rest, k, rfl, hoffset, hinside⟩ := exists_inside h
  obtain ⟨lines, line, rfl, hwhole, hline⟩ := exists_wholeLines before
  exact ⟨lines, line, rest, k, rfl, hwhole, hline, hoffset, hinside⟩

theorem exists_stands_zero (h : OnBoundary cs offset) :
    ∃ lines line rest, Stands cs lines line rest 0 offset := by
  obtain ⟨before, rest, rfl, rfl⟩ := h
  obtain ⟨lines, line, rfl, hwhole, hline⟩ := exists_wholeLines before
  exact ⟨lines, line, rest, rfl, hwhole, hline, rfl, .inl rfl⟩

namespace Stands

theorem count_eq (h : Stands cs lines line rest k offset) :
    (lines ++ line).count '\n' = lines.count '\n' := by
  rw [List.count_append, List.count_eq_zero_of_not_mem h.feed_not_mem, Nat.add_zero]

/-- The place of an offset. -/
theorem ofOffset_eq (h : Stands cs lines line rest k offset) :
    LineColumn.ofOffset cs offset =
      ⟨lines.count '\n' + 1, (if k = 0 then line.length else width line + k) + 1⟩ := by
  obtain ⟨rfl, hwhole, hline, rfl, hinside⟩ := h
  have hwalk : LineColumn.ofOffset (lines ++ line ++ rest) (width (lines ++ line) + k) =
      LineColumn.walk (lines.count '\n') line.length (width line) rest k := by
    rw [LineColumn.ofOffset, List.append_assoc, width_append]
    rcases hwhole with rfl | ⟨u, rfl⟩
    · rw [List.nil_append, width_nil, Nat.zero_add, LineColumn.walk_line hline]
      simp
    · have hoffset : width (u ++ ['\n']) + width line + k = width u + 1 + (width line + k) := by
        rw [width_append, Nat.add_assoc]
        rfl
      rw [hoffset, List.append_assoc, List.singleton_append, LineColumn.walk_feed,
        LineColumn.walk_line hline]
      simp
  rw [hwalk]
  by_cases hk : k = 0
  · subst hk
    rw [if_pos rfl, LineColumn.walk_zero]
  · rcases hinside with hzero | ⟨c, after, rfl, hlt⟩
    · exact absurd hzero hk
    · rw [if_neg hk, LineColumn.walk_inside hk hlt]

/-- What stands in front of an offset stands in front of every later one. -/
theorem exists_append (h : Stands cs lines line rest k offset)
    (h' : Stands cs lines' line' rest' k' offset') (hle : offset ≤ offset') :
    ∃ w, lines' ++ line' = lines ++ line ++ w ∧ rest = w ++ rest' := by
  have htext : lines ++ line ++ rest = lines' ++ line' ++ rest' := by rw [← h.text, h'.text]
  rcases List.append_eq_append_iff.mp htext with ⟨w, hw, hrest⟩ | ⟨w, hw, hrest⟩
  · exact ⟨w, hw, hrest⟩
  -- a character less in front of the later offset would leave it in front of the earlier one
  · cases w with
    | nil => exact ⟨[], by simpa using hw.symm, by simpa using hrest.symm⟩
    | cons c w =>
      have hwidth := congrArg width hw
      have hoffset := h.offset_eq
      have hoffset' := h'.offset_eq
      rw [width_append (lines' ++ line'), width_cons] at hwidth
      have hshort : k' < c.utf8Size := by
        rcases h'.inside with rfl | ⟨d, after, hd, hlt⟩
        · exact c.utf8Size_pos
        · rw [hrest, List.cons_append] at hd
          cases hd
          exact hlt
      omega

/-- A later offset stands behind more lines, or on the same line behind a beginning that is as long
or longer. -/
theorem later_cases (h : Stands cs lines line rest k offset)
    (h' : Stands cs lines' line' rest' k' offset') (hle : offset ≤ offset') :
    lines.count '\n' < lines'.count '\n' ∨
      ∃ w, lines' = lines ∧ line' = line ++ w ∧ rest = w ++ rest' ∧ k ≤ width w + k' := by
  obtain ⟨w, hw, hrest⟩ := h.exists_append h' hle
  rcases h.whole.append_cases h.feed_not_mem h'.whole h'.feed_not_mem hw with hmore | ⟨rfl, rfl⟩
  · exact .inl hmore
  · refine .inr ⟨w, rfl, rfl, hrest, ?_⟩
    have hoffset := h.offset_eq
    have hoffset' := h'.offset_eq
    rw [hw, width_append] at hoffset'
    omega

end Stands

end AttributeLint.Text
