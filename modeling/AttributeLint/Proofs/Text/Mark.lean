import AttributeLint.Text.Cut

/-!
# Mark — where a mark appears first and last

A mark does not reach over a character that does not occur in it. So a text may be searched for a
mark stretch by stretch: the search passes over a stretch (`PassesOver`) when the mark is not inside
it and the stretch ends with a character that the mark lacks. From the other end, the last
appearance of a mark is the one behind which it does not begin again (`afterLast_append`).
-/

namespace AttributeLint.Text

variable {mark u v : List Char} {z : Char}

/-- A mark at the front of a text ends before the first character that it lacks. -/
theorem prefix_append_cons_iff (hz : z ∉ mark) : mark <+: u ++ z :: v ↔ mark <+: u := by
  induction u generalizing mark with
  | nil =>
    cases mark with
    | nil => simp
    | cons m mark =>
      rw [List.nil_append, List.cons_prefix_cons, List.prefix_nil]
      refine ⟨fun h => absurd ?_ hz, fun h => absurd h (List.cons_ne_nil m mark)⟩
      rw [h.1]
      exact List.mem_cons_self
  | cons c u ih =>
    cases mark with
    | nil => simp
    | cons m mark =>
      rw [List.cons_append, List.cons_prefix_cons, List.cons_prefix_cons,
        ih (List.not_mem_of_not_mem_cons hz)]

/-- Reading a mark at the front stops before the first character that it lacks. -/
theorem after?_append_cons (hz : z ∉ mark) (u v : List Char) :
    after? mark (u ++ z :: v) = (after? mark u).map (· ++ z :: v) := by
  induction u generalizing mark with
  | nil =>
    cases mark with
    | nil => rfl
    | cons m mark =>
      show (if m = z then after? mark v else none) = none
      exact if_neg (List.ne_of_not_mem_cons hz).symm
  | cons c u ih =>
    cases mark with
    | nil => rfl
    | cons m mark =>
      rw [List.cons_append, after?, after?, ih (List.not_mem_of_not_mem_cons hz)]
      split <;> rfl

theorem after?_eq_none_iff {cs : List Char} : after? mark cs = none ↔ ¬ mark <+: cs := by
  rw [Option.eq_none_iff_forall_ne_some]
  constructor
  · rintro h ⟨rest, hrest⟩
    exact h rest (after?_eq_some_iff.mpr hrest.symm)
  · intro h rest hrest
    exact h ⟨rest, (after?_eq_some_iff.mp hrest).symm⟩

/-- A mark at the front of a text is its first appearance. -/
theorem cutAt_append_self (mark rest : List Char) :
    cutAt mark (mark ++ rest) = some ([], rest) := by
  have hfront : after? mark (mark ++ rest) = some rest := after?_eq_some_iff.mpr rfl
  cases htext : mark ++ rest with
  | nil => rw [cutAt, ← htext, hfront, Option.map_some]
  | cons c cs => rw [cutAt, ← htext, hfront]

/-- The search for the mark passes over the stretch, whatever is behind it. -/
def PassesOver (mark u : List Char) : Prop :=
  ∀ v, cutAt mark (u ++ v) = (cutAt mark v).map fun p => (u ++ p.1, p.2)

theorem passesOver_nil (mark : List Char) : PassesOver mark [] := by
  intro v
  simp

theorem PassesOver.append (hu : PassesOver mark u) (hv : PassesOver mark v) :
    PassesOver mark (u ++ v) := by
  intro w
  rw [List.append_assoc, hu, hv, Option.map_map]
  simp [Function.comp_def]

theorem passesOver_flatMap {α : Type} {f : α → List Char} {xs : List α}
    (h : ∀ x ∈ xs, PassesOver mark (f x)) : PassesOver mark (xs.flatMap f) := by
  induction xs with
  | nil => exact passesOver_nil mark
  | cons x xs ih =>
    obtain ⟨hx, hxs⟩ := List.forall_mem_cons.mp h
    rw [List.flatMap_cons]
    exact hx.append (ih hxs)

/-- A mark that is not in a stretch, and lacks the character behind it, is passed together with
that character. -/
theorem passesOver_append_singleton (hu : ¬ mark <:+: u) (hz : z ∉ mark) :
    PassesOver mark (u ++ [z]) := by
  intro v
  induction u with
  | nil =>
    have hfront : after? mark (z :: v) = none :=
      after?_eq_none_iff.mpr fun h => hu ((prefix_append_cons_iff (u := []) hz).mp h).isInfix
    rw [List.nil_append, List.singleton_append, cutAt, hfront]
    rfl
  | cons c u ih =>
    rw [List.infix_cons_iff, not_or] at hu
    have hfront : after? mark (c :: (u ++ [z] ++ v)) = none := by
      rw [after?_eq_none_iff, List.append_assoc, List.singleton_append, ← List.cons_append,
        prefix_append_cons_iff hz]
      exact hu.1
    rw [List.cons_append, List.cons_append, cutAt, hfront]
    simp only [ih hu.2, Option.map_map, Function.comp_def, List.cons_append]

/-- A mark is not found among characters that it lacks. -/
theorem passesOver_of_not_mem (hmark : mark ≠ []) (hu : ∀ c ∈ u, c ∉ mark) :
    PassesOver mark u := by
  induction u with
  | nil => exact passesOver_nil mark
  | cons c u ih =>
    obtain ⟨hc, hu⟩ := List.forall_mem_cons.mp hu
    have hfirst : PassesOver mark ([] ++ [c]) :=
      passesOver_append_singleton (by rwa [List.infix_nil]) hc
    exact hfirst.append (ih hu)

/-- A mark behind a stretch that the search passes over is the first one. -/
theorem PassesOver.cutAt_append (h : PassesOver mark u) (rest : List Char) :
    cutAt mark (u ++ (mark ++ rest)) = some (u, rest) := by
  rw [h, cutAt_append_self]
  simp

/-! ## The last appearance -/

theorem afterLast?_eq_none_iff (hmark : mark ≠ []) {cs : List Char} :
    afterLast? mark cs = none ↔ ¬ mark <:+: cs := by
  induction cs with
  | nil => simp [afterLast?, hmark]
  | cons c cs ih =>
    rw [afterLast?, List.infix_cons_iff, not_or, ← ih, ← after?_eq_none_iff]
    cases hbehind : afterLast? mark cs with
    | none => simp
    | some rest => simp

theorem afterLast?_append (hmark : mark ≠ []) (h : ¬ mark <:+: mark.tail ++ v) (u : List Char) :
    afterLast? mark (u ++ (mark ++ v)) = some v := by
  induction u with
  | nil =>
    obtain ⟨m, rest, rfl⟩ := List.exists_cons_of_ne_nil hmark
    have hbehind : afterLast? (m :: rest) (rest ++ v) = none :=
      (afterLast?_eq_none_iff hmark).mpr h
    rw [List.nil_append, List.cons_append, afterLast?, hbehind]
    exact after?_eq_some_iff.mpr rfl
  | cons c u ih => rw [List.cons_append, afterLast?, ih]

/-- What is behind the last appearance of a mark is the text behind an appearance of it that does
not begin again inside itself or further on. -/
theorem afterLast?_eq_some_iff (hmark : mark ≠ []) {cs : List Char} :
    afterLast? mark cs = some v ↔
      ¬ mark <:+: mark.tail ++ v ∧ ∃ u, cs = u ++ (mark ++ v) := by
  constructor
  · intro h
    induction cs with
    | nil => cases h
    | cons c cs ih =>
      rw [afterLast?] at h
      cases hbehind : afterLast? mark cs with
      | some rest =>
        rw [hbehind] at h
        cases h
        obtain ⟨hlast, u, rfl⟩ := ih hbehind
        exact ⟨hlast, c :: u, rfl⟩
      | none =>
        rw [hbehind] at h
        have hcs : c :: cs = mark ++ v := after?_eq_some_iff.mp h
        obtain ⟨m, rest, rfl⟩ := List.exists_cons_of_ne_nil hmark
        refine ⟨?_, [], hcs⟩
        have htail : cs = rest ++ v := (List.cons.inj hcs).2
        rw [List.tail_cons, ← htail]
        exact (afterLast?_eq_none_iff hmark).mp hbehind
  · rintro ⟨hlast, u, rfl⟩
    exact afterLast?_append hmark hlast u

/-- What is behind the last mark holds no mark, and is all of the text if there is no mark. -/
theorem afterLast_cases (hmark : mark ≠ []) (cs : List Char) :
    ¬ mark <:+: afterLast mark cs ∧
      (afterLast mark cs = cs ∨ ∃ u, cs = u ++ (mark ++ afterLast mark cs)) := by
  rw [afterLast]
  cases hlast : afterLast? mark cs with
  | none => exact ⟨(afterLast?_eq_none_iff hmark).mp hlast, .inl rfl⟩
  | some v =>
    obtain ⟨hagain, hcut⟩ := (afterLast?_eq_some_iff hmark).mp hlast
    exact ⟨fun h => hagain (h.trans (List.suffix_append _ v).isInfix), .inr hcut⟩

theorem afterLast_suffix (hmark : mark ≠ []) (cs : List Char) : afterLast mark cs <:+ cs := by
  rcases (afterLast_cases hmark cs).2 with hwhole | ⟨u, hcut⟩
  · exact ⟨[], hwhole⟩
  · exact ⟨u ++ mark, by rw [List.append_assoc, ← hcut]⟩

/-- Nothing is behind the last appearance of a mark exactly if the text ends with the mark. -/
theorem afterLast_eq_nil_iff (hmark : mark ≠ []) {cs : List Char} :
    afterLast mark cs = [] ↔ cs = [] ∨ mark <:+ cs := by
  constructor
  · intro hempty
    rcases (afterLast_cases hmark cs).2 with hwhole | ⟨u, hcut⟩
    · rw [hempty] at hwhole
      exact .inl hwhole.symm
    · rw [hempty, List.append_nil] at hcut
      exact .inr ⟨u, hcut.symm⟩
  · rintro (rfl | ⟨u, rfl⟩)
    · rfl
    · have hlast : ¬ mark <:+: mark.tail ++ [] := by
        intro h
        have hlength := h.length_le
        have hpos := List.length_pos_iff.mpr hmark
        rw [List.append_nil, List.length_tail] at hlength
        omega
      have hcut : afterLast? mark (u ++ (mark ++ [])) = some [] := afterLast?_append hmark hlast u
      rw [List.append_nil] at hcut
      rw [afterLast, hcut]
      rfl

/-- A mark is the last one of a text if it does not begin again inside itself or behind it. -/
theorem afterLast_append (hmark : mark ≠ []) (h : ¬ mark <:+: mark.tail ++ v) (u : List Char) :
    afterLast mark (u ++ (mark ++ v)) = v := by
  rw [afterLast, afterLast?_append hmark h]
  rfl

theorem afterLast_of_absent (hmark : mark ≠ []) (h : ¬ mark <:+: v) : afterLast mark v = v := by
  rw [afterLast, (afterLast?_eq_none_iff hmark).mpr h]
  rfl

/-- The last appearance of a mark is in front of a character that it lacks, if there is none behind
that character. -/
theorem afterLast_append_cons (hmark : mark ≠ []) (hz : z ∉ mark) (hv : ¬ mark <:+: v)
    (u : List Char) : afterLast mark (u ++ z :: v) = afterLast mark u ++ z :: v := by
  have hlast : afterLast? mark (u ++ z :: v) = (afterLast? mark u).map (· ++ z :: v) := by
    induction u with
    | nil =>
      have hfront : ¬ mark <+: z :: v := by
        intro h
        exact hmark (List.prefix_nil.mp ((prefix_append_cons_iff (u := []) hz).mp h))
      rw [List.nil_append, (afterLast?_eq_none_iff hmark).mpr]
      · rfl
      · rw [List.infix_cons_iff]
        rintro (h | h)
        · exact hfront h
        · exact hv h
    | cons c u ih =>
      rw [List.cons_append, afterLast?, afterLast?, ih, ← List.cons_append, after?_append_cons hz]
      cases afterLast? mark u <;> rfl
  rw [afterLast, afterLast, hlast]
  cases afterLast? mark u <;> rfl

end AttributeLint.Text
