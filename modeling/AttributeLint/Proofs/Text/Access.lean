import AttributeLint.Text.Offset

/-!
# Access — reading a text at byte offsets that may be wrong

`dropBytes?` and `slice?` give nothing for an offset past the end or inside a character, where a
machine that works on bytes would stop with a fault. They succeed exactly on the beginnings and
stretches of the text. A reader that takes texts from the front is at the place where the text that
is left begins, `placeOf`; reading there never fails (`dropBytes?_placeOf`, `slice?_placeOf`).
-/

namespace AttributeLint.Text

/-- The text from an offset on, unless the offset is past the end or inside a character. -/
def dropBytes? : Nat → List Char → Option (List Char)
  | 0, cs => some cs
  | _ + 1, [] => none
  | n + 1, c :: cs =>
    if n + 1 < c.utf8Size then none else dropBytes? (n + 1 - c.utf8Size) cs

/-- The text before an offset, unless the offset is past the end or inside a character. -/
def takeBytes? : Nat → List Char → Option (List Char)
  | 0, _ => some []
  | _ + 1, [] => none
  | n + 1, c :: cs =>
    if n + 1 < c.utf8Size then none else (takeBytes? (n + 1 - c.utf8Size) cs).map (c :: ·)

/-- The stretch between two offsets, unless they are in the wrong order, past the end or inside a
character. -/
def slice? (cs : List Char) (start stop : Nat) : Option (List Char) :=
  if start ≤ stop then (dropBytes? start cs).bind (takeBytes? (stop - start)) else none

theorem dropBytes?_width_append (u v : List Char) : dropBytes? (width u) (u ++ v) = some v := by
  induction u with
  | nil => simp [dropBytes?]
  | cons c u ih =>
    have := c.utf8Size_pos
    obtain ⟨n, hn⟩ : ∃ n, c.utf8Size + width u = n + 1 := ⟨c.utf8Size + width u - 1, by omega⟩
    rw [List.cons_append, width_cons, hn, dropBytes?, if_neg (by omega), ← hn,
      Nat.add_sub_cancel_left, ih]

theorem takeBytes?_width_append (u v : List Char) : takeBytes? (width u) (u ++ v) = some u := by
  induction u with
  | nil => simp [takeBytes?]
  | cons c u ih =>
    have := c.utf8Size_pos
    obtain ⟨n, hn⟩ : ∃ n, c.utf8Size + width u = n + 1 := ⟨c.utf8Size + width u - 1, by omega⟩
    rw [List.cons_append, width_cons, hn, takeBytes?, if_neg (by omega), ← hn,
      Nat.add_sub_cancel_left, ih]
    rfl

/-- Reading from an offset succeeds exactly at the end of a beginning of the text. -/
theorem dropBytes?_eq_some_iff {n : Nat} {cs rest : List Char} :
    dropBytes? n cs = some rest ↔ ∃ before, cs = before ++ rest ∧ width before = n := by
  constructor
  · intro h
    fun_induction dropBytes? n cs with
    | case1 cs =>
      cases h
      exact ⟨[], rfl, rfl⟩
    | case2 => cases h
    | case3 => cases h
    | case4 n c cs hc ih =>
      obtain ⟨before, rfl, hw⟩ := ih h
      exact ⟨c :: before, rfl, by rw [width_cons]; omega⟩
  · rintro ⟨before, rfl, rfl⟩
    exact dropBytes?_width_append before rest

theorem takeBytes?_eq_some_iff {n : Nat} {cs front : List Char} :
    takeBytes? n cs = some front ↔ ∃ rest, cs = front ++ rest ∧ width front = n := by
  constructor
  · intro h
    fun_induction takeBytes? n cs generalizing front with
    | case1 cs =>
      cases h
      exact ⟨cs, rfl, rfl⟩
    | case2 => cases h
    | case3 => cases h
    | case4 n c cs hc ih =>
      obtain ⟨front', h', rfl⟩ := Option.map_eq_some_iff.mp h
      obtain ⟨rest, rfl, hw⟩ := ih h'
      exact ⟨rest, rfl, by rw [width_cons]; omega⟩
  · rintro ⟨rest, rfl, rfl⟩
    exact takeBytes?_width_append front rest

/-- A stretch can be read exactly if it stands between its offsets. -/
theorem slice?_eq_some_iff {cs v : List Char} {start stop : Nat} :
    slice? cs start stop = some v ↔
      ∃ before after, cs = before ++ v ++ after ∧ width before = start ∧
        width (before ++ v) = stop := by
  rw [slice?]
  constructor
  · intro h
    split at h
    · obtain ⟨rest, hrest, hv⟩ := Option.bind_eq_some_iff.mp h
      obtain ⟨before, rfl, rfl⟩ := dropBytes?_eq_some_iff.mp hrest
      obtain ⟨after, rfl, hw⟩ := takeBytes?_eq_some_iff.mp hv
      refine ⟨before, after, (List.append_assoc _ _ _).symm, rfl, ?_⟩
      rw [width_append]
      omega
    · cases h
  · rintro ⟨before, after, rfl, rfl, rfl⟩
    rw [width_append, if_pos (Nat.le_add_right _ _), Nat.add_sub_cancel_left, List.append_assoc,
      dropBytes?_width_append, Option.bind_some, takeBytes?_width_append]

/-- Between character boundaries in the right order the checked stretch is the stretch. -/
theorem slice?_eq_slice {cs : List Char} {start stop : Nat} (hstart : OnBoundary cs start)
    (hstop : OnBoundary cs stop) (hle : start ≤ stop) :
    slice? cs start stop = some (slice cs start stop) := by
  obtain ⟨u, v, hu, rfl⟩ := hstart
  obtain ⟨u', v', hu', rfl⟩ := hstop
  have hshorter : u <+: u' := by
    rcases List.prefix_or_prefix_of_prefix ⟨v, hu.symm⟩ ⟨v', hu'.symm⟩ with h | ⟨w, rfl⟩
    · exact h
    -- of two beginnings, the one that is no wider cannot be the longer one
    · rw [width_append] at hle
      obtain rfl : w = [] := eq_nil_of_width_eq_zero (by omega)
      exact ⟨[], by simp⟩
  obtain ⟨text, rfl⟩ := hshorter
  rw [hu', width_append, slice_append]
  exact slice?_eq_some_iff.mpr ⟨u, v', rfl, rfl, width_append u text⟩

/-- A text of ASCII characters has as many bytes as characters. -/
theorem width_eq_length {cs : List Char} (h : ∀ c ∈ cs, c.utf8Size = 1) :
    width cs = cs.length := by
  induction cs with
  | nil => rfl
  | cons c cs ih =>
    rw [List.forall_mem_cons] at h
    rw [width_cons, h.1, ih h.2, List.length_cons, Nat.add_comm]

/-! ## The place of what is left -/

/-- The offset at which an end of the source begins. -/
def placeOf (source rest : List Char) : Nat :=
  width source - width rest

theorem placeOf_append (before rest : List Char) :
    placeOf (before ++ rest) rest = width before := by
  rw [placeOf, width_append, Nat.add_sub_cancel_right]

theorem placeOf_self (source : List Char) : placeOf source source = 0 :=
  Nat.sub_self _

theorem placeOf_nil (source : List Char) : placeOf source [] = width source :=
  Nat.sub_zero _

variable {source : List Char}

/-- Reading from the place of what is left gives what is left. -/
theorem dropBytes?_placeOf {rest : List Char} (h : rest <:+ source) :
    dropBytes? (placeOf source rest) source = some rest := by
  obtain ⟨before, rfl⟩ := h
  rw [placeOf_append, dropBytes?_width_append]

/-- Moving over a stretch of what is left moves on by its width. -/
theorem placeOf_add_width {u rest : List Char} (h : u ++ rest <:+ source) :
    placeOf source (u ++ rest) + width u = placeOf source rest := by
  obtain ⟨before, rfl⟩ := h
  rw [placeOf_append, ← List.append_assoc, placeOf_append, width_append]

theorem placeOf_add_utf8Size {c : Char} {rest : List Char} (h : c :: rest <:+ source) :
    placeOf source (c :: rest) + c.utf8Size = placeOf source rest :=
  @placeOf_add_width source [c] rest h

theorem slice?_placeOf {u rest : List Char} (h : u ++ rest <:+ source) :
    slice? source (placeOf source (u ++ rest)) (placeOf source rest) = some u := by
  obtain ⟨before, rfl⟩ := h
  refine slice?_eq_some_iff.mpr ⟨before, rest, (List.append_assoc _ _ _).symm, ?_, ?_⟩
  · rw [placeOf_append]
  · rw [← List.append_assoc, placeOf_append]

end AttributeLint.Text
