import AttributeLint.Proofs.Text.Access
import AttributeLint.Proofs.Text.Columns
import AttributeLint.Source
import Mathlib.Data.Set.Function

/-!
# LineTable — finding the line of an offset in a table

The offsets at which the lines of a text start make a table, in which the line of an offset is found
by halving. Places in the table and numbers that are subtracted may be wrong: where a machine would
stop with a fault, the look-up `lookUp?` gives nothing. It never does, whatever the offset, and it
gives the place of the offset. Between characters this place is told by counting what stands in
front of the offset (`ExactIn`).
-/

namespace AttributeLint.Text

/-! ## Halving an increasing table -/

/-- Where a number is in a table, or between which entries it would have to be put in. -/
inductive Spot where
  | here (index : Nat)
  | between (next : Nat)
  deriving DecidableEq, Repr

/-- The spot is that of the number. -/
def Spot.IsOf (table : List Nat) (x : Nat) : Spot → Prop
  | here index => table[index]? = some x
  | between next =>
    next ≤ table.length ∧ ∀ j y, table[j]? = some y → if j < next then y < x else x < y

/-- Halves a stretch of the table until one entry is left, and gives its index; nothing if an index
on the way is not in the table. -/
def halve? (table : List Nat) (x base size : Nat) : Option Nat :=
  if size ≤ 1 then some base
  else
    match table[base + size / 2]? with
    | none => none
    | some y => halve? table x (if x < y then base else base + size / 2) (size - size / 2)
termination_by size
decreasing_by omega

/-- The spot of a number in a table, found by halving. -/
def search? (table : List Nat) (x : Nat) : Option Spot :=
  if table.isEmpty then some (.between 0)
  else
    match halve? table x 0 table.length with
    | none => none
    | some index =>
      table[index]?.map fun y =>
        if y = x then .here index else .between (if y < x then index + 1 else index)

variable {table : List Nat} {x base size : Nat}

/-- The spot of the number is at one of the `size` entries from `base` on, or next to one. -/
structure Narrowed (table : List Nat) (x base size : Nat) : Prop where
  size_pos : 0 < size
  stop_le : base + size ≤ table.length
  front : ∀ j y, table[j]? = some y → j < base → y < x
  behind : ∀ j y, table[j]? = some y → base + size ≤ j → x < y

theorem lt_of_index_lt (hinc : table.Pairwise (· < ·)) {i j y z : Nat} (hy : table[i]? = some y)
    (hz : table[j]? = some z) (hij : i < j) : y < z := by
  obtain ⟨hi, rfl⟩ := List.getElem?_eq_some_iff.mp hy
  obtain ⟨hj, rfl⟩ := List.getElem?_eq_some_iff.mp hz
  exact List.pairwise_iff_getElem.mp hinc i j hi hj hij

theorem le_of_index_le (hinc : table.Pairwise (· < ·)) {i j y z : Nat} (hy : table[i]? = some y)
    (hz : table[j]? = some z) (hij : i ≤ j) : y ≤ z := by
  rcases Nat.eq_or_lt_of_le hij with rfl | hlt
  · rw [hy] at hz
    cases hz
    exact Nat.le_refl _
  · exact Nat.le_of_lt (lt_of_index_lt hinc hy hz hlt)

/-- One step of halving keeps the spot inside. -/
theorem Narrowed.step (h : Narrowed table x base size) (hinc : table.Pairwise (· < ·))
    (hsize : 1 < size) {y : Nat} (hy : table[base + size / 2]? = some y) :
    Narrowed table x (if x < y then base else base + size / 2) (size - size / 2) := by
  have hstop := h.stop_le
  by_cases hxy : x < y
  · rw [if_pos hxy]
    refine ⟨by omega, by omega, h.front, ?_⟩
    intro j z hz hj
    have hyz : y ≤ z := le_of_index_le hinc hy hz (by omega)
    omega
  · rw [if_neg hxy]
    refine ⟨by omega, by omega, ?_, ?_⟩
    · intro j z hz hj
      have hzy : z < y := lt_of_index_lt hinc hz hy hj
      omega
    · intro j z hz hj
      exact h.behind j z hz (by omega)

/-- Halving ends at one entry and never leaves the table. -/
theorem Narrowed.exists_halve? (h : Narrowed table x base size) (hinc : table.Pairwise (· < ·)) :
    ∃ index, halve? table x base size = some index ∧ Narrowed table x index 1 := by
  induction hn : size using Nat.strong_induction_on generalizing base size with
  | _ n ih =>
    subst hn
    rw [halve?]
    have hpos := h.size_pos
    by_cases hsize : size ≤ 1
    · obtain rfl : size = 1 := by omega
      exact ⟨base, if_pos (Nat.le_refl 1), h⟩
    · rw [if_neg hsize]
      have hstop := h.stop_le
      have hmiddle : base + size / 2 < table.length := by omega
      have hy := List.getElem?_eq_getElem hmiddle
      rw [hy]
      exact ih (size - size / 2) (by omega) (h.step hinc (by omega) hy) rfl

/-- In an increasing table the search finds the spot of every number. -/
theorem exists_search? (hinc : table.Pairwise (· < ·)) (x : Nat) :
    ∃ spot, search? table x = some spot ∧ spot.IsOf table x := by
  rw [search?]
  by_cases hempty : table = []
  · subst hempty
    refine ⟨.between 0, rfl, Nat.le_refl 0, ?_⟩
    intro j y hy
    cases hy
  · rw [if_neg (by simpa using hempty)]
    have hstart : Narrowed table x 0 table.length := by
      refine ⟨List.length_pos_iff.mpr hempty, by omega, ?_, ?_⟩
      · intro j y _ hj
        omega
      · intro j y hy hj
        have := (List.getElem?_eq_some_iff.mp hy).1
        omega
    obtain ⟨index, hhalve, hlast⟩ := hstart.exists_halve? hinc
    have hindex : index < table.length := hlast.stop_le
    have hy := List.getElem?_eq_getElem hindex
    rw [hhalve]
    dsimp only
    rw [hy, Option.map_some]
    refine ⟨_, rfl, ?_⟩
    generalize table[index] = y at hy ⊢
    -- only the entry that is left has to be compared
    have hcompare (j z : Nat) (hz : table[j]? = some z) :
        (j < index ∧ z < x) ∨ (j = index ∧ z = y) ∨ (index < j ∧ x < z) := by
      rcases Nat.lt_trichotomy j index with hj | rfl | hj
      · exact .inl ⟨hj, hlast.front j z hz hj⟩
      · rw [hy] at hz
        cases hz
        exact .inr (.inl ⟨rfl, rfl⟩)
      · exact .inr (.inr ⟨hj, hlast.behind j z hz hj⟩)
    by_cases heq : y = x
    · rw [if_pos heq]
      subst heq
      exact hy
    · rw [if_neg heq]
      by_cases hlt : y < x
      · rw [if_pos hlt]
        refine ⟨hindex, ?_⟩
        intro j z hz
        have := hcompare j z hz
        split <;> omega
      · rw [if_neg hlt]
        refine ⟨Nat.le_of_lt hindex, ?_⟩
        intro j z hz
        have := hcompare j z hz
        split <;> omega

/-! ## The starts of the lines -/

/-- The offsets just behind the line feeds of a text that stands at the given offset. -/
def feedStops (offset : Nat) : List Char → List Nat
  | [] => []
  | c :: cs =>
    if c = '\n' then (offset + 1) :: feedStops (offset + 1) cs
    else feedStops (offset + c.utf8Size) cs

/-- The offsets at which the lines of a text start. -/
def lineStarts (cs : List Char) : List Nat :=
  0 :: feedStops 0 cs

variable {cs u v : List Char} {offset index start : Nat}

theorem pairwise_feedStops (offset : Nat) (cs : List Char) :
    (∀ start ∈ feedStops offset cs, offset < start) ∧ (feedStops offset cs).Pairwise (· < ·) := by
  induction cs generalizing offset with
  | nil => exact ⟨by simp [feedStops], .nil⟩
  | cons c cs ih =>
    have hpos := c.utf8Size_pos
    rw [feedStops]
    split
    · obtain ⟨hbehind, hpairwise⟩ := ih (offset + 1)
      refine ⟨?_, List.pairwise_cons.mpr ⟨hbehind, hpairwise⟩⟩
      intro start hstart
      rcases List.mem_cons.mp hstart with rfl | hstart
      · exact Nat.lt_succ_self offset
      · exact Nat.lt_trans (Nat.lt_succ_self offset) (hbehind start hstart)
    · obtain ⟨hbehind, hpairwise⟩ := ih (offset + c.utf8Size)
      refine ⟨?_, hpairwise⟩
      intro start hstart
      have := hbehind start hstart
      omega

theorem pairwise_lineStarts (cs : List Char) : (lineStarts cs).Pairwise (· < ·) :=
  List.pairwise_cons.mpr (pairwise_feedStops 0 cs)

theorem getElem?_feedStops_append (u v : List Char) (offset : Nat) :
    (feedStops offset (u ++ '\n' :: v))[u.count '\n']? = some (offset + width u + 1) := by
  induction u generalizing offset with
  | nil => simp [feedStops]
  | cons c u ih =>
    rw [List.cons_append, feedStops, width_cons]
    by_cases hc : c = '\n'
    · subst hc
      rw [if_pos rfl, List.count_cons_self, List.getElem?_cons_succ, ih]
      have hfeed : ('\n' : Char).utf8Size = 1 := rfl
      rw [hfeed, ← Nat.add_assoc]
    · rw [if_neg hc, List.count_cons_of_ne hc, ih, ← Nat.add_assoc]

theorem exists_of_getElem?_feedStops (h : (feedStops offset cs)[index]? = some start) :
    ∃ u v, cs = u ++ '\n' :: v ∧ u.count '\n' = index ∧ start = offset + width u + 1 := by
  induction cs generalizing offset index with
  | nil => cases h
  | cons c cs ih =>
    rw [feedStops] at h
    by_cases hc : c = '\n'
    · subst hc
      rw [if_pos rfl] at h
      cases index with
      | zero =>
        cases h
        exact ⟨[], cs, rfl, rfl, rfl⟩
      | succ index =>
        obtain ⟨u, v, rfl, rfl, rfl⟩ := ih h
        refine ⟨'\n' :: u, v, rfl, List.count_cons_self, ?_⟩
        have hfeed : ('\n' : Char).utf8Size = 1 := rfl
        rw [width_cons, hfeed, ← Nat.add_assoc]
    · rw [if_neg hc] at h
      obtain ⟨u, v, rfl, rfl, rfl⟩ := ih h
      refine ⟨c :: u, v, rfl, List.count_cons_of_ne hc, ?_⟩
      rw [width_cons, ← Nat.add_assoc]

/-- Behind whole lines another line starts, and its number is that of their line feeds. -/
theorem WholeLines.getElem?_lineStarts (h : WholeLines u) (v : List Char) :
    (lineStarts (u ++ v))[u.count '\n']? = some (width u) := by
  rcases h with rfl | ⟨w, rfl⟩
  · rfl
  · have hcount : (w ++ ['\n']).count '\n' = w.count '\n' + 1 := by simp
    rw [hcount, lineStarts, List.getElem?_cons_succ, List.append_assoc, List.singleton_append,
      getElem?_feedStops_append, width_append, Nat.zero_add]
    rfl

/-- A line starts only behind whole lines. -/
theorem exists_of_getElem?_lineStarts (h : (lineStarts cs)[index]? = some start) :
    ∃ u v, cs = u ++ v ∧ WholeLines u ∧ u.count '\n' = index ∧ width u = start := by
  cases index with
  | zero =>
    cases h
    exact ⟨[], cs, rfl, .inl rfl, rfl, rfl⟩
  | succ index =>
    obtain ⟨u, v, rfl, rfl, rfl⟩ := exists_of_getElem?_feedStops h
    refine ⟨u ++ ['\n'], v, by simp, .inr ⟨u, rfl⟩, by simp, ?_⟩
    rw [width_append, Nat.zero_add]
    rfl

/-! ## The look-up -/

/-- The difference of two numbers, unless it is negative. -/
def minus? (m n : Nat) : Option Nat :=
  if n ≤ m then some (m - n) else none

/-- The index of the line that a spot in the table of line starts belongs to. -/
def Spot.line? : Spot → Option Nat
  | here index => some index
  | between next => minus? next 1

/-- The place of an offset, looked up in the table of line starts. The characters from the start of
the line are counted if the offset is between characters, and else the bytes. -/
def lookUp? (cs : List Char) (offset : Nat) : Option LineColumn := do
  let offset := min offset (width cs)
  let spot ← search? (lineStarts cs) offset
  let line ← spot.line?
  let start ← (lineStarts cs)[line]?
  let bytes ← minus? offset start
  return ⟨line + 1, ((slice? cs start offset).map List.length).getD bytes + 1⟩

/-- The search ends at the last line that starts no later than the offset. -/
theorem exists_line (cs : List Char) (offset : Nat) :
    ∃ spot line start, search? (lineStarts cs) offset = some spot ∧ spot.line? = some line ∧
      (lineStarts cs)[line]? = some start ∧ start ≤ offset ∧
      ∀ j later, line < j → (lineStarts cs)[j]? = some later → offset < later := by
  have hinc := pairwise_lineStarts cs
  obtain ⟨spot, hsearch, hspot⟩ := exists_search? hinc offset
  cases spot with
  | here index =>
    refine ⟨_, index, offset, hsearch, rfl, hspot, Nat.le_refl offset, ?_⟩
    intro j later hj hlater
    exact lt_of_index_lt hinc hspot hlater hj
  | between next =>
    obtain ⟨hnext, hcompare⟩ := hspot
    -- the first line starts at 0, so it is not behind the spot
    have hpos : 1 ≤ next := by
      have hfirst := hcompare 0 0 rfl
      by_contra hzero
      rw [if_neg (by omega)] at hfirst
      omega
    have hline : next - 1 < (lineStarts cs).length := by omega
    have hstart := List.getElem?_eq_getElem hline
    have hle := hcompare _ _ hstart
    rw [if_pos (by omega)] at hle
    refine ⟨_, next - 1, _, hsearch, if_pos hpos, hstart, Nat.le_of_lt hle, ?_⟩
    intro j later hj hlater
    have hgt := hcompare j later hlater
    rwa [if_neg (by omega)] at hgt

variable {lines line rest : List Char} {k : Nat}

/-- The last line that starts no later than an offset is the one in which the offset stands. -/
theorem Stands.start_eq (h : Stands cs lines line rest k offset)
    (hstart : (lineStarts cs)[index]? = some start) (hle : start ≤ offset)
    (hlast : ∀ j later, index < j → (lineStarts cs)[j]? = some later → offset < later) :
    index = lines.count '\n' ∧ start = width lines := by
  obtain ⟨u, v, rfl, hwhole, rfl, rfl⟩ := exists_of_getElem?_lineStarts hstart
  have hfirst : Stands (u ++ v) u [] v 0 (width u) :=
    ⟨by simp, hwhole, List.not_mem_nil, by simp, .inl rfl⟩
  rcases hfirst.later_cases h hle with hmore | ⟨w, rfl, _⟩
  · have hlines := h.whole.getElem?_lineStarts (line ++ rest)
    rw [← List.append_assoc, ← h.text] at hlines
    have hpast := hlast _ _ hmore hlines
    have hoffset := h.offset_eq
    rw [width_append] at hoffset
    omega
  · exact ⟨rfl, rfl⟩

theorem Stands.onBoundary_iff (h : Stands cs lines line rest k offset) :
    OnBoundary cs offset ↔ k = 0 := by
  constructor
  · intro hboundary
    obtain ⟨lines', line', rest', h'⟩ := exists_stands_zero hboundary
    obtain ⟨w, hw, _⟩ := h'.exists_append h (Nat.le_refl offset)
    have hoffset := h.offset_eq
    have hoffset' := h'.offset_eq
    rw [hw, width_append] at hoffset
    omega
  · rintro rfl
    exact ⟨lines ++ line, rest, h.text, h.offset_eq.symm⟩

/-- The stretch from the start of the line can be read exactly between characters. -/
theorem Stands.slice?_eq (h : Stands cs lines line rest k offset) :
    slice? cs (width lines) offset = if k = 0 then some line else none := by
  by_cases hk : k = 0
  · subst hk
    rw [if_pos rfl]
    exact slice?_eq_some_iff.mpr ⟨lines, rest, h.text, rfl, h.offset_eq.symm⟩
  · rw [if_neg hk, Option.eq_none_iff_forall_ne_some]
    intro text htext
    obtain ⟨before, after, hcs, _, hoffset⟩ := slice?_eq_some_iff.mp htext
    exact hk (h.onBoundary_iff.mp ⟨before ++ text, after, hcs, hoffset⟩)

/-- The look-up never fails, and gives the place of the offset. -/
theorem lookUp?_eq (cs : List Char) (offset : Nat) :
    lookUp? cs offset = some (LineColumn.ofOffset cs offset) := by
  rw [lookUp?, LineColumn.ofOffset_min]
  generalize hoffset : min offset (width cs) = offset
  have hend : offset ≤ width cs := by omega
  obtain ⟨lines, line, rest, k, hstands⟩ := exists_stands hend
  obtain ⟨spot, index, start, hsearch, hline, hstart, hle, hlast⟩ := exists_line cs offset
  obtain ⟨rfl, rfl⟩ := hstands.start_eq hstart hle hlast
  have hbytes : minus? offset (width lines) = some (width line + k) := by
    have hoffset := hstands.offset_eq
    rw [width_append] at hoffset
    rw [minus?, if_pos hle, hoffset]
    congr 1
    omega
  simp only [hsearch, hline, hstart, hbytes, Option.bind_eq_bind, Option.bind_some]
  rw [hstands.slice?_eq, hstands.ofOffset_eq]
  by_cases hk : k = 0
  · rw [if_pos hk, if_pos hk]
    rfl
  · rw [if_neg hk, if_neg hk]
    rfl

/-! ## Places between characters -/

/-- The places of the offsets of a text are told by counting. -/
structure ExactIn (cs : List Char) (place : Nat → LineColumn) : Prop where
  /-- The line is one more than the line feeds in front, the column one more than the characters
  behind the last of these. -/
  boundary : ∀ before after, cs = before ++ after →
    place (width before) = ⟨1 + before.count '\n', 1 + (afterLast ['\n'] before).length⟩
  past : ∀ offset, width cs < offset → place offset = place (width cs)
  increasing : StrictMonoOn place {offset | OnBoundary cs offset}
  injective : Set.InjOn place {offset | OnBoundary cs offset}

theorem ofOffset_width (before after : List Char) :
    LineColumn.ofOffset (before ++ after) (width before) =
      ⟨1 + before.count '\n', 1 + (afterLast ['\n'] before).length⟩ := by
  obtain ⟨lines, line, rfl, hwhole, hline⟩ := exists_wholeLines before
  have hstands : Stands (lines ++ line ++ after) lines line after 0 (width (lines ++ line)) :=
    ⟨rfl, hwhole, hline, rfl, .inl rfl⟩
  rw [hstands.ofOffset_eq, hstands.count_eq, hwhole.afterLast_append hline, if_pos rfl,
    Nat.add_comm 1, Nat.add_comm 1]

theorem strictMonoOn_ofOffset (cs : List Char) :
    StrictMonoOn (LineColumn.ofOffset cs) {offset | OnBoundary cs offset} := by
  intro offset hoffset offset' hoffset' hlt
  obtain ⟨lines, line, rest, h⟩ := exists_stands_zero hoffset
  obtain ⟨lines', line', rest', h'⟩ := exists_stands_zero hoffset'
  rw [h.ofOffset_eq, h'.ofOffset_eq, if_pos rfl, if_pos rfl, LineColumn.lt_iff]
  rcases h.later_cases h' (Nat.le_of_lt hlt) with hmore | ⟨w, rfl, rfl, -, -⟩
  · exact .inl (Nat.succ_lt_succ hmore)
  · refine .inr ⟨rfl, ?_⟩
    -- there are bytes between the two offsets, so there are characters
    have hw : w ≠ [] := by
      rintro rfl
      have heq := h.offset_eq
      have heq' := h'.offset_eq
      rw [List.append_nil] at heq'
      omega
    have hlength := List.length_pos_iff.mpr hw
    show line.length + 1 < (line ++ w).length + 1
    rw [List.length_append]
    omega

end AttributeLint.Text

namespace AttributeLint.SourceFile

open Text

/-- Between characters, line and column are exact, different offsets have different places, and a
later one has a later place; past the end they are those of the end. The look-up in the table of
line starts has no fault at any offset, and it gives them. -/
theorem exactIn_lineColumn (file : SourceFile) :
    ExactIn file.text.toList file.lineColumn ∧
      ∀ offset, lookUp? file.text.toList offset = some (file.lineColumn offset) := by
  have hincreasing := strictMonoOn_ofOffset file.text.toList
  refine ⟨⟨?_, ?_, hincreasing, hincreasing.injOn⟩, lookUp?_eq file.text.toList⟩
  · intro before after htext
    rw [lineColumn, htext]
    exact ofOffset_width before after
  · intro offset hpast
    exact LineColumn.ofOffset_past (Nat.le_of_lt hpast)

end AttributeLint.SourceFile
