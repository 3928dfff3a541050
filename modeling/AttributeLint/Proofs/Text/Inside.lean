import AttributeLint.Text.LineColumn
import Mathlib.Algebra.Group.Nat.Defs

/-!
# Inside — offsets that are not past the end of a text

An offset past the end is taken for the end when its line and column are told, and two offsets that
are added in a machine word may wrap around. Neither can happen to offsets inside a text:
`Unclamped` asks that the answer would be the same if the text went on, and `AddsIn` that the sum of
two words is the sum of the numbers.
-/

namespace AttributeLint.Text

/-! ## Lines and columns -/

/-- The place of the offset does not depend on where the text ends. -/
def Unclamped (cs : List Char) (offset : Nat) : Prop :=
  ∀ more, LineColumn.ofOffset (cs ++ more) offset = LineColumn.ofOffset cs offset

variable {cs : List Char} {offset : Nat}

theorem walk_append (h : offset ≤ width cs) (line chars bytes : Nat) (more : List Char) :
    LineColumn.walk line chars bytes (cs ++ more) offset =
      LineColumn.walk line chars bytes cs offset := by
  induction cs generalizing line chars bytes offset with
  | nil =>
    obtain rfl : offset = 0 := by simpa using h
    cases more <;> rfl
  | cons c cs ih =>
    rw [width_cons] at h
    have hrest : offset - c.utf8Size ≤ width cs := by omega
    rw [List.cons_append, LineColumn.walk, LineColumn.walk, ih hrest, ih hrest]

/-- Past the end a further line feed is counted. -/
theorem line_walk_append_feed (h : width cs < offset) (line chars bytes : Nat) :
    (LineColumn.walk line chars bytes (cs ++ ['\n']) offset).line =
      (LineColumn.walk line chars bytes cs offset).line + 1 := by
  induction cs generalizing line chars bytes offset with
  | nil =>
    have hpos : offset ≠ 0 := Nat.pos_iff_ne_zero.mp h
    have hfeed : ¬ offset < '\n'.utf8Size := Nat.not_lt.mpr h
    rw [List.nil_append]
    simp only [LineColumn.walk, if_neg hpos, if_neg hfeed, if_true]
  | cons c cs ih =>
    rw [width_cons] at h
    have hpos : offset ≠ 0 := by omega
    have hwide : ¬ offset < c.utf8Size := by omega
    have hrest : width cs < offset - c.utf8Size := by omega
    rw [List.cons_append]
    simp only [LineColumn.walk, if_neg hpos, if_neg hwide]
    split
    · exact ih hrest _ _ _
    · exact ih hrest _ _ _

theorem unclamped_iff : Unclamped cs offset ↔ offset ≤ width cs := by
  constructor
  · intro h
    refine Nat.le_of_not_lt fun hpast => ?_
    have hline := line_walk_append_feed hpast 0 0 0
    have hsame := congrArg LineColumn.line (h ['\n'])
    rw [LineColumn.ofOffset, LineColumn.ofOffset, hline] at hsame
    omega
  · intro h more
    exact walk_append h 0 0 0 more

/-! ## Words -/

/-- The sum of two numbers in words of `bits` bits is their sum. -/
def AddsIn (bits a b : Nat) : Prop :=
  (BitVec.ofNat bits a + BitVec.ofNat bits b).toNat = a + b

theorem addsIn_iff {bits a b : Nat} : AddsIn bits a b ↔ a + b < 2 ^ bits := by
  rw [AddsIn, ← BitVec.ofNat_add, BitVec.toNat_ofNat]
  exact Nat.mod_eq_iff_lt (Nat.pos_iff_ne_zero.mp (Nat.two_pow_pos bits))

end AttributeLint.Text
