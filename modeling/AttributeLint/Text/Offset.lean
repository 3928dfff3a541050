/-!
# Offset — byte offsets into a text

A source is read as characters, and its places are named by offsets that count UTF-8 bytes. This
file holds the width of a text, the two halves into which an offset splits it, and the stretch
between two offsets. An offset that lies inside a character is rounded up to the end of it; the
offsets of tokens never do (`OnBoundary`).
-/

namespace AttributeLint.Text

/-- The number of UTF-8 bytes of a text. -/
def width : List Char → Nat
  | [] => 0
  | c :: cs => c.utf8Size + width cs

/-- What remains of a text after its first `n` bytes. -/
def dropBytes : Nat → List Char → List Char
  | 0, cs => cs
  | _ + 1, [] => []
  | n + 1, c :: cs => dropBytes (n + 1 - c.utf8Size) cs

/-- The first `n` bytes of a text. -/
def takeBytes : Nat → List Char → List Char
  | 0, _ => []
  | _ + 1, [] => []
  | n + 1, c :: cs => c :: takeBytes (n + 1 - c.utf8Size) cs

/-- The stretch of a text from the offset `start` up to the offset `stop`. -/
def slice (cs : List Char) (start stop : Nat) : List Char :=
  takeBytes (stop - start) (dropBytes start cs)

/-- The offset `n` is not past the end of the text and not inside a character of it. -/
def OnBoundary (cs : List Char) (n : Nat) : Prop :=
  ∃ before after, cs = before ++ after ∧ width before = n

@[simp] theorem width_nil : width [] = 0 := rfl

@[simp] theorem width_cons (c : Char) (cs : List Char) :
    width (c :: cs) = c.utf8Size + width cs := rfl

@[simp] theorem width_append (u v : List Char) : width (u ++ v) = width u + width v := by
  induction u with
  | nil => simp
  | cons c u ih => simp [ih, Nat.add_assoc]

/-- A text without bytes has no characters. -/
theorem eq_nil_of_width_eq_zero {cs : List Char} (h : width cs = 0) : cs = [] := by
  cases cs with
  | nil => rfl
  | cons c cs =>
    have := c.utf8Size_pos
    simp only [width_cons] at h
    omega

theorem length_le_width (cs : List Char) : cs.length ≤ width cs := by
  induction cs with
  | nil => simp
  | cons c cs ih =>
    have := c.utf8Size_pos
    simp only [List.length_cons, width_cons]
    omega

/-- The width of a string's characters is its length in UTF-8. -/
theorem width_toList (s : String) : width s.toList = s.utf8ByteSize := by
  have hofList (cs : List Char) : width cs = (String.ofList cs).utf8ByteSize := by
    induction cs with
    | nil => simp
    | cons c cs ih =>
      have h : String.ofList (c :: cs) = String.singleton c ++ String.ofList cs := by simp
      rw [width_cons, ih, h, String.utf8ByteSize_append, String.utf8ByteSize_singleton]
  rw [hofList, String.ofList_toList]

/-- Behind the width of a beginning, dropping goes on in the end. -/
theorem dropBytes_add_width (n : Nat) (u v : List Char) :
    dropBytes (n + width u) (u ++ v) = dropBytes n v := by
  induction u with
  | nil => rfl
  | cons c u ih =>
    have := c.utf8Size_pos
    obtain ⟨m, hm⟩ : ∃ m, n + width (c :: u) = m + 1 :=
      ⟨n + width (c :: u) - 1, by rw [width_cons]; omega⟩
    have hrest : m + 1 - c.utf8Size = n + width u := by
      rw [width_cons] at hm
      omega
    rw [List.cons_append, hm, dropBytes, hrest, ih]

/-- Dropping the width of a beginning leaves the end. -/
@[simp] theorem dropBytes_width_append (u v : List Char) : dropBytes (width u) (u ++ v) = v := by
  have h := dropBytes_add_width 0 u v
  rwa [Nat.zero_add, dropBytes] at h

/-- Taking the width of a beginning gives the beginning. -/
@[simp] theorem takeBytes_width_append (u v : List Char) : takeBytes (width u) (u ++ v) = u := by
  induction u with
  | nil => simp [takeBytes]
  | cons c u ih =>
    have := c.utf8Size_pos
    obtain ⟨n, hn⟩ : ∃ n, c.utf8Size + width u = n + 1 := ⟨c.utf8Size + width u - 1, by omega⟩
    rw [List.cons_append, width_cons, hn, takeBytes, ← hn, Nat.add_sub_cancel_left, ih]

/-- The stretch between the ends of two beginnings is what the longer one adds. -/
theorem slice_append (u v w : List Char) :
    slice (u ++ v ++ w) (width u) (width u + width v) = v := by
  rw [slice, Nat.add_sub_cancel_left, List.append_assoc, dropBytes_width_append,
    takeBytes_width_append]

end AttributeLint.Text
