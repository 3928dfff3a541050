/-!
# Cut — splitting a text at a mark

A mark is a short text such as a closing delimiter or a separator. `after?` reads one at the front,
`cutAt` splits at its first appearance, `afterLast` keeps what follows its last one, and `lines`
splits at every line feed. `upTo` recovers what was read from what a reader left.
-/

namespace AttributeLint.Text

/-- What follows `mark` when the text begins with it. -/
def after? : List Char → List Char → Option (List Char)
  | [], cs => some cs
  | _ :: _, [] => none
  | m :: mark, c :: cs => if m = c then after? mark cs else none

/-- The text before the first appearance of `mark` and the text after it, or nothing when `mark`
does not appear. -/
def cutAt (mark : List Char) : List Char → Option (List Char × List Char)
  | [] => (after? mark []).map fun rest => ([], rest)
  | c :: cs =>
    match after? mark (c :: cs) with
    | some rest => some ([], rest)
    | none => (cutAt mark cs).map fun (before, rest) => (c :: before, rest)

/-- The text after the last appearance of `mark`, or nothing when `mark` does not appear. -/
def afterLast? (mark : List Char) : List Char → Option (List Char)
  | [] => none
  | c :: cs =>
    match afterLast? mark cs with
    | some rest => some rest
    | none => after? mark (c :: cs)

/-- The text after the last appearance of `mark`, or all of it when `mark` does not appear. -/
def afterLast (mark : List Char) (cs : List Char) : List Char :=
  (afterLast? mark cs).getD cs

/-- The lines of a text: the stretches between its line feeds. -/
def lines (cs : List Char) : List (List Char) :=
  cs.splitOn '\n'

/-- The part of a text before `rest`, an end of it. -/
def upTo (rest cs : List Char) : List Char :=
  cs.take (cs.length - rest.length)

/-- Reading a mark succeeds exactly on the texts that it begins. -/
theorem after?_eq_some_iff {mark cs rest : List Char} :
    after? mark cs = some rest ↔ cs = mark ++ rest := by
  induction mark generalizing cs with
  | nil => simp [after?]
  | cons m mark ih =>
    cases cs with
    | nil => simp [after?]
    | cons c cs =>
      by_cases h : m = c
      · simp [after?, h, ih]
      · simp [after?, h, Ne.symm h]

/-- What stands before a mark, the mark, and what stands after it make up the text. -/
theorem eq_of_cutAt {mark cs before rest : List Char} (h : cutAt mark cs = some (before, rest)) :
    cs = before ++ mark ++ rest := by
  induction cs generalizing before with
  | nil =>
    obtain ⟨r, hr, he⟩ := Option.map_eq_some_iff.mp h
    cases he
    simpa using after?_eq_some_iff.mp hr
  | cons c cs ih =>
    simp only [cutAt] at h
    split at h
    · rename_i r hr
      cases h
      simpa using after?_eq_some_iff.mp hr
    · obtain ⟨⟨u, v⟩, hu, he⟩ := Option.map_eq_some_iff.mp h
      cases he
      simp [ih hu]

theorem cutAt_suffix {mark cs before rest : List Char}
    (h : cutAt mark cs = some (before, rest)) : rest <:+ cs :=
  ⟨before ++ mark, (eq_of_cutAt h).symm⟩

/-- What was read and what was left make up the text. -/
theorem upTo_append {rest cs : List Char} (h : rest <:+ cs) : upTo rest cs ++ rest = cs := by
  obtain ⟨before, rfl⟩ := h
  simp [upTo]

end AttributeLint.Text
