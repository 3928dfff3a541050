/-!
# CharSet — finite sets of characters

A set of characters is kept as its members in the order of code points, each once, so equal sets
are equal values.
-/

namespace AttributeLint.Text

/-- A finite set of characters, listed in the order of code points. -/
structure CharSet where
  toList : List Char
  increasing : toList.Pairwise (· < ·)
  deriving DecidableEq, Repr

namespace CharSet

/-- Puts a character into a list in its place, unless it is there. -/
def insertInto (c : Char) : List Char → List Char
  | [] => [c]
  | d :: ds => if c < d then c :: d :: ds else if c = d then d :: ds else d :: insertInto c ds

theorem mem_insertInto {a c : Char} {ds : List Char} : a ∈ insertInto c ds ↔ a = c ∨ a ∈ ds := by
  induction ds with
  | nil => simp [insertInto]
  | cons d ds ih =>
    simp only [insertInto]
    split
    · simp
    · split
      · rename_i h
        simp [h]
      · simp only [List.mem_cons, ih]
        exact ⟨fun h => by rcases h with h | h | h <;> simp [h],
          fun h => by rcases h with h | h | h <;> simp [h]⟩

theorem increasing_insertInto {c : Char} {ds : List Char} (h : ds.Pairwise (· < ·)) :
    (insertInto c ds).Pairwise (· < ·) := by
  induction ds with
  | nil => simp [insertInto]
  | cons d ds ih =>
    obtain ⟨hd, hds⟩ := List.pairwise_cons.mp h
    simp only [insertInto]
    split
    · rename_i hc
      refine List.pairwise_cons.mpr ⟨fun a ha => ?_, h⟩
      rcases List.mem_cons.mp ha with rfl | ha
      · exact hc
      · exact Char.lt_trans hc (hd a ha)
    · rename_i hc
      split
      · exact h
      · rename_i hne
        refine List.pairwise_cons.mpr ⟨fun a ha => ?_, ih hds⟩
        rcases mem_insertInto.mp ha with rfl | ha
        · exact Char.not_le.mp fun hle => hne (Char.le_antisymm hle (Char.not_lt.mp hc))
        · exact hd a ha

/-- The set without members. -/
def empty : CharSet :=
  ⟨[], .nil⟩

/-- The set with one more member. -/
def insert (s : CharSet) (c : Char) : CharSet :=
  ⟨insertInto c s.toList, increasing_insertInto s.increasing⟩

/-- The set of the characters in a list. -/
def ofList (cs : List Char) : CharSet :=
  cs.foldl insert empty

/-- The character is a member. -/
def contains (s : CharSet) (c : Char) : Bool :=
  s.toList.contains c

end CharSet

end AttributeLint.Text
