import AttributeLint.Usage

/-!
# Steps — reading lists and usages one step at a time

The readers of attribute lists call themselves on what another reader left, and their definitions
carry the proof that this is shorter. Here are their equations without it, which can be rewritten
with, and what they come to for tokens among which no list opens.
-/

namespace AttributeLint

namespace AttributeList

theorem attributes?_eq (source : List Char) (ts : List Token) :
    attributes? source ts =
      match Attribute.read? source ts with
      | none => none
      | some (_, []) => none
      | some (a, t :: rest) =>
        if t.kind = .rBracket then some ([a], t, rest)
        else if t.kind = .comma then
          match rest with
          | [] => none
          | u :: rest' =>
            if u.kind = .rBracket then some ([a], u, rest')
            else (attributes? source (u :: rest')).map fun (as, last) => (a :: as, last)
        else none := by
  rw [attributes?]
  split
  · rename_i h
    rw [h]
  · rename_i h
    rw [h]
  · rename_i a t rest h
    simp only [h]
    cases rest <;> rfl

theorem readRun?_cons (source : List Char) (t : Token) (ts : List Token) :
    readRun? source (t :: ts) =
      if t.kind = .lBracket then
        match read? source (t :: ts) with
        | none => none
        | some (l, rest) => (readRun? source rest).map fun (ls, after) => (l :: ls, after)
      else if t.kind = .ident then some ([], t :: ts)
      else none := by
  rw [readRun?]
  congr 1
  split <;> rename_i h <;> rw [h]

/-- Where a declaration may begin, one list is read at a bracket. -/
theorem readAt?_declaration (source : List Char) {t : Token} (ht : t.kind = .lBracket)
    (ts : List Token) :
    readAt? source .declaration (t :: ts) =
      (read? source (t :: ts)).map fun (l, rest) => ([l], rest) := by
  unfold readAt? startsHere
  rw [if_pos (decide_eq_true ht)]

/-- No list is read at a token that is no bracket. -/
theorem readAt?_of_ne (source : List Char) (boundary : Boundary) {t : Token}
    (ht : t.kind ≠ .lBracket) (ts : List Token) : readAt? source boundary (t :: ts) = none := by
  unfold readAt? startsHere
  rw [if_neg (by simpa using ht)]

end AttributeList

namespace Usage

theorem collectFrom_cons (source : List Char) (boundary : Boundary) (pending : List AttributeList)
    (t : Token) (ts : List Token) :
    collectFrom source boundary pending (t :: ts) =
      match AttributeList.readAt? source boundary (t :: ts) with
      | some (lists, rest) =>
        collectFrom source boundary (pending ++ lists.filter (!·.isGlobal)) rest
      | none => AttributeList.usages pending ++ collectFrom source (.after t) [] ts := by
  rw [collectFrom]
  split <;> rename_i h <;> rw [h]

/-- Tokens without an opening bracket add no usages of their own. -/
theorem collectFrom_of_no_bracket (source : List Char) (boundary : Boundary) {ts : List Token}
    (h : ∀ t ∈ ts, t.kind ≠ .lBracket) : collectFrom source boundary [] ts = [] := by
  induction ts generalizing boundary with
  | nil => rw [collectFrom]
  | cons t ts ih =>
    rw [collectFrom_cons, AttributeList.readAt?_of_ne source boundary (h t List.mem_cons_self)]
    exact ih (.after t) fun u hu => h u (List.mem_cons_of_mem _ hu)

end Usage

end AttributeLint
