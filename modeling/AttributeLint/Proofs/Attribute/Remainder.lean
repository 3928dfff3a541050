import AttributeLint.Usage

/-!
# Remainder — what the readers of attribute lists leave

A reader takes tokens from the front, so what it leaves is an end of the tokens it was given. The
body of an argument list is what stands between its parentheses, and the commas that divide it
never leave fewer than one group.
-/

namespace AttributeLint

namespace Attribute

variable {source : List Char} {ts rest : List Token}

theorem nameTail?_suffix {tail : String} (h : nameTail? ts = some (tail, rest)) : rest <:+ ts := by
  fun_induction nameTail? ts generalizing tail rest with
  | case1 =>
    cases h
    exact List.suffix_rfl
  | case2 separator part ts _ _ _ ih =>
    obtain ⟨⟨tail', rest'⟩, h', he⟩ := Option.map_eq_some_iff.mp h
    cases he
    exact (ih h').trans (List.suffix_append [separator, part] ts)
  | case3 => cases h
  | case4 =>
    cases h
    exact List.suffix_rfl

theorem name?_suffix {name : String} (h : name? ts = some (name, rest)) : rest <:+ ts := by
  cases ts with
  | nil => cases h
  | cons t ts =>
    rw [name?] at h
    split at h
    · obtain ⟨⟨tail, rest'⟩, h', he⟩ := Option.map_eq_some_iff.mp h
      cases he
      exact (nameTail?_suffix h').trans (List.suffix_cons t ts)
    · cases h

/-- The body, a closing parenthesis, and what is left make up the tokens. -/
theorem eq_append_of_enclosed? {depth : Nat} {body : List Token}
    (h : enclosed? depth ts = some (body, rest)) :
    ∃ closing : Token, closing.kind = .rParen ∧ ts = body ++ closing :: rest := by
  fun_induction enclosed? depth ts generalizing body rest with
  | case1 => cases h
  | case2 depth t ts _ ih =>
    obtain ⟨⟨body', rest'⟩, h', he⟩ := Option.map_eq_some_iff.mp h
    cases he
    obtain ⟨closing, hclosing, rfl⟩ := ih h'
    exact ⟨closing, hclosing, rfl⟩
  | case3 => cases h
  | case4 t ts _ _ hclosing =>
    cases h
    exact ⟨t, hclosing, rfl⟩
  | case5 => cases h
  | case6 depth t ts _ _ _ _ ih =>
    obtain ⟨⟨body', rest'⟩, h', he⟩ := Option.map_eq_some_iff.mp h
    cases he
    obtain ⟨closing, hclosing, rfl⟩ := ih h'
    exact ⟨closing, hclosing, rfl⟩
  | case7 => cases h
  | case8 depth t ts _ _ _ ih =>
    obtain ⟨⟨body', rest'⟩, h', he⟩ := Option.map_eq_some_iff.mp h
    cases he
    obtain ⟨closing, hclosing, rfl⟩ := ih h'
    exact ⟨closing, hclosing, rfl⟩

theorem enclosed?_suffix {depth : Nat} {body : List Token}
    (h : enclosed? depth ts = some (body, rest)) : rest <:+ ts := by
  obtain ⟨closing, _, rfl⟩ := eq_append_of_enclosed? h
  exact (List.suffix_cons closing rest).trans (List.suffix_append body _)

theorem binding_suffix (ts : List Token) : (binding ts).2 <:+ ts := by
  unfold binding
  split
  · rename_i t mark ts
    split
    · exact List.suffix_append [t, mark] ts
    split
    · exact List.suffix_append [t, mark] ts
    · exact List.suffix_rfl
  · exact List.suffix_rfl

theorem splitAtCommas_ne_nil (depth : Nat) (ts : List Token) :
    splitAtCommas depth ts ≠ [] := by
  cases ts with
  | nil => exact List.cons_ne_nil _ _
  | cons t ts =>
    rw [splitAtCommas]
    split
    · exact List.cons_ne_nil _ _
    · split
      · exact List.cons_ne_nil _ _
      · exact List.cons_ne_nil _ _

/-- A token that is not a separating comma belongs to the first group. -/
theorem splitAtCommas_cons {t : Token} {depth : Nat} (ht : ¬(t.kind = .comma ∧ depth = 0))
    (ts : List Token) :
    splitAtCommas depth (t :: ts) =
      (splitAtCommas (depthAfter depth t) ts).modifyHead (t :: ·) := by
  rw [splitAtCommas, if_neg ht]
  cases hgroups : splitAtCommas (depthAfter depth t) ts with
  | nil => exact absurd hgroups (splitAtCommas_ne_nil _ _)
  | cons group groups => rfl

theorem modifyHead_nil_append (groups : List (List Token)) :
    groups.modifyHead ([] ++ ·) = groups := by
  cases groups <;> rfl

theorem read?_suffix {a : Attribute} (h : read? source ts = some (a, rest)) : rest <:+ ts := by
  unfold read? at h
  split at h
  · cases h
  · rename_i hn
    cases h
    exact name?_suffix hn
  · rename_i t after hn
    split at h
    · split at h
      · cases h
      · rename_i he
        obtain ⟨_, _, heq⟩ := Option.map_eq_some_iff.mp h
        cases heq
        exact (enclosed?_suffix he).trans ((List.suffix_cons t after).trans (name?_suffix hn))
    · cases h
      exact name?_suffix hn

end Attribute

namespace AttributeList

variable {source : List Char} {ts rest : List Token}

theorem splitTarget_suffix (ts : List Token) : (splitTarget ts).2 <:+ ts := by
  unfold splitTarget
  split
  · rename_i t colon ts
    split
    · exact List.suffix_append [t, colon] ts
    · exact List.suffix_rfl
  · exact List.suffix_rfl

/-- The closing bracket stands just before what is left. -/
theorem attributes?_suffix {as : List Attribute} {closing : Token}
    (h : attributes? source ts = some (as, closing, rest)) : closing :: rest <:+ ts := by
  fun_induction attributes? source ts generalizing as closing rest with
  | case1 => cases h
  | case2 => cases h
  | case3 ts a t rest' hr _ =>
    cases h
    exact Attribute.read?_suffix hr
  | case4 => cases h
  | case5 ts a t _ _ u rest' hr _ =>
    cases h
    exact (List.suffix_cons t _).trans (Attribute.read?_suffix hr)
  | case6 ts a t _ _ u rest' hr _ _ ih =>
    obtain ⟨⟨as', last⟩, h', he⟩ := Option.map_eq_some_iff.mp h
    cases he
    exact (ih h').trans ((List.suffix_cons t _).trans (Attribute.read?_suffix hr))
  | case7 => cases h

theorem read?_suffix {l : AttributeList} (h : read? source ts = some (l, rest)) : rest <:+ ts := by
  cases ts with
  | nil => cases h
  | cons t ts =>
    obtain ⟨⟨as, closing, rest'⟩, h', he⟩ := Option.map_eq_some_iff.mp h
    cases he
    exact (List.suffix_cons closing _).trans ((attributes?_suffix h').trans
      ((splitTarget_suffix ts).trans (List.suffix_cons t ts)))

theorem readRun?_suffix {ls : List AttributeList} (h : readRun? source ts = some (ls, rest)) :
    rest <:+ ts := by
  fun_induction readRun? source ts generalizing ls rest with
  | case1 => cases h
  | case2 => cases h
  | case3 t ts _ l rest' hr ih =>
    obtain ⟨⟨ls', after⟩, h', he⟩ := Option.map_eq_some_iff.mp h
    cases he
    exact (ih h').trans (read?_suffix hr)
  | case4 =>
    cases h
    exact List.suffix_rfl
  | case5 => cases h

theorem readAt?_suffix {boundary : Boundary} {ls : List AttributeList}
    (h : readAt? source boundary ts = some (ls, rest)) : rest <:+ ts := by
  unfold readAt? at h
  split at h
  · cases boundary with
    | declaration =>
      obtain ⟨⟨l, rest'⟩, h', he⟩ := Option.map_eq_some_iff.mp h
      cases he
      exact read?_suffix h'
    | member => exact readRun?_suffix h
    | inside => cases h
  · cases h

end AttributeList

end AttributeLint
