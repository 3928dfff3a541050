import AttributeLint.Proofs.Attribute.Remainder

/-!
# Nesting — brackets that match, and the commas outside them

What stands between the parentheses of an attribute, said by counting. Brackets of all three sorts
count alike. `Balanced` asks that no beginning of the tokens closes more brackets than are open and
that all are closed in the end; `Divided` gives the groups between the commas at which as many
brackets are closed as were opened. The readers keep a single depth instead, which can be trusted
because it never falls below zero inside balanced tokens.
-/

namespace AttributeLint.Attribute

/-! ## Counting -/

/-- How many brackets the tokens open. -/
def openings (ts : List Token) : Nat :=
  ts.countP (·.kind.opens)

/-- How many brackets the tokens close. -/
def closings (ts : List Token) : Nat :=
  ts.countP (·.kind.closes)

@[simp] theorem openings_nil : openings [] = 0 := rfl

@[simp] theorem closings_nil : closings [] = 0 := rfl

@[simp] theorem openings_append (ts us : List Token) :
    openings (ts ++ us) = openings ts + openings us :=
  List.countP_append

@[simp] theorem closings_append (ts us : List Token) :
    closings (ts ++ us) = closings ts + closings us :=
  List.countP_append

theorem openings_cons (t : Token) (ts : List Token) :
    openings (t :: ts) = openings ts + if t.kind.opens then 1 else 0 :=
  List.countP_cons

theorem closings_cons (t : Token) (ts : List Token) :
    closings (t :: ts) = closings ts + if t.kind.closes then 1 else 0 :=
  List.countP_cons

/-- No token both opens and closes a bracket. -/
theorem closes_eq_false_of_opens {t : Token} (h : t.kind.opens) : t.kind.closes = false := by
  revert h
  cases t.kind <;> simp [Token.Kind.opens, Token.Kind.closes]

/-! ## Balanced tokens -/

/-- Behind `depth` open brackets, nowhere are more brackets closed than are open. -/
def Nested (depth : Nat) (ts : List Token) : Prop :=
  ∀ front, front <+: ts → closings front ≤ depth + openings front

/-- Behind `depth` open brackets, the tokens close all of them and all that they open, and none
before it is opened. No semicolon is among them. -/
structure Balanced (depth : Nat) (ts : List Token) : Prop where
  nested : Nested depth ts
  settled : closings ts = depth + openings ts
  semicolon : ∀ t ∈ ts, t.kind ≠ .semicolon

variable {depth : Nat} {t : Token} {ts body rest : List Token}

theorem nested_cons_iff :
    Nested depth (t :: ts) ↔
      closings [t] ≤ depth + openings [t] ∧ Nested (depth + openings [t] - closings [t]) ts := by
  constructor
  · intro h
    have hfirst := h [t] (List.prefix_append [t] ts)
    refine ⟨hfirst, fun front hfront => ?_⟩
    have := h (t :: front) (List.cons_prefix_cons.mpr ⟨rfl, hfront⟩)
    rw [← List.singleton_append, openings_append, closings_append] at this
    omega
  · rintro ⟨hfirst, h⟩ front hfront
    cases front with
    | nil => exact Nat.zero_le _
    | cons u front =>
      obtain ⟨rfl, hrest⟩ := List.cons_prefix_cons.mp hfront
      have := h front hrest
      rw [← List.singleton_append, openings_append, closings_append]
      omega

/-- What was opened before and not closed is open behind. -/
theorem Nested.of_append (h : Nested depth (ts ++ rest)) :
    Nested (depth + openings ts - closings ts) rest := by
  intro front hfront
  have := h (ts ++ front) ((List.prefix_append_right_inj ts).mpr hfront)
  rw [openings_append, closings_append] at this
  omega

theorem balanced_nil_iff : Balanced depth [] ↔ depth = 0 := by
  constructor
  · intro h
    have := h.settled
    simpa using this.symm
  · rintro rfl
    refine ⟨fun front hfront => ?_, rfl, fun t ht => by cases ht⟩
    rw [List.prefix_nil.mp hfront]
    exact Nat.le_refl 0

/-- The depth behind a token takes the place of the token. -/
theorem balanced_cons_iff :
    Balanced depth (t :: ts) ↔ t.kind ≠ .semicolon ∧ closings [t] ≤ depth + openings [t] ∧
      Balanced (depth + openings [t] - closings [t]) ts := by
  constructor
  · rintro ⟨hnested, hsettled, hsemicolon⟩
    rw [List.forall_mem_cons] at hsemicolon
    obtain ⟨hfirst, hnested⟩ := nested_cons_iff.mp hnested
    refine ⟨hsemicolon.1, hfirst, hnested, ?_, hsemicolon.2⟩
    rw [← List.singleton_append, openings_append, closings_append] at hsettled
    omega
  · rintro ⟨ht, hfirst, hnested, hsettled, hsemicolon⟩
    refine ⟨nested_cons_iff.mpr ⟨hfirst, hnested⟩, ?_, List.forall_mem_cons.mpr ⟨ht, hsemicolon⟩⟩
    rw [← List.singleton_append, openings_append, closings_append]
    omega

theorem balanced_cons_of_opens (h : t.kind.opens) :
    Balanced depth (t :: ts) ↔ Balanced (depth + 1) ts := by
  have hsemicolon : t.kind ≠ .semicolon := by
    intro ht
    rw [ht] at h
    cases h
  have hclosings : closings [t] = 0 := by simp [closings_cons, closes_eq_false_of_opens h]
  have hopenings : openings [t] = 1 := by simp [openings_cons, h]
  rw [balanced_cons_iff, hclosings, hopenings]
  simp [hsemicolon]

theorem balanced_cons_of_closes (h : t.kind.closes) :
    Balanced depth (t :: ts) ↔ 0 < depth ∧ Balanced (depth - 1) ts := by
  have hsemicolon : t.kind ≠ .semicolon := by
    intro ht
    rw [ht] at h
    cases h
  have hopens : ¬ t.kind.opens := by
    intro ht
    rw [closes_eq_false_of_opens ht] at h
    cases h
  have hclosings : closings [t] = 1 := by simp [closings_cons, h]
  have hopenings : openings [t] = 0 := by simp [openings_cons, hopens]
  rw [balanced_cons_iff, hclosings, hopenings]
  simp [hsemicolon, Nat.succ_le_iff]

theorem balanced_cons_of_neither (hopens : ¬ t.kind.opens) (hcloses : ¬ t.kind.closes) :
    Balanced depth (t :: ts) ↔ t.kind ≠ .semicolon ∧ Balanced depth ts := by
  have hclosings : closings [t] = 0 := by simp [closings_cons, hcloses]
  have hopenings : openings [t] = 0 := by simp [openings_cons, hopens]
  rw [balanced_cons_iff, hclosings, hopenings]
  simp

/-! ## The body between parentheses -/

theorem balanced_of_enclosed? (h : enclosed? (depth + 1) ts = some (body, rest)) :
    Balanced depth body := by
  induction ts generalizing depth body with
  | nil => cases h
  | cons t ts ih =>
    rw [enclosed?] at h
    split at h
    · rename_i hopens
      obtain ⟨⟨body, rest⟩, h', he⟩ := Option.map_eq_some_iff.mp h
      cases he
      exact (balanced_cons_of_opens hopens).mpr (ih h')
    rename_i hopens
    split at h
    · rename_i hcloses
      rw [if_neg (Nat.succ_ne_zero depth)] at h
      split at h
      · rename_i hdepth
        obtain rfl : depth = 0 := by omega
        split at h
        · cases h
          exact balanced_nil_iff.mpr rfl
        · cases h
      · obtain ⟨depth, rfl⟩ := Nat.exists_eq_succ_of_ne_zero (n := depth) (by omega)
        obtain ⟨⟨body, rest⟩, h', he⟩ := Option.map_eq_some_iff.mp h
        cases he
        exact (balanced_cons_of_closes hcloses).mpr ⟨Nat.succ_pos depth, ih h'⟩
    rename_i hcloses
    split at h
    · cases h
    · rename_i hsemicolon
      obtain ⟨⟨body, rest⟩, h', he⟩ := Option.map_eq_some_iff.mp h
      cases he
      exact (balanced_cons_of_neither hopens hcloses).mpr ⟨hsemicolon, ih h'⟩

theorem enclosed?_of_balanced (h : Balanced depth body) {closing : Token}
    (hclosing : closing.kind = .rParen) (rest : List Token) :
    enclosed? (depth + 1) (body ++ closing :: rest) = some (body, rest) := by
  induction body generalizing depth with
  | nil =>
    obtain rfl := balanced_nil_iff.mp h
    simp [enclosed?, hclosing, Token.Kind.opens, Token.Kind.closes]
  | cons t body ih =>
    rw [List.cons_append, enclosed?]
    by_cases hopens : t.kind.opens
    · rw [if_pos hopens, ih ((balanced_cons_of_opens hopens).mp h)]
      rfl
    rw [if_neg hopens]
    by_cases hcloses : t.kind.closes
    · obtain ⟨hpos, hbody⟩ := (balanced_cons_of_closes hcloses).mp h
      obtain ⟨depth, rfl⟩ := Nat.exists_eq_succ_of_ne_zero (Nat.pos_iff_ne_zero.mp hpos)
      rw [if_pos hcloses, if_neg (by omega), if_neg (by omega)]
      simp only [Nat.succ_eq_add_one, Nat.add_sub_cancel] at hbody ⊢
      rw [ih hbody]
      rfl
    · obtain ⟨hsemicolon, hbody⟩ := (balanced_cons_of_neither hopens hcloses).mp h
      rw [if_neg hcloses, if_neg hsemicolon, ih hbody]
      rfl

/-- The search for the closing parenthesis succeeds exactly on balanced tokens with one behind
them. -/
theorem enclosed?_eq_some_iff :
    enclosed? (depth + 1) ts = some (body, rest) ↔
      Balanced depth body ∧ ∃ closing : Token, closing.kind = .rParen ∧
        ts = body ++ closing :: rest := by
  constructor
  · intro h
    exact ⟨balanced_of_enclosed? h, eq_append_of_enclosed? h⟩
  · rintro ⟨hbalanced, closing, hclosing, rfl⟩
    exact enclosed?_of_balanced hbalanced hclosing rest

/-! ## Groups between commas -/

/-- At every comma of the group a bracket is open. -/
def Undivided (group : List Token) : Prop :=
  ∀ front comma, front ++ [comma] <+: group → comma.kind = .comma → closings front ≠ openings front

/-- The groups of tokens between the commas that stand outside all brackets. -/
inductive Divided : List Token → List (List Token) → Prop where
  | last {group : List Token} : Undivided group → Divided group [group]
  | cons {group rest : List Token} {comma : Token} {groups : List (List Token)} :
      Undivided group → closings group = openings group → comma.kind = .comma →
        Divided rest groups → Divided (group ++ comma :: rest) (group :: groups)

theorem undivided_nil : Undivided [] := by
  intro front comma h
  exact absurd (List.prefix_nil.mp h) (by simp)

theorem Undivided.append_singleton {group : List Token} (h : Undivided group)
    (ht : t.kind = .comma → closings group ≠ openings group) : Undivided (group ++ [t]) := by
  intro front comma hfront hcomma
  rcases List.prefix_concat_iff.mp hfront with heq | hfront
  · obtain ⟨rfl, hlast⟩ := List.append_inj' heq rfl
    rw [List.singleton_inj.mp hlast] at hcomma
    exact ht hcomma
  · exact h front comma hfront hcomma

/-- Tokens are divided in one way only. -/
theorem Divided.unique {groups groups' : List (List Token)} (h : Divided ts groups)
    (h' : Divided ts groups') : groups = groups' := by
  -- a group cannot end inside another one: the comma behind it would divide that one
  have hnotInside {group more : List Token} {comma : Token} (hdivides : comma.kind = .comma)
      (heven : closings group = openings group) (hundivided : Undivided (group ++ comma :: more)) :
      False :=
    hundivided group comma (by simp) hdivides heven
  induction h generalizing groups' with
  | last hundivided =>
    cases h' with
    | last => rfl
    | cons _ heven hcomma _ => exact (hnotInside hcomma heven hundivided).elim
  | @cons group rest comma groups hundivided heven hcomma _ ih =>
    generalize hts : group ++ comma :: rest = ts at h'
    cases h' with
    | last hundivided' =>
      subst hts
      exact (hnotInside hcomma heven hundivided').elim
    | @cons group' rest' comma' groups' hundivided' heven' hcomma' hrest' =>
      rcases List.append_eq_append_iff.mp hts with ⟨more, rfl, hmore⟩ | ⟨more, rfl, hmore⟩
      · cases more with
        | nil =>
          cases hmore
          rw [List.append_nil, ih hrest']
        | cons d more =>
          cases hmore
          exact (hnotInside hcomma heven hundivided').elim
      · cases more with
        | nil =>
          cases hmore
          rw [List.append_nil, ih hrest']
        | cons d more =>
          cases hmore
          exact (hnotInside hcomma' heven' hundivided).elim

theorem Divided.sublist {groups : List (List Token)} (h : Divided ts groups) :
    ∀ group ∈ groups, group.Sublist ts := by
  induction h with
  | last _ => simp
  | @cons group rest comma groups _ _ _ _ ih =>
    refine List.forall_mem_cons.mpr ⟨List.sublist_append_left group _, fun other hother => ?_⟩
    exact (ih other hother).trans ((List.sublist_cons_self comma rest).trans
      (List.sublist_append_right group _))

theorem depthAfter_eq (depth : Nat) (t : Token) :
    depthAfter depth t = depth + openings [t] - closings [t] := by
  by_cases hopens : t.kind.opens
  · simp [depthAfter, openings_cons, closings_cons, hopens, closes_eq_false_of_opens hopens]
  · by_cases hcloses : t.kind.closes
    · simp [depthAfter, openings_cons, closings_cons, hopens, hcloses]
    · simp [depthAfter, openings_cons, closings_cons, hopens, hcloses]

/-- The depth that the reader keeps is the number of brackets that are open, and the groups that it
finds continue the one that it is in. -/
theorem divided_splitAtCommas {before : List Token} (hnested : Nested 0 (before ++ ts))
    (hundivided : Undivided before) (hdepth : depth + closings before = openings before) :
    Divided (before ++ ts) ((splitAtCommas depth ts).modifyHead (before ++ ·)) := by
  induction ts generalizing before depth with
  | nil => simpa [splitAtCommas] using Divided.last hundivided
  | cons t ts ih =>
    have happend : before ++ t :: ts = before ++ [t] ++ ts := by simp
    by_cases hcomma : t.kind = .comma ∧ depth = 0
    -- the group is complete, and an empty one begins behind the comma
    · obtain ⟨ht, rfl⟩ := hcomma
      have heven : closings before = openings before := by omega
      have hcounts : openings [t] = 0 ∧ closings [t] = 0 := by
        simp [openings_cons, closings_cons, ht, Token.Kind.opens, Token.Kind.closes]
      have hrest : Nested 0 ts := by
        rw [happend] at hnested
        have hbehind := hnested.of_append
        rw [openings_append, closings_append, hcounts.1, hcounts.2, heven] at hbehind
        simpa using hbehind
      have htail := @ih 0 [] hrest undivided_nil rfl
      rw [modifyHead_nil_append] at htail
      rw [splitAtCommas, if_pos ⟨ht, rfl⟩, List.modifyHead_cons, List.append_nil]
      exact .cons hundivided heven ht htail
    · have hfront := hnested (before ++ [t]) ⟨ts, happend.symm⟩
      have hstep : depthAfter depth t + closings (before ++ [t]) = openings (before ++ [t]) := by
        rw [depthAfter_eq]
        rw [openings_append, closings_append] at hfront ⊢
        omega
      have hundivided' : Undivided (before ++ [t]) := by
        refine hundivided.append_singleton fun ht heven => hcomma ⟨ht, ?_⟩
        omega
      have htail := ih (by rwa [← happend]) hundivided' hstep
      rw [splitAtCommas_cons hcomma, List.modifyHead_modifyHead, happend]
      simpa [Function.comp_def] using htail

/-- Of nested tokens, the reader's groups are those between the commas outside all brackets. -/
theorem splitAtCommas_eq_iff (h : Nested 0 ts) (groups : List (List Token)) :
    splitAtCommas 0 ts = groups ↔ Divided ts groups := by
  have hdivided : Divided ts (splitAtCommas 0 ts) := by
    have hall := @divided_splitAtCommas 0 ts [] h undivided_nil rfl
    rwa [modifyHead_nil_append] at hall
  constructor
  · rintro rfl
    exact hdivided
  · exact hdivided.unique

end AttributeLint.Attribute
