import AttributeLint.Proofs.Attribute.Nesting
import AttributeLint.Proofs.Usage.IndexedUsages

/-!
# Counters — two counts of the brackets that are open

The open brackets of an argument list are counted twice: by the search for the parenthesis that
closes the list, which gives up when a bracket is closed that was not opened, and by the division
into arguments, whose count stays at zero then. Where the search succeeds, the second count is one
less than the first at every token, so it never has to stay at zero, and the commas that divide the
arguments are those that the search passes with the one parenthesis open (`depths_agree`).
-/

namespace AttributeLint.Attribute

/-! ## The counts -/

/-- The depths that the search for a closing parenthesis has in front of each token that it looks
at, the parenthesis that it finds included. -/
def searchDepths? (depth : Nat) : List Token → Option (List Nat)
  | [] => none
  | t :: ts =>
    if t.kind.opens then (searchDepths? (depth + 1) ts).map (depth :: ·)
    else if t.kind.closes then
      if depth = 0 then none
      else if depth = 1 then if t.kind = .rParen then some [depth] else none
      else (searchDepths? (depth - 1) ts).map (depth :: ·)
    else if t.kind = .semicolon then none
    else (searchDepths? depth ts).map (depth :: ·)

/-- The depths that the division into arguments has in front of each token, and behind the last. -/
def splitDepths (depth : Nat) (ts : List Token) : List Nat :=
  ts.scanl depthAfter depth

/-- The indices of the tokens between groups, the first of which begins at the index `start`. -/
def separators (start : Nat) : List (List Token) → List Nat
  | [] => []
  | [_] => []
  | group :: next :: groups =>
    (start + group.length) :: separators (start + group.length + 1) (next :: groups)

variable {depth : Nat} {t : Token} {ts body rest : List Token}

/-- The search finds the parenthesis in front of which the last of its depths is. -/
theorem closingOffset?_eq_searchDepths? (depth offset : Nat) (ts : List Token) :
    (Indexed.closingOffset? depth offset ts).map (· + 1) =
      (searchDepths? depth ts).map (offset + ·.length) := by
  fun_induction searchDepths? depth ts generalizing offset with
  | case1 => rfl
  | case2 depth t ts hopens ih =>
    rw [Indexed.closingOffset?, if_pos hopens, ih]
    simp [Function.comp_def, Nat.add_assoc, Nat.add_comm 1]
  | case6 depth t ts hopens hcloses hzero hone ih =>
    rw [Indexed.closingOffset?, if_neg hopens, if_pos hcloses, if_neg hzero, if_neg hone, ih]
    simp [Function.comp_def, Nat.add_assoc, Nat.add_comm 1]
  | case8 depth t ts hopens hcloses hsemicolon ih =>
    rw [Indexed.closingOffset?, if_neg hopens, if_neg hcloses, if_neg hsemicolon, ih]
    simp [Function.comp_def, Nat.add_assoc, Nat.add_comm 1]
  | _ => simp_all [Indexed.closingOffset?]

theorem splitDepths_cons (depth : Nat) (t : Token) (ts : List Token) :
    splitDepths depth (t :: ts) = depth :: splitDepths (depthAfter depth t) ts :=
  List.scanl_cons

/-- Up to the parenthesis that it finds, the search counts as the division into arguments does. -/
theorem searchDepths?_eq (depth : Nat) (ts : List Token) :
    searchDepths? depth ts = (enclosed? depth ts).map fun (body, _) => splitDepths depth body := by
  fun_induction enclosed? depth ts with
  | case1 => rfl
  | case2 depth t ts hopens ih =>
    simp [searchDepths?, hopens, ih, Function.comp_def, splitDepths_cons, depthAfter]
  | case4 t ts hopens hcloses hparen => simp_all [searchDepths?, splitDepths]
  | case6 depth t ts hopens hcloses hzero hone ih =>
    simp [searchDepths?, hopens, hcloses, hzero, hone, ih, Function.comp_def, splitDepths_cons,
      depthAfter]
  | case8 depth t ts hopens hcloses hsemicolon ih =>
    simp [searchDepths?, hopens, hcloses, hsemicolon, ih, Function.comp_def, splitDepths_cons,
      depthAfter]
  | _ => simp_all [searchDepths?]

/-! ## The counts in nested tokens -/

theorem Nested.tail (h : Nested depth (t :: ts)) : Nested (depthAfter depth t) ts := by
  rw [depthAfter_eq]
  exact (nested_cons_iff.mp h).2

/-- A bracket that is closed was open. -/
theorem Nested.pos_of_closes (h : Nested depth (t :: ts)) (ht : t.kind.closes) : 0 < depth := by
  have hfirst := (nested_cons_iff.mp h).1
  have hopens : ¬ t.kind.opens := by
    intro hopens
    rw [closes_eq_false_of_opens hopens] at ht
    cases ht
  have hone : closings [t] = 1 := by simp [closings_cons, ht]
  have hzero : openings [t] = 0 := by simp [openings_cons, hopens]
  omega

theorem depthAfter_succ (ht : t.kind.closes → 0 < depth) :
    depthAfter (depth + 1) t = depthAfter depth t + 1 := by
  by_cases hopens : t.kind.opens
  · simp [depthAfter, hopens]
  · by_cases hcloses : t.kind.closes
    · have := ht hcloses
      simp only [depthAfter, hopens, hcloses, if_true, if_false, Bool.false_eq_true]
      omega
    · simp [depthAfter, hopens, hcloses]

/-- With one more bracket open, the depth is one more at every token. -/
theorem splitDepths_succ (h : Nested depth ts) :
    splitDepths (depth + 1) ts = (splitDepths depth ts).map (· + 1) := by
  induction ts generalizing depth with
  | nil => rfl
  | cons t ts ih =>
    rw [splitDepths_cons, splitDepths_cons, List.map_cons, depthAfter_succ h.pos_of_closes,
      ih h.tail]

theorem foldl_depthAfter_add (h : Nested depth ts) :
    ts.foldl depthAfter depth + closings ts = depth + openings ts := by
  induction ts generalizing depth with
  | nil => rfl
  | cons t ts ih =>
    have hrest := ih h.tail
    have hfirst := (nested_cons_iff.mp h).1
    have hstep := depthAfter_eq depth t
    have hopenings : openings (t :: ts) = openings [t] + openings ts := openings_append [t] ts
    have hclosings : closings (t :: ts) = closings [t] + closings ts := closings_append [t] ts
    rw [List.foldl_cons]
    omega

/-! ## Commas -/

theorem separators_modifyHead (start : Nat) (t : Token) (groups : List (List Token)) :
    separators start (groups.modifyHead (t :: ·)) = separators (start + 1) groups := by
  match groups with
  | [] => rfl
  | [group] => rfl
  | group :: next :: groups =>
    simp only [List.modifyHead_cons, separators, List.length_cons]
    rw [Nat.add_right_comm start 1, ← Nat.add_assoc]

theorem le_of_mem_separators {start i : Nat} {groups : List (List Token)}
    (h : i ∈ separators start groups) : start ≤ i := by
  fun_induction separators start groups with
  | case1 => cases h
  | case2 => cases h
  | case3 start group next groups ih =>
    rcases List.mem_cons.mp h with rfl | h
    · exact Nat.le_add_right start _
    · have := ih h
      omega

/-- The groups are parted at the commas in front of which the depth is zero. -/
theorem mem_separators_splitAtCommas (depth start i : Nat) (ts : List Token) :
    start + i ∈ separators start (splitAtCommas depth ts) ↔
      ∃ comma, ts[i]? = some comma ∧ comma.kind = .comma ∧
        (splitDepths depth ts)[i]? = some 0 := by
  induction ts generalizing depth start i with
  | nil => simp [splitAtCommas, separators]
  | cons t ts ih =>
    rw [splitDepths_cons]
    by_cases hcomma : t.kind = .comma ∧ depth = 0
    · obtain ⟨ht, rfl⟩ := hcomma
      have hdepth : depthAfter 0 t = 0 := by
        simp [depthAfter, ht, Token.Kind.opens, Token.Kind.closes]
      obtain ⟨group, groups, hgroups⟩ := List.exists_cons_of_ne_nil (splitAtCommas_ne_nil 0 ts)
      have hrest := fun k => ih 0 (start + 1) k
      rw [splitAtCommas, if_pos ⟨ht, rfl⟩, hdepth, hgroups, separators, List.length_nil,
        Nat.add_zero, List.mem_cons, ← hgroups]
      cases i with
      | zero => simp [ht]
      | succ k =>
        rw [← Nat.add_assoc, Nat.add_right_comm, hrest k]
        simp only [List.getElem?_cons_succ, or_iff_right_iff_imp]
        intro hstart
        omega
    · rw [splitAtCommas_cons hcomma, separators_modifyHead]
      cases i with
      | zero =>
        constructor
        · intro h
          have := le_of_mem_separators h
          omega
        · rintro ⟨comma, hfirst, hkind, hdepth⟩
          cases hfirst
          exact absurd ⟨hkind, by simpa using hdepth⟩ hcomma
      | succ k =>
        rw [← Nat.add_assoc, Nat.add_right_comm, ih]
        simp only [List.getElem?_cons_succ]

/-! ## Both counts -/

/-- Where the search for the parenthesis that closes an opening one succeeds, it stops behind that
one. In front of every token between the two, and in front of the closing one, its depth is one more
than that of the division into arguments. This one closes no bracket at depth zero and ends there,
and it parts the tokens at the commas that the search passes at depth one, and at no others. -/
theorem depths_agree {tokens : List Token} {opening close : Nat} {t : Token}
    (ht : tokens[opening]? = some t) (hparen : t.kind = .lParen)
    (hclose : Indexed.closing? tokens opening = some (some close)) :
    opening < close ∧ ∃ body depths,
      Indexed.between? tokens (opening + 1) close = some body ∧
      searchDepths? 0 (tokens.drop opening) = some (0 :: depths) ∧
      depths = (splitDepths 0 body).map (· + 1) ∧
      (∀ front closing, front ++ [closing] <+: body → closing.kind.closes →
        0 < front.foldl depthAfter 0) ∧
      body.foldl depthAfter 0 = 0 ∧
      ∀ i, i ∈ separators 0 (splitAtCommas 0 body) ↔
        ∃ comma, body[i]? = some comma ∧ comma.kind = .comma ∧ depths[i]? = some 1 := by
  have hdrop : tokens.drop opening = t :: tokens.drop (opening + 1) := by
    obtain ⟨hlt, rfl⟩ := List.getElem?_eq_some_iff.mp ht
    exact List.drop_eq_getElem_cons hlt
  have hsuffix : t :: tokens.drop (opening + 1) <:+ tokens :=
    hdrop ▸ List.drop_suffix opening tokens
  have hlength : opening + 1 ≤ tokens.length := by
    have := (List.getElem?_eq_some_iff.mp ht).1
    omega
  have hindex : Indexed.indexOf tokens (t :: tokens.drop (opening + 1)) = opening := by
    rw [← hdrop, Indexed.indexOf_drop (by omega)]
  have hsearch := Indexed.closing?_indexOf hparen hsuffix
  rw [hindex, Indexed.indexOf_drop hlength, hclose] at hsearch
  obtain ⟨⟨body, after⟩, henclosed, heq⟩ := Option.map_eq_some_iff.mp (Option.some.inj hsearch).symm
  dsimp only at heq
  obtain ⟨hbalanced, closing, hclosing, hrest⟩ := enclosed?_eq_some_iff.mp henclosed
  have hcounts := splitDepths_succ hbalanced.nested
  refine ⟨by omega, body, (splitDepths 0 body).map (· + 1), ?_, ?_, rfl, ?_, ?_, ?_⟩
  · rw [← heq, Indexed.between?_eq_some_iff, hrest]
    refine ⟨Nat.le_add_right _ _, ?_, ?_⟩
    · have := congrArg List.length hrest
      simp only [List.length_drop, List.length_append, List.length_cons] at this
      omega
    · rw [← List.drop_drop, hrest, List.drop_left]
  · have hopens : t.kind.opens := by rw [hparen]; rfl
    rw [hdrop, searchDepths?, if_pos hopens, searchDepths?_eq, henclosed]
    simp only [Option.map_some]
    rw [← hcounts]
  · intro front bracket hfront hcloses
    have hnested : Nested 0 (front ++ [bracket]) :=
      fun u hu => hbalanced.nested u (hu.trans hfront)
    have hbefore : Nested 0 front := fun u hu =>
      hnested u (hu.trans (List.prefix_append front [bracket]))
    have hdepth := foldl_depthAfter_add hbefore
    have hpos := hnested.of_append.pos_of_closes hcloses
    omega
  · have hdepth := foldl_depthAfter_add hbalanced.nested
    have hsettled := hbalanced.settled
    omega
  · intro i
    have hcommas := mem_separators_splitAtCommas 0 0 i body
    rw [Nat.zero_add] at hcommas
    rw [hcommas]
    simp

theorem depths_agree_mismatched :
    ∃ body, Indexed.closing? (Token.tokenize "E(([a\x7d,b),c)") 1 = some (some 11) ∧
      Indexed.between? (Token.tokenize "E(([a\x7d,b),c)") 2 11 = some body ∧
      splitDepths 0 body = [0, 1, 2, 2, 1, 1, 1, 0, 0, 0] ∧
      searchDepths? 0 ((Token.tokenize "E(([a\x7d,b),c)").drop 1) =
        some [0, 1, 2, 3, 3, 2, 2, 2, 1, 1, 1] ∧
      separators 0 (splitAtCommas 0 body) = [7] ∧
      (∃ comma, body[7]? = some comma ∧ comma.kind = .comma) ∧ body.foldl depthAfter 0 = 0 := by
  have hclose : Indexed.closing? (Token.tokenize "E(([a\x7d,b),c)") 1 = some (some 11) := by
    decide +kernel
  obtain ⟨-, body, depths, hbody, hdepths, heq, -, hend, hcommas⟩ :=
    depths_agree (t := { kind := .lParen, text := "(", start := 1 }) (by decide +kernel) rfl hclose
  have hcounts : (Indexed.between? (Token.tokenize "E(([a\x7d,b),c)") 2 11).map (fun body =>
      (splitDepths 0 body, separators 0 (splitAtCommas 0 body))) =
        some ([0, 1, 2, 2, 1, 1, 1, 0, 0, 0], [7]) := by decide +kernel
  rw [hbody, Option.map_some, Option.some.injEq, Prod.mk.injEq] at hcounts
  obtain ⟨hsplit, hseparators⟩ := hcounts
  rw [heq, hsplit] at hdepths
  have hmem : 7 ∈ separators 0 (splitAtCommas 0 body) := by simp [hseparators]
  obtain ⟨comma, hcomma, hkind, -⟩ := (hcommas 7).mp hmem
  exact ⟨body, hclose, hbody, hsplit, hdepths, hseparators, ⟨comma, hcomma, hkind⟩, hend⟩

end AttributeLint.Attribute
