import AttributeLint.Proofs.Usage.Stretches

/-!
# Confinement — tokens that no attribute list reaches out of

A list is balanced: it closes every bracket that it opens, and no other (`ListAt.balanced`). So
there are tokens in which every list ends that begins in them, whatever stands behind them
(`Confines`). Such tokens are read as if nothing stood behind them, and what stands behind them is
read as if they were not there, but for what may begin where they end (`collectFrom_append`).
-/

namespace AttributeLint

open Token

/-! ## Lists are balanced -/

namespace Attribute

variable {source : List Char} {t opening closing : Token} {ts us body : List Token}

theorem Balanced.append {depth depth' : Nat} (h : Balanced depth ts) (h' : Balanced depth' us) :
    Balanced (depth + depth') (ts ++ us) := by
  induction ts generalizing depth with
  | nil =>
    rw [balanced_nil_iff.mp h, Nat.zero_add]
    exact h'
  | cons t ts ih =>
    obtain ⟨hsemicolon, hfirst, hrest⟩ := balanced_cons_iff.mp h
    refine balanced_cons_iff.mpr ⟨hsemicolon, by omega, ?_⟩
    have hmoved : depth + depth' + openings [t] - closings [t] =
        depth + openings [t] - closings [t] + depth' := by omega
    rw [hmoved]
    exact ih hrest

theorem balanced_nil : Balanced 0 [] :=
  balanced_nil_iff.mpr rfl

/-- Balanced tokens between two brackets, with the brackets. -/
theorem Balanced.bracketed (h : Balanced 0 body) (hopening : opening.kind.opens)
    (hclosing : closing.kind.closes) : Balanced 0 (opening :: (body ++ [closing])) := by
  have hlast : Balanced 1 [closing] :=
    (balanced_cons_of_closes hclosing).mpr ⟨Nat.one_pos, balanced_nil⟩
  have hrest := h.append hlast
  rw [Nat.zero_add] at hrest
  exact (balanced_cons_of_opens hopening).mpr hrest

/-- A token in front that is neither a bracket nor a semicolon. -/
theorem Balanced.cons_of_kind (h : Balanced 0 ts) {kind : Kind} (ht : t.kind = kind)
    (hkind : ¬ kind.opens ∧ ¬ kind.closes ∧ kind ≠ .semicolon) : Balanced 0 (t :: ts) := by
  rw [← ht] at hkind
  exact (balanced_cons_of_neither hkind.1 hkind.2.1).mpr ⟨hkind.2.2, h⟩

theorem WritesTail.balanced {tail : String} (h : WritesTail ts tail) : Balanced 0 ts := by
  induction h with
  | nil => exact balanced_nil
  | @cons separator part ts mark tail hmark hpart _ ih =>
    have hnext : Balanced 0 (part :: ts) := ih.cons_of_kind hpart (by decide)
    cases hkind : separator.kind with
    | dot | doubleColon => exact hnext.cons_of_kind hkind (by decide)
    | _ =>
      rw [hkind] at hmark
      cases hmark

theorem WritesName.balanced {name : String} (h : WritesName ts name) : Balanced 0 ts := by
  obtain ⟨hfirst, htail⟩ := h
  exact htail.balanced.cons_of_kind hfirst (by decide)

theorem Writes.balanced {a : Attribute} (h : Writes source ts a) : Balanced 0 ts := by
  cases h with
  | name hname => exact hname.balanced
  | call hname hopening hbody hclosing =>
    have hcall := hbody.balanced.bracketed (by rw [hopening]; rfl) (by rw [hclosing]; rfl)
    exact hname.balanced.append hcall

end Attribute

namespace AttributeList

open Attribute

variable {source : List Char} {ts us rest rest' : List Token} {l : AttributeList}

theorem WritesAttributes.balanced {as : List Attribute} (h : WritesAttributes source ts as) :
    Balanced 0 ts := by
  induction h with
  | last h => exact h.balanced
  | lastComma h hcomma => exact h.balanced.append (balanced_nil.cons_of_kind hcomma (by decide))
  | cons h hcomma _ ih => exact h.balanced.append (ih.cons_of_kind hcomma (by decide))

/-- A list goes from any token to a closing bracket, with balanced tokens between the two. -/
theorem Writes.exists_inner (h : Writes source ts l) : ∃ opening inner closing,
    ts = opening :: (inner ++ [closing]) ∧ Balanced 0 inner ∧ closing.kind = .rBracket := by
  cases h with
  | @untargeted opening closing ts _ h hclosing =>
    exact ⟨opening, ts, closing, rfl, h.balanced, hclosing⟩
  | @targeted opening name colon closing ts _ hname hcolon h hclosing =>
    have hcolons : Balanced 0 (colon :: ts) := h.balanced.cons_of_kind hcolon (by decide)
    exact ⟨opening, name :: colon :: ts, closing, rfl, hcolons.cons_of_kind hname (by decide),
      hclosing⟩

theorem startsHere_append (h : ts ≠ []) (us : List Token) :
    startsHere (ts ++ us) = startsHere ts := by
  cases ts with
  | nil => exact absurd rfl h
  | cons t ts => rfl

theorem beginsAtBracket_append (h : ts ≠ []) (us : List Token) :
    BeginsAtBracket (ts ++ us) ↔ BeginsAtBracket ts := by
  rw [← startsHere_iff, ← startsHere_iff, startsHere_append h]

theorem ListAt.exists_inner (h : ListAt source ts l rest) : ∃ opening inner closing,
    ts = opening :: (inner ++ closing :: rest) ∧ opening.kind = .lBracket ∧ Balanced 0 inner ∧
      closing.kind = .rBracket := by
  obtain ⟨⟨opening, us, heq, hopening⟩, taken, rfl, hwrites⟩ := h
  obtain ⟨_, inner, closing, rfl, hinner, hclosing⟩ := hwrites.exists_inner
  cases heq
  exact ⟨opening, inner, closing, by simp, hopening, hinner, hclosing⟩

/-- The tokens of a list are balanced. -/
theorem ListAt.balanced (h : ListAt source ts l rest) :
    ∃ taken, ts = taken ++ rest ∧ Balanced 0 taken := by
  obtain ⟨opening, inner, closing, rfl, hopening, hinner, hclosing⟩ := h.exists_inner
  exact ⟨opening :: (inner ++ [closing]), by simp,
    hinner.bracketed (by rw [hopening]; rfl) (by rw [hclosing]; rfl)⟩

/-! ## Tokens that lists stay in -/

/-- Of tokens with the property, a list that begins with them leaves tokens with the property,
whatever stands behind them. So does a single token, unless it is the last of them. Behind the last
one the given things may begin. -/
structure Confines (source : List Char) (behind : Boundary) (P : List Token → Prop) : Prop where
  ne_nil : ∀ ts, P ts → ts ≠ []
  list : ∀ ts us l rest', P ts → ListAt source (ts ++ us) l rest' →
    ∃ rest, rest' = rest ++ us ∧ P rest
  token : ∀ t ts, P (t :: ts) → ts = [] ∧ .after t = behind ∨ P ts

namespace Confines

variable {behind : Boundary} {P : List Token → Prop}

/-- In such tokens the same lists stand, whatever is behind them. -/
theorem listAt_append_iff (h : Confines source behind P) (hts : P ts) :
    ListAt source (ts ++ us) l rest' ↔ ∃ rest, rest' = rest ++ us ∧ ListAt source ts l rest := by
  constructor
  · intro hlist
    obtain ⟨rest, rfl, -⟩ := h.list _ _ _ _ hts hlist
    obtain ⟨hbegins, taken, htaken, hwrites⟩ := hlist
    rw [beginsAtBracket_append (h.ne_nil _ hts)] at hbegins
    rw [← List.append_assoc] at htaken
    exact ⟨rest, rfl, hbegins, taken, List.append_cancel_right htaken, hwrites⟩
  · rintro ⟨rest, rfl, hbegins, taken, rfl, hwrites⟩
    refine ⟨?_, taken, by rw [List.append_assoc], hwrites⟩
    rwa [beginsAtBracket_append (h.ne_nil _ hts)]

theorem of_listAt (h : Confines source behind P) (hts : P ts) (hlist : ListAt source ts l rest) :
    P rest := by
  obtain ⟨rest', heq, hrest⟩ := h.list ts [] l rest hts (by rwa [List.append_nil])
  rwa [heq, List.append_nil]

theorem read?_append (h : Confines source behind P) (hts : P ts) (hstarts : startsHere ts)
    (us : List Token) :
    read? source (ts ++ us) = (read? source ts).map (Prod.map id (· ++ us)) := by
  have hstarts' : startsHere (ts ++ us) := by rwa [startsHere_append (h.ne_nil _ hts)]
  apply Option.ext
  rintro ⟨l, rest'⟩
  calc read? source (ts ++ us) = some (l, rest')
      ↔ ListAt source (ts ++ us) l rest' := by rw [listAt_iff_read?, and_iff_right hstarts']
    _ ↔ ∃ rest, rest' = rest ++ us ∧ ListAt source ts l rest := h.listAt_append_iff hts
    _ ↔ (read? source ts).map (Prod.map id (· ++ us)) = some (l, rest') := by
      rw [Option.map_eq_some_iff]
      constructor
      · rintro ⟨rest, rfl, hlist⟩
        exact ⟨(l, rest), (listAt_iff_read?.mp hlist).2, rfl⟩
      · rintro ⟨⟨l, rest⟩, hread, heq⟩
        cases heq
        exact ⟨rest, rfl, listAt_iff_read?.mpr ⟨hstarts, hread⟩⟩

theorem readRun?_append (h : Confines source behind P) (hts : P ts) (us : List Token) :
    readRun? source (ts ++ us) = (readRun? source ts).map (Prod.map id (· ++ us)) := by
  fun_induction readRun? source ts with
  | case1 => exact absurd rfl (h.ne_nil _ hts)
  | case2 t ts ht hread =>
    have hnone : read? source (t :: ts ++ us) = _ :=
      h.read?_append hts (by simpa [startsHere] using ht) us
    rw [hread, List.cons_append] at hnone
    rw [List.cons_append, readRun?_cons, if_pos ht, hnone]
    rfl
  | case3 t ts ht l rest hread ih =>
    have hstarts : startsHere (t :: ts) := by simpa [startsHere] using ht
    have hrest := h.of_listAt hts (listAt_iff_read?.mpr ⟨hstarts, hread⟩)
    have hsome : read? source (t :: ts ++ us) = _ := h.read?_append hts hstarts us
    rw [hread, List.cons_append] at hsome
    rw [List.cons_append, readRun?_cons, if_pos ht, hsome]
    simp only [Option.map_some, Prod.map_apply, id, ih hrest, Option.map_map]
    rfl
  | case4 t ts ht hident =>
    rw [List.cons_append, readRun?_cons, if_neg ht, if_pos hident]
    rfl
  | case5 t ts ht hident =>
    rw [List.cons_append, readRun?_cons, if_neg ht, if_neg hident]
    rfl

theorem readAt?_append (h : Confines source behind P) (hts : P ts) (boundary : Boundary)
    (us : List Token) :
    readAt? source boundary (ts ++ us) =
      (readAt? source boundary ts).map (Prod.map id (· ++ us)) := by
  unfold readAt?
  rw [startsHere_append (h.ne_nil _ hts)]
  split
  · rename_i hstarts
    cases boundary with
    | declaration =>
      dsimp only
      rw [h.read?_append hts hstarts, Option.map_map, Option.map_map]
      rfl
    | member => exact h.readRun?_append hts us
    | inside => rfl
  · rfl

theorem of_run (h : Confines source behind P) (hts : P ts) {lists : List AttributeList}
    (hrun : Run source ts lists rest) : P rest := by
  induction hrun with
  | last hlist _ => exact h.of_listAt hts hlist
  | cons hlist _ ih => exact ih (h.of_listAt hts hlist)

/-- Lists that are read leave tokens with the property. -/
theorem of_readAt? (h : Confines source behind P) (hts : P ts) {boundary : Boundary}
    {lists : List AttributeList} (hread : readAt? source boundary ts = some (lists, rest)) :
    P rest := by
  unfold readAt? at hread
  split at hread
  · rename_i hstarts
    cases boundary with
    | declaration =>
      obtain ⟨⟨l, rest⟩, hlist, heq⟩ := Option.map_eq_some_iff.mp hread
      cases heq
      exact h.of_listAt hts (listAt_iff_read?.mpr ⟨hstarts, hlist⟩)
    | member =>
      obtain ⟨⟨_, rfl⟩ | hrun, _⟩ := readRun?_cases hread
      · exact hts
      · exact h.of_run hts hrun
    | inside => cases hread
  · cases hread

/-- The usages in such tokens and in those behind them, each found as if the others were not there,
but for what may begin where the first ones end. -/
theorem collectFrom_append (h : Confines source behind P) (hts : P ts) (boundary : Boundary)
    (pending : List AttributeList) (us : List Token) :
    Usage.collectFrom source boundary pending (ts ++ us) =
      Usage.collectFrom source boundary pending ts ++ Usage.collectFrom source behind [] us := by
  fun_induction Usage.collectFrom source boundary pending ts with
  | case1 => exact absurd rfl (h.ne_nil _ hts)
  | case2 boundary pending t ts lists rest hread ih =>
    have hsome : readAt? source boundary (t :: ts ++ us) = _ := h.readAt?_append hts boundary us
    rw [hread, List.cons_append] at hsome
    rw [List.cons_append, Usage.collectFrom_cons, hsome]
    exact ih (h.of_readAt? hts hread)
  | case3 boundary pending t ts hread ih =>
    have hnone : readAt? source boundary (t :: ts ++ us) = _ := h.readAt?_append hts boundary us
    rw [hread, List.cons_append, Option.map_none] at hnone
    rw [List.cons_append, Usage.collectFrom_cons, hnone, List.append_assoc]
    rcases h.token t ts hts with ⟨rfl, hafter⟩ | hts
    -- the last token takes the lists that wait
    · rw [List.nil_append, Usage.collectFrom, List.nil_append, hafter]
    · rw [ih hts]

end Confines

end AttributeList

end AttributeLint
