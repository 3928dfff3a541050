import AttributeLint.Proofs.Attribute.Derivation

/-!
# Stretches — a source as plain tokens and runs of attribute lists

Which brackets open attribute lists, said without a state that is carried along. A source falls
from left to right into plain tokens and runs of lists (`Walk`): a run takes every list that can
follow, and where it may begin depends on the plain token before it and, inside a declaration, on
the token behind it. Every source falls apart in one way only, and its usages are the attributes of
the runs that have a token behind them (`Stretch.Yields`).
-/

namespace AttributeLint

open Token

/-! ## Runs of lists -/

namespace AttributeList

/-- The first of the tokens is an opening bracket. -/
def BeginsAtBracket (ts : List Token) : Prop :=
  ∃ t us, ts = t :: us ∧ t.kind = .lBracket

/-- The tokens begin with a bracketed list, and `rest` is left behind it. -/
def ListAt (source : List Char) (ts : List Token) (l : AttributeList) (rest : List Token) : Prop :=
  BeginsAtBracket ts ∧ ∃ taken, ts = taken ++ rest ∧ Writes source taken l

/-- No bracketed list stands at the front of the tokens. -/
def NoListAt (source : List Char) (ts : List Token) : Prop :=
  ∀ l rest, ¬ ListAt source ts l rest

/-- The tokens begin with lists, one directly behind the other, and with no further list behind
them. -/
inductive Run (source : List Char) : List Token → List AttributeList → List Token → Prop where
  | last {ts rest : List Token} {l : AttributeList} :
      ListAt source ts l rest → NoListAt source rest → Run source ts [l] rest
  | cons {ts us rest : List Token} {l : AttributeList} {ls : List AttributeList} :
      ListAt source ts l us → Run source us ls rest → Run source ts (l :: ls) rest

variable {source : List Char} {ts us rest rest' : List Token} {l l' : AttributeList}
  {ls ls' : List AttributeList}

theorem startsHere_iff : startsHere ts ↔ BeginsAtBracket ts := by
  cases ts with
  | nil => simp [startsHere, BeginsAtBracket]
  | cons t ts => simp [startsHere, BeginsAtBracket]

theorem listAt_iff_read? :
    ListAt source ts l rest ↔ startsHere ts ∧ read? source ts = some (l, rest) := by
  rw [ListAt, read?_eq_some_iff, startsHere_iff]

theorem ListAt.unique (h : ListAt source ts l rest) (h' : ListAt source ts l' rest') :
    l = l' ∧ rest = rest' := by
  have hread := (listAt_iff_read?.mp h).2.symm.trans (listAt_iff_read?.mp h').2
  cases hread
  exact ⟨rfl, rfl⟩

theorem ListAt.length_lt (h : ListAt source ts l rest) : rest.length < ts.length :=
  read?_length (listAt_iff_read?.mp h).2

theorem noListAt_cons {t : Token} (ht : t.kind ≠ .lBracket) (ts : List Token) :
    NoListAt source (t :: ts) := by
  rintro l rest ⟨⟨u, us, heq, hu⟩, -⟩
  cases heq
  exact ht hu

namespace Run

theorem noListAt (h : Run source ts ls rest) : NoListAt source rest := by
  induction h with
  | last _ hno => exact hno
  | cons _ _ ih => exact ih

theorem listAt (h : Run source ts ls rest) : ∃ l us, ListAt source ts l us := by
  cases h with
  | last hlist _ => exact ⟨_, _, hlist⟩
  | cons hlist _ => exact ⟨_, _, hlist⟩

theorem unique (h : Run source ts ls rest) (h' : Run source ts ls' rest') :
    ls = ls' ∧ rest = rest' := by
  induction h generalizing ls' with
  | last hlist hno =>
    cases h' with
    | last hlist' _ =>
      obtain ⟨rfl, rfl⟩ := hlist.unique hlist'
      exact ⟨rfl, rfl⟩
    | cons hlist' hrun' =>
      obtain ⟨rfl, rfl⟩ := hlist.unique hlist'
      obtain ⟨l, us, hnext⟩ := hrun'.listAt
      exact absurd hnext (hno l us)
  | cons hlist hrun ih =>
    cases h' with
    | last hlist' hno' =>
      obtain ⟨rfl, rfl⟩ := hlist.unique hlist'
      obtain ⟨l, us, hnext⟩ := hrun.listAt
      exact absurd hnext (hno' l us)
    | cons hlist' hrun' =>
      obtain ⟨rfl, rfl⟩ := hlist.unique hlist'
      obtain ⟨rfl, rfl⟩ := ih hrun'
      exact ⟨rfl, rfl⟩

theorem length_lt (h : Run source ts ls rest) : rest.length < ts.length := by
  induction h with
  | last hlist _ => exact hlist.length_lt
  | cons hlist _ ih => exact Nat.lt_trans ih hlist.length_lt

end Run

/-- Where a list stands, a run stands. -/
theorem ListAt.exists_run (h : ListAt source ts l us) : ∃ ls rest, Run source ts ls rest := by
  induction hn : ts.length using Nat.strong_induction_on generalizing ts l us with
  | _ n ih =>
    subst hn
    by_cases hno : NoListAt source us
    · exact ⟨[l], us, .last h hno⟩
    · simp only [NoListAt, not_forall, not_not] at hno
      obtain ⟨l', vs, hnext⟩ := hno
      obtain ⟨ls, rest, hrun⟩ := ih us.length h.length_lt hnext rfl
      exact ⟨l :: ls, rest, .cons h hrun⟩

theorem ListAt.readRun? (h : ListAt source ts l us)
    (hmore : AttributeList.readRun? source us = some (ls, rest)) :
    AttributeList.readRun? source ts = some (l :: ls, rest) := by
  obtain ⟨hstarts, hread⟩ := listAt_iff_read?.mp h
  cases ts with
  | nil => cases hstarts
  | cons t ts =>
    rw [readRun?_cons, if_pos (by simpa [startsHere] using hstarts), hread]
    dsimp only
    rw [hmore]
    rfl

/-- A run is read to its end if an identifier follows it. -/
theorem Run.readRun? {t : Token} {vs : List Token} (h : Run source ts ls rest)
    (hrest : rest = t :: vs) (ht : t.kind = .ident) :
    AttributeList.readRun? source ts = some (ls, rest) := by
  induction h with
  | last hlist hno =>
    subst hrest
    exact hlist.readRun? (by rw [readRun?_cons, if_neg (by simp [ht]), if_pos ht])
  | cons hlist _ ih => exact hlist.readRun? (ih hrest)

theorem readRun?_cases (h : readRun? source ts = some (ls, rest)) :
    (ls = [] ∧ rest = ts ∨ Run source ts ls rest) ∧ ∃ t vs, rest = t :: vs ∧ t.kind = .ident := by
  fun_induction readRun? source ts generalizing ls rest with
  | case1 => cases h
  | case2 => cases h
  | case3 t ts ht l us hread ih =>
    obtain ⟨⟨ls', rest'⟩, h', he⟩ := Option.map_eq_some_iff.mp h
    cases he
    have hlist : ListAt source (t :: ts) l us :=
      listAt_iff_read?.mpr ⟨by simpa [startsHere] using ht, hread⟩
    obtain ⟨⟨rfl, rfl⟩ | hrun, u, vs, rfl, hu⟩ := ih h'
    · exact ⟨.inr (.last hlist (noListAt_cons (by simp [hu]) vs)), u, vs, rfl, hu⟩
    · exact ⟨.inr (.cons hlist hrun), u, vs, rfl, hu⟩
  | case4 t ts ht hident =>
    cases h
    exact ⟨.inl ⟨rfl, rfl⟩, t, ts, rfl, hident⟩
  | case5 => cases h

/-! ## What a run annotates -/

/-- The list is for the whole assembly or the whole module. -/
def ForWhole (l : AttributeList) : Prop :=
  l.target = some "assembly" ∨ l.target = some "module"

/-- The usages are the attributes of the lists, each once and in their order, attached at `target`.
Lists for the whole assembly or module add none. -/
inductive Attached (target : Nat) : List AttributeList → List Usage → Prop where
  | nil : Attached target [] []
  | whole {l : AttributeList} {ls : List AttributeList} {us : List Usage} :
      l.ForWhole → Attached target ls us → Attached target (l :: ls) us
  | list {l : AttributeList} {ls : List AttributeList} {us : List Usage} :
      ¬ l.ForWhole → Attached target ls us →
        Attached target (l :: ls) (l.attributes.map (fun a => ⟨a.name, target, a.arguments⟩) ++ us)

/-- The usages are those of lists that stand together: the first list that is not for the whole
assembly or module is where all of them are attached. -/
inductive Annotates : List AttributeList → List Usage → Prop where
  | nil : Annotates [] []
  | whole {l : AttributeList} {ls : List AttributeList} {us : List Usage} :
      l.ForWhole → Annotates ls us → Annotates (l :: ls) us
  | first {l : AttributeList} {ls : List AttributeList} {us : List Usage} :
      ¬ l.ForWhole → Attached l.start (l :: ls) us → Annotates (l :: ls) us

variable {us us' : List Usage} {target : Nat}

theorem Attached.unique (h : Attached target ls us) (h' : Attached target ls us') : us = us' := by
  induction h generalizing us' with
  | nil =>
    cases h'
    rfl
  | whole hwhole _ ih =>
    cases h' with
    | whole _ h' => exact ih h'
    | list hlist _ => exact absurd hwhole hlist
  | list hlist _ ih =>
    cases h' with
    | whole hwhole _ => exact absurd hwhole hlist
    | list _ h' => rw [ih h']

theorem Annotates.unique (h : Annotates ls us) (h' : Annotates ls us') : us = us' := by
  induction h generalizing us' with
  | nil =>
    cases h'
    rfl
  | whole hwhole _ ih =>
    cases h' with
    | whole _ h' => exact ih h'
    | first hlist _ => exact absurd hwhole hlist
  | first hlist hattached =>
    cases h' with
    | whole hwhole _ => exact absurd hwhole hlist
    | first _ h' => exact hattached.unique h'

theorem forWhole_iff : l.ForWhole ↔ l.isGlobal = true := by
  simp [ForWhole, isGlobal]

theorem filter_isGlobal_of_forWhole (h : l.ForWhole) (ls : List AttributeList) :
    (l :: ls).filter (!·.isGlobal) = ls.filter (!·.isGlobal) := by
  simp [forWhole_iff.mp h]

theorem filter_isGlobal_of_not_forWhole (h : ¬ l.ForWhole) (ls : List AttributeList) :
    (l :: ls).filter (!·.isGlobal) = l :: ls.filter (!·.isGlobal) := by
  rw [forWhole_iff] at h
  simp [h]

theorem attached_flatMap (target : Nat) (ls : List AttributeList) :
    Attached target ls ((ls.filter (!·.isGlobal)).flatMap fun l => l.attributes.map fun a =>
      { name := a.name, targetStart := target, arguments := a.arguments }) := by
  induction ls with
  | nil => exact .nil
  | cons l ls ih =>
    by_cases hl : l.ForWhole
    · rw [filter_isGlobal_of_forWhole hl]
      exact .whole hl ih
    · rw [filter_isGlobal_of_not_forWhole hl, List.flatMap_cons]
      exact .list hl ih

/-- The lists that wait for a declaration annotate it with their usages. -/
theorem annotates_usages (ls : List AttributeList) :
    Annotates ls (usages (ls.filter (!·.isGlobal))) := by
  induction ls with
  | nil => exact .nil
  | cons l ls ih =>
    by_cases hl : l.ForWhole
    · rw [filter_isGlobal_of_forWhole hl]
      exact .whole hl ih
    · have hattached := attached_flatMap l.start (l :: ls)
      rw [filter_isGlobal_of_not_forWhole hl] at hattached ⊢
      exact .first hl hattached

end AttributeList

/-! ## Places -/

open AttributeList

/-- A declaration or a statement may begin: at the start of the source, and behind `;`, `{` and
`}`. -/
def OpensDeclaration : Option Token → Prop
  | none => True
  | some t => t.kind = .semicolon ∨ t.kind = .lBrace ∨ t.kind = .rBrace

/-- A parameter, an enum member or a type parameter may begin: behind `(`, `,` and `<`. -/
def OpensMember : Option Token → Prop
  | none => False
  | some t => t.kind = .lParen ∨ t.kind = .comma ∨ t.kind = .other ∧ t.text = "<"

/-- A run of lists with the tokens `rest` behind it may stand directly behind the plain token
`previous`, or at the start of the source if there is none. -/
def Admits (previous : Option Token) (rest : List Token) : Prop :=
  OpensDeclaration previous ∨
    OpensMember previous ∧ ∃ t ts, rest = t :: ts ∧ t.kind = .ident

/-- What may begin behind a plain token or at the start of the source. -/
def Boundary.behind : Option Token → Boundary
  | none => .declaration
  | some t => .after t

theorem boundary_eq_declaration_iff (previous : Option Token) :
    Boundary.behind previous = .declaration ↔ OpensDeclaration previous := by
  cases previous with
  | none => simp [Boundary.behind, OpensDeclaration]
  | some t =>
    rw [Boundary.behind, Boundary.after, OpensDeclaration]
    split <;> simp_all
    split <;> simp_all

theorem boundary_eq_member_iff (previous : Option Token) :
    Boundary.behind previous = .member ↔ OpensMember previous := by
  cases previous with
  | none => simp [Boundary.behind, OpensMember]
  | some t =>
    rw [Boundary.behind, Boundary.after, OpensMember]
    split <;> simp_all

/-! ## Walks -/

/-- A part of a source. -/
inductive Stretch where
  /-- A token outside all attribute lists. -/
  | plain (t : Token)
  /-- Attribute lists that follow one another. -/
  | run (lists : List AttributeList)

/-- The tokens, directly behind the plain token `previous`, fall into the stretches: into runs where
a run may stand, and into plain tokens elsewhere. The token behind a run is plain. -/
inductive Walk (source : List Char) : Option Token → List Token → List Stretch → Prop where
  | nil {previous : Option Token} : Walk source previous [] []
  | plain {previous : Option Token} {t : Token} {ts : List Token} {stretches : List Stretch} :
      (∀ lists rest, Run source (t :: ts) lists rest → ¬ Admits previous rest) →
        Walk source (some t) ts stretches → Walk source previous (t :: ts) (.plain t :: stretches)
  | run {previous : Option Token} {t : Token} {ts rest : List Token} {lists : List AttributeList}
      {stretches : List Stretch} :
      Run source ts lists (t :: rest) → Admits previous (t :: rest) →
        Walk source (some t) rest stretches →
          Walk source previous ts (.run lists :: .plain t :: stretches)
  | last {previous : Option Token} {ts : List Token} {lists : List AttributeList} :
      Run source ts lists [] → Admits previous [] → Walk source previous ts [.run lists]

namespace Stretch

/-- The usages are those of the runs that have a stretch behind them, one run after the other. -/
inductive Yields : List Stretch → List Usage → Prop where
  | nil : Yields [] []
  | plain {t : Token} {rest : List Stretch} {us : List Usage} :
      Yields rest us → Yields (.plain t :: rest) us
  | run {lists : List AttributeList} {next : Stretch} {rest : List Stretch}
      {here us : List Usage} :
      Annotates lists here → Yields (next :: rest) us →
        Yields (.run lists :: next :: rest) (here ++ us)
  | last {lists : List AttributeList} : Yields [.run lists] []

theorem Yields.unique {stretches : List Stretch} {us us' : List Usage} (h : Yields stretches us)
    (h' : Yields stretches us') : us = us' := by
  induction h generalizing us' with
  | nil =>
    cases h'
    rfl
  | plain _ ih =>
    cases h' with
    | plain h' => exact ih h'
  | run hhere _ ih =>
    cases h' with
    | run hhere' h' => rw [hhere.unique hhere', ih h']
  | last =>
    cases h'
    rfl

/-- Every run stands at the start, or directly behind a plain `;`, `{`, `}`, `(`, `,` or `<`. -/
def Placed (stretches : List Stretch) : Prop :=
  ∀ before lists after, stretches = before ++ .run lists :: after →
    before = [] ∨ ∃ front t, before = front ++ [.plain t] ∧
      (OpensDeclaration (some t) ∨ OpensMember (some t))

end Stretch

variable {source : List Char} {previous : Option Token} {ts rest : List Token}
  {lists : List AttributeList} {stretches stretches' : List Stretch}

namespace Walk

theorem unique (h : Walk source previous ts stretches) (h' : Walk source previous ts stretches') :
    stretches = stretches' := by
  induction h generalizing stretches' with
  | nil =>
    cases h' with
    | nil => rfl
    | run hrun _ _ => exact absurd hrun.length_lt (Nat.not_lt_zero _)
    | last hrun _ => exact absurd hrun.length_lt (Nat.not_lt_zero _)
  | plain hplain _ ih =>
    cases h' with
    | plain _ hwalk' => rw [ih hwalk']
    | run hrun' hadmits' _ => exact absurd hadmits' (hplain _ _ hrun')
    | last hrun' hadmits' => exact absurd hadmits' (hplain _ _ hrun')
  | run hrun hadmits _ ih =>
    cases h' with
    | nil => exact absurd hrun.length_lt (Nat.not_lt_zero _)
    | plain hplain' _ => exact absurd hadmits (hplain' _ _ hrun)
    | run hrun' _ hwalk' =>
      obtain ⟨rfl, heq⟩ := hrun.unique hrun'
      cases heq
      rw [ih hwalk']
    | last hrun' _ => cases (hrun.unique hrun').2
  | last hrun hadmits =>
    cases h' with
    | nil => exact absurd hrun.length_lt (Nat.not_lt_zero _)
    | plain hplain' _ => exact absurd hadmits (hplain' _ _ hrun)
    | run hrun' _ _ => cases (hrun.unique hrun').2
    | last hrun' _ => rw [(hrun.unique hrun').1]

end Walk

theorem exists_walk (source : List Char) (previous : Option Token) (ts : List Token) :
    ∃ stretches, Walk source previous ts stretches := by
  induction hn : ts.length using Nat.strong_induction_on generalizing previous ts with
  | _ n ih =>
    subst hn
    by_cases hruns : ∃ lists rest, Run source ts lists rest ∧ Admits previous rest
    · obtain ⟨lists, rest, hrun, hadmits⟩ := hruns
      cases rest with
      | nil => exact ⟨_, .last hrun hadmits⟩
      | cons t rest =>
        have hlt := hrun.length_lt
        rw [List.length_cons] at hlt
        obtain ⟨stretches, hwalk⟩ := ih rest.length (by omega) (some t) rest rfl
        exact ⟨_, .run hrun hadmits hwalk⟩
    · cases ts with
      | nil => exact ⟨[], .nil⟩
      | cons t ts =>
        obtain ⟨stretches, hwalk⟩ := ih ts.length (by simp) (some t) ts rfl
        exact ⟨_, .plain (fun lists rest hrun hadmits => hruns ⟨lists, rest, hrun, hadmits⟩) hwalk⟩

/-! ## The usages of a walk -/

/-- Lists are read at a place only as a part of a run that may stand there. -/
theorem exists_run_of_readAt? {lists : List AttributeList}
    (h : readAt? source (.behind previous) ts = some (lists, rest)) :
    ∃ lists' rest', Run source ts lists' rest' ∧ Admits previous rest' := by
  unfold readAt? at h
  split at h
  · rename_i hstarts
    split at h
    · rename_i hboundary
      obtain ⟨⟨l, rest⟩, hread, he⟩ := Option.map_eq_some_iff.mp h
      cases he
      obtain ⟨lists, rest', hrun⟩ := (listAt_iff_read?.mpr ⟨hstarts, hread⟩).exists_run
      exact ⟨lists, rest', hrun, .inl ((boundary_eq_declaration_iff previous).mp hboundary)⟩
    · rename_i hboundary
      have hmember := (boundary_eq_member_iff previous).mp hboundary
      obtain ⟨⟨rfl, rfl⟩ | hrun, t, vs, rfl, ht⟩ := readRun?_cases h
      · simp [startsHere, ht] at hstarts
      · exact ⟨lists, _, hrun, .inr ⟨hmember, t, vs, rfl, ht⟩⟩
    · cases h
  · cases h

theorem readAt?_of_noListAt (h : NoListAt source ts) : readAt? source .declaration ts = none := by
  unfold readAt?
  split
  · rename_i hstarts
    rw [Option.map_eq_none_iff]
    cases hread : AttributeList.read? source ts with
    | none => rfl
    | some p => exact absurd (listAt_iff_read?.mpr ⟨hstarts, hread⟩) (h p.1 p.2)
  · rfl

namespace Usage

/-- Where a declaration may begin, the lists of a run wait for it one by one. -/
theorem collectFrom_declaration_run (h : Run source ts lists rest) (pending : List AttributeList) :
    collectFrom source .declaration pending ts =
      collectFrom source .declaration (pending ++ lists.filter (!·.isGlobal)) rest := by
  have hstep {ts us : List Token} {l : AttributeList} (hlist : ListAt source ts l us)
      (pending : List AttributeList) : collectFrom source .declaration pending ts =
        collectFrom source .declaration (pending ++ [l].filter (!·.isGlobal)) us := by
    obtain ⟨hstarts, hread⟩ := listAt_iff_read?.mp hlist
    cases ts with
    | nil => cases hstarts
    | cons t ts =>
      rw [collectFrom_cons, readAt?_declaration source (by simpa [startsHere] using hstarts), hread]
      rfl
  induction h generalizing pending with
  | last hlist _ => exact hstep hlist pending
  | @cons ts us rest l ls hlist _ ih =>
    rw [hstep hlist, ih, List.append_assoc, ← List.filter_append, List.singleton_append]

/-- A run that may stand where it does waits for the declaration as a whole. -/
theorem collectFrom_run (h : Run source ts lists rest) (hadmits : Admits previous rest) :
    collectFrom source (.behind previous) [] ts =
      collectFrom source (.behind previous) (lists.filter (!·.isGlobal)) rest := by
  rcases hadmits with hopens | ⟨hopens, t, vs, hrest, ht⟩
  · rw [(boundary_eq_declaration_iff previous).mpr hopens]
    simpa using collectFrom_declaration_run h []
  · rw [(boundary_eq_member_iff previous).mpr hopens]
    have hread := h.readRun? hrest ht
    obtain ⟨l, us, ⟨u, ts, rfl, hu⟩, _⟩ := h.listAt
    rw [collectFrom_cons, readAt?, if_pos (startsHere_iff.mpr ⟨u, ts, rfl, hu⟩), hread]
    rfl

/-- The token behind a run takes the lists that wait. -/
theorem collectFrom_behind_run {t : Token} (h : NoListAt source (t :: ts))
    (hadmits : Admits previous (t :: ts)) (pending : List AttributeList) :
    collectFrom source (.behind previous) pending (t :: ts) =
      AttributeList.usages pending ++ collectFrom source (.after t) [] ts := by
  rcases hadmits with hopens | ⟨_, u, us, heq, hu⟩
  · rw [(boundary_eq_declaration_iff previous).mpr hopens, collectFrom_cons, readAt?_of_noListAt h]
  · cases heq
    rw [collectFrom_cons, readAt?_of_ne _ _ (by simp [hu])]

/-- What stands behind a run at the start is found as if the run were not there. -/
theorem collectFrom_declaration_run_behind (h : Run source ts lists rest) (hrest : rest ≠ []) :
    collectFrom source .declaration [] ts =
      AttributeList.usages (lists.filter (!·.isGlobal)) ++
        collectFrom source .declaration [] rest := by
  obtain ⟨t, us, rfl⟩ := List.exists_cons_of_ne_nil hrest
  have hbehind (pending : List AttributeList) :
      collectFrom source .declaration pending (t :: us) =
        AttributeList.usages pending ++ collectFrom source (.after t) [] us := by
    rw [collectFrom_cons, readAt?_of_noListAt h.noListAt]
  rw [collectFrom_declaration_run h, List.nil_append, hbehind, hbehind []]
  rfl

/-- What is found in a walk is what its stretches yield. -/
theorem yields_collectFrom (h : Walk source previous ts stretches) :
    Stretch.Yields stretches (collectFrom source (.behind previous) [] ts) := by
  induction h with
  | nil =>
    rw [collectFrom]
    exact .nil
  | @plain previous t ts stretches hplain _ ih =>
    have hnone : readAt? source (.behind previous) (t :: ts) = none := by
      cases hread : readAt? source (.behind previous) (t :: ts) with
      | none => rfl
      | some p =>
        obtain ⟨lists, rest, hrun, hadmits⟩ := exists_run_of_readAt? hread
        exact absurd hadmits (hplain lists rest hrun)
    rw [collectFrom_cons, hnone]
    exact .plain ih
  | @run previous t ts rest lists stretches hrun hadmits _ ih =>
    rw [collectFrom_run hrun hadmits, collectFrom_behind_run hrun.noListAt hadmits]
    exact .run (annotates_usages lists) (.plain ih)
  | last hrun hadmits =>
    rw [collectFrom_run hrun hadmits, collectFrom]
    exact .last

theorem yields_ofSource {source : String}
    (h : Walk source.toList none (tokenize source) stretches) :
    Stretch.Yields stretches (ofSource source) :=
  yields_collectFrom h

end Usage

/-! ## Places and targets of a walk -/

/-- A run stands at the start of the tokens, where it may stand, or behind a plain token. -/
theorem Walk.placed_from (h : Walk source previous ts stretches) {before after : List Stretch}
    (hsplit : stretches = before ++ .run lists :: after) :
    before = [] ∧ (OpensDeclaration previous ∨ OpensMember previous) ∨
      ∃ front t, before = front ++ [.plain t] ∧
        (OpensDeclaration (some t) ∨ OpensMember (some t)) := by
  have hbehind (stretches : List Stretch) {t : Token} {before : List Stretch}
      (hbefore : before = [] ∧ (OpensDeclaration (some t) ∨ OpensMember (some t)) ∨
        ∃ front u, before = front ++ [.plain u] ∧
          (OpensDeclaration (some u) ∨ OpensMember (some u))) :
      ∃ front u, stretches ++ .plain t :: before = front ++ [.plain u] ∧
        (OpensDeclaration (some u) ∨ OpensMember (some u)) := by
    rcases hbefore with ⟨rfl, hopens⟩ | ⟨front, u, rfl, hopens⟩
    · exact ⟨stretches, t, rfl, hopens⟩
    · exact ⟨stretches ++ .plain t :: front, u, by simp, hopens⟩
  have hopening {previous : Option Token} {rest : List Token} (hadmits : Admits previous rest) :
      OpensDeclaration previous ∨ OpensMember previous :=
    hadmits.imp id And.left
  induction h generalizing before with
  | nil => simp at hsplit
  | plain _ _ ih =>
    cases before with
    | nil => cases hsplit
    | cons first before =>
      cases hsplit
      exact .inr (hbehind [] (ih rfl))
  | run _ hadmits _ ih =>
    cases before with
    | nil => exact .inl ⟨rfl, hopening hadmits⟩
    | cons first before =>
      cases before with
      | nil => cases hsplit
      | cons second before =>
        cases hsplit
        exact .inr (hbehind [_] (ih rfl))
  | last _ hadmits =>
    cases before with
    | nil => exact .inl ⟨rfl, hopening hadmits⟩
    | cons first before => simp at hsplit

theorem Walk.placed (h : Walk source none ts stretches) : Stretch.Placed stretches := by
  intro before lists after hsplit
  exact (h.placed_from hsplit).imp And.left id

/-- The lists of a run begin at brackets that stand before the tokens behind it. -/
theorem AttributeList.Run.starts (h : Run source ts lists rest) :
    ∃ front, ts = front ++ rest ∧ ∀ l ∈ lists, ∃ t ∈ front, t.kind = .lBracket ∧
      t.start = l.start := by
  have hlistStart {ts us : List Token} {l : AttributeList} (hlist : ListAt source ts l us) :
      ∃ taken, ts = taken ++ us ∧ ∃ t ∈ taken, t.kind = .lBracket ∧ t.start = l.start := by
    obtain ⟨⟨opening, _, heq, hopening⟩, taken, rfl, hwrites⟩ := hlist
    refine ⟨taken, rfl, ?_⟩
    cases hwrites with
    | untargeted =>
      cases heq
      exact ⟨opening, List.mem_cons_self, hopening, rfl⟩
    | targeted =>
      cases heq
      exact ⟨opening, List.mem_cons_self, hopening, rfl⟩
  induction h with
  | last hlist _ =>
    obtain ⟨taken, rfl, hbracket⟩ := hlistStart hlist
    exact ⟨taken, rfl, by simpa using hbracket⟩
  | cons hlist _ ih =>
    obtain ⟨taken, rfl, t, ht, hstart⟩ := hlistStart hlist
    obtain ⟨front, rfl, hfront⟩ := ih
    refine ⟨taken ++ front, by simp, List.forall_mem_cons.mpr ⟨?_, fun l hl => ?_⟩⟩
    · exact ⟨t, List.mem_append_left front ht, hstart⟩
    · obtain ⟨u, hu, hstart⟩ := hfront l hl
      exact ⟨u, List.mem_append_right taken hu, hstart⟩

theorem AttributeList.Attached.targetStart_eq {target : Nat} {us : List Usage}
    (h : Attached target lists us) : ∀ u ∈ us, u.targetStart = target := by
  induction h with
  | nil => exact List.forall_mem_nil _
  | whole _ _ ih => exact ih
  | list _ _ ih =>
    refine List.forall_mem_append.mpr ⟨fun u hu => ?_, ih⟩
    obtain ⟨a, _, rfl⟩ := List.mem_map.mp hu
    rfl

/-- All usages of a run have the start of one of its lists as their target. -/
theorem AttributeList.Annotates.exists_target {us : List Usage} (h : Annotates lists us) :
    ∀ u ∈ us, ∃ l ∈ lists, u.targetStart = l.start ∧ ∀ v ∈ us, v.targetStart = l.start := by
  induction h with
  | nil => exact List.forall_mem_nil _
  | whole _ _ ih =>
    intro u hu
    obtain ⟨l, hl, htarget⟩ := ih u hu
    exact ⟨l, List.mem_cons_of_mem _ hl, htarget⟩
  | first _ hattached =>
    intro u hu
    exact ⟨_, List.mem_cons_self, hattached.targetStart_eq u hu, hattached.targetStart_eq⟩

/-- Targets follow one another in the source, and each is the start of a bracket. -/
theorem Walk.targets {us : List Usage} (h : Walk source previous ts stretches)
    (hordered : ts.Pairwise fun t u => t.start ≤ u.start) (hus : Stretch.Yields stretches us) :
    us.Pairwise (fun u v => u.targetStart ≤ v.targetStart) ∧
      ∀ u ∈ us, ∃ t ∈ ts, t.kind = .lBracket ∧ t.start = u.targetStart := by
  induction h generalizing us with
  | nil =>
    cases hus
    exact ⟨.nil, List.forall_mem_nil _⟩
  | @plain previous t ts stretches _ _ ih =>
    cases hus with
    | plain hus =>
      obtain ⟨hpairwise, hstarts⟩ := ih (List.pairwise_cons.mp hordered).2 hus
      refine ⟨hpairwise, fun u hu => ?_⟩
      obtain ⟨t', ht', hstart⟩ := hstarts u hu
      exact ⟨t', List.mem_cons_of_mem t ht', hstart⟩
  | @run previous t ts rest lists stretches hrun _ _ ih =>
    cases hus with
    | @run _ _ _ here us hhere hus =>
      obtain ⟨front, rfl, hfront⟩ := hrun.starts
      obtain ⟨_, hrest, hacross⟩ := List.pairwise_append.mp hordered
      cases hus with
      | plain hus =>
        obtain ⟨hpairwise, hstarts⟩ := ih (List.pairwise_cons.mp hrest).2 hus
        -- the target of the run is a bracket in front of the tokens behind it
        have hrunStarts : ∀ u ∈ here,
            ∃ t ∈ front, t.kind = .lBracket ∧ t.start = u.targetStart := by
          intro u hu
          obtain ⟨l, hl, htarget, _⟩ := hhere.exists_target u hu
          rw [htarget]
          exact hfront l hl
        refine ⟨List.pairwise_append.mpr ⟨?_, hpairwise, fun u hu v hv => ?_⟩, fun u hu => ?_⟩
        · refine List.pairwise_of_forall_mem_list fun u hu v hv => ?_
          obtain ⟨l, _, htarget, hall⟩ := hhere.exists_target u hu
          rw [htarget, hall v hv]
        · obtain ⟨t', ht', _, hu⟩ := hrunStarts u hu
          obtain ⟨t'', ht'', _, hv⟩ := hstarts v hv
          rw [← hu, ← hv]
          exact hacross t' ht' t'' (List.mem_cons_of_mem t ht'')
        · rcases List.mem_append.mp hu with hu | hu
          · obtain ⟨t', ht', hstart⟩ := hrunStarts u hu
            exact ⟨t', List.mem_append_left _ ht', hstart⟩
          · obtain ⟨t', ht', hstart⟩ := hstarts u hu
            exact ⟨t', List.mem_append_right front (List.mem_cons_of_mem t ht'), hstart⟩
  | last =>
    cases hus
    exact ⟨.nil, List.forall_mem_nil _⟩

/-! ## Sources -/

theorem pairwise_start_tokenize (source : String) :
    (tokenize source).Pairwise fun t u => t.start ≤ u.start := by
  have htiles := tiles_tokenize source
  refine htiles.ordered.imp_of_mem fun {t u} ht _ hle => ?_
  have := htiles.start_lt_stop t ht
  omega

/-- A source falls into plain tokens and runs of lists in one way, and its usages are what these
yield: each attribute of the runs that have a token behind them, once and in the order of the
source, at the first list of its run that is not for the whole assembly or module. No run begins
behind any other plain token than those behind which a declaration or a member may begin, and
targets never go back. -/
theorem ofSource_eq_usages_of_walk (source : String) :
    ∃ stretches,
      (∀ others, Walk source.toList none (tokenize source) others ↔ others = stretches) ∧
        (∀ us, Stretch.Yields stretches us ↔ us = Usage.ofSource source) ∧
          Stretch.Placed stretches ∧
          (Usage.ofSource source).Pairwise (fun u v => u.targetStart ≤ v.targetStart) ∧
            ∀ u ∈ Usage.ofSource source, ∃ t ∈ tokenize source,
              t.kind = .lBracket ∧ t.start = u.targetStart := by
  obtain ⟨stretches, hwalk⟩ := exists_walk source.toList none (tokenize source)
  have hyields := Usage.yields_ofSource hwalk
  obtain ⟨hpairwise, hbrackets⟩ := hwalk.targets (pairwise_start_tokenize source) hyields
  refine ⟨stretches, fun others => ⟨fun h => h.unique hwalk, ?walks⟩,
    fun us => ⟨fun h => h.unique hyields, ?yields⟩, hwalk.placed, hpairwise, hbrackets⟩
  case walks =>
    rintro rfl
    exact hwalk
  case yields =>
    rintro rfl
    exact hyields

end AttributeLint
