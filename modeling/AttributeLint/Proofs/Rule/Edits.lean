import AttributeLint.Proofs.Rule.Insertion

/-!
# Edits — what a registry holds after it was edited

A registry is edited by adding rules and by changing whether a rule is enabled and how severe it is.
An edit says something about one identifier. It keeps every other rule at its place
(`getElem?_edit_of_ne`), and unless it adds a rule it changes at most the one under its identifier
(`get?_edit_of_not_adds`). So after any edits, the identifiers stand as if there had been additions
alone (`ids_editAll`), and the rule under an identifier is the one that was added last, with the
values that were set since (`get?_editAll_eq_some_iff`).
-/

namespace AttributeLint.Registry

/-- A change to a registry. -/
inductive Edit where
  | add (rule : Rule)
  | enable (id : String) (enabled : Bool)
  | grade (id : String) (severity : Severity)
  deriving DecidableEq, Repr

namespace Edit

/-- The identifier that an edit says something about. -/
def id : Edit → String
  | add rule => rule.id
  | enable id _ => id
  | grade id _ => id

/-- The rule that is added. -/
def added? : Edit → Option Rule
  | add rule => some rule
  | _ => none

theorem added?_eq_some_iff {e : Edit} {rule : Rule} : e.added? = some rule ↔ e = add rule := by
  cases e <;> simp [added?]

/-- The value that an edit sets for the rule under the identifier: whether it is enabled. -/
def enabled? (id : String) : Edit → Option Bool
  | enable id' enabled => if id' = id then some enabled else none
  | _ => none

/-- The value that an edit sets for the rule under the identifier: how severe it is. -/
def severity? (id : String) : Edit → Option Severity
  | grade id' severity => if id' = id then some severity else none
  | _ => none

/-- The edit adds a rule under the identifier. -/
def Adds (e : Edit) (id : String) : Prop :=
  ∃ rule, e = add rule ∧ rule.id = id

/-- A rule under the identifier with what the edit sets for it. -/
def change (id : String) (e : Edit) (r : Rule) : Rule :=
  { r with
    enabled := (e.enabled? id).getD r.enabled
    descriptor := { r.descriptor with severity := (e.severity? id).getD r.descriptor.severity } }

end Edit

/-- The registry with an edit made, unless the edit changes a rule that is not there. -/
def edit? (registry : Registry) : Edit → Option Registry
  | .add rule => some (registry.add rule)
  | .enable id enabled => registry.setEnabled? id enabled
  | .grade id severity => registry.setSeverity? id severity

/-- The registry after an edit, which may have found no rule to change. -/
def edit (registry : Registry) (e : Edit) : Registry :=
  (registry.edit? e).getD registry

/-- The registry after some edits. -/
def editAll (registry : Registry) (es : List Edit) : Registry :=
  es.foldl edit registry

variable {registry registry' : Registry} {rule r : Rule} {rules rules' : List Rule} {id k : String}
  {f : Rule → Rule} {e : Edit} {es : List Edit} {i : Nat}

theorem get?_eq_none_iff : registry.get? id = none ↔ id ∉ registry.ids := by
  simp [get?, ids]

/-! ## One change -/

/-- The change is made to the first rule under the identifier. -/
theorem exists_of_change? (h : change? id f rules = some rules') :
    ∃ before r after, rules = before ++ r :: after ∧ r.id = id ∧
      (∀ r' ∈ before, r'.id ≠ id) ∧ rules' = before ++ f r :: after := by
  induction rules generalizing rules' with
  | nil => cases h
  | cons first rules ih =>
    rw [change?] at h
    by_cases hhere : first.id = id
    · rw [if_pos hhere] at h
      cases h
      exact ⟨[], first, rules, rfl, hhere, fun r' hmem => absurd hmem List.not_mem_nil, rfl⟩
    · rw [if_neg hhere] at h
      obtain ⟨changed, hlater, rfl⟩ := Option.map_eq_some_iff.mp h
      obtain ⟨before, r, after, rfl, hfound, hothers, rfl⟩ := ih hlater
      exact ⟨first :: before, r, after, rfl, hfound,
        List.forall_mem_cons.mpr ⟨hhere, hothers⟩, rfl⟩

/-- There is nothing to change if no rule has the identifier. -/
theorem change?_eq_none_iff : change? id f rules = none ↔ id ∉ rules.map (·.id) := by
  induction rules with
  | nil => simp [change?]
  | cons first rules ih =>
    rw [change?, List.map_cons, List.mem_cons, not_or]
    by_cases hhere : first.id = id
    · simp [hhere]
    · rw [if_neg hhere, Option.map_eq_none_iff, ih]
      simp [Ne.symm hhere]

/-- A change that keeps the identifier of the rule keeps all identifiers. -/
theorem map_id_change? (h : change? id f rules = some rules') (hkeeps : ∀ r, (f r).id = r.id) :
    rules'.map (·.id) = rules.map (·.id) := by
  obtain ⟨before, r, after, rfl, -, -, rfl⟩ := exists_of_change? h
  simp [hkeeps]

theorem find?_change? (h : change? id f rules = some rules') (hkeeps : ∀ r, (f r).id = r.id) :
    rules'.find? (·.id = k) =
      if id = k then (rules.find? (·.id = k)).map f else rules.find? (·.id = k) := by
  obtain ⟨before, r, after, rfl, hfound, hothers, rfl⟩ := exists_of_change? h
  rw [List.find?_append, List.find?_append]
  by_cases hasked : id = k
  · have hnone : before.find? (·.id = k) = none := by
      simpa [List.find?_eq_none, ← hasked] using hothers
    simp [hasked, hnone, hkeeps, hfound]
  · simp [hasked, hkeeps, hfound]

theorem getElem?_change?_of_ne (h : change? id f rules = some rules') (hthere : rules[i]? = some r)
    (hother : r.id ≠ id) : rules'[i]? = some r := by
  obtain ⟨before, r', after, rfl, hfound, -, rfl⟩ := exists_of_change? h
  rw [List.getElem?_append] at hthere ⊢
  by_cases hfront : i < before.length
  · rwa [if_pos hfront] at hthere ⊢
  · rw [if_neg hfront] at hthere ⊢
    cases hplace : i - before.length with
    | zero =>
      rw [hplace, List.getElem?_cons_zero] at hthere
      cases hthere
      exact absurd hfound hother
    | succ n =>
      rw [hplace, List.getElem?_cons_succ] at hthere
      rwa [List.getElem?_cons_succ]

theorem getElem?_put_of_ne (hthere : rules[i]? = some r) (hother : r.id ≠ rule.id) :
    (put rule rules)[i]? = some r := by
  induction rules generalizing i with
  | nil => cases hthere
  | cons first rules ih =>
    rw [put]
    cases i with
    | zero =>
      cases hthere
      rw [if_neg hother, List.getElem?_cons_zero]
    | succ n =>
      rw [List.getElem?_cons_succ] at hthere
      split
      · rwa [List.getElem?_cons_succ]
      · rw [List.getElem?_cons_succ, ih hthere]

/-! ## One edit -/

/-- What an edit can do: add a rule, or change what is there under its identifier. -/
theorem edit?_cases (registry : Registry) (e : Edit) :
    (∃ rule, e = .add rule ∧ registry.edit? e = some (registry.add rule)) ∨
      e.added? = none ∧
        registry.edit? e = (change? e.id (e.change e.id) registry.rules).map mk := by
  cases e with
  | add rule => exact .inl ⟨rule, rfl, rfl⟩
  | enable id enabled =>
    refine .inr ⟨rfl, ?_⟩
    have hsame : (Edit.enable id enabled).change id = fun r => { r with enabled } := by
      funext r
      simp [Edit.change, Edit.enabled?, Edit.severity?]
    rw [edit?, setEnabled?, Edit.id, hsame]
  | grade id severity =>
    refine .inr ⟨rfl, ?_⟩
    have hsame : (Edit.grade id severity).change id = (·.withSeverity severity) := by
      funext r
      simp [Edit.change, Edit.enabled?, Edit.severity?, Rule.withSeverity]
    rw [edit?, setSeverity?, Edit.id, hsame]

/-- Only changes fail, and only where there is no rule to change. -/
theorem edit?_eq_none_iff :
    registry.edit? e = none ↔ e.added? = none ∧ e.id ∉ registry.ids := by
  rcases edit?_cases registry e with ⟨rule, rfl, hmade⟩ | ⟨hnone, hmade⟩
  · simp [hmade, Edit.added?]
  · rw [hmade, Option.map_eq_none_iff, change?_eq_none_iff]
    exact ⟨fun habsent => ⟨hnone, habsent⟩, fun h => h.2⟩

/-- An edit keeps the rules under other identifiers at their places. -/
theorem getElem?_edit_of_ne (hthere : registry.rules[i]? = some r) (hother : r.id ≠ e.id) :
    (registry.edit e).rules[i]? = some r := by
  rw [edit]
  rcases edit?_cases registry e with ⟨rule, rfl, hmade⟩ | ⟨-, hmade⟩
  · rw [hmade]
    exact getElem?_put_of_ne hthere hother
  · rw [hmade]
    cases hchanged : change? e.id (e.change e.id) registry.rules with
    | none => exact hthere
    | some rules => exact getElem?_change?_of_ne hchanged hthere hother

/-- Changes keep the identifiers. -/
theorem ids_edit (registry : Registry) (e : Edit) :
    (registry.edit e).ids = (registry.addAll e.added?.toList).ids := by
  rw [edit]
  rcases edit?_cases registry e with ⟨rule, rfl, hmade⟩ | ⟨hnone, hmade⟩
  · rw [hmade]
    rfl
  · rw [hmade, hnone]
    cases hchanged : change? e.id (e.change e.id) registry.rules with
    | none => rfl
    | some rules => exact map_id_change? hchanged fun _ => rfl

theorem Edit.change_of_ne (h : e.id ≠ id) (r : Rule) : e.change id r = r := by
  cases e with
  | add rule => rfl
  | enable id' enabled =>
    have hother : id' ≠ id := h
    simp [change, enabled?, severity?, hother]
  | grade id' severity =>
    have hother : id' ≠ id := h
    simp [change, enabled?, severity?, hother]

/-- An edit that adds no rule under an identifier changes the one that is there, if there is one. -/
theorem get?_edit_of_not_adds (h : ¬ e.Adds id) :
    (registry.edit e).get? id = (registry.get? id).map (e.change id) := by
  rw [edit]
  rcases edit?_cases registry e with ⟨rule, rfl, hmade⟩ | ⟨-, hmade⟩
  · have hother : rule.id ≠ id := fun hsame => h ⟨rule, rfl, hsame⟩
    rw [hmade, Option.getD_some, get?_add, if_neg hother]
    exact Option.map_id'.symm
  rw [hmade]
  by_cases hasked : e.id = id
  · cases hchanged : change? e.id (e.change e.id) registry.rules with
    | none =>
      have habsent : registry.get? id = none :=
        get?_eq_none_iff.mpr (hasked ▸ change?_eq_none_iff.mp hchanged)
      rw [habsent]
      exact habsent
    | some rules =>
      show rules.find? (·.id = id) = _
      rw [find?_change? hchanged fun _ => rfl, if_pos hasked, hasked]
      rfl
  · have hsame : e.change id = fun r => r := funext fun r => Edit.change_of_ne hasked r
    rw [hsame, Option.map_id']
    cases hchanged : change? e.id (e.change e.id) registry.rules with
    | none => rfl
    | some rules =>
      show rules.find? (·.id = id) = _
      rw [find?_change? hchanged fun _ => rfl, if_neg hasked]
      rfl

/-! ## Many edits -/

theorem editAll_concat (registry : Registry) (es : List Edit) (e : Edit) :
    registry.editAll (es ++ [e]) = (registry.editAll es).edit e :=
  List.foldl_append

theorem filterMap_concat {α β : Type} (g : α → Option β) (xs : List α) (x : α) :
    (xs ++ [x]).filterMap g = xs.filterMap g ++ (g x).toList := by
  rw [List.filterMap_append]
  cases hgiven : g x <;> simp [hgiven]

/-- The identifiers are those that the additions alone give. -/
theorem ids_editAll (es : List Edit) :
    (empty.editAll es).ids = (empty.addAll (es.filterMap Edit.added?)).ids := by
  induction es using List.reverseRecOn with
  | nil => rfl
  | append_singleton es e ih =>
    rw [editAll_concat, ids_edit, filterMap_concat, addAll_append]
    cases e.added? with
    | none => exact ih
    | some rule =>
      show (add _ rule).ids = (add _ rule).ids
      rw [ids_add, ids_add, ih]

/-- The last of the values that edits set, or the value before them. -/
def lastValue {α : Type} (value? : Edit → Option α) (es : List Edit) (before : α) : α :=
  ((es.filterMap value?).getLast?).getD before

/-- The rule that was added last under the identifier, with the values that were set since. -/
def Stands (es : List Edit) (id : String) (r : Rule) : Prop :=
  ∃ before rule after, es = before ++ .add rule :: after ∧ rule.id = id ∧
    (∀ e ∈ after, ¬ e.Adds id) ∧
    r = { rule with
      enabled := lastValue (Edit.enabled? id) after rule.enabled
      descriptor := { rule.descriptor with
        severity := lastValue (Edit.severity? id) after rule.descriptor.severity } }

theorem lastValue_concat {α : Type} (value? : Edit → Option α) (es : List Edit) (e : Edit)
    (before : α) : lastValue value? (es ++ [e]) before =
      (value? e).getD (lastValue value? es before) := by
  rw [lastValue, lastValue, filterMap_concat]
  cases value? e with
  | none => rw [Option.toList_none, List.append_nil, Option.getD_none]
  | some value => rw [Option.toList_some, List.getLast?_concat, Option.getD_some, Option.getD_some]

theorem stands_concat_add_iff : Stands (es ++ [.add rule]) rule.id r ↔ r = rule := by
  constructor
  · rintro ⟨before, rule', after, hsplit, -, hnone, rfl⟩
    rcases List.eq_nil_or_concat' after with rfl | ⟨after, e, rfl⟩
    · obtain ⟨-, hsame⟩ := List.append_inj' hsplit rfl
      cases hsame
      rfl
    · rw [← List.cons_append, ← List.append_assoc] at hsplit
      obtain ⟨-, hsame⟩ := List.append_inj' hsplit rfl
      cases hsame
      exact absurd ⟨rule, rfl, rfl⟩ (hnone _ (List.mem_append_right _ (List.mem_singleton_self _)))
  · rintro rfl
    exact ⟨es, r, [], rfl, rfl, fun e hmem => absurd hmem List.not_mem_nil, rfl⟩

theorem stands_concat_iff (h : ¬ e.Adds id) :
    Stands (es ++ [e]) id r ↔ ∃ r₀, Stands es id r₀ ∧ r = e.change id r₀ := by
  constructor
  · rintro ⟨before, rule, after, hsplit, hfound, hnone, rfl⟩
    rcases List.eq_nil_or_concat' after with rfl | ⟨after, e', rfl⟩
    · obtain ⟨-, hsame⟩ := List.append_inj' hsplit rfl
      cases hsame
      exact absurd ⟨rule, rfl, hfound⟩ h
    · rw [← List.cons_append, ← List.append_assoc] at hsplit
      obtain ⟨rfl, hsame⟩ := List.append_inj' hsplit rfl
      cases hsame
      refine ⟨_, ⟨before, rule, after, rfl, hfound, ?_, rfl⟩, ?_⟩
      · exact fun e hmem => hnone e (List.mem_append_left _ hmem)
      · rw [lastValue_concat, lastValue_concat]
        rfl
  · rintro ⟨_, ⟨before, rule, after, rfl, hfound, hnone, rfl⟩, rfl⟩
    refine ⟨before, rule, after ++ [e], List.append_assoc _ _ _, hfound, ?_, ?_⟩
    · rintro e' hmem
      rcases List.mem_append.mp hmem with hmem | hmem
      · exact hnone e' hmem
      · cases List.mem_singleton.mp hmem
        exact h
    · rw [lastValue_concat, lastValue_concat]
      rfl

/-- Under each identifier stands the rule that was added last, as it was changed since. -/
theorem get?_editAll_eq_some_iff :
    (empty.editAll es).get? id = some r ↔ Stands es id r := by
  induction es using List.reverseRecOn generalizing r with
  | nil =>
    constructor
    · intro h
      cases h
    · rintro ⟨before, rule, after, hsplit, -⟩
      exact absurd hsplit.symm (by simp)
  | append_singleton es e ih =>
    rw [editAll_concat]
    by_cases hadds : e.Adds id
    · obtain ⟨rule, rfl, rfl⟩ := hadds
      rw [stands_concat_add_iff]
      show (add _ rule).get? rule.id = some r ↔ _
      rw [get?_add, if_pos rfl, Option.some_inj, eq_comm]
    · rw [get?_edit_of_not_adds hadds, stands_concat_iff hadds, Option.map_eq_some_iff]
      simp only [ih, eq_comm]

/-- What a registry holds after edits. -/
structure Reflects (es : List Edit) (registry : Registry) : Prop where
  distinct : registry.ids.Nodup
  ids : ∀ id, id ∈ registry.ids ↔ ∃ e ∈ es, e.Adds id
  /-- The identifiers stand in the order in which rules were first added under them. -/
  order : registry.ids.Pairwise fun a b =>
    ((es.filterMap Edit.added?).map (·.id)).idxOf a <
      ((es.filterMap Edit.added?).map (·.id)).idxOf b
  rule : ∀ id r, registry.get? id = some r ↔ Stands es id r
  listed : ∀ r ∈ registry.rules, registry.get? r.id = some r
  /-- The enabled rules stand in the order of all rules. -/
  enabled : registry.enabledRules.Sublist registry.rules ∧
    ∀ r, r ∈ registry.enabledRules ↔ r ∈ registry.rules ∧ r.enabled = true

theorem mem_ids_editAll_iff : id ∈ (empty.editAll es).ids ↔ ∃ e ∈ es, e.Adds id := by
  rw [ids_editAll, mem_ids_addAll_iff]
  simp only [ids_empty, List.not_mem_nil, false_or, List.mem_map, List.mem_filterMap,
    Edit.added?_eq_some_iff, Edit.Adds]
  constructor
  · rintro ⟨rule, ⟨e, hmem, hadds⟩, hfound⟩
    exact ⟨e, hmem, rule, hadds, hfound⟩
  · rintro ⟨e, hmem, rule, hadds, hfound⟩
    exact ⟨rule, ⟨e, hmem, hadds⟩, hfound⟩

theorem nodup_ids_editAll (es : List Edit) : (empty.editAll es).ids.Nodup := by
  rw [ids_editAll]
  exact nodup_ids_addAll _

theorem reflects_editAll (es : List Edit) : Reflects es (empty.editAll es) where
  distinct := nodup_ids_editAll es
  ids _ := mem_ids_editAll_iff
  order := by
    rw [ids_editAll]
    exact pairwise_ids_addAll _
  rule _ _ := get?_editAll_eq_some_iff
  listed _ hmem := get?_of_mem (nodup_ids_editAll es) hmem
  enabled := ⟨List.filter_sublist, fun _ => List.mem_filter⟩

/-- After any edits of an empty registry, the identifiers are distinct and stand in the order of
their first additions. Under each of them stands the rule that was added last, with the values that
were set since, and the enabled rules stand in the same order. A further edit fails exactly if it
changes a rule that was never added, and then the registry stays as it is. An edit that is made
keeps all rules under other identifiers, each at its place. -/
theorem editAll_insertion_ordered (es : List Edit) :
    Reflects es (empty.editAll es) ∧
      ∀ e, ((empty.editAll es).edit? e = none ↔ e.added? = none ∧ ∀ e' ∈ es, ¬ e'.Adds e.id) ∧
        ((empty.editAll es).edit? e = none → (empty.editAll es).edit e = empty.editAll es) ∧
        ∀ (i : Nat) r, (empty.editAll es).rules[i]? = some r → r.id ≠ e.id →
          ((empty.editAll es).edit e).rules[i]? = some r := by
  refine ⟨reflects_editAll es, fun e => ⟨?_, ?_, fun i r => getElem?_edit_of_ne⟩⟩
  · rw [edit?_eq_none_iff, mem_ids_editAll_iff, not_exists]
    simp only [not_and]
  · intro hmissing
    rw [edit, hmissing, Option.getD_none]

/-- A rule that differs from the built-in one in its identifier. -/
def ruleUnder (id : String) : Rule :=
  { Rule.errorAttribute with descriptor := { Descriptor.illegalCharacter with id } }

/-- A rule that was disabled is added again and is enabled then, at its old place, while the rule
behind it keeps its new severity. -/
theorem editAll_insertion_ordered_replaced :
    let es : List Edit :=
      [.add (ruleUnder "A"), .enable "A" false, .add (ruleUnder "B"), .grade "B" .error,
        .add (ruleUnder "A")]
    (empty.editAll es).ids = ["A", "B"] ∧ Stands es "A" (ruleUnder "A") ∧
      Stands es "B" ((ruleUnder "B").withSeverity .error) ∧
      (empty.editAll es).edit? (.enable "C" true) = none ∧
      (empty.editAll es).edit (.enable "C" true) = empty.editAll es ∧
      ((empty.editAll es).edit (.enable "A" false)).rules[1]? =
        some ((ruleUnder "B").withSeverity .error) := by
  intro es
  obtain ⟨hreflects, hfurther⟩ := editAll_insertion_ordered es
  obtain ⟨hmissing_iff, hstays, -⟩ := hfurther (.enable "C" true)
  obtain ⟨-, -, hkeeps⟩ := hfurther (.enable "A" false)
  have hmissing : (empty.editAll es).edit? (.enable "C" true) = none := by
    rw [hmissing_iff]
    refine ⟨rfl, fun e hmem ⟨rule, hadds, hfound⟩ => ?_⟩
    have hothers : ∀ e ∈ es, ∀ rule ∈ e.added?, rule.id ≠ "C" := by decide +kernel
    exact hothers e hmem rule (Edit.added?_eq_some_iff.mpr hadds) hfound
  refine ⟨by decide +kernel, ?_, ?_, hmissing, hstays hmissing, ?_⟩
  · exact (hreflects.rule _ _).mp (by decide +kernel)
  · exact (hreflects.rule _ _).mp (by decide +kernel)
  · exact hkeeps 1 _ (by decide +kernel) (by decide +kernel)

end AttributeLint.Registry
