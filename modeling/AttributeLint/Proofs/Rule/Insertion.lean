import AttributeLint.Rule.Registry
import Mathlib.Data.List.Basic
import Mathlib.Data.List.Induction

/-!
# Insertion — what a registry holds after rules were added

A registry is told by the order of its identifiers and by the rule under each of them. Adding a rule
changes the second for one identifier, and the first only if the identifier is new (`ids_add`,
`get?_add`). So after many additions the rule under an identifier is the last one that was added
(`get?_addAll`), and the identifiers stand in the order in which they first appeared
(`pairwise_ids_addAll`).
-/

namespace AttributeLint.Registry

variable {registry : Registry} {rule : Rule} {rules : List Rule}

/-! ## One rule -/

theorem map_id_put (rule : Rule) (rules : List Rule) :
    (put rule rules).map (·.id) =
      if rule.id ∈ rules.map (·.id) then rules.map (·.id)
      else rules.map (·.id) ++ [rule.id] := by
  induction rules with
  | nil => rfl
  | cons r rules ih =>
    rw [put]
    by_cases hid : r.id = rule.id
    · simp [hid]
    · rw [if_neg hid, List.map_cons, ih]
      by_cases hlater : rule.id ∈ rules.map (·.id)
      · simp [hlater]
      · have hnew : rule.id ∉ r.id :: rules.map (·.id) := by
          intro hmem
          rcases List.mem_cons.mp hmem with hmem | hmem
          · exact hid hmem.symm
          · exact hlater hmem
        rw [if_neg hlater, List.map_cons, if_neg hnew, List.cons_append]

theorem find?_put (rule : Rule) (rules : List Rule) (id : String) :
    (put rule rules).find? (·.id = id) =
      if rule.id = id then some rule else rules.find? (·.id = id) := by
  induction rules with
  | nil => by_cases hasked : rule.id = id <;> simp [put, hasked]
  | cons r rules ih =>
    rw [put]
    by_cases hid : r.id = rule.id
    · rw [if_pos hid]
      by_cases hasked : rule.id = id
      · simp [hasked]
      · simp [hasked, hid]
    · rw [if_neg hid, List.find?_cons, List.find?_cons, ih]
      by_cases hfirst : r.id = id
      · have hother : rule.id ≠ id := by
          intro hasked
          exact hid (hfirst.trans hasked.symm)
        simp [hfirst, hother]
      · simp [hfirst]

theorem ids_add (registry : Registry) (rule : Rule) :
    (registry.add rule).ids =
      if rule.id ∈ registry.ids then registry.ids else registry.ids ++ [rule.id] :=
  map_id_put rule registry.rules

theorem get?_add (registry : Registry) (rule : Rule) (id : String) :
    (registry.add rule).get? id = if rule.id = id then some rule else registry.get? id :=
  find?_put rule registry.rules id

theorem mem_ids_add_iff {id : String} :
    id ∈ (registry.add rule).ids ↔ id ∈ registry.ids ∨ id = rule.id := by
  rw [ids_add]
  by_cases hmem : rule.id ∈ registry.ids
  · rw [if_pos hmem]
    constructor
    · exact .inl
    · rintro (h | rfl)
      · exact h
      · exact hmem
  · rw [if_neg hmem, List.mem_append, List.mem_singleton]

/-! ## Many rules -/

@[simp] theorem addAll_nil (registry : Registry) : registry.addAll [] = registry := rfl

theorem addAll_append (registry : Registry) (rules rules' : List Rule) :
    registry.addAll (rules ++ rules') = (registry.addAll rules).addAll rules' :=
  List.foldl_append

theorem addAll_concat (registry : Registry) (rules : List Rule) (rule : Rule) :
    registry.addAll (rules ++ [rule]) = (registry.addAll rules).add rule :=
  addAll_append registry rules [rule]

/-- Under each identifier stands the rule that was added last. -/
theorem get?_addAll (registry : Registry) (rules : List Rule) (id : String) :
    (registry.addAll rules).get? id =
      ((rules.filter (·.id = id)).getLast?).or (registry.get? id) := by
  induction rules using List.reverseRecOn with
  | nil => rfl
  | append_singleton rules rule ih =>
    rw [addAll_concat, get?_add, ih, List.filter_append]
    by_cases hasked : rule.id = id
    · simp [hasked]
    · simp [hasked]

theorem mem_ids_addAll_iff {id : String} :
    id ∈ (registry.addAll rules).ids ↔ id ∈ registry.ids ∨ id ∈ rules.map (·.id) := by
  induction rules using List.reverseRecOn with
  | nil => simp
  | append_singleton rules rule ih =>
    rw [addAll_concat, mem_ids_add_iff, ih, List.map_append, List.mem_append, or_assoc]
    simp

@[simp] theorem ids_empty : empty.ids = [] := rfl

/-- The identifiers stand in the order in which they first appeared, each once. -/
theorem pairwise_ids_addAll (rules : List Rule) :
    (empty.addAll rules).ids.Pairwise fun a b =>
      (rules.map (·.id)).idxOf a < (rules.map (·.id)).idxOf b := by
  induction rules using List.reverseRecOn with
  | nil => exact .nil
  | append_singleton rules rule ih =>
    have hseen {id : String} (h : id ∈ (empty.addAll rules).ids) : id ∈ rules.map (·.id) := by
      simpa using mem_ids_addAll_iff.mp h
    have hbefore := ih.imp_of_mem (fun {a b} ha hb h =>
      show (rules.map (·.id) ++ [rule.id]).idxOf a < (rules.map (·.id) ++ [rule.id]).idxOf b by
        rwa [List.idxOf_append_of_mem (hseen ha), List.idxOf_append_of_mem (hseen hb)])
    rw [addAll_concat, ids_add, List.map_append, List.map_singleton]
    by_cases hmem : rule.id ∈ (empty.addAll rules).ids
    · rw [if_pos hmem]
      exact hbefore
    · rw [if_neg hmem]
      have hnew : rule.id ∉ rules.map (·.id) := by
        intro h
        exact hmem (mem_ids_addAll_iff.mpr (.inr h))
      refine List.pairwise_append.mpr ⟨hbefore, List.pairwise_singleton _ _, ?_⟩
      intro a ha b hb
      rw [List.mem_singleton.mp hb, List.idxOf_append_of_mem (hseen ha),
        List.idxOf_append_of_notMem hnew]
      have hinside := List.idxOf_lt_length_of_mem (hseen ha)
      omega

theorem nodup_ids_addAll (rules : List Rule) : (empty.addAll rules).ids.Nodup :=
  (pairwise_ids_addAll rules).imp fun h hsame => by
    rw [hsame] at h
    exact Nat.lt_irrefl _ h

/-- If the identifiers are distinct, each rule stands under its own. -/
theorem get?_of_mem (hnodup : registry.ids.Nodup) (h : rule ∈ registry.rules) :
    registry.get? rule.id = some rule := by
  obtain ⟨rules⟩ := registry
  rw [get?]
  induction rules with
  | nil => cases h
  | cons r rules ih =>
    obtain ⟨hfresh, hnodup⟩ := List.nodup_cons.mp hnodup
    rcases List.mem_cons.mp h with rfl | hlater
    · simp
    · have hother : r.id ≠ rule.id := by
        intro hsame
        exact hfresh (List.mem_map.mpr ⟨rule, hlater, hsame.symm⟩)
      rw [List.find?_cons_of_neg (by simpa using hother)]
      exact ih hnodup hlater

end AttributeLint.Registry
