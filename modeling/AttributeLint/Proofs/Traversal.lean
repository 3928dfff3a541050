import Mathlib.Data.List.Forall2

/-!
# Traversal — lists that are worked off until something fails

A step that may fail is done for each element of a list in turn. Either it succeeds for all of them,
with one result each (`mapM_eq_ok_iff`), or there is a first element for which it fails, and this
failure is that of the whole (`mapM_eq_error_iff`). Traversals of parts make up that of the whole
(`mapM_flatMap_eq_ok`). Where all failures are alike, there is no need to tell which is the first
(`mapM_eq_ite`).
-/

namespace AttributeLint

variable {α β ε : Type} {f : α → Except ε β} {x : α} {xs : List α} {ys : List β} {e : ε}

theorem mapM_cons_eq_ok_iff :
    (x :: xs).mapM f = .ok ys ↔
      ∃ y rest, f x = .ok y ∧ xs.mapM f = .ok rest ∧ ys = y :: rest := by
  rw [List.mapM_cons]
  cases f x with
  | error e => simp [bind, Except.bind]
  | ok y => cases xs.mapM f <;> simp [bind, Except.bind, pure, Except.pure, eq_comm]

theorem mapM_cons_eq_error_iff :
    (x :: xs).mapM f = .error e ↔
      f x = .error e ∨ (∃ y, f x = .ok y) ∧ xs.mapM f = .error e := by
  rw [List.mapM_cons]
  cases f x with
  | error e => simp [bind, Except.bind]
  | ok y => cases xs.mapM f <;> simp [bind, Except.bind, pure, Except.pure]

theorem mapM_eq_ok_iff : xs.mapM f = .ok ys ↔ List.Forall₂ (fun x y => f x = .ok y) xs ys := by
  induction xs generalizing ys with
  | nil =>
    rw [List.mapM_nil, List.forall₂_nil_left_iff]
    exact ⟨fun h => by cases h; rfl, fun h => by rw [h]; rfl⟩
  | cons x xs ih =>
    rw [mapM_cons_eq_ok_iff, List.forall₂_cons_left_iff]
    simp only [ih]

/-- The failure of the first element that fails is that of the whole list. -/
theorem mapM_eq_error_iff :
    xs.mapM f = .error e ↔
      ∃ before x after, xs = before ++ x :: after ∧ (∀ u ∈ before, ∃ y, f u = .ok y) ∧
        f x = .error e := by
  induction xs with
  | nil =>
    constructor
    · intro h
      cases h
    · rintro ⟨before, x, after, hsplit, -⟩
      exact absurd hsplit.symm (by simp)
  | cons x xs ih =>
    rw [mapM_cons_eq_error_iff, ih]
    constructor
    · rintro (hfails | ⟨hfirst, before, x', after, rfl, hsucceed, hfails⟩)
      · exact ⟨[], x, xs, rfl, fun u hu => absurd hu List.not_mem_nil, hfails⟩
      · exact ⟨x :: before, x', after, rfl, List.forall_mem_cons.mpr ⟨hfirst, hsucceed⟩, hfails⟩
    · rintro ⟨before, x', after, hsplit, hsucceed, hfails⟩
      cases before with
      | nil =>
        cases hsplit
        exact .inl hfails
      | cons u before =>
        cases hsplit
        obtain ⟨hfirst, hsucceed⟩ := List.forall_mem_cons.mp hsucceed
        exact .inr ⟨hfirst, before, x', after, rfl, hsucceed, hfails⟩

/-- If an element has a property exactly if its result has another, all elements have the one exactly
if all results have the other. -/
theorem forall_mem_iff_of_forall₂ {related : α → β → Prop} {p : α → Prop} {q : β → Prop}
    (h : List.Forall₂ related xs ys) (hrelated : ∀ x y, related x y → (p x ↔ q y)) :
    (∀ x ∈ xs, p x) ↔ ∀ y ∈ ys, q y := by
  induction h with
  | nil => simp
  | cons hxy _ ih => rw [List.forall_mem_cons, List.forall_mem_cons, hrelated _ _ hxy, ih]

/-! ## Traversals that cannot fail -/

theorem mapM_eq_ok {α β ε : Type} {f : α → Except ε β} {g : α → β} (xs : List α)
    (h : ∀ x ∈ xs, f x = .ok (g x)) : xs.mapM f = .ok (xs.map g) := by
  rw [mapM_eq_ok_iff, List.forall₂_map_right_iff, List.forall₂_same]
  exact h

theorem mapM_append_eq_ok {α β ε : Type} {f : α → Except ε β} {xs ys : List α} {us vs : List β}
    (hx : xs.mapM f = .ok us) (hy : ys.mapM f = .ok vs) : (xs ++ ys).mapM f = .ok (us ++ vs) := by
  rw [List.mapM_append, hx, hy]
  rfl

/-- A traversal of a list made of parts succeeds if that of each part does. -/
theorem mapM_flatMap_eq_ok {α β γ ε : Type} {f : β → Except ε γ} {part : α → List β}
    {result : α → List γ} (xs : List α) (h : ∀ x ∈ xs, (part x).mapM f = .ok (result x)) :
    (xs.flatMap part).mapM f = .ok (xs.flatMap result) := by
  induction xs with
  | nil => rfl
  | cons x xs ih =>
    rw [List.flatMap_cons, List.flatMap_cons]
    exact mapM_append_eq_ok (h x List.mem_cons_self)
      (ih fun y hy => h y (List.mem_cons_of_mem _ hy))

/-! ## Traversals that fail in one way -/

/-- If every element that is not good fails, and all in one way, then so does every list with an
element that is not good. -/
theorem mapM_eq_ite {α β : Type} {m : Type → Type} [Monad m] [LawfulMonad m]
    (fail : (γ : Type) → m γ) (hfail : ∀ {γ δ : Type} (k : γ → m δ), fail γ >>= k = fail δ)
    {f : α → m β} {g : α → β} {good : α → Prop} [DecidablePred good] (xs : List α)
    (h : ∀ x ∈ xs, f x = if good x then pure (g x) else fail β) :
    xs.mapM f = if ∀ x ∈ xs, good x then pure (xs.map g) else fail (List β) := by
  induction xs with
  | nil => simp
  | cons x xs ih =>
    obtain ⟨hx, hxs⟩ := List.forall_mem_cons.mp h
    rw [List.mapM_cons, hx, ih hxs, if_congr List.forall_mem_cons rfl rfl]
    by_cases hgood : good x
    · by_cases hall : ∀ y ∈ xs, good y
      · rw [if_pos hgood, if_pos hall, if_pos (And.intro hgood hall)]
        simp
      · have hnot : ¬ (good x ∧ ∀ y ∈ xs, good y) := fun h => hall h.2
        rw [if_pos hgood, if_neg hall, if_neg hnot, pure_bind, hfail]
    · have hnot : ¬ (good x ∧ ∀ y ∈ xs, good y) := fun h => hgood h.1
      rw [if_neg hgood, if_neg hnot, hfail]

end AttributeLint
