/-!
# Loop — passes that are repeated until one stops

A loop is given by one pass over its state, which may fail. The loop has a result if passes that
succeed lead to one that stops with it (`Ends`), and gives nothing otherwise: neither if a pass
fails, nor if none ever stops.
-/

namespace AttributeLint

/-- What a pass of a loop does that succeeds: it goes on with a new state, or stops. -/
inductive Pass (σ β : Type) where
  | again (state : σ)
  | done (result : β)
  deriving DecidableEq, Repr

namespace Pass

variable {σ β : Type} {pass : σ → Option (Pass σ β)} {s s' : σ} {r r' : β}

/-- The loop stops with the result `r` after some number of passes. -/
inductive Ends (pass : σ → Option (Pass σ β)) : σ → β → Prop where
  | done {s : σ} {r : β} : pass s = some (.done r) → Ends pass s r
  | again {s s' : σ} {r : β} : pass s = some (.again s') → Ends pass s' r → Ends pass s r

theorem Ends.unique (h : Ends pass s r) (h' : Ends pass s r') : r = r' := by
  induction h with
  | done hdone =>
    cases h' with
    | done hdone' =>
      rw [hdone] at hdone'
      cases hdone'
      rfl
    | again hagain' _ =>
      rw [hdone] at hagain'
      cases hagain'
  | again hagain _ ih =>
    cases h' with
    | done hdone' =>
      rw [hagain] at hdone'
      cases hdone'
    | again hagain' hends' =>
      rw [hagain] at hagain'
      cases hagain'
      exact ih hends'

open Classical in
/-- The result of a loop, if it has one. -/
noncomputable def loop? (pass : σ → Option (Pass σ β)) (s : σ) : Option β :=
  if h : ∃ r, Ends pass s r then some h.choose else none

theorem loop?_eq_some_iff : loop? pass s = some r ↔ Ends pass s r := by
  rw [loop?]
  constructor
  · intro h
    split at h
    · rename_i hends
      cases h
      exact hends.choose_spec
    · cases h
  · intro h
    rw [dif_pos ⟨r, h⟩]
    exact congrArg some (Ends.unique (Exists.choose_spec ⟨r, h⟩) h)

/-- A pass that stops gives the result. -/
theorem loop?_done (h : pass s = some (.done r)) : loop? pass s = some r :=
  loop?_eq_some_iff.mpr (.done h)

/-- A pass that goes on leaves the result to the rest of the loop. -/
theorem loop?_again (h : pass s = some (.again s')) : loop? pass s = loop? pass s' := by
  ext r
  rw [loop?_eq_some_iff, loop?_eq_some_iff]
  constructor
  · intro hends
    cases hends with
    | done hdone =>
      rw [h] at hdone
      cases hdone
    | again hagain hends =>
      rw [h] at hagain
      cases hagain
      exact hends
  · exact .again h

end Pass

end AttributeLint
