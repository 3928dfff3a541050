import AttributeLint.Source.Workspace

/-!
# Descent — where the maps of a workspace come from

Maps stay at their places, clones take the next free place, and files are only ever added. So a map
descends from the map that it was before, or from the one that it was cloned from (`Descends`), and
it keeps the identity and all files of the map that it descends from (`Descends.extends`). Every map
of a run descends from a creation (`exists_creation`), and two maps have the same identity exactly
when they descend from the same one (`id_eq_iff_akin`).
-/

namespace AttributeLint

namespace SourceMap

/-- The map has the identity of `m` and all files of `m`, in their places. -/
structure Extends (m' m : SourceMap) : Prop where
  id_eq : m'.id = m.id
  files : m.files <+: m'.files

variable {m m' m'' : SourceMap} {id : FileId} {file : SourceFile}

theorem Extends.refl (m : SourceMap) : m.Extends m :=
  ⟨rfl, List.prefix_rfl⟩

theorem Extends.trans (h : m''.Extends m') (h' : m'.Extends m) : m''.Extends m :=
  ⟨h.id_eq.trans h'.id_eq, h'.files.trans h.files⟩

theorem extends_add (m : SourceMap) (path text : String) : (m.add path text).Extends m :=
  ⟨rfl, List.prefix_append _ _⟩

/-- A handle leads to a file exactly in a map of its identity that has the file at its place. -/
theorem resolve_eq_ok_iff :
    m.resolve id = .ok file ↔ id.map = m.id ∧ m.files[id.index]? = some file := by
  rw [resolve, get?]
  by_cases hsame : id.map = m.id
  · rw [if_pos hsame]
    cases m.files[id.index]? <;> simp [hsame]
  · simp [hsame]

/-- A map does not know the handles of another identity. -/
theorem resolve_of_ne (hother : m.id ≠ id.map) : m.resolve id = .error ⟨id⟩ := by
  rw [resolve, get?, if_neg hother.symm]

theorem resolve_eq_error_iff : m.resolve id = .error ⟨id⟩ ↔ ¬ ∃ file, m.resolve id = .ok file := by
  rw [resolve]
  cases m.get? id <;> simp

theorem Extends.resolve (h : m'.Extends m) (hknown : m.resolve id = .ok file) :
    m'.resolve id = .ok file := by
  obtain ⟨hmap, hplace⟩ := resolve_eq_ok_iff.mp hknown
  obtain ⟨hinside, rfl⟩ := List.getElem?_eq_some_iff.mp hplace
  exact resolve_eq_ok_iff.mpr
    ⟨hmap.trans h.id_eq.symm, List.prefix_iff_getElem?.mp h.files _ hinside⟩

theorem resolve_add_nextId (m : SourceMap) (path text : String) :
    (m.add path text).resolve m.nextId = .ok { id := m.nextId, path, text } :=
  resolve_eq_ok_iff.mpr ⟨rfl, List.getElem?_concat_length⟩

end SourceMap

namespace Workspace

variable {w w' : Workspace} {steps later : List Step} {i j : Nat} {m m' : SourceMap}

/-! ## One step -/

/-- Where the map at a place comes from in one step. -/
inductive Arises (w : Workspace) : Step → Nat → SourceMap → Prop where
  | kept {s : Step} {j : Nat} {m : SourceMap} (hwas : w.maps[j]? = some m) : Arises w s j m
  | created : Arises w .create w.maps.length (.empty w.nextMap)
  | cloned {i : Nat} {m : SourceMap} (hwas : w.maps[i]? = some m) :
    Arises w (.clone i) w.maps.length m
  | grown {j : Nat} {m : SourceMap} (path text : String) (hwas : w.maps[j]? = some m) :
    Arises w (.add j path text) j (m.add path text)

theorem getElem?_concat_cases {α : Type} {as : List α} {a b : α} {j : Nat}
    (h : (as ++ [a])[j]? = some b) : as[j]? = some b ∨ j = as.length ∧ b = a := by
  rw [List.getElem?_append] at h
  split at h
  · exact .inl h
  · rename_i hbeyond
    obtain ⟨honly, rfl⟩ := List.getElem?_eq_some_iff.mp h
    rw [List.length_singleton] at honly
    exact .inr ⟨by omega, List.getElem_singleton honly⟩

theorem step_clone (hwas : w.maps[i]? = some m) :
    (w.step (.clone i)).1 = { w with maps := w.maps ++ [m] } := by
  rw [step, clone?, hwas]
  rfl

theorem step_clone_of_none (hwas : w.maps[i]? = none) : (w.step (.clone i)).1 = w := by
  rw [step, clone?, hwas]
  rfl

theorem step_add (hwas : w.maps[i]? = some m) (path text : String) :
    w.step (.add i path text) =
      ({ w with maps := w.maps.set i (m.add path text) }, some m.nextId) := by
  rw [step, add?, hwas]
  rfl

theorem step_add_of_none (hwas : w.maps[i]? = none) (path text : String) :
    w.step (.add i path text) = (w, none) := by
  rw [step, add?, hwas]
  rfl

/-- An addition that returns a handle grows a map that is there. -/
theorem step_add_eq_some {path text : String} {id : FileId}
    (h : w.step (.add i path text) = (w', some id)) :
    ∃ m, w.maps[i]? = some m ∧ id = m.nextId ∧
      w' = { w with maps := w.maps.set i (m.add path text) } := by
  cases hwas : w.maps[i]? with
  | none =>
    rw [step_add_of_none hwas] at h
    cases h
  | some m =>
    rw [step_add hwas] at h
    cases h
    exact ⟨m, rfl, rfl, rfl⟩

/-- A map that is there after a step was kept, created, cloned or grown by it. -/
theorem arises_of_step {s : Step} (h : (w.step s).1.maps[j]? = some m) : Arises w s j m := by
  cases s with
  | create =>
    rcases getElem?_concat_cases h with hwas | ⟨rfl, rfl⟩
    · exact .kept hwas
    · exact .created
  | clone i =>
    cases hwas : w.maps[i]? with
    | none =>
      rw [step_clone_of_none hwas] at h
      exact .kept h
    | some m₀ =>
      rw [step_clone hwas] at h
      rcases getElem?_concat_cases h with hkept | ⟨rfl, rfl⟩
      · exact .kept hkept
      · exact .cloned hwas
  | add i path text =>
    cases hwas : w.maps[i]? with
    | none =>
      rw [step_add_of_none hwas] at h
      exact .kept h
    | some m₀ =>
      rw [step_add hwas] at h
      by_cases hhere : i = j
      · subst hhere
        have hinside : i < w.maps.length := (List.getElem?_eq_some_iff.mp hwas).1
        rw [List.getElem?_set_self hinside] at h
        cases h
        exact .grown path text hwas
      · rw [List.getElem?_set_ne hhere] at h
        exact .kept h

/-- A step leaves every map at its place, with its identity and all of its files. -/
theorem exists_extends_step (s : Step) (hwas : w.maps[i]? = some m) :
    ∃ m', (w.step s).1.maps[i]? = some m' ∧ m'.Extends m := by
  have hinside : i < w.maps.length := (List.getElem?_eq_some_iff.mp hwas).1
  have hkept (ms : List SourceMap) : (w.maps ++ ms)[i]? = some m :=
    (List.getElem?_append_left hinside).trans hwas
  cases s with
  | create => exact ⟨m, hkept _, .refl m⟩
  | clone k =>
    cases hfound : w.maps[k]? with
    | none => exact ⟨m, by rwa [step_clone_of_none hfound], .refl m⟩
    | some m₀ => exact ⟨m, by rw [step_clone hfound, hkept], .refl m⟩
  | add k path text =>
    cases hfound : w.maps[k]? with
    | none => exact ⟨m, by rwa [step_add_of_none hfound], .refl m⟩
    | some m₀ =>
      rw [step_add hfound]
      by_cases hhere : k = i
      · subst hhere
        cases hfound.symm.trans hwas
        exact ⟨m.add path text, List.getElem?_set_self hinside, m.extends_add path text⟩
      · exact ⟨m, (List.getElem?_set_ne hhere).trans hwas, .refl m⟩

/-! ## Runs -/

@[simp] theorem run_nil (w : Workspace) : w.run [] = w := rfl

@[simp] theorem run_cons (w : Workspace) (s : Step) (steps : List Step) :
    w.run (s :: steps) = (w.step s).1.run steps := rfl

theorem run_append (w : Workspace) (earlier later : List Step) :
    w.run (earlier ++ later) = (w.run earlier).run later :=
  List.foldl_append

/-- After the steps from `w`, the map at place `j` descends from the one at place `i`: it is that
map, or it was cloned from it during the steps, directly or over other clones. -/
inductive Descends : Workspace → List Step → Nat → Nat → Prop where
  | refl (w : Workspace) (i : Nat) : Descends w [] i i
  | stays {w : Workspace} {s : Step} {steps : List Step} {i j : Nat}
    (hrest : Descends (w.step s).1 steps i j) : Descends w (s :: steps) i j
  | cloned {w : Workspace} {m : SourceMap} {steps : List Step} {i j : Nat}
    (hwas : w.maps[i]? = some m) (hrest : Descends (w.step (.clone i)).1 steps w.maps.length j) :
    Descends w (.clone i :: steps) i j

/-- A map descends from itself. -/
theorem descends_self (w : Workspace) (steps : List Step) (i : Nat) : Descends w steps i i := by
  induction steps generalizing w with
  | nil => exact .refl w i
  | cons s steps ih => exact .stays (ih _)

/-- A map keeps the identity and the files of the map that it descends from. -/
theorem Descends.extends (h : Descends w steps i j) (hwas : w.maps[i]? = some m) :
    ∃ m', (w.run steps).maps[j]? = some m' ∧ m'.Extends m := by
  induction h generalizing m with
  | refl => exact ⟨m, hwas, .refl m⟩
  | stays _ ih =>
    obtain ⟨m₁, hhere, hextends₁⟩ := exists_extends_step _ hwas
    obtain ⟨m₂, hthere, hextends₂⟩ := ih hhere
    exact ⟨m₂, hthere, hextends₂.trans hextends₁⟩
  | cloned hfound _ ih =>
    cases hfound.symm.trans hwas
    refine ih ?_
    rw [step_clone hwas]
    exact List.getElem?_concat_length

/-- A map that descends from an earlier one extends it, wherever the two are found. -/
theorem Descends.extends_of_getElem? (h : Descends w steps i j) (hwas : w.maps[i]? = some m)
    (hfound : (w.run steps).maps[j]? = some m') : m'.Extends m := by
  obtain ⟨m₁, hthere, hextends₁⟩ := h.extends hwas
  cases hthere.symm.trans hfound
  exact hextends₁

/-- The map at place `j` after the steps was created by one of them, or descends from such a map. -/
def Founded (w : Workspace) (steps : List Step) (j : Nat) : Prop :=
  ∃ earlier later, steps = earlier ++ .create :: later ∧
    Descends (w.run earlier).create later (w.run earlier).maps.length j

theorem Founded.cons {s : Step} (h : Founded (w.step s).1 steps j) : Founded w (s :: steps) j := by
  obtain ⟨earlier, later, rfl, hdescends⟩ := h
  exact ⟨s :: earlier, later, rfl, hdescends⟩

/-- A map descends from one that was there before the steps or from one that they created. -/
theorem exists_ancestor (hfound : (w.run steps).maps[j]? = some m') :
    (∃ i m, w.maps[i]? = some m ∧ Descends w steps i j) ∨ Founded w steps j := by
  induction steps generalizing w with
  | nil => exact .inl ⟨j, m', hfound, .refl w j⟩
  | cons s steps ih =>
    rcases ih hfound with ⟨i, m, hhere, hdescends⟩ | hfounded
    · cases arises_of_step hhere with
      | kept hwas => exact .inl ⟨i, m, hwas, .stays hdescends⟩
      | created => exact .inr ⟨[], steps, rfl, hdescends⟩
      | cloned hwas => exact .inl ⟨_, m, hwas, .cloned hwas hdescends⟩
      | grown _ _ hwas => exact .inl ⟨i, _, hwas, .stays hdescends⟩
    · exact .inr hfounded.cons

/-! ## Identities -/

theorem nextMap_run (w : Workspace) (steps : List Step) :
    (w.run steps).nextMap = w.nextMap + steps.count .create := by
  induction steps generalizing w with
  | nil => rfl
  | cons s steps ih =>
    rw [run_cons, ih, List.count_cons]
    cases s with
    | create =>
      show w.nextMap + 1 + _ = w.nextMap + (_ + 1)
      omega
    | clone i =>
      cases hwas : w.maps[i]? with
      | none => rw [step_clone_of_none hwas, if_neg (by simp)]; rfl
      | some m => rw [step_clone hwas, if_neg (by simp)]; rfl
    | add i path text =>
      cases hwas : w.maps[i]? with
      | none => rw [step_add_of_none hwas, if_neg (by simp)]; rfl
      | some m => rw [step_add hwas, if_neg (by simp)]; rfl

/-- Every map of a run descends from one that the run created. -/
theorem exists_creation (hfound : (empty.run steps).maps[j]? = some m) : Founded empty steps j := by
  rcases exists_ancestor hfound with ⟨i, m₀, hwas, -⟩ | hfounded
  · cases hwas
  · exact hfounded

/-- A descendant of a created map has the identity that was next when the map was created. -/
theorem id_of_descends_create {earlier : List Step}
    (hdescends : Descends (w.run earlier).create later (w.run earlier).maps.length j)
    (hfound : ((w.run earlier).create.run later).maps[j]? = some m) :
    m.id = w.nextMap + earlier.count .create := by
  have hcreated : (w.run earlier).create.maps[(w.run earlier).maps.length]? =
      some (.empty (w.run earlier).nextMap) := List.getElem?_concat_length
  rw [← nextMap_run]
  exact (hdescends.extends_of_getElem? hcreated hfound).id_eq

/-- What steps create has an identity that was not in use before them. -/
theorem Founded.nextMap_le (h : Founded w steps j) (hfound : (w.run steps).maps[j]? = some m) :
    w.nextMap ≤ m.id := by
  obtain ⟨earlier, later, rfl, hdescends⟩ := h
  rw [run_append] at hfound
  rw [id_of_descends_create hdescends hfound]
  exact Nat.le_add_right _ _

theorem id_lt_nextMap (hfound : (empty.run steps).maps[j]? = some m) :
    m.id < (empty.run steps).nextMap := by
  obtain ⟨earlier, later, rfl, hdescends⟩ := exists_creation hfound
  rw [run_append] at hfound
  rw [id_of_descends_create hdescends hfound, nextMap_run, List.count_append, List.count_cons_self]
  omega

/-- The maps at two places after a run descend from the same creation. -/
def Akin (steps : List Step) (i j : Nat) : Prop :=
  ∃ earlier later, steps = earlier ++ .create :: later ∧
    Descends (empty.run earlier).create later (empty.run earlier).maps.length i ∧
    Descends (empty.run earlier).create later (empty.run earlier).maps.length j

theorem Founded.exists_map (h : Founded w steps j) : ∃ m, (w.run steps).maps[j]? = some m := by
  obtain ⟨earlier, later, rfl, hdescends⟩ := h
  obtain ⟨m, hfound, -⟩ := hdescends.extends List.getElem?_concat_length
  exact ⟨m, by rwa [run_append]⟩

theorem Akin.founded (h : Akin steps i j) : Founded empty steps j := by
  obtain ⟨earlier, later, hsteps, -, hdescends⟩ := h
  exact ⟨earlier, later, hsteps, hdescends⟩

/-- A creation in a run is told by the number of creations before it. -/
theorem creation_unique {earlier earlier' later later' : List Step}
    (hsame : earlier ++ .create :: later = earlier' ++ .create :: later')
    (hcount : earlier.count .create = earlier'.count .create) :
    earlier = earlier' ∧ later = later' := by
  induction earlier generalizing earlier' with
  | nil =>
    cases earlier' with
    | nil => exact ⟨rfl, List.tail_eq_of_cons_eq hsame⟩
    | cons s earlier' =>
      obtain ⟨rfl, -⟩ := List.cons_eq_cons.mp hsame
      simp at hcount
  | cons s earlier ih =>
    cases earlier' with
    | nil =>
      obtain ⟨rfl, -⟩ := List.cons_eq_cons.mp hsame
      simp at hcount
    | cons s' earlier' =>
      obtain ⟨rfl, hrest⟩ := List.cons_eq_cons.mp hsame
      rw [List.count_cons, List.count_cons] at hcount
      obtain ⟨rfl, rfl⟩ := ih hrest (Nat.add_right_cancel hcount)
      exact ⟨rfl, rfl⟩

/-- Maps have the same identity exactly when they descend from the same creation. -/
theorem id_eq_iff_akin (hi : (empty.run steps).maps[i]? = some m)
    (hj : (empty.run steps).maps[j]? = some m') : m.id = m'.id ↔ Akin steps i j := by
  constructor
  · intro hsame
    obtain ⟨earlier, later, hsteps, hdescends⟩ := exists_creation hi
    obtain ⟨earlier', later', hsteps', hdescends'⟩ := exists_creation hj
    have hid : m.id = empty.nextMap + earlier.count .create := by
      rw [hsteps, run_append] at hi
      exact id_of_descends_create hdescends hi
    have hid' : m'.id = empty.nextMap + earlier'.count .create := by
      rw [hsteps', run_append] at hj
      exact id_of_descends_create hdescends' hj
    obtain ⟨rfl, rfl⟩ := creation_unique (hsteps.symm.trans hsteps') (by omega)
    exact ⟨earlier, later, hsteps, hdescends, hdescends'⟩
  · rintro ⟨earlier, later, rfl, hdescends, hdescends'⟩
    rw [run_append] at hi hj
    rw [id_of_descends_create hdescends hi, id_of_descends_create hdescends' hj]

end Workspace

end AttributeLint
