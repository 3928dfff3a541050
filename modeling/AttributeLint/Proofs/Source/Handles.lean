import AttributeLint.Proofs.Source.Descent

/-!
# Handles — which file a handle leads to

A handle that an addition returns stays valid in the map and in all that later descends from it, and
no map of another identity knows it (`resolve_of_issued`). Handles of one map are distinct. Maps
that were cloned from one another go on counting from the same place, so two additions on them may
return the same handle. They do exactly when their maps had been parted by cloning before the first
of the two (`issued_alike_iff`), and a map still leads each handle to a file of its own past or to
none (`resolve_eq_ok_iff_issuedTo`).
-/

namespace AttributeLint

attribute [ext] FileId

namespace Workspace

open SourceMap

variable {w w' : Workspace} {earlier between later steps : List Step} {i j n : Nat}
  {m m' : SourceMap} {id id' : FileId} {file : SourceFile} {path text path' text' : String}

/-- The map that an addition grew, and the handle that the addition returned. -/
theorem exists_map_of_issued (hissued : w.step (.add i path text) = (w', some id)) :
    ∃ m, w.maps[i]? = some m ∧ id = m.nextId ∧ w'.maps[i]? = some (m.add path text) ∧
      ∀ j, j ≠ i → w'.maps[j]? = w.maps[j]? := by
  obtain ⟨m, hwas, rfl, rfl⟩ := step_add_eq_some hissued
  refine ⟨m, hwas, rfl, List.getElem?_set_self (List.getElem?_eq_some_iff.mp hwas).1, ?_⟩
  intro j hother
  exact List.getElem?_set_ne hother.symm

theorem run_append_of_issued (hissued : (w.run earlier).step (.add i path text) = (w', some id)) :
    w.run (earlier ++ .add i path text :: later) = w'.run later := by
  rw [run_append, run_cons, hissued]

/-- A handle leads to the added file wherever a map descends from the one that was grown. -/
theorem Descends.resolve (hdescends : Descends w' later i j)
    (hissued : w.step (.add i path text) = (w', some id)) :
    ∃ m, (w'.run later).maps[j]? = some m ∧ m.id = id.map ∧
      m.resolve id = .ok { id, path, text } := by
  obtain ⟨m₀, -, rfl, hgrown, -⟩ := exists_map_of_issued hissued
  obtain ⟨m, hfound, hextended⟩ := hdescends.extends hgrown
  exact ⟨m, hfound, hextended.id_eq, hextended.resolve (m₀.resolve_add_nextId path text)⟩

/-- A map that descends from the one that was grown has more files than the handle counts. -/
theorem Descends.index_lt_length (hdescends : Descends w' later i j)
    (hissued : w.step (.add i path text) = (w', some id))
    (hfound : (w'.run later).maps[j]? = some m) : id.index < m.files.length := by
  obtain ⟨m₀, -, rfl, hgrown, -⟩ := exists_map_of_issued hissued
  have hlonger := (hdescends.extends_of_getElem? hgrown hfound).files.length_le
  simp only [SourceMap.add, List.length_append, List.length_singleton] at hlonger
  exact hlonger

/-- A handle stays valid. After any further steps, the map that the file was added to, and every map
that was cloned from it since, directly or over other clones, resolves the handle to a file with the
handle, the path and the text. A map of another identity, which is one that descends from another
creation, does not know the handle, whatever files it has. -/
theorem resolve_of_issued (earlier later : List Step)
    (hissued : (empty.run earlier).step (.add i path text) = (w, some id)) :
    ∃ m, w.maps[i]? = some m ∧ Descends w later i i ∧
      (∀ j, Descends w later i j → ∃ m', (w.run later).maps[j]? = some m' ∧ m'.id = m.id ∧
        m'.resolve id = .ok { id, path, text }) ∧
      ∀ j m', (w.run later).maps[j]? = some m' →
        (m'.id = m.id ↔ Akin (earlier ++ .add i path text :: later) i j) ∧
        (m'.id ≠ m.id → m'.resolve id = .error ⟨id⟩) := by
  obtain ⟨m₀, -, rfl, hgrown, -⟩ := exists_map_of_issued hissued
  refine ⟨_, hgrown, descends_self w later i, fun j hdescends => hdescends.resolve hissued, ?_⟩
  intro j m' hfound
  obtain ⟨m, hhere, hidentity, -⟩ := (descends_self w later i).resolve hissued
  constructor
  · rw [← run_append_of_issued hissued] at hfound hhere
    rw [← id_eq_iff_akin hhere hfound, hidentity]
    exact eq_comm
  · intro hother
    exact resolve_of_ne hother

/-- After two files were added to two maps of a workspace, a clone of the first map knows the first
handle, and the second map does not, although it has a file at the same place. -/
theorem resolve_of_issued_clone :
    (empty.run [.create, .create, .add 1 "b.cs" "class B"]).step (.add 0 "a.cs" "class A") =
      (empty.run [.create, .create, .add 1 "b.cs" "class B", .add 0 "a.cs" "class A"],
        some ⟨0, 0⟩) ∧
    ∃ m, (empty.run [.create, .create, .add 1 "b.cs" "class B",
        .add 0 "a.cs" "class A"]).maps[0]? = some m ∧
      (∃ m', (empty.run [.create, .create, .add 1 "b.cs" "class B", .add 0 "a.cs" "class A",
          .clone 0]).maps[2]? = some m' ∧
        m'.resolve ⟨0, 0⟩ = .ok { id := ⟨0, 0⟩, path := "a.cs", text := "class A" }) ∧
      ∃ m', (empty.run [.create, .create, .add 1 "b.cs" "class B", .add 0 "a.cs" "class A",
          .clone 0]).maps[1]? = some m' ∧ m'.files.length = 1 ∧ m'.id ≠ m.id ∧
        m'.resolve ⟨0, 0⟩ = .error ⟨⟨0, 0⟩⟩ := by
  have hissued : (empty.run [.create, .create, .add 1 "b.cs" "class B"]).step
      (.add 0 "a.cs" "class A") =
      (empty.run [.create, .create, .add 1 "b.cs" "class B", .add 0 "a.cs" "class A"],
        some ⟨0, 0⟩) := rfl
  obtain ⟨m, hfound, -, hdescendants, hothers⟩ := resolve_of_issued _ [.clone 0] hissued
  refine ⟨hissued, m, hfound, ?_, ?_⟩
  · obtain ⟨m', hthere, -, hknown⟩ := hdescendants 2 (.cloned rfl (.refl _ _))
    exact ⟨m', hthere, hknown⟩
  · cases hfound
    exact ⟨_, rfl, rfl, by decide, (hothers 1 _ rfl).2 (by decide)⟩

/-! ## Where a file comes from -/

/-- A step of the run added the file to the map at place `j`, or to one that this map descends from,
and returned the handle that the file has. -/
def IssuedTo (w : Workspace) (steps : List Step) (file : SourceFile) (j : Nat) : Prop :=
  ∃ earlier i w' later, steps = earlier ++ .add i file.path file.text :: later ∧
    (w.run earlier).step (.add i file.path file.text) = (w', some file.id) ∧ Descends w' later i j

theorem IssuedTo.cons {s : Step} (h : IssuedTo (w.step s).1 steps file j) :
    IssuedTo w (s :: steps) file j := by
  obtain ⟨earlier, i, w', later, rfl, hissued, hdescends⟩ := h
  exact ⟨s :: earlier, i, w', later, rfl, hissued, hdescends⟩

theorem IssuedTo.resolve (h : IssuedTo w steps file j) :
    ∃ m, (w.run steps).maps[j]? = some m ∧ m.id = file.id.map ∧
      m.resolve file.id = .ok file := by
  obtain ⟨earlier, i, w', later, rfl, hissued, hdescends⟩ := h
  rw [run_append_of_issued hissued]
  exact hdescends.resolve hissued

/-- A file of a map was there before the steps, in a map that this one descends from, or one of the
steps added it. -/
theorem exists_source (hfound : (w.run steps).maps[j]? = some m')
    (hplace : m'.files[n]? = some file) :
    (∃ i m, w.maps[i]? = some m ∧ Descends w steps i j ∧ m.files[n]? = some file) ∨
      (IssuedTo w steps file j ∧ file.id.index = n) := by
  induction steps generalizing w with
  | nil => exact .inl ⟨j, m', hfound, .refl w j, hplace⟩
  | cons s steps ih =>
    rcases ih hfound with ⟨i, m, hhere, hdescends, hfile⟩ | ⟨hissued, hindex⟩
    · cases arises_of_step hhere with
      | kept hwas => exact .inl ⟨i, m, hwas, .stays hdescends, hfile⟩
      | created => cases hfile
      | cloned hwas => exact .inl ⟨_, m, hwas, .cloned hwas hdescends, hfile⟩
      | grown path text hwas =>
        rcases getElem?_concat_cases hfile with hfile' | ⟨rfl, rfl⟩
        · exact .inl ⟨i, _, hwas, .stays hdescends, hfile'⟩
        · have hadded := step_add hwas path text
          replace hdescends : Descends (w.step (.add i path text)).1 steps i j := hdescends
          rw [hadded] at hdescends
          exact .inr ⟨⟨[], i, _, steps, rfl, hadded, hdescends⟩, rfl⟩
    · exact .inr ⟨hissued.cons, hindex⟩

/-- A handle leads to a file in a map exactly when the file has this handle and was added to the map
or to one that the map descends from. -/
theorem resolve_eq_ok_iff_issuedTo (hfound : (empty.run steps).maps[j]? = some m) :
    m.resolve id = .ok file ↔ file.id = id ∧ IssuedTo empty steps file j := by
  constructor
  · intro hknown
    obtain ⟨hmap, hplace⟩ := resolve_eq_ok_iff.mp hknown
    rcases exists_source hfound hplace with ⟨i, m₀, hwas, -⟩ | ⟨hissued, hindex⟩
    · cases hwas
    · obtain ⟨m', hfound', hidentity, -⟩ := hissued.resolve
      cases hfound'.symm.trans hfound
      exact ⟨FileId.ext (hidentity.symm.trans hmap.symm) hindex, hissued⟩
  · rintro ⟨rfl, hissued⟩
    obtain ⟨m', hfound', -, hknown⟩ := hissued.resolve
    cases hfound'.symm.trans hfound
    exact hknown

/-! ## Equal handles -/

/-- The map of a later addition that returns the same handle descends from a map that was there at
the first addition. -/
theorem exists_ancestor_of_map_eq {w₁ : Workspace}
    (hfirst : (empty.run earlier).step (.add i path text) = (w₁, some id))
    (hfound : (w₁.run between).maps[j]? = some m) (hsame : m.id = id.map) :
    ∃ i₀ m₀, w₁.maps[i₀]? = some m₀ ∧ Descends w₁ between i₀ j := by
  rcases exists_ancestor hfound with hancestor | hfounded
  · exact hancestor
  · -- what was created since the first addition has a newer identity than its map
    have hle := hfounded.nextMap_le hfound
    obtain ⟨m₁, -, rfl, hgrown, -⟩ := exists_map_of_issued hfirst
    rw [← run_nil w₁, ← run_append_of_issued hfirst] at hgrown hle
    have hlt := id_lt_nextMap hgrown
    have : m.id = (m₁.add path text).id := hsame
    omega

/-- Two additions return the same handle exactly when their maps had equally many files, the map of
the first and another one had been cloned from one another by then, directly or over other clones,
and the map of the second descends from that other one. -/
theorem issued_alike_iff {i' : Nat} {w₁ w₂ : Workspace}
    (hfirst : (empty.run earlier).step (.add i path text) = (w₁, some id))
    (hsecond : (w₁.run between).step (.add i' path' text') = (w₂, some id')) :
    id = id' ↔ id.index = id'.index ∧
      ∃ i₀, i₀ ≠ i ∧ Akin earlier i i₀ ∧ Descends w₁ between i₀ i' := by
  obtain ⟨m, hwas, hid, -, helsewhere⟩ := exists_map_of_issued hfirst
  obtain ⟨m', hwas', hid', -, -⟩ := exists_map_of_issued hsecond
  constructor
  · intro hsame
    have hidentity : m'.id = id.map := by rw [hsame, hid']; rfl
    obtain ⟨i₀, m₀, hhere, hdescends⟩ := exists_ancestor_of_map_eq hfirst hwas' hidentity
    have hextended := hdescends.extends_of_getElem? hhere hwas'
    have hapart : i₀ ≠ i := by
      rintro rfl
      -- the second handle counts all files of its map, so the map cannot descend from the grown one
      have hlonger := hdescends.index_lt_length hfirst hwas'
      rw [hsame, hid'] at hlonger
      exact Nat.lt_irrefl _ hlonger
    rw [helsewhere i₀ hapart] at hhere
    refine ⟨by rw [hsame], i₀, hapart, (id_eq_iff_akin hwas hhere).mp ?_, hdescends⟩
    calc m.id = id.map := by rw [hid]; rfl
      _ = m'.id := hidentity.symm
      _ = m₀.id := hextended.id_eq
  · rintro ⟨hindex, i₀, hapart, hakin, hdescends⟩
    obtain ⟨m₀, hhere⟩ := hakin.founded.exists_map
    have hsame : m.id = m₀.id := (id_eq_iff_akin hwas hhere).mpr hakin
    rw [← helsewhere i₀ hapart] at hhere
    have hextended := hdescends.extends_of_getElem? hhere hwas'
    refine FileId.ext ?_ hindex
    calc id.map = m.id := by rw [hid]; rfl
      _ = m₀.id := hsame
      _ = m'.id := hextended.id_eq.symm
      _ = id'.map := by rw [hid']; rfl

/-- A map and a clone of it may return the same handle for different files, and the clone then leads
the handle of the one to the file of the other. -/
theorem clone_issues_same_handle :
    (empty.run [.create, .clone 0]).step (.add 0 "a.cs" "class A") =
      (empty.run [.create, .clone 0, .add 0 "a.cs" "class A"], some ⟨0, 0⟩) ∧
    (empty.run [.create, .clone 0, .add 0 "a.cs" "class A"]).step (.add 1 "b.cs" "class B") =
      (empty.run [.create, .clone 0, .add 0 "a.cs" "class A", .add 1 "b.cs" "class B"],
        some ⟨0, 0⟩) ∧
    ((empty.run [.create, .clone 0, .add 0 "a.cs" "class A",
        .add 1 "b.cs" "class B"]).maps[1]?.map (·.resolve ⟨0, 0⟩)) =
      some (.ok { id := ⟨0, 0⟩, path := "b.cs", text := "class B" }) :=
  ⟨rfl, rfl, rfl⟩

/-- In any run, handles coincide only between maps that were parted by cloning. Two additions of the
run return the same handle exactly when their maps had equally many files and, before the first of
them, its map and another one had been cloned from one another, the map of the second being that
other one or a descendant of it. A map leads a handle to a file exactly when the handle was returned
for this file by an addition to the map or to one that it descends from, and does not know all other
handles. -/
theorem handles_coincide_iff_parted (steps : List Step) :
    (∀ (earlier between later : List Step) (i i' : Nat) (path text path' text' : String)
        (w₁ w₂ : Workspace) (id id' : FileId),
      steps = earlier ++ .add i path text :: (between ++ .add i' path' text' :: later) →
      (empty.run earlier).step (.add i path text) = (w₁, some id) →
      (w₁.run between).step (.add i' path' text') = (w₂, some id') →
      (id = id' ↔ id.index = id'.index ∧
        ∃ i₀, i₀ ≠ i ∧ Akin earlier i i₀ ∧ Descends w₁ between i₀ i')) ∧
    ∀ (j : Nat) (m : SourceMap), (empty.run steps).maps[j]? = some m →
      ∀ id, (∀ file, m.resolve id = .ok file ↔ file.id = id ∧ IssuedTo empty steps file j) ∧
        (m.resolve id = .error ⟨id⟩ ↔ ¬ ∃ file, file.id = id ∧ IssuedTo empty steps file j) := by
  constructor
  · intro earlier between later i i' path text path' text' w₁ w₂ id id' _ hfirst hsecond
    exact issued_alike_iff hfirst hsecond
  · intro j m hfound id
    have hknown (file : SourceFile) :
        m.resolve id = .ok file ↔ file.id = id ∧ IssuedTo empty steps file j :=
      resolve_eq_ok_iff_issuedTo hfound
    refine ⟨hknown, ?_⟩
    rw [resolve_eq_error_iff]
    simp only [hknown]

/-- A map and its clone each get a file, and the clone is cloned again between the two additions and
gets its file there. -/
theorem handles_coincide_iff_parted_twice :
    (empty.run [.create, .clone 0]).step (.add 0 "a.cs" "class A") =
      (empty.run [.create, .clone 0, .add 0 "a.cs" "class A"], some ⟨0, 0⟩) ∧
    ((empty.run [.create, .clone 0, .add 0 "a.cs" "class A"]).run [.clone 1]).step
        (.add 2 "b.cs" "class B") =
      (empty.run [.create, .clone 0, .add 0 "a.cs" "class A", .clone 1, .add 2 "b.cs" "class B"],
        some ⟨0, 0⟩) ∧
    (∃ i₀, i₀ ≠ 0 ∧ Akin [.create, .clone 0] 0 i₀ ∧
      Descends (empty.run [.create, .clone 0, .add 0 "a.cs" "class A"]) [.clone 1] i₀ 2) ∧
    IssuedTo empty [.create, .clone 0, .add 0 "a.cs" "class A", .clone 1, .add 2 "b.cs" "class B"]
      { id := ⟨0, 0⟩, path := "b.cs", text := "class B" } 2 := by
  obtain ⟨hadditions, hmaps⟩ := handles_coincide_iff_parted
    [.create, .clone 0, .add 0 "a.cs" "class A", .clone 1, .add 2 "b.cs" "class B"]
  have hsame := (hadditions [.create, .clone 0] [.clone 1] [] 0 2 "a.cs" "class A" "b.cs" "class B"
    (empty.run [.create, .clone 0, .add 0 "a.cs" "class A"]) _ ⟨0, 0⟩ ⟨0, 0⟩ rfl rfl rfl).mp rfl
  have hissued := ((hmaps 2 _ rfl ⟨0, 0⟩).1 _).mp rfl
  exact ⟨rfl, rfl, hsame.2, hissued.2⟩

end Workspace

end AttributeLint
