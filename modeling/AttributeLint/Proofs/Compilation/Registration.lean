import AttributeLint.Compilation

/-!
# Registration — compilations made by adding files one after the other

A compilation starts empty and grows by additions. What it holds is told by the additions alone:
file `i` of its source map and unit `i` come from addition `i`, under the handle with the identity
of the map and the place `i` (`Holds`). Each addition keeps this (`Holds.add`), so it is true of
every compilation that is built (`holds_build`), and every unit names a file that its own map knows
(`Holds.resolve`).
-/

namespace AttributeLint

/-- One addition to a compilation. -/
inductive Addition where
  /-- A file with usages that were found elsewhere. -/
  | given (path text : String) (usages : List Usage)
  /-- A file whose usages are read from its text. -/
  | parsed (path text : String)
  deriving DecidableEq, Repr

namespace Addition

/-- The path of the added file. -/
def path : Addition → String
  | .given path _ _ => path
  | .parsed path _ => path

/-- The text of the added file. -/
def text : Addition → String
  | .given _ text _ => text
  | .parsed _ text => text

/-- The usages in the added file. -/
def usages : Addition → List Usage
  | .given _ _ usages => usages
  | .parsed _ text => Usage.ofSource text

/-- The file that an addition registers under a handle. -/
def file (a : Addition) (id : FileId) : SourceFile :=
  { id, path := a.path, text := a.text }

end Addition

namespace Compilation

/-- The compilation after one addition. -/
def add (c : Compilation) : Addition → Compilation
  | .given path text usages => c.addUnit path text usages
  | .parsed path text => c.addParsed path text

/-- The compilation after some additions to an empty one. -/
def build (id : Nat) (additions : List Addition) : Compilation :=
  additions.foldl add (empty id)

theorem add_eq_addUnit (c : Compilation) (a : Addition) :
    c.add a = c.addUnit a.path a.text a.usages := by
  cases a <;> rfl

/-- The compilation of some sources is built by additions that read usages from the text. -/
theorem ofSources_eq_build (id : Nat) (sources : List (String × String)) :
    ofSources id sources = build id (sources.map fun source => .parsed source.1 source.2) := by
  rw [build, List.foldl_map]
  rfl

/-- The compilation holds the additions, in order, under the identity `id`. -/
structure Holds (id : Nat) (additions : List Addition) (c : Compilation) : Prop where
  identity : c.sources.id = id
  files : c.sources.files = additions.zipIdx.map fun (a, i) => a.file ⟨id, i⟩
  units : c.units = additions.zipIdx.map fun (a, i) => { file := ⟨id, i⟩, usages := a.usages }

theorem holds_empty (id : Nat) : Holds id [] (empty id) :=
  ⟨rfl, rfl, rfl⟩

/-- The handle that comes next names the place after all files so far. -/
theorem Holds.nextId {id : Nat} {additions : List Addition} {c : Compilation}
    (h : Holds id additions c) : c.sources.nextId = ⟨id, additions.length⟩ := by
  rw [SourceMap.nextId, h.identity, h.files, List.length_map, List.length_zipIdx]

theorem Holds.add {id : Nat} {additions : List Addition} {c : Compilation}
    (h : Holds id additions c) (a : Addition) : Holds id (additions ++ [a]) (c.add a) := by
  rw [add_eq_addUnit]
  refine ⟨h.identity, ?_, ?_⟩
  · show c.sources.files ++ [_] = _
    rw [h.files, h.nextId, List.zipIdx_append, List.map_append, Nat.zero_add]
    rfl
  · show c.units ++ [_] = _
    rw [h.units, h.nextId, List.zipIdx_append, List.map_append, Nat.zero_add]
    rfl

theorem Holds.foldl_add {id : Nat} {before : List Addition} {c : Compilation}
    (h : Holds id before c) (additions : List Addition) :
    Holds id (before ++ additions) (additions.foldl Compilation.add c) := by
  induction additions generalizing before c with
  | nil =>
    rw [List.append_nil]
    exact h
  | cons a additions ih =>
    have := ih (h.add a)
    rw [List.append_assoc] at this
    exact this

theorem holds_build (id : Nat) (additions : List Addition) :
    Holds id additions (build id additions) :=
  (holds_empty id).foldl_add additions

/-- The source map knows the file of every addition. -/
theorem Holds.resolve {id : Nat} {additions : List Addition} {c : Compilation}
    (h : Holds id additions c) {a : Addition} {i : Nat} (ha : (a, i) ∈ additions.zipIdx) :
    c.sources.resolve ⟨id, i⟩ = .ok (a.file ⟨id, i⟩) := by
  have hi : additions[i]? = some a := List.mem_zipIdx_iff_getElem?.mp ha
  have hget : c.sources.get? ⟨id, i⟩ = some (a.file ⟨id, i⟩) := by
    rw [SourceMap.get?, if_pos h.identity.symm, h.files, List.getElem?_map, List.getElem?_zipIdx,
      hi]
    simp
  rw [SourceMap.resolve, hget]

end Compilation

end AttributeLint
