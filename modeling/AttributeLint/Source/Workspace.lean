import AttributeLint.Source

/-!
# Workspace — several source maps side by side

A workspace creates source maps and copies them. Every created map gets an identity that no map had
before; a copy keeps the identity of the map it was made from, and the two then grow apart.
-/

namespace AttributeLint

/-- The source maps in the order of their creation, and the identity for the next new one. -/
structure Workspace where
  maps : List SourceMap
  nextMap : Nat
  deriving DecidableEq, Repr

namespace Workspace

/-- No maps yet. -/
def empty : Workspace :=
  { maps := [], nextMap := 0 }

/-- A change to a workspace; maps are named by their place. -/
inductive Step where
  | create
  | clone (map : Nat)
  | add (map : Nat) (path text : String)
  deriving DecidableEq, Repr

/-- The workspace with one more empty map under a fresh identity. -/
def create (w : Workspace) : Workspace :=
  { maps := w.maps ++ [.empty w.nextMap], nextMap := w.nextMap + 1 }

/-- The workspace with one more map, equal to the one at the given place. -/
def clone? (w : Workspace) (map : Nat) : Option Workspace :=
  w.maps[map]?.map fun m => { w with maps := w.maps ++ [m] }

/-- The workspace with a file added to the map at the given place, and the handle of the file. -/
def add? (w : Workspace) (map : Nat) (path text : String) : Option (Workspace × FileId) :=
  w.maps[map]?.map fun m => ({ w with maps := w.maps.set map (m.add path text) }, m.nextId)

/-- One step and the handle it issues, if it is an addition. A step on a map that does not exist
changes nothing. -/
def step (w : Workspace) : Step → Workspace × Option FileId
  | .create => (w.create, none)
  | .clone map => ((w.clone? map).getD w, none)
  | .add map path text =>
    match w.add? map path text with
    | some (w', id) => (w', some id)
    | none => (w, none)

/-- The workspace after some steps. -/
def run (w : Workspace) (steps : List Step) : Workspace :=
  steps.foldl (fun w s => (w.step s).1) w

end Workspace

end AttributeLint
