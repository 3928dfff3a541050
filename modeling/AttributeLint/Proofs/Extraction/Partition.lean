import AttributeLint.Extraction
import Mathlib.Data.List.Forall2
import Mathlib.Logic.Relation

/-!
# Partition — what becomes of each use of an attribute

An extraction goes over the usages of a compilation and puts each usage of the attribute into one of
two lists. It is told by rules for one usage at a time (`Extracts`): the usage is of another
attribute and is in neither list, one string reaches its constructor and it is an occurrence, or it
has a fault and is malformed. The rules leave no choice, and the extraction follows them
(`extracts_iff`). They look at the arguments that reach the constructor only, so that arguments for
properties may come, go and move (`AlikeButProperties`).
-/

namespace AttributeLint

/-! ## The arguments of one usage -/

/-- The argument is written `Name = value`. -/
def Argument.IsProperty (a : Argument) : Prop :=
  ∃ name, a.binding = .property name

theorem Argument.isConstructor_iff (a : Argument) : a.isConstructor = true ↔ ¬ a.IsProperty := by
  rw [isConstructor, IsProperty]
  cases a.binding <;> simp

/-- Of the first arguments, the second are those that reach the constructor, in their order. -/
inductive Reaching : List Argument → List Argument → Prop where
  | nil : Reaching [] []
  | property {a : Argument} {args reaching : List Argument} (h : a.IsProperty)
      (hrest : Reaching args reaching) : Reaching (a :: args) reaching
  | constructor {a : Argument} {args reaching : List Argument} (h : ¬ a.IsProperty)
      (hrest : Reaching args reaching) : Reaching (a :: args) (a :: reaching)

namespace Usage

/-- One argument of the usage reaches the constructor, and it is the given string. -/
def HasString (u : Usage) (text : String) : Prop :=
  ∃ a, Reaching u.arguments [a] ∧ a.value = .string text

/-- What is wrong with the arguments that reach the constructor. -/
inductive HasFault (u : Usage) : Malformation → Prop where
  | noArguments (h : Reaching u.arguments []) : u.HasFault .noArguments
  | tooManyArguments {reaching : List Argument} (h : Reaching u.arguments reaching)
      (hmany : 2 ≤ reaching.length) : u.HasFault (.tooManyArguments reaching.length)
  | nonStringArgument {a : Argument} (h : Reaching u.arguments [a])
      (hother : ∀ text, a.value ≠ .string text) : u.HasFault .nonStringArgument

end Usage

variable {args args' reaching : List Argument} {a p : Argument} {u v : Usage} {text : String}
  {reason : Malformation}

theorem reaching_filter (args : List Argument) :
    Reaching args (args.filter Argument.isConstructor) := by
  induction args with
  | nil => exact .nil
  | cons a args ih =>
    by_cases h : a.IsProperty
    · rw [List.filter_cons_of_neg (by rwa [a.isConstructor_iff, not_not])]
      exact .property h ih
    · rw [List.filter_cons_of_pos (a.isConstructor_iff.mpr h)]
      exact .constructor h ih

theorem Reaching.eq_filter (h : Reaching args reaching) :
    reaching = args.filter Argument.isConstructor := by
  induction h with
  | nil => rfl
  | @property a args reaching h _ ih =>
    rw [List.filter_cons_of_neg (by rwa [a.isConstructor_iff, not_not]), ih]
  | @constructor a args reaching h _ ih =>
    rw [List.filter_cons_of_pos (a.isConstructor_iff.mpr h), ih]

theorem Usage.reaching_iff (u : Usage) :
    Reaching u.arguments reaching ↔ u.constructorArguments = reaching := by
  constructor
  · intro h
    exact h.eq_filter.symm
  · rintro rfl
    exact reaching_filter u.arguments

/-- Whatever the arguments are, there is one string or a fault. -/
theorem Usage.hasString_or_hasFault (u : Usage) :
    (∃ text, u.HasString text) ∨ ∃ reason, u.HasFault reason := by
  have hreaching : Reaching u.arguments u.constructorArguments := u.reaching_iff.mpr rfl
  cases harguments : u.constructorArguments with
  | nil =>
    rw [harguments] at hreaching
    exact .inr ⟨_, .noArguments hreaching⟩
  | cons a others =>
    rw [harguments] at hreaching
    cases others with
    | nil =>
      cases hvalue : a.value with
      | string text => exact .inl ⟨text, a, hreaching, hvalue⟩
      | other text =>
        refine .inr ⟨_, .nonStringArgument hreaching ?_⟩
        intro text' hstring
        rw [hvalue] at hstring
        cases hstring
    | cons b others =>
      have hmany : 2 ≤ (a :: b :: others).length := by simp
      exact .inr ⟨_, .tooManyArguments hreaching hmany⟩

/-- The string of a usage is read if it has one, and it is not changed. -/
theorem Usage.HasString.singleString_eq (h : u.HasString text) : u.singleString = .ok text := by
  obtain ⟨⟨binding, value⟩, hreaching, hvalue⟩ := h
  subst hvalue
  rw [singleString, u.reaching_iff.mp hreaching]

theorem Usage.singleString_of_many (h : 2 ≤ u.constructorArguments.length) :
    u.singleString = .error (.tooManyArguments u.constructorArguments.length) := by
  rw [singleString]
  split
  · next harguments =>
      rw [harguments] at h
      cases h
  · next harguments =>
      rw [harguments] at h
      exact absurd h (Nat.not_succ_le_self 1)
  · next harguments =>
      rw [harguments] at h
      exact absurd h (Nat.not_succ_le_self 1)
  · rfl

/-- The reason that is given for a malformed usage is its fault. -/
theorem Usage.HasFault.singleString_eq (h : u.HasFault reason) :
    u.singleString = .error reason := by
  cases h with
  | noArguments hreaching => rw [singleString, u.reaching_iff.mp hreaching]
  | @tooManyArguments reaching hreaching hmany =>
    rw [← u.reaching_iff.mp hreaching] at hmany ⊢
    exact singleString_of_many hmany
  | @nonStringArgument a hreaching hother =>
    obtain ⟨binding, value⟩ := a
    rw [singleString, u.reaching_iff.mp hreaching]
    cases value with
    | string text => exact absurd rfl (hother text)
    | other text => rfl

/-! ## The usages of a compilation -/

/-- All usages with their files, in the order of the files and then of the usages in each. -/
def Compilation.uses (c : Compilation) : List (FileId × Usage) :=
  c.units.flatMap fun unit => unit.usages.map fun u => (unit.file, u)

variable {wanted : AttributeName} {file : FileId} {uses uses' : List (FileId × Usage)}
  {os : List Occurrence} {ms : List MalformedUsage}

/-- The usages give the occurrences and the malformed usages of an attribute. -/
inductive Extracts (wanted : AttributeName) :
    List (FileId × Usage) → List Occurrence → List MalformedUsage → Prop where
  | nil : Extracts wanted [] [] []
  /-- A usage of another attribute. -/
  | other {file : FileId} {u : Usage} {uses : List (FileId × Usage)} {os : List Occurrence}
      {ms : List MalformedUsage} (h : ¬ wanted.isWrittenAs u.name)
      (hrest : Extracts wanted uses os ms) : Extracts wanted ((file, u) :: uses) os ms
  | occurrence {file : FileId} {u : Usage} {text : String} {uses : List (FileId × Usage)}
      {os : List Occurrence} {ms : List MalformedUsage} (h : wanted.isWrittenAs u.name)
      (hstring : u.HasString text) (hrest : Extracts wanted uses os ms) :
      Extracts wanted ((file, u) :: uses) ({ file, targetStart := u.targetStart, text } :: os) ms
  | malformed {file : FileId} {u : Usage} {reason : Malformation} {uses : List (FileId × Usage)}
      {os : List Occurrence} {ms : List MalformedUsage} (h : wanted.isWrittenAs u.name)
      (hfault : u.HasFault reason) (hrest : Extracts wanted uses os ms) :
      Extracts wanted ((file, u) :: uses) os
        ({ file, targetStart := u.targetStart, name := u.name, reason } :: ms)

namespace Extraction

theorem matching_eq_filter (wanted : AttributeName) (unit : CompilationUnit) :
    matching wanted unit =
      (unit.usages.map fun u => (unit.file, u)).filter
        fun use => wanted.isWrittenAs use.2.name := by
  rw [matching, List.filter_map, Function.comp_def]

theorem flatMap_matching (c : Compilation) (wanted : AttributeName) :
    c.units.flatMap (matching wanted) =
      c.uses.filter fun use => wanted.isWrittenAs use.2.name := by
  rw [Compilation.uses, List.filter_flatMap]
  congr 1
  funext unit
  exact matching_eq_filter wanted unit

/-- The extraction from some usages. -/
def ofUses (wanted : AttributeName) (uses : List (FileId × Usage)) : Extraction :=
  let found := uses.filter fun use => wanted.isWrittenAs use.2.name
  { occurrences := found.filterMap occurrence?, malformed := found.filterMap malformed? }

theorem ofCompilation_eq_ofUses (c : Compilation) (wanted : AttributeName) :
    ofCompilation c wanted = ofUses wanted c.uses := by
  rw [ofCompilation, ofUses, flatMap_matching]

theorem ofUses_cons_other (h : ¬ wanted.isWrittenAs u.name) :
    ofUses wanted ((file, u) :: uses) = ofUses wanted uses := by
  rw [ofUses, List.filter_cons, if_neg h, ofUses]

theorem ofUses_cons_occurrence (h : wanted.isWrittenAs u.name) (hread : u.singleString = .ok text) :
    ofUses wanted ((file, u) :: uses) =
      { ofUses wanted uses with
        occurrences := { file, targetStart := u.targetStart, text } ::
          (ofUses wanted uses).occurrences } := by
  rw [ofUses, List.filter_cons, if_pos h]
  simp only [List.filterMap_cons, occurrence?, malformed?, hread]
  rfl

theorem ofUses_cons_malformed (h : wanted.isWrittenAs u.name)
    (hread : u.singleString = .error reason) :
    ofUses wanted ((file, u) :: uses) =
      { ofUses wanted uses with
        malformed := { file, targetStart := u.targetStart, name := u.name, reason } ::
          (ofUses wanted uses).malformed } := by
  rw [ofUses, List.filter_cons, if_pos h]
  simp only [List.filterMap_cons, occurrence?, malformed?, hread]
  rfl

end Extraction

open Extraction

theorem Extracts.ofUses_eq (h : Extracts wanted uses os ms) : ofUses wanted uses = ⟨os, ms⟩ := by
  induction h with
  | nil => rfl
  | other h _ ih => rw [ofUses_cons_other h, ih]
  | occurrence h hstring _ ih =>
    rw [ofUses_cons_occurrence h hstring.singleString_eq, ih]
  | malformed h hfault _ ih =>
    rw [ofUses_cons_malformed h hfault.singleString_eq, ih]

theorem extracts_ofUses (wanted : AttributeName) (uses : List (FileId × Usage)) :
    Extracts wanted uses (ofUses wanted uses).occurrences (ofUses wanted uses).malformed := by
  induction uses with
  | nil => exact .nil
  | cons use uses ih =>
    obtain ⟨file, u⟩ := use
    by_cases h : wanted.isWrittenAs u.name
    · rcases u.hasString_or_hasFault with ⟨text, hstring⟩ | ⟨reason, hfault⟩
      · rw [ofUses_cons_occurrence h hstring.singleString_eq]
        exact .occurrence h hstring ih
      · rw [ofUses_cons_malformed h hfault.singleString_eq]
        exact .malformed h hfault ih
    · rw [ofUses_cons_other h]
      exact .other h ih

/-- The rules give one pair of lists, and the extraction gives the same. -/
theorem extracts_iff (c : Compilation) :
    Extracts wanted c.uses os ms ↔ ofCompilation c wanted = ⟨os, ms⟩ := by
  rw [ofCompilation_eq_ofUses]
  constructor
  · intro h
    exact h.ofUses_eq
  · intro h
    have hextracts := extracts_ofUses wanted c.uses
    rwa [h] at hextracts

/-! ## Arguments for properties -/

/-- The second arguments are the first with one more, which is for a property. -/
inductive AddsProperty : List Argument → List Argument → Prop where
  | mk {before after : List Argument} {p : Argument} (h : p.IsProperty) :
      AddsProperty (before ++ after) (before ++ p :: after)

/-- The usages differ in nothing but arguments for properties that were put in, taken out or moved,
any number of times. -/
structure Usage.AlikeButProperties (u v : Usage) : Prop where
  name : u.name = v.name
  targetStart : u.targetStart = v.targetStart
  arguments : Relation.EqvGen AddsProperty u.arguments v.arguments

/-- The same files with usages that are alike. -/
structure CompilationUnit.AlikeButProperties (unit unit' : CompilationUnit) : Prop where
  file : unit.file = unit'.file
  usages : List.Forall₂ Usage.AlikeButProperties unit.usages unit'.usages

/-- The compilations have units that are alike. -/
def Compilation.AlikeButProperties (c c' : Compilation) : Prop :=
  List.Forall₂ CompilationUnit.AlikeButProperties c.units c'.units

/-- An argument for a property is moved by taking it out and putting it in. -/
theorem eqvGen_move (before between after : List Argument) (h : p.IsProperty) :
    Relation.EqvGen AddsProperty (before ++ p :: (between ++ after))
      (before ++ between ++ p :: after) := by
  have hout : AddsProperty (before ++ (between ++ after)) (before ++ p :: (between ++ after)) :=
    .mk h
  have hin : AddsProperty (before ++ between ++ after) (before ++ between ++ p :: after) := .mk h
  rw [List.append_assoc before between after] at hin
  exact .trans _ _ _ (.symm _ _ (.rel _ _ hout)) (.rel _ _ hin)

theorem AddsProperty.reaching_iff (h : AddsProperty args args') :
    Reaching args reaching ↔ Reaching args' reaching := by
  obtain ⟨hp⟩ := h
  rename_i before after p
  induction before generalizing reaching with
  | nil =>
    constructor
    · intro hreaching
      exact .property hp hreaching
    · intro hreaching
      cases hreaching with
      | property _ hrest => exact hrest
      | constructor hnot _ => exact absurd hp hnot
  | cons a before ih =>
    constructor
    · intro hreaching
      cases hreaching with
      | property ha hrest => exact .property ha (ih.mp hrest)
      | constructor ha hrest => exact .constructor ha (ih.mp hrest)
    · intro hreaching
      cases hreaching with
      | property ha hrest => exact .property ha (ih.mpr hrest)
      | constructor ha hrest => exact .constructor ha (ih.mpr hrest)

/-- What reaches the constructor does not depend on the arguments for properties. -/
theorem reaching_iff_of_eqvGen (h : Relation.EqvGen AddsProperty args args') :
    Reaching args reaching ↔ Reaching args' reaching := by
  induction h with
  | rel args args' h => exact h.reaching_iff
  | refl args => exact Iff.rfl
  | symm args args' _ ih => exact ih.symm
  | trans args args' args'' _ _ ih ih' => exact ih.trans ih'

namespace Usage.AlikeButProperties

theorem hasString (h : u.AlikeButProperties v) (hu : u.HasString text) : v.HasString text := by
  obtain ⟨a, hreaching, hvalue⟩ := hu
  exact ⟨a, (reaching_iff_of_eqvGen h.arguments).mp hreaching, hvalue⟩

theorem hasFault (h : u.AlikeButProperties v) (hu : u.HasFault reason) : v.HasFault reason := by
  cases hu with
  | noArguments hreaching =>
    exact .noArguments ((reaching_iff_of_eqvGen h.arguments).mp hreaching)
  | tooManyArguments hreaching hmany =>
    exact .tooManyArguments ((reaching_iff_of_eqvGen h.arguments).mp hreaching) hmany
  | nonStringArgument hreaching hother =>
    exact .nonStringArgument ((reaching_iff_of_eqvGen h.arguments).mp hreaching) hother

end Usage.AlikeButProperties

/-- In the same file there are usages that are alike. -/
def AlikeUses (use use' : FileId × Usage) : Prop :=
  use.1 = use'.1 ∧ use.2.AlikeButProperties use'.2

/-- The rules give the same lists for usages that are alike. -/
theorem Extracts.alike (h : Extracts wanted uses os ms)
    (halike : List.Forall₂ AlikeUses uses uses') : Extracts wanted uses' os ms := by
  induction h generalizing uses' with
  | nil =>
    cases halike
    exact .nil
  | @other file u uses os ms h _ ih =>
    obtain _ | @⟨_, ⟨file', v⟩, _, uses', ⟨rfl, hu⟩, hrest⟩ := halike
    rw [hu.name] at h
    exact .other h (ih hrest)
  | @occurrence file u text uses os ms h hstring _ ih =>
    obtain _ | @⟨_, ⟨file', v⟩, _, uses', ⟨rfl, hu⟩, hrest⟩ := halike
    rw [hu.name] at h
    rw [hu.targetStart]
    exact .occurrence h (hu.hasString hstring) (ih hrest)
  | @malformed file u reason uses os ms h hfault _ ih =>
    obtain _ | @⟨_, ⟨file', v⟩, _, uses', ⟨rfl, hu⟩, hrest⟩ := halike
    rw [hu.name] at h ⊢
    rw [hu.targetStart]
    exact .malformed h (hu.hasFault hfault) (ih hrest)

theorem Compilation.AlikeButProperties.forall₂_uses {c c' : Compilation}
    (h : c.AlikeButProperties c') : List.Forall₂ AlikeUses c.uses c'.uses := by
  have hunits : List.Forall₂ CompilationUnit.AlikeButProperties c.units c'.units := h
  refine List.rel_flatMap hunits ?_
  intro unit unit' hunit
  refine List.rel_map ?_ hunit.usages
  intro u v hu
  exact ⟨hunit.file, hu⟩

namespace Extraction

/-- Every usage of the attribute is in one of the two lists, which have the order of the files and
then of the usages in each, and the rules say in which. Arguments for properties make no
difference. -/
theorem ofCompilation_partition (c : Compilation) (wanted : AttributeName) :
    (∀ os ms, Extracts wanted c.uses os ms ↔ ofCompilation c wanted = ⟨os, ms⟩) ∧
      ∀ c', c.AlikeButProperties c' → ofCompilation c' wanted = ofCompilation c wanted := by
  refine ⟨fun os ms => extracts_iff c, ?_⟩
  intro c' halike
  have hextracts : Extracts wanted c.uses (ofCompilation c wanted).occurrences
      (ofCompilation c wanted).malformed := (extracts_iff c).mpr rfl
  exact (extracts_iff c').mp (hextracts.alike halike.forall₂_uses)

/-- An argument for a property. -/
def code : Argument :=
  { binding := .property "Code", value := .other "1" }

/-- A string for the constructor. -/
def note : Argument :=
  { binding := .positional, value := .string "a?" }

/-- Two files with usages of every sort; the first of them has the given arguments. -/
def everySort (first : List Argument) : Compilation :=
  ((Compilation.empty 0).addUnit "a.cs" ""
      [⟨"Error", 0, first⟩, ⟨"Obsolete", 10, [note]⟩, ⟨"My.ErrorAttribute", 20, [code]⟩]).addUnit
    "b.cs" "" [⟨"Error", 0, [note, note]⟩, ⟨"Error", 30, [⟨.positional, .other "1"⟩]⟩]

theorem ofCompilation_partition_everySort :
    Extracts (.ofName "ErrorAttribute") (everySort [code, note]).uses [⟨⟨0, 0⟩, 0, "a?"⟩]
        [⟨⟨0, 0⟩, 20, "My.ErrorAttribute", .noArguments⟩, ⟨⟨0, 1⟩, 0, "Error", .tooManyArguments 2⟩,
          ⟨⟨0, 1⟩, 30, "Error", .nonStringArgument⟩] ∧
      ofCompilation (everySort [note, code]) (.ofName "ErrorAttribute") =
        ofCompilation (everySort [code, note]) (.ofName "ErrorAttribute") := by
  have hmoved : Relation.EqvGen AddsProperty [code, note] [note, code] :=
    eqvGen_move [] [note] [] ⟨"Code", rfl⟩
  have hsame (us : List Usage) : List.Forall₂ Usage.AlikeButProperties us us :=
    List.forall₂_same.mpr fun u _ => ⟨rfl, rfl, .refl _⟩
  have halike : (everySort [code, note]).AlikeButProperties (everySort [note, code]) :=
    .cons ⟨rfl, .cons ⟨rfl, rfl, hmoved⟩ (hsame _)⟩ (.cons ⟨rfl, hsame _⟩ .nil)
  obtain ⟨hextracts, hinvisible⟩ :=
    ofCompilation_partition (everySort [code, note]) (.ofName "ErrorAttribute")
  exact ⟨(hextracts _ _).mpr (by decide +kernel), hinvisible _ halike⟩

end Extraction

end AttributeLint
