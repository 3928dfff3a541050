import AttributeLint.Proofs.Analysis.Exactness
import Mathlib.Data.List.Forall2
import Mathlib.Data.List.Sort

/-!
# Violations — what the scan of one string records

What a list of violations must be, for a rule and a string, is said here field by field and without
the scan (`Records`). There is one such list, and the scan gives it; with checked addition, it does
so exactly if all places fit into words. The two ways to place a violation differ in nothing but the
place, since neither has a part in what is found: counting violations never leads further than
counting characters, for each violation is a character.
-/

namespace AttributeLint.Scan

/-- The violations of a rule in a string. -/
structure Records (rule : Rule) (o : Occurrence) (vs : List Violation) : Prop where
  /-- They stand in the order of the string, and no character has two. -/
  increasing : vs.Pairwise (·.index < ·.index)
  /-- They are about the characters in the disallowed set, and all of those. -/
  exists_iff : ∀ index c, (∃ v ∈ vs, v.index = index ∧ v.character = c) ↔
    o.text.toList[index]? = some c ∧ c ∈ rule.disallowed.toList
  /-- Each names the file and quotes the string. -/
  whole : ∀ v ∈ vs, v.file = o.file ∧ v.text = o.text
  /-- Each is placed by its number or by the index of its character. -/
  placed : ∀ (number : Nat) (v : Violation), vs[number]? = some v → v.position =
    match rule.positionMode with
    | .violationCount => o.targetStart + number
    | .characterIndex => o.targetStart + v.index

variable {rule : Rule} {o : Occurrence} {vs ws : List Violation}

/-! ## One list at most -/

/-- A violation is about the character at its index. -/
theorem Records.getElem?_index (h : Records rule o vs) {v : Violation} (hv : v ∈ vs) :
    o.text.toList[v.index]? = some v.character :=
  ((h.exists_iff v.index v.character).mp ⟨v, hv, rfl, rfl⟩).1

theorem Records.map_index_eq (h : Records rule o vs) (h' : Records rule o ws) :
    vs.map (·.index) = ws.map (·.index) := by
  have hmem {us us' : List Violation} (h : Records rule o us) (h' : Records rule o us') (i : Nat)
      (hi : i ∈ us.map (·.index)) : i ∈ us'.map (·.index) := by
    obtain ⟨v, hv, rfl⟩ := List.mem_map.mp hi
    have hdisallowed := (h.exists_iff v.index v.character).mp ⟨v, hv, rfl, rfl⟩
    obtain ⟨w, hw, hindex, -⟩ := (h'.exists_iff v.index v.character).mpr hdisallowed
    exact List.mem_map.mpr ⟨w, hw, hindex⟩
  exact (List.pairwise_map.mpr h.increasing).eq_of_mem_iff (List.pairwise_map.mpr h'.increasing)
    fun i => ⟨hmem h h' i, hmem h' h i⟩

/-- Violations with the same number and the same index agree in everything. -/
theorem Records.eq_of_index_eq (h : Records rule o vs) (h' : Records rule o ws) {number : Nat}
    {v w : Violation} (hv : vs[number]? = some v) (hw : ws[number]? = some w)
    (hindex : v.index = w.index) : v = w := by
  have hvs := List.mem_of_getElem? hv
  have hws := List.mem_of_getElem? hw
  have hcharacter : v.character = w.character := by
    have hat := h.getElem?_index hvs
    rw [hindex, h'.getElem?_index hws] at hat
    exact (Option.some.inj hat).symm
  have hposition : v.position = w.position := by
    rw [h.placed number v hv, h'.placed number w hw, hindex]
  obtain ⟨hfile, htext⟩ := h.whole v hvs
  obtain ⟨hfile', htext'⟩ := h'.whole w hws
  cases v
  cases w
  simp_all

theorem Records.unique (h : Records rule o vs) (h' : Records rule o ws) : vs = ws := by
  refine List.ext_getElem? fun number => ?_
  have hindex : (vs[number]?).map (·.index) = (ws[number]?).map (·.index) := by
    rw [← List.getElem?_map, ← List.getElem?_map, h.map_index_eq h']
  cases hv : vs[number]? with
  | none =>
    rw [hv] at hindex
    exact (Option.map_eq_none_iff.mp hindex.symm).symm
  | some v =>
    rw [hv] at hindex
    obtain ⟨w, hw, hvw⟩ := Option.map_eq_some_iff.mp hindex.symm
    rw [hw, h.eq_of_index_eq h' hv hw hvw.symm]

/-! ## What the scan gives -/

theorem disallows_iff {c : Char} : rule.disallows c = true ↔ c ∈ rule.disallowed.toList := by
  simp [Rule.disallows, Text.CharSet.contains]

theorem map_fst_disallowed (rule : Rule) (text : List Char) :
    (Expected.disallowed rule text).map (·.1) =
      text.zipIdx.filter fun p => rule.disallows p.1 :=
  List.zipIdx_map_fst 0 _

theorem pairwise_disallowed (rule : Rule) (text : List Char) :
    (Expected.disallowed rule text).Pairwise fun p q => p.1.2 < q.1.2 := by
  have hindices : (text.zipIdx.map (·.2)).Pairwise (· < ·) := by
    rw [List.zipIdx_map_snd]
    exact List.pairwise_lt_range'
  have hfirst : ((Expected.disallowed rule text).map (·.1)).Pairwise fun p q => p.2 < q.2 := by
    rw [map_fst_disallowed]
    exact (List.pairwise_map.mp hindices).filter _
  rwa [List.pairwise_map] at hfirst

theorem exists_mem_disallowed_iff {text : List Char} {c : Char} {index : Nat} :
    (∃ number, ((c, index), number) ∈ Expected.disallowed rule text) ↔
      text[index]? = some c ∧ c ∈ rule.disallowed.toList := by
  have hmem : (c, index) ∈ (Expected.disallowed rule text).map (·.1) ↔
      text[index]? = some c ∧ c ∈ rule.disallowed.toList := by
    rw [map_fst_disallowed, List.mem_filter, List.mk_mem_zipIdx_iff_getElem?, disallows_iff]
  rw [← hmem, List.mem_map]
  exact ⟨fun ⟨number, h⟩ => ⟨_, h, rfl⟩, fun ⟨(_, number), h, he⟩ => ⟨number, he ▸ h⟩⟩

theorem records_scan (rule : Rule) (o : Occurrence) : Records rule o (scan rule o) := by
  rw [scan_eq_map]
  refine ⟨?increasing, fun index c => ?exists_iff, fun v hv => ?whole, fun number v hv => ?placed⟩
  case increasing => exact List.pairwise_map.mpr (pairwise_disallowed rule o.text.toList)
  case exists_iff =>
    rw [← exists_mem_disallowed_iff]
    constructor
    · rintro ⟨v, hv, rfl, rfl⟩
      obtain ⟨⟨⟨c, index⟩, number⟩, hmem, rfl⟩ := List.mem_map.mp hv
      exact ⟨number, hmem⟩
    · rintro ⟨number, hmem⟩
      exact ⟨_, List.mem_map_of_mem hmem, rfl, rfl⟩
  case whole =>
    obtain ⟨_, -, rfl⟩ := List.mem_map.mp hv
    exact ⟨rfl, rfl⟩
  case placed =>
    rw [List.getElem?_map, Expected.disallowed, List.getElem?_zipIdx, Option.map_map] at hv
    obtain ⟨⟨c, index⟩, -, rfl⟩ := Option.map_eq_some_iff.mp hv
    cases hmode : rule.positionMode <;> simp [toViolation, offset, hmode]

/-! ## The two modes -/

/-- The rule with the places of its violations found in the given way. -/
def inMode (rule : Rule) (mode : PositionMode) : Rule :=
  { rule with positionMode := mode }

/-- The second violation is the first one in a place that is not before its own. -/
def MovedOn (v w : Violation) : Prop :=
  w = { v with position := w.position } ∧ v.position ≤ w.position

/-- The two runs take the same steps. While no more violations than characters are behind them, the
first places what it finds no further on than the second. -/
theorem forall₂_movedOn_scanFrom (rule : Rule) (o : Occurrence) {number index : Nat}
    (hle : number ≤ index) (cs : List Char) :
    List.Forall₂ MovedOn (scanFrom (inMode rule .violationCount) o number index cs)
      (scanFrom (inMode rule .characterIndex) o number index cs) := by
  induction cs generalizing number index with
  | nil => exact .nil
  | cons c cs ih =>
    by_cases hc : rule.disallows c
    · -- which characters are disallowed does not depend on the mode
      have hmode (mode : PositionMode) : (inMode rule mode).disallows c := hc
      rw [scanFrom, if_pos (hmode _), scanFrom, if_pos (hmode _)]
      exact .cons ⟨rfl, Nat.add_le_add_left hle o.targetStart⟩ (ih (Nat.succ_le_succ hle))
    · have hmode (mode : PositionMode) : ¬ (inMode rule mode).disallows c := hc
      rw [scanFrom, if_neg (hmode _), scanFrom, if_neg (hmode _)]
      exact ih (Nat.le_succ_of_le hle)

/-- If the places that are counted in characters fit into words, so do those that are counted in
violations. -/
theorem inWords_of_forall₂_movedOn (h : List.Forall₂ MovedOn vs ws) (hws : InWords ws) :
    InWords vs := by
  induction h with
  | nil => exact hws
  | cons hmoved _ ih =>
    obtain ⟨hplace, hrest⟩ := inWords_cons.mp hws
    exact inWords_cons.mpr ⟨Nat.lt_of_le_of_lt hmoved.2 hplace, ih hrest⟩

theorem records_iff : Records rule o vs ↔ vs = scan rule o := by
  constructor
  · exact fun h => h.unique (records_scan rule o)
  · rintro rfl
    exact records_scan rule o

theorem scan?_eq_some_iff : scan? rule o = some vs ↔ Records rule o vs ∧ InWords vs := by
  rw [scan?_eq, Option.ite_none_right_eq_some, Option.some.injEq, records_iff]
  constructor
  · rintro ⟨hwords, rfl⟩
    exact ⟨rfl, hwords⟩
  · rintro ⟨rfl, hwords⟩
    exact ⟨hwords, rfl⟩

/-- There is one list of violations of a rule in a string, and a scan gives it. With checked
addition it does so if and only if the places fit into words of 64 bits. They do if the start of the
declaration and the length of the string have a sum of `2 ^ 64` at most. If the places by index fit,
so do those by number, and violations placed by their number are the same as placed by index, but
none of them further on. -/
theorem records_iff_eq_scan (rule : Rule) (o : Occurrence) :
    (∀ vs, Records rule o vs ↔ vs = scan rule o) ∧
    (∀ vs, scan? rule o = some vs ↔ Records rule o vs ∧ ∀ v ∈ vs, v.position < 2 ^ 64) ∧
    (o.targetStart + o.text.length ≤ 2 ^ 64 → scan? rule o = some (scan rule o)) ∧
    (∀ ws, scan? (inMode rule .characterIndex) o = some ws →
      ∃ vs, scan? (inMode rule .violationCount) o = some vs ∧ List.Forall₂ MovedOn vs ws) ∧
    List.Forall₂ MovedOn (scan (inMode rule .violationCount) o)
      (scan (inMode rule .characterIndex) o) := by
  have hmoved : List.Forall₂ MovedOn (scan (inMode rule .violationCount) o)
      (scan (inMode rule .characterIndex) o) :=
    forall₂_movedOn_scanFrom rule o (Nat.le_refl 0) o.text.toList
  refine ⟨fun vs => records_iff, fun vs => scan?_eq_some_iff, fun hbound => ?bounded,
    fun ws hws => ?modes, hmoved⟩
  case bounded => rw [scan?_eq, if_pos (inWords_scan hbound rule)]
  case modes =>
    obtain ⟨hrecords, hwords⟩ := scan?_eq_some_iff.mp hws
    obtain rfl := records_iff.mp hrecords
    refine ⟨_, ?_, hmoved⟩
    rw [scan?_eq, if_pos (inWords_of_forall₂_movedOn hmoved hwords)]

/-- At the end of the words, there is place for as many characters as the string has. -/
theorem records_iff_eq_scan_last_places :
    let o : Occurrence := { file := ⟨0, 0⟩, targetStart := 2 ^ 64 - 4, text := "a?b?" }
    let ws : List Violation :=
      [⟨⟨0, 0⟩, 2 ^ 64 - 3, '?', "a?b?", 1⟩, ⟨⟨0, 0⟩, 2 ^ 64 - 1, '?', "a?b?", 3⟩]
    scan? .errorAttribute o = some (scan .errorAttribute o) ∧
      scan? (inMode .errorAttribute .characterIndex) o = some ws ∧
      ∃ vs, scan? (inMode .errorAttribute .violationCount) o = some vs ∧
        List.Forall₂ MovedOn vs ws := by
  intro o ws
  obtain ⟨-, -, hbounded, hmodes, -⟩ := records_iff_eq_scan .errorAttribute o
  have hbound : o.targetStart + o.text.length ≤ 2 ^ 64 := by decide
  have hws : scan? (inMode .errorAttribute .characterIndex) o = some ws := by decide
  exact ⟨hbounded hbound, hws, hmodes ws hws⟩

/-- One place further on the index leads too far, but the number does not. -/
example :
    let o : Occurrence := { file := ⟨0, 0⟩, targetStart := 2 ^ 64 - 3, text := "a?b?" }
    scan? (inMode .errorAttribute .characterIndex) o = none ∧
      (scan? (inMode .errorAttribute .violationCount) o).isSome := by
  decide

end AttributeLint.Scan
