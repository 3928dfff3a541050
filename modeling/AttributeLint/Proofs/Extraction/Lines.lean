import AttributeLint.Proofs.Compilation.Registration
import AttributeLint.Proofs.Extraction.Partition
import AttributeLint.Proofs.Token.Restart
import AttributeLint.Proofs.Usage.Isolation
import AttributeLint.Proofs.Usage.Relocation
import AttributeLint.Proofs.Usage.SpelledArgument

/-!
# Lines — the occurrences in a source, line by line

An occurrence tells where a declaration stands and which string belongs to it, and both depend on
the tokens of the source alone (`found_congr_source`). So the lines behind a statement have the
occurrences that they have by themselves, further on (`occurrencesIn_append_feed`), and an attribute
on a line of its own adds one if its name refers to the attribute that is looked for, and none if it
does not (`occurrencesIn_listed_feed`).
-/

namespace AttributeLint

open Text Token

/-- The same occurrence, at another place in its file. -/
def Occurrence.moved (start : Nat → Nat) (o : Occurrence) : Occurrence :=
  { o with targetStart := start o.targetStart }

/-- The same occurrence some bytes further on. -/
def Occurrence.further (n : Nat) : Occurrence → Occurrence :=
  moved (· + n)

theorem Occurrence.further_further (m n : Nat) (o : Occurrence) :
    (o.further m).further n = o.further (m + n) :=
  congrArg (fun start => { o with targetStart := start }) (Nat.add_assoc _ _ _)

namespace Extraction

variable {wanted : AttributeName} {file : FileId} {us vs : List Usage} {source source' : List Char}

/-! ## Usages of one file -/

/-- The occurrences that the usages of one file give. -/
def found (wanted : AttributeName) (file : FileId) (us : List Usage) : List Occurrence :=
  (ofUses wanted (us.map fun u => (file, u))).occurrences

/-- The occurrences in a source that is registered as the only file. -/
def occurrencesIn (wanted : AttributeName) (id : Nat) (path source : String) : List Occurrence :=
  (ofCompilation (.ofSources id [(path, source)]) wanted).occurrences

theorem occurrencesIn_eq (wanted : AttributeName) (id : Nat) (path source : String) :
    occurrencesIn wanted id path source = found wanted ⟨id, 0⟩ (Usage.ofSource source) := by
  rw [occurrencesIn, ofCompilation_eq_ofUses, Compilation.uses, Compilation.ofSources_eq_build,
    (Compilation.holds_build id _).units]
  simp [found, Addition.usages]

theorem found_append :
    found wanted file (us ++ vs) = found wanted file us ++ found wanted file vs := by
  simp [found, ofUses]

/-- The string of a usage is the same in another source. -/
theorem singleString_mapUsage (r : Relocation source source') (u : Usage) :
    (r.mapUsage u).singleString = u.singleString := by
  have hreaching : (r.mapUsage u).constructorArguments =
      u.constructorArguments.map r.mapArgument := by
    show (u.arguments.map r.mapArgument).filter Argument.isConstructor = _
    rw [List.filter_map]
    rfl
  rw [Usage.singleString, Usage.singleString, hreaching]
  rcases u.constructorArguments with _ | ⟨⟨binding, value⟩, _ | ⟨a, args⟩⟩
  · rfl
  · cases value <;> rfl
  · simp

/-- A usage moved to another place gives its occurrence at that place. -/
theorem found_map_mapUsage (r : Relocation source source') (us : List Usage) :
    found wanted file (us.map r.mapUsage) = (found wanted file us).map (.moved r.start) := by
  have hoccurrence (u : Usage) : occurrence? (file, r.mapUsage u) =
      (occurrence? (file, u)).map (.moved r.start) := by
    rw [occurrence?, occurrence?]
    dsimp only
    rw [singleString_mapUsage]
    cases u.singleString <;> rfl
  have hname (u : Usage) : (r.mapUsage u).name = u.name := rfl
  simp only [found, ofUses, List.map_map, List.filter_map, List.filterMap_map, List.map_filterMap,
    Function.comp_def, hoccurrence, hname]

/-- The tokens where they stand, as if in an empty source. -/
def hollow (source : List Char) (start : Nat → Nat) : Relocation source [] where
  start := start
  spelling _ := ""
  spelling_slice first last := by rw [slice_nil]

theorem found_hollow (source : List Char) (start : Nat → Nat) (ts : List Token) :
    found wanted file (Usage.collectFrom [] .declaration []
        (ts.map fun t => { t with start := start t.start })) =
      (found wanted file (Usage.collectFrom source .declaration [] ts)).map (.moved start) := by
  have hmap := (hollow source start).collectFrom_map .declaration .nil ts
  exact (congrArg _ hmap).trans (found_map_mapUsage _ _)

/-- What is found depends on the source by its tokens only. -/
theorem found_congr_source (source source' : List Char) (ts : List Token) :
    found wanted file (Usage.collectFrom source .declaration [] ts) =
      found wanted file (Usage.collectFrom source' .declaration [] ts) := by
  have hhollow (source : List Char) :
      found wanted file (Usage.collectFrom [] .declaration [] (ts.map id)) =
        (found wanted file (Usage.collectFrom source .declaration [] ts)).map id :=
    found_hollow source id ts
  simp only [List.map_id] at hhollow
  rw [← hhollow source, ← hhollow source']

/-- It moves with them. -/
theorem found_shift (source source' : List Char) (n : Nat) (ts : List Token) :
    found wanted file (Usage.collectFrom source .declaration [] (ts.map (shift n))) =
      (found wanted file (Usage.collectFrom source' .declaration [] ts)).map (.further n) :=
  (found_congr_source source [] _).trans (found_hollow source' (· + n) ts)

theorem found_singleton {u : Usage} {text : String} (h : u.singleString = .ok text) :
    found wanted file [u] =
      if wanted.isWrittenAs u.name then [{ file, targetStart := u.targetStart, text }] else [] := by
  rw [found, List.map_singleton]
  split
  · next hwritten => rw [ofUses_cons_occurrence hwritten h]; rfl
  · next hwritten => rw [ofUses_cons_other hwritten]; rfl

/-! ## Lines -/

/-- Nothing of the text goes on behind it: no literal and no comment is open at its end, and its
last token, if it has any, ends a statement. -/
structure Concludes (before : String) : Prop where
  closed : tokenize (before ++ "\nx") =
    tokenize before ++ [{ kind := .ident, text := "x", start := before.utf8ByteSize + 1 }]
  ended : tokenize before = [] ∨ EndsStatement (tokenize before)

/-- The first token of the text is one that takes the lists in front of it. -/
def TakesLists (after : String) : Prop :=
  ∃ t ts, tokenize after = t :: ts ∧ t.kind ≠ .lBracket

variable {id : Nat} {path before after name last : String}

/-- The lines behind a statement have the occurrences that they have by themselves. -/
theorem occurrencesIn_append_feed (h : Concludes before) (after : String) :
    occurrencesIn wanted id path (before ++ "\n" ++ after) =
      occurrencesIn wanted id path before ++
        (occurrencesIn wanted id path after).map (.further (before.utf8ByteSize + 1)) := by
  have hsplit (source : List Char) (us : List Token) :
      Usage.collectFrom source .declaration [] (tokenize before ++ us) =
        Usage.collectFrom source .declaration [] (tokenize before) ++
          Usage.collectFrom source .declaration [] us := by
    rcases h.ended with hnone | hends
    · rw [hnone, Usage.collectFrom]
      rfl
    · exact (confines_endsStatement source).collectFrom_append hends .declaration [] us
  rw [occurrencesIn_eq, occurrencesIn_eq, occurrencesIn_eq, Usage.ofSource, Usage.ofSource,
    Usage.ofSource, Usage.collect, Usage.collect, Usage.collect, tokenize_append_feed h.closed,
    hsplit, found_append, found_congr_source _ before.toList, found_shift _ after.toList]

/-- An attribute on a line of its own adds an occurrence if its name refers to the attribute that is
looked for, and nothing if it does not. -/
theorem occurrencesIn_listed_feed (hname : Qualified name last) (first : Spelled)
    (rest : List Spelled) (hafter : TakesLists after) :
    occurrencesIn wanted id path (Usage.listed name first rest ++ "\n" ++ after) =
      (if wanted.isWrittenAs name then
        [{ file := ⟨id, 0⟩, targetStart := 0, text := joinedValue first rest }] else []) ++
        (occurrencesIn wanted id path after).map
          (.further ((Usage.listed name first rest).utf8ByteSize + 1)) := by
  obtain ⟨ps, htext, hcut, hlist⟩ := Usage.exists_pieces_listed hname first rest
  obtain ⟨t, ts, htokens, ht⟩ := hafter
  generalize Usage.listed name first rest = line at *
  have hlines : tokenize (line ++ "\n" ++ after) =
      place 0 ps ++ (tokenize after).map (shift (line.utf8ByteSize + 1)) := by
    have hsource : (line ++ "\n" ++ after).toList = line.toList ++ '\n' :: after.toList := by simp
    rw [tokenize, hsource, hcut, pieces_feed, place_append, place_trivia, htext, tokenize,
      ← place_add, Nat.zero_add, Nat.zero_add, width_toList]
    rfl
  obtain ⟨stop, hat⟩ := hlist (line ++ "\n" ++ after).toList 0
    ((tokenize after).map (shift (line.utf8ByteSize + 1)))
  have hbehind : (tokenize after).map (shift (line.utf8ByteSize + 1)) ≠ [] := by simp [htokens]
  have hno : AttributeList.NoListAt (line ++ "\n" ++ after).toList
      ((tokenize after).map (shift (line.utf8ByteSize + 1))) := by
    rw [htokens, List.map_cons]
    exact AttributeList.noListAt_cons (t := shift _ t) ht _
  have husage : found wanted ⟨id, 0⟩ (AttributeList.usages ([⟨0, stop, none,
      [Usage.spelledAttribute name first rest]⟩].filter (!·.isGlobal))) =
      if wanted.isWrittenAs name then
        [{ file := ⟨id, 0⟩, targetStart := 0, text := joinedValue first rest }] else [] := by
    have hone : AttributeList.usages ([⟨0, stop, none,
        [Usage.spelledAttribute name first rest]⟩].filter (!·.isGlobal)) =
        [⟨name, 0, [⟨.positional, .string (joinedValue first rest)⟩]⟩] := rfl
    rw [hone]
    exact found_singleton rfl
  rw [occurrencesIn_eq, occurrencesIn_eq, Usage.ofSource, Usage.ofSource, Usage.collect,
    Usage.collect, hlines, Usage.collectFrom_declaration_run_behind (.last hat hno) hbehind,
    found_append, found_shift _ after.toList, husage]

/-- The occurrences in a source that has an attribute on a line of its own. -/
theorem occurrencesIn_listed_between (hbefore : Concludes before) (hname : Qualified name last)
    (first : Spelled) (rest : List Spelled) (hafter : TakesLists after) :
    occurrencesIn wanted id path
        (before ++ "\n" ++ (Usage.listed name first rest ++ "\n" ++ after)) =
      occurrencesIn wanted id path before ++
        ((if wanted.isWrittenAs name then
          [{ file := ⟨id, 0⟩, targetStart := before.utf8ByteSize + 1
             text := joinedValue first rest }] else []) ++
        (occurrencesIn wanted id path after).map
          (.further (before ++ "\n" ++ (Usage.listed name first rest ++ "\n")).utf8ByteSize)) := by
  have hfeed : "\n".utf8ByteSize = 1 := rfl
  have hbehind : (before ++ "\n" ++ (Usage.listed name first rest ++ "\n")).utf8ByteSize =
      (Usage.listed name first rest).utf8ByteSize + 1 + (before.utf8ByteSize + 1) := by
    simp only [String.utf8ByteSize_append, hfeed, Nat.add_comm]
  rw [occurrencesIn_append_feed hbefore, occurrencesIn_listed_feed hname first rest hafter,
    List.map_append, List.map_map, hbehind]
  simp only [Function.comp_def, Occurrence.further_further]
  split
  · simp [Occurrence.further, Occurrence.moved]
  · rfl

end Extraction

end AttributeLint
