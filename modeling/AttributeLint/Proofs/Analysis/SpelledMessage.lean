import AttributeLint.Proofs.Analysis.Exactness
import AttributeLint.Proofs.Usage.SpelledArgument

/-!
# SpelledMessage — the built-in rule looks at the value of a string

A run of the built-in rules over a class whose attribute is spelled out of literals reports each
question mark of the string once (`run_attributed`). The spelling has no part in the result: the
same string in other literals, or in more of them, gives the same diagnostics.
-/

namespace AttributeLint

open Token

namespace Expected

theorem disallows_errorAttribute (c : Char) :
    Rule.errorAttribute.disallows c = decide (c = '?') := by
  show ['?'].contains c = _
  simp

/-- A text has as many disallowed characters as question marks. -/
theorem length_disallowed_errorAttribute (text : List Char) :
    (disallowed .errorAttribute text).length = text.count '?' := by
  have hvalues : text.zipIdx.map Prod.fst = text := List.zipIdx_map_fst 0 text
  calc (disallowed .errorAttribute text).length
      = text.zipIdx.countP fun p => Rule.errorAttribute.disallows p.1 := by
        rw [disallowed, List.length_zipIdx, List.countP_eq_length_filter]
    _ = (text.zipIdx.map Prod.fst).countP (· == '?') := by
        rw [List.countP_map]
        exact List.countP_congr fun p _ => by simp [disallows_errorAttribute]
    _ = text.count '?' := by rw [hvalues, List.count]

/-- The report of the question mark with number `i` in a text. -/
def questionMark (file : FileId) (path text : String) (i : Nat) : Diagnostic :=
  { ruleId := "ESG0001"
    title := "Illegal character in message"
    message := "Illegal character '?' in message \"" ++ text ++ "\""
    severity := .warning
    location := { file, path, span := { start := i, length := 1 } } }

theorem character_errorAttribute (file : FileId) (path text : String) (index number : Nat) :
    character .errorAttribute file path 0 text (('?', index), number) =
      questionMark file path text number := by
  have hmessage : Rule.errorAttribute.descriptor.format [String.singleton '?', text] =
      "Illegal character '?' in message \"" ++ text ++ "\"" :=
    Descriptor.format_illegalCharacter "?" text
  rw [character, hmessage, questionMark, place]
  simp [Rule.errorAttribute, Descriptor.illegalCharacter]

/-- The built-in rule reports the question marks of a text one after the other. -/
theorem map_character_errorAttribute (file : FileId) (path text : String) :
    (disallowed .errorAttribute text.toList).map (character .errorAttribute file path 0 text) =
      (List.range (text.toList.count '?')).map (questionMark file path text) := by
  have heach : ∀ p ∈ disallowed .errorAttribute text.toList,
      character .errorAttribute file path 0 text p = questionMark file path text p.2 := by
    rintro ⟨⟨c, index⟩, number⟩ hp
    have hfound : (c, index) ∈ text.toList.zipIdx.filter
        fun p => Rule.errorAttribute.disallows p.1 := List.fst_mem_of_mem_zipIdx hp
    have hc : c = '?' := by
      simpa [disallows_errorAttribute] using (List.mem_filter.mp hfound).2
    rw [hc]
    exact character_errorAttribute file path text index number
  have hnumbers : (disallowed .errorAttribute text.toList).map Prod.snd =
      List.range (text.toList.count '?') := by
    rw [← length_disallowed_errorAttribute, disallowed, List.length_zipIdx, List.zipIdx_map_snd,
      List.range_eq_range']
  rw [List.map_congr_left heach, ← hnumbers, List.map_map]
  rfl

/-- What is expected of the built-in rule for the one usage that the source has. -/
theorem ofRule_attributed (id : Nat) (path : String) (first : Spelled) (rest : List Spelled) :
    ofRule id [.parsed path (Usage.attributed first rest)] .errorAttribute =
      (List.range ((joinedValue first rest).toList.count '?')).map
        (questionMark ⟨id, 0⟩ path (joinedValue first rest)) := by
  have hwritten : Rule.errorAttribute.attributeName.isWrittenAs "Error" = true := by decide
  have husages : (Addition.parsed path (Usage.attributed first rest)).usages = _ :=
    Usage.ofSource_attributed first rest
  rw [← map_character_errorAttribute, ofRule, overUsages, List.zipIdx_singleton,
    List.flatMap_singleton]
  dsimp only
  rw [husages, List.flatMap_singleton, ofUsage, if_pos hwritten]
  exact List.append_nil _

end Expected

namespace Analysis

/-- The string that literals spell is what is checked: a run over a class with the attribute reports
each question mark of the string, with the whole string in the message, and nothing else. -/
theorem run_attributed (id : Nat) (path : String) (first : Spelled) (rest : List Spelled) :
    run .builtin (Compilation.ofSources id [(path, Usage.attributed first rest)]) =
      .ok
        { generatedSources := [.errorAttribute]
          diagnostics :=
            (List.range ((joinedValue first rest).toList.count '?')).map
              (Expected.questionMark ⟨id, 0⟩ path (joinedValue first rest)) } := by
  have hholds := Compilation.holds_build id [.parsed path (Usage.attributed first rest)]
  have henabled : Registry.builtin.enabledRules = [.errorAttribute] := by decide
  rw [run, Compilation.ofSources_eq_build]
  show (analyze .builtin (Compilation.build id [.parsed path _])).map result = _
  rw [analyze_of_holds hholds, henabled, List.flatMap_singleton, Expected.ofRule_attributed]
  rfl

end Analysis

end AttributeLint
