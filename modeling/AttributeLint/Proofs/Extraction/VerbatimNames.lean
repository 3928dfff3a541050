import AttributeLint.Proofs.AttributeName.LastIdentifier
import AttributeLint.Proofs.Extraction.Lines

/-!
# VerbatimNames — attributes written with an `@`

An identifier may be written with an `@` in front of it, and the `@` stays in the name of a usage.
Names are compared with it in place, so a usage whose last identifier is written with an `@` is
found only for an attribute whose own name has it. Of a source in which an attribute is written so,
all occurrences are found but the one of that attribute (`occurrencesIn_verbatim`).
-/

namespace AttributeLint

open Text Token

namespace AttributeName

variable {metadata written full N last : String}

/-- The last identifier of a name calls the attribute with the given full name. -/
def Calls (last full : String) : Prop :=
  full = last ∨ full = last ++ "Attribute"

instance (last full : String) : Decidable (Calls last full) :=
  inferInstanceAs (Decidable (_ ∨ _))

theorem isWrittenAs_iff_calls (hfull : Qualified metadata full) (hlast : Qualified written last) :
    (ofName metadata).isWrittenAs written ↔ Calls last full := by
  rw [isWrittenAs_iff_of_qualified hfull hlast, Calls, eq_comm, eq_comm (b := full)]

/-- No attribute is called both by an identifier and by the same one with an `@`. -/
theorem Calls.not_verbatim (h : Calls N full) (hN : IsIdentifier N)
    (hmark : N.toList.head? ≠ some '@') : ¬ Calls ("@" ++ N) full := by
  have hplain : full.toList.head? ≠ some '@' := by
    rcases h with rfl | rfl
    · exact hmark
    · have hne : N.toList ≠ [] := by simpa using hN.ne_empty
      rwa [String.toList_append, List.head?_append_of_ne_nil _ hne]
  rintro (rfl | rfl)
  · exact hplain (by simp)
  · exact hplain (by simp)

end AttributeName

namespace Extraction

open AttributeName

/-- The line with an attribute is a byte longer if its name is written with an `@`. -/
theorem utf8ByteSize_listed_verbatim (front N : String) (first : Spelled) (rest : List Spelled) :
    (Usage.listed (front ++ ("@" ++ N)) first rest).utf8ByteSize =
      (Usage.listed (front ++ N) first rest).utf8ByteSize + 1 := by
  have hmark : '@'.utf8Size = 1 := rfl
  rw [← width_toList, ← width_toList]
  simp [Usage.listed, width_append, width_cons, hmark]
  omega

/-- A usage whose last identifier is written with an `@` is found exactly for the attributes that
are called by that identifier with its `@`. So when an attribute stands on a line of its own,
whatever its name and its string are and whatever stands on the lines in front of it and behind it,
it has an occurrence without an `@` if the attribute that is looked for is called by its last
identifier, and with an `@` if it is called by that with the `@`. All else that is found is the
same, but for the places behind the `@`. Hence the `@` makes no difference exactly if neither of the
two calls the attribute that is looked for. -/
theorem occurrencesIn_verbatim {metadata full front N : String} (hfull : Qualified metadata full)
    (hN : Qualified (front ++ N) N) (hmark : N.toList.head? ≠ some '@') (id : Nat) (path : String)
    (first : Spelled) (rest : List Spelled) {before after : String} (hbefore : Concludes before)
    (hafter : TakesLists after) :
    let line := Usage.listed (front ++ N) first rest ++ "\n"
    let verbatim := Usage.listed (front ++ ("@" ++ N)) first rest ++ "\n"
    let found := occurrencesIn (ofName metadata) id path
    let own : Occurrence :=
      { file := ⟨id, 0⟩, targetStart := before.utf8ByteSize + 1, text := joinedValue first rest }
    let behind := (before ++ "\n" ++ line).utf8ByteSize
    (∀ source, ∀ u ∈ Usage.ofSource source, ∀ K, Qualified u.name ("@" ++ K) →
        ((ofName metadata).isWrittenAs u.name ↔ Calls ("@" ++ K) full)) ∧
      found (before ++ "\n" ++ (line ++ after)) =
        found before ++
          ((if Calls N full then [own] else []) ++ (found after).map (.further behind)) ∧
      found (before ++ "\n" ++ (verbatim ++ after)) =
        found before ++ ((if Calls ("@" ++ N) full then [own] else []) ++
          (found after).map (.further (behind + 1))) ∧
      ((found (before ++ "\n" ++ (verbatim ++ after))).length =
          (found (before ++ "\n" ++ (line ++ after))).length ↔
        ¬ Calls N full ∧ ¬ Calls ("@" ++ N) full) := by
  intro line verbatim found own behind
  have hfound {name last : String} (hname : Qualified name last) :
      found (before ++ "\n" ++ (Usage.listed name first rest ++ "\n" ++ after)) =
        found before ++ ((if Calls last full then [own] else []) ++ (found after).map
          (.further (before ++ "\n" ++ (Usage.listed name first rest ++ "\n")).utf8ByteSize)) := by
    simp only [← isWrittenAs_iff_calls hfull hname]
    exact occurrencesIn_listed_between hbefore hname first rest hafter
  have hbehind : (before ++ "\n" ++ verbatim).utf8ByteSize = behind + 1 := by
    simp only [verbatim, behind, line, String.utf8ByteSize_append, utf8ByteSize_listed_verbatim]
    omega
  have hplain := hfound hN
  have hverbatim := hfound (hN.marked hmark)
  rw [hbehind] at hverbatim
  refine ⟨fun source u _ K hK => isWrittenAs_iff_calls hfull hK, hplain, hverbatim, ?_⟩
  rw [hplain, hverbatim]
  by_cases hcalls : Calls N full
  · have hnot := hcalls.not_verbatim hN.isIdentifier hmark
    simp [hcalls, hnot]
  · by_cases hcalls' : Calls ("@" ++ N) full
    · simp [hcalls, hcalls']
    · simp [hcalls, hcalls']

/-- The attribute on the second line is not found if it is written with an `@`. The one behind it is
found, a byte further on. -/
theorem occurrencesIn_verbatim_global :
    (∃ u ∈ Usage.ofSource "[A.@Error] class", Qualified u.name ("@" ++ "Error") ∧
        ¬ (ofName "ErrorAttribute").isWrittenAs u.name) ∧
      occurrencesIn (ofName "ErrorAttribute") 0 "a.cs"
          "using System;\n[global::My.Error(\"a?\")]\nclass C { } [Error(\"é\")] class D { }" =
        [⟨⟨0, 0⟩, 14, "a?"⟩, ⟨⟨0, 0⟩, 51, "é"⟩] ∧
      occurrencesIn (ofName "ErrorAttribute") 0 "a.cs"
          "using System;\n[global::My.@Error(\"a?\")]\nclass C { } [Error(\"é\")] class D { }" =
        [⟨⟨0, 0⟩, 52, "é"⟩] := by
  have hident {name : String} (h : tokenize name = [{ kind := .ident, text := name, start := 0 }]) :
      Qualified name name := .bare (isIdentifier_of_tokenize_eq h)
  have hfull : Qualified "ErrorAttribute" "ErrorAttribute" := hident (by decide +kernel)
  have herror : IsIdentifier "Error" := isIdentifier_of_tokenize_eq (by decide +kernel)
  have hmarked : IsIdentifier "@Error" := isIdentifier_of_tokenize_eq (by decide +kernel)
  have hmy : IsIdentifier "My" := isIdentifier_of_tokenize_eq (by decide +kernel)
  have hname : Qualified ("global::My." ++ "Error") "Error" :=
    ((hident (by decide +kernel) : Qualified "global" "global").member (.inr rfl) hmy).member
      (.inl rfl) herror
  have hused : Qualified "A.@Error" ("@" ++ "Error") :=
    (hident (by decide +kernel) : Qualified "A" "A").member (.inl rfl) hmarked
  have hbefore : Concludes "using System;" :=
    ⟨by decide +kernel, .inr ⟨⟨.semicolon, ";", 12⟩, by decide +kernel, rfl⟩⟩
  have hafter : TakesLists "class C { } [Error(\"é\")] class D { }" :=
    ⟨⟨.ident, "class", 0⟩, (tokenize "class C { } [Error(\"é\")] class D { }").tail,
      by decide +kernel, Kind.noConfusion⟩
  obtain ⟨hmarks, hplain, hverbatim, -⟩ := occurrencesIn_verbatim hfull hname (by decide +kernel) 0
    "a.cs" ⟨.regular, "a?"⟩ [] hbefore hafter
  refine ⟨⟨⟨"A.@Error", 0, []⟩, by decide +kernel, hused, ?_⟩, ?_, ?_⟩
  · rw [hmarks "[A.@Error] class" _ (by decide +kernel) _ hused]
    decide +kernel
  · refine Eq.trans ?_ (hplain.trans ?_) <;> decide +kernel
  · refine Eq.trans ?_ (hverbatim.trans ?_) <;> decide +kernel

/-- With an `@` the attribute is not found, and without it it is. -/
theorem ofCompilation_verbatim_lost :
    ofCompilation (.ofSources 0 [("a.cs", "[Error(\"a?\")] class C { }")]) (.ofName "Error") =
        ⟨[⟨⟨0, 0⟩, 0, "a?"⟩], []⟩ ∧
      ofCompilation (.ofSources 0 [("a.cs", "[@Error(\"a?\")] class C { }")]) (.ofName "Error") =
        ⟨[], []⟩ := by
  decide +kernel

end Extraction

end AttributeLint
