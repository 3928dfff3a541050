import AttributeLint.Proofs.Usage.Confinement

/-!
# Isolation — what stands on the two sides of a semicolon

No attribute list has a semicolon in it. So a list that begins in front of a semicolon ends in front
of it, and whether one begins there does not depend on what is behind the semicolon
(`confines_endsStatement`). At the semicolon no list waits for its declaration any more, and behind
it a declaration may begin, as at the start of a source. Hence the usages in tokens that end with a
semicolon, and in any tokens behind them, are found as if the other tokens were not there
(`collect_append_of_endsStatement`).
-/

namespace AttributeLint

open Token

/-! ## Tokens that end with a semicolon -/

/-- The last token is a semicolon. -/
def EndsStatement (ts : List Token) : Prop :=
  ∃ t, ts.getLast? = some t ∧ t.kind = .semicolon

variable {t : Token} {ts taken rest : List Token}

namespace EndsStatement

theorem ne_nil (h : EndsStatement ts) : ts ≠ [] := by
  rintro rfl
  obtain ⟨t, hlast, _⟩ := h
  cases hlast

theorem exists_mem (h : EndsStatement ts) : ∃ t ∈ ts, t.kind = .semicolon := by
  obtain ⟨t, hlast, ht⟩ := h
  exact ⟨t, List.mem_of_getLast? hlast, ht⟩

/-- Tokens without a semicolon in front can be taken away. -/
theorem of_append (h : EndsStatement (taken ++ rest)) (htaken : ∀ t ∈ taken, t.kind ≠ .semicolon) :
    EndsStatement rest := by
  cases rest with
  | nil =>
    rw [List.append_nil] at h
    obtain ⟨t, hmem, ht⟩ := h.exists_mem
    exact absurd ht (htaken t hmem)
  | cons t rest =>
    obtain ⟨u, hlast, hu⟩ := h
    rw [List.getLast?_append_of_ne_nil _ (List.cons_ne_nil t rest)] at hlast
    exact ⟨u, hlast, hu⟩

/-- Behind the first token there is another one that ends a statement, or the first one does. -/
theorem cons_cases (h : EndsStatement (t :: ts)) :
    ts = [] ∧ t.kind = .semicolon ∨ EndsStatement ts := by
  cases ts with
  | nil =>
    obtain ⟨u, hlast, hu⟩ := h
    cases hlast
    exact .inl ⟨rfl, hu⟩
  | cons u ts =>
    obtain ⟨v, hlast, hv⟩ := h
    exact .inr ⟨v, by rwa [List.getLast?_cons_cons] at hlast, hv⟩

end EndsStatement

/-- Lists end in front of a semicolon, and behind it a declaration may begin. -/
theorem confines_endsStatement (source : List Char) :
    AttributeList.Confines source .declaration EndsStatement where
  ne_nil _ hends := hends.ne_nil
  list ts us l rest' hends hlist := by
    obtain ⟨taken, htaken, hbalanced⟩ := hlist.balanced
    rcases List.append_eq_append_iff.mp htaken with ⟨more, rfl, _⟩ | ⟨rest, rfl, rfl⟩
    -- the list would have the semicolon in it
    · obtain ⟨t, hmem, ht⟩ := hends.exists_mem
      exact absurd ht (hbalanced.semicolon t (List.mem_append_left more hmem))
    · exact ⟨rest, rfl, hends.of_append hbalanced.semicolon⟩
  token t ts hends := by
    refine hends.cons_cases.imp_left fun ⟨hnil, ht⟩ => ⟨hnil, ?_⟩
    rw [Boundary.after, ht]

/-! ## Usages on both sides -/

namespace Usage

/-- The usages in tokens that end with a semicolon and in the tokens behind them are those in the
first tokens and then those in the others, each as if the others were not there. -/
theorem collect_append_of_endsStatement (source : String) {before : List Token}
    (hends : EndsStatement before) (after : List Token) :
    collect source (before ++ after) = collect source before ++ collect source after :=
  (confines_endsStatement source.toList).collectFrom_append hends .declaration [] after

/-- Two lists and a call that are not closed in front of the semicolon hide nothing behind it. -/
theorem ofSource_append_unclosed :
    let source := "[A] f([B(\"é\", [C(; [D(\"?\")] [E] class"
    let tokens := tokenize source
    EndsStatement (tokens.take 14) ∧
      ofSource source = collect source (tokens.take 14) ++ collect source (tokens.drop 14) ∧
      collect source (tokens.take 14) = [⟨"A", 0, []⟩] ∧
      collect source (tokens.drop 14) =
        [⟨"D", 20, [⟨.positional, .string "?"⟩]⟩, ⟨"E", 20, []⟩] := by
  intro source tokens
  have hends : EndsStatement (tokens.take 14) :=
    ⟨⟨.semicolon, ";", 18⟩, by decide +kernel, rfl⟩
  refine ⟨hends, ?_, by decide +kernel, by decide +kernel⟩
  rw [← collect_append_of_endsStatement source hends, List.take_append_drop]
  rfl

end Usage

end AttributeLint
