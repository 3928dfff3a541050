import AttributeLint.Proofs.Token.Layout
import AttributeLint.Proofs.Usage.Relocation

/-!
# Layout — the same usages without what separates the tokens

Comments, directives, line breaks and other white space between tokens do not count: a source with
each token on a line of its own has the usages of the source that the tokens come from
(`same_words_and_outlines_relaid`). Only the places of usages change, and the text of values that
are not constant strings, since that is what stands in the source.
-/

namespace AttributeLint

open Text Token

/-- The string that a value is, if it is one. -/
def Argument.Value.string? : Argument.Value → Option String
  | .string text => some text
  | .other _ => none

namespace Usage

/-- What a usage says wherever it stands: the name of the attribute, how each argument binds, and
which string it is, if it is one. -/
def outline (u : Usage) : String × List (Argument.Binding × Option String) :=
  (u.name, u.arguments.map fun a => (a.binding, a.value.string?))

/-- The tokens alone, as if all stood at the start of an empty source. -/
def bare (source : List Char) : Relocation source [] where
  start _ := 0
  spelling _ := ""
  spelling_slice first last := by rw [slice_nil]

theorem outline_mapUsage {source source' : List Char} (r : Relocation source source')
    (u : Usage) : (r.mapUsage u).outline = u.outline := by
  have hstring (value : Argument.Value) : (r.mapValue value).string? = value.string? := by
    cases value <;> rfl
  simp [outline, Relocation.mapUsage, Relocation.mapArgument, hstring]

/-- The outlines of the usages in a source are determined by the kinds and texts of its tokens. -/
theorem map_outline_ofSource_congr {source source' : String}
    (h : (tokenize source).map word = (tokenize source').map word) :
    (ofSource source).map outline = (ofSource source').map outline := by
  have hbare (source : String) : (ofSource source).map outline =
      (collectFrom [] .declaration [] ((tokenize source).map (bare source.toList).mapToken)).map
        outline := by
    rw [Relocation.collectFrom_map _ _ .nil, List.map_map]
    exact List.map_congr_left fun u _ => (outline_mapUsage _ u).symm
  have htokens : (tokenize source).map (bare source.toList).mapToken =
      (tokenize source').map (bare source'.toList).mapToken := by
    have hwords := congrArg (List.map fun w : Kind × String => Token.mk w.1 w.2 0) h
    rwa [List.map_map, List.map_map] at hwords
  rw [hbare, hbare, htokens]

/-- A source and its tokens on lines of their own have tokens of the same kinds and texts and, up to
the places, the same usages. -/
theorem same_words_and_outlines_relaid {source : String}
    (hhash : ∀ t ∈ tokenize source, t.text ≠ "#") :
    (tokenize (relaid source)).map word = (tokenize source).map word ∧
      (ofSource (relaid source)).map outline = (ofSource source).map outline :=
  ⟨map_word_relaid hhash, map_outline_ofSource_congr (map_word_relaid hhash)⟩

/-- A directive and comments are dropped, and the string that they stand inside is found again. -/
theorem same_outlines_relaid_commented :
    (ofSource (relaid "#if X\n[A(\"?\" /* y */ + @\"é\", N = 1 )] // z\nclass")).map outline =
      [("A", [(.positional, some "?é"), (.property "N", none)])] :=
  (same_words_and_outlines_relaid (by decide +kernel)).2.trans (by decide +kernel)

end Usage

end AttributeLint
