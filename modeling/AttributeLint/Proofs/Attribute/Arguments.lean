import Mathlib.Data.List.Forall2
import AttributeLint.Proofs.Attribute.Derivation

/-!
# Arguments — what each argument of an attribute says

The tokens between the parentheses of an attribute fall into groups with one comma between each two,
one group for each argument. What an argument is can be told from its group alone (`Says`): its
first two tokens bind it, and the rest is its value. A value is the string that the tokens spell if
they are strings with `+` between them, and otherwise what stands in the source, from the first
character of the first token to the last character of the last.
-/

namespace AttributeLint.Attribute

open Text

/-- The tokens begin with the identifier `name` and a mark of the given sort. -/
def BeginsWith (name : String) (mark : Token.Kind) (ts : List Token) : Prop :=
  ∃ t m rest, ts = t :: m :: rest ∧ t.kind = .ident ∧ t.text = name ∧ m.kind = mark

/-- The tokens of an argument that are its value: those behind the name and the mark that bind it,
or all of them. -/
inductive HasValue : List Token → List Token → Prop where
  | bound {name mark : Token} {ts : List Token} :
      StartsBound (name :: mark :: ts) → HasValue (name :: mark :: ts) ts
  | free {ts : List Token} : ¬ StartsBound ts → HasValue ts ts

/-- The text is what stands in the source from the start of the first token to the end of the
last. -/
def StandsFor (source : List Char) (ts : List Token) (text : String) : Prop :=
  ∃ first last, ts.head? = some first ∧ ts.getLast? = some last ∧
    ∃ before after, source = before ++ text.toList ++ after ∧ width before = first.start ∧
      width (before ++ text.toList) = last.stop

/-- The tokens `value` make up the value of an argument. -/
structure Says.Value (source : List Char) (value : List Token) (v : Argument.Value) : Prop where
  string_iff : ∀ text, v = .string text ↔ WritesConstant value text
  other_iff : ∀ text, v = .other text ↔
    (∀ constant, ¬ WritesConstant value constant) ∧ StandsFor source value text

/-- The tokens `ts` make up the argument. -/
structure Says (source : List Char) (ts : List Token) (a : Argument) : Prop where
  property_iff : ∀ name, a.binding = .property name ↔ BeginsWith name .equals ts
  constructor_iff : ∀ name, a.binding = .constructor name ↔ BeginsWith name .colon ts
  positional_iff : a.binding = .positional ↔
    ∀ name, ¬ BeginsWith name .equals ts ∧ ¬ BeginsWith name .colon ts
  value : ∃ value, HasValue ts value ∧ Says.Value source value a.value

/-- The tokens behind the name of an attribute make up its arguments: none of them, or parentheses
around groups of tokens with one comma between each two, outside all brackets. -/
inductive Lists (source : List Char) : List Token → List Argument → Prop where
  | bare : Lists source [] []
  | empty {opening closing : Token} :
      opening.kind = .lParen → closing.kind = .rParen → Lists source [opening, closing] []
  | groups {opening closing : Token} {body : List Token} {groups : List (List Token)}
      {arguments : List Argument} :
      opening.kind = .lParen → closing.kind = .rParen → Balanced 0 body → Divided body groups →
        List.Forall₂ (Says source) groups arguments →
          Lists source (opening :: (body ++ [closing])) arguments

variable {source : List Char} {tokens ts : List Token}

/-! ## Values -/

theorem WritesConstant.unique {text text' : String} (h : WritesConstant ts text)
    (h' : WritesConstant ts text') : text = text' := by
  rw [← constant?_eq_some_iff] at h h'
  rw [h] at h'
  exact Option.some.inj h'

theorem StandsFor.unique {text text' : String} (h : StandsFor source ts text)
    (h' : StandsFor source ts text') : text = text' := by
  obtain ⟨first, last, hfirst, hlast, hstands⟩ := h
  obtain ⟨first', last', hfirst', hlast', hstands'⟩ := h'
  rw [hfirst] at hfirst'
  rw [hlast] at hlast'
  cases hfirst'
  cases hlast'
  have hslice := slice?_eq_some_iff.mpr hstands
  rw [slice?_eq_some_iff.mpr hstands'] at hslice
  exact String.toList_inj.mp (Option.some.inj hslice).symm

theorem standsFor_slice (htiles : Token.Tiles source tokens) (hsub : ts.Sublist tokens)
    {first last : Token} (hfirst : ts.head? = some first) (hlast : ts.getLast? = some last) :
    StandsFor source ts (String.ofList (slice source first.start last.stop)) := by
  obtain ⟨rest, rfl⟩ := List.head?_eq_some_iff.mp hfirst
  have hslice := Indexed.slice?_tokens htiles hsub (List.mem_of_getLast? hlast)
  obtain ⟨before, after, hstands⟩ := slice?_eq_some_iff.mp hslice
  refine ⟨first, last, hfirst, hlast, before, after, ?_⟩
  rwa [String.toList_ofList]

theorem WritesValue.toSays (htiles : Token.Tiles source tokens) (hsub : ts.Sublist tokens)
    {v : Argument.Value} (h : WritesValue source ts v) : Says.Value source ts v := by
  cases h with
  | @string ts text hconstant =>
    constructor
    · intro text'
      rw [Argument.Value.string.injEq]
      constructor
      · rintro rfl
        exact hconstant
      · exact hconstant.unique
    · intro text'
      constructor
      · intro h
        cases h
      · rintro ⟨hnone, -⟩
        exact absurd hconstant (hnone text)
  | @other first last ts hnone hfirst hlast =>
    have hstands := standsFor_slice htiles hsub hfirst hlast
    constructor
    · intro text
      constructor
      · intro h
        cases h
      · intro hconstant
        exact absurd hconstant (hnone text)
    · intro text
      rw [Argument.Value.other.injEq]
      constructor
      · rintro rfl
        exact ⟨hnone, hstands⟩
      · rintro ⟨-, htext⟩
        exact hstands.unique htext

/-! ## Arguments -/

theorem startsBound_iff :
    StartsBound ts ↔ ∃ name, BeginsWith name .equals ts ∨ BeginsWith name .colon ts := by
  constructor
  · rintro ⟨name, mark, rest, hts, hname, hmark | hmark⟩
    · exact ⟨name.text, .inl ⟨name, mark, rest, hts, hname, rfl, hmark⟩⟩
    · exact ⟨name.text, .inr ⟨name, mark, rest, hts, hname, rfl, hmark⟩⟩
  · rintro ⟨_, ⟨name, mark, rest, hts, hname, -, hmark⟩ | ⟨name, mark, rest, hts, hname, -, hmark⟩⟩
    · exact ⟨name, mark, rest, hts, hname, .inl hmark⟩
    · exact ⟨name, mark, rest, hts, hname, .inr hmark⟩

theorem not_startsBound_iff :
    ¬ StartsBound ts ↔ ∀ name, ¬ BeginsWith name .equals ts ∧ ¬ BeginsWith name .colon ts := by
  rw [startsBound_iff]
  simp only [not_exists, not_or]

theorem beginsWith_cons_iff {name mark : Token} {text : String} {kind : Token.Kind} :
    BeginsWith text kind (name :: mark :: ts) ↔
      name.kind = .ident ∧ name.text = text ∧ mark.kind = kind := by
  constructor
  · rintro ⟨t, m, rest, heq, h⟩
    cases heq
    exact h
  · intro h
    exact ⟨name, mark, ts, rfl, h⟩

theorem WritesArgument.toSays (htiles : Token.Tiles source tokens) (hsub : ts.Sublist tokens)
    {a : Argument} (h : WritesArgument source ts a) : Says source ts a := by
  cases h with
  | positional hfree hvalue =>
    have hnone := not_startsBound_iff.mp hfree
    exact
      { property_iff := by simp [hnone]
        constructor_iff := by simp [hnone]
        positional_iff := by simp [hnone]
        value := ⟨_, .free hfree, hvalue.toSays htiles hsub⟩ }
  | @property name mark ts value hname hmark hvalue =>
    have hinside : ts.Sublist tokens := (List.sublist_append_right [name, mark] ts).trans hsub
    exact
      { property_iff := by simp [beginsWith_cons_iff, hname, hmark]
        constructor_iff := by simp [beginsWith_cons_iff, hname, hmark]
        positional_iff := by simp [beginsWith_cons_iff, hname, hmark]
        value := ⟨_, .bound ⟨name, mark, ts, rfl, hname, .inl hmark⟩,
          hvalue.toSays htiles hinside⟩ }
  | @constructor name mark ts value hname hmark hvalue =>
    have hinside : ts.Sublist tokens := (List.sublist_append_right [name, mark] ts).trans hsub
    exact
      { property_iff := by simp [beginsWith_cons_iff, hname, hmark]
        constructor_iff := by simp [beginsWith_cons_iff, hname, hmark]
        positional_iff := by simp [beginsWith_cons_iff, hname, hmark]
        value := ⟨_, .bound ⟨name, mark, ts, rfl, hname, .inr hmark⟩,
          hvalue.toSays htiles hinside⟩ }

/-! ## Attributes -/

/-- An attribute has a name, and what stands behind that makes up its arguments. -/
theorem Writes.exists_lists (htiles : Token.Tiles source tokens) (hsub : ts.Sublist tokens)
    {a : Attribute} (h : Writes source ts a) :
    ∃ name list, ts = name ++ list ∧ WritesName name a.name ∧ Lists source list a.arguments := by
  cases h with
  | name hname => exact ⟨ts, [], (List.append_nil ts).symm, hname, .bare⟩
  | @call name body opening closing _ arguments hname hopening harguments hclosing =>
    refine ⟨name, _, rfl, hname, ?_⟩
    cases harguments with
    | none => exact .empty hopening hclosing
    | @groups _ groups _ _ hbalanced hdivided hforall =>
      have hbody : body.Sublist tokens :=
        ((List.sublist_append_left body [closing]).trans ((List.sublist_cons_self opening _).trans
          (List.sublist_append_right name _))).trans hsub
      have hgroups (group : List Token) (hgroup : group ∈ groups) : group.Sublist tokens :=
        (hdivided.sublist group hgroup).trans hbody
      have hboth := (List.forall₂_and_left groups arguments).mpr ⟨hgroups, hforall⟩
      exact .groups hopening hclosing hbalanced hdivided
        (hboth.imp fun group a h => h.2.toSays htiles h.1)

/-- The tokens of an attribute that is read at an index of a source are a name and what makes up the
arguments of the attribute, and nothing else. -/
theorem exists_lists_of_placed_read? {source : String} {start next : Nat} {a : Attribute}
    (h : Indexed.placed (Token.tokenize source)
      (read? source.toList ((Token.tokenize source).drop start)) = some (a, next)) :
    ∃ name list, Indexed.between? (Token.tokenize source) start next = some (name ++ list) ∧
      WritesName name a.name ∧ Lists source.toList list a.arguments := by
  obtain ⟨⟨a', rest⟩, hread, heq⟩ := Option.map_eq_some_iff.mp h
  cases heq
  obtain ⟨taken, htaken, hwrites⟩ := writes_of_read? hread
  have hne : taken ≠ [] := by
    obtain ⟨t, ts, rfl, -, -⟩ := hwrites.begins
    exact List.cons_ne_nil t ts
  have hsub : taken.Sublist (Token.tokenize source) := by
    have hfront : taken.Sublist (taken ++ rest) := List.sublist_append_left taken rest
    rw [← htaken] at hfront
    exact hfront.trans (List.drop_sublist start _)
  obtain ⟨name, list, rfl, hname, hlists⟩ :=
    hwrites.exists_lists (Token.tiles_tokenize source) hsub
  exact ⟨name, list, Indexed.between?_of_drop htaken hne, hname, hlists⟩

/-- Commas in parentheses or in a comment part no arguments, and the text of a value keeps what
stands between its tokens. -/
theorem exists_lists_nested :
    Indexed.placed (Token.tokenize "[A(f(1, \"b\") /* , */ + é, n = \"p\" + @\"q\")]")
        (read? "[A(f(1, \"b\") /* , */ + é, n = \"p\" + @\"q\")]".toList
          ((Token.tokenize "[A(f(1, \"b\") /* , */ + é, n = \"p\" + @\"q\")]").drop 1)) =
      some (⟨"A", [⟨.positional, .other "f(1, \"b\") /* , */ + é"⟩, ⟨.property "n", .string "pq"⟩]⟩,
        18) ∧
    ∃ name list,
      Indexed.between? (Token.tokenize "[A(f(1, \"b\") /* , */ + é, n = \"p\" + @\"q\")]") 1 18 =
        some (name ++ list) ∧
      WritesName name "A" ∧
      Lists "[A(f(1, \"b\") /* , */ + é, n = \"p\" + @\"q\")]".toList list
        [⟨.positional, .other "f(1, \"b\") /* , */ + é"⟩, ⟨.property "n", .string "pq"⟩] := by
  have hread : Indexed.placed (Token.tokenize "[A(f(1, \"b\") /* , */ + é, n = \"p\" + @\"q\")]")
      (read? "[A(f(1, \"b\") /* , */ + é, n = \"p\" + @\"q\")]".toList
        ((Token.tokenize "[A(f(1, \"b\") /* , */ + é, n = \"p\" + @\"q\")]").drop 1)) =
      some (⟨"A", [⟨.positional, .other "f(1, \"b\") /* , */ + é"⟩, ⟨.property "n", .string "pq"⟩]⟩,
        18) := by
    decide +kernel
  exact ⟨hread, exists_lists_of_placed_read? hread⟩

end AttributeLint.Attribute
