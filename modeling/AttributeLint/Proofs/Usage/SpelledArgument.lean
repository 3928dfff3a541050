import AttributeLint.Proofs.Token.Spelling
import AttributeLint.Proofs.Usage.QualifiedNames

/-!
# SpelledArgument — an attribute whose argument is spelled out of literals

A list such as `[Error(...)]`, where the name may be any, qualified or not, and the argument any
number of literals joined by `+`, is read as a list with this attribute, and its argument is the
string that the literals spell (`exists_pieces_listed`). Nothing that stands inside a literal
reaches the grammar: the tokens of the argument are plain, so no bracket is counted, no comma splits
and no semicolon ends the list. The usage is found in front of a class (`ofSource_attributed`).
-/

namespace AttributeLint

open Text Token

/-! ## Plain tokens -/

/-- The token is no bracket, comma or semicolon. -/
structure Token.IsPlain (t : Token) : Prop where
  opens : t.kind.opens = false
  closes : t.kind.closes = false
  comma : t.kind ≠ .comma
  semicolon : t.kind ≠ .semicolon

namespace Attribute

/-- Plain tokens before a closing parenthesis are enclosed by it. -/
theorem enclosed?_of_plain {body : List Token} (hplain : ∀ t ∈ body, t.IsPlain) (close : Token)
    (hclose : close.kind = .rParen) (rest : List Token) :
    enclosed? 1 (body ++ close :: rest) = some (body, rest) := by
  induction body with
  | nil => simp [enclosed?, hclose, Kind.opens, Kind.closes]
  | cons t body ih =>
    have ht := hplain t List.mem_cons_self
    rw [List.cons_append, enclosed?, ht.opens, if_neg Bool.false_ne_true, ht.closes,
      if_neg Bool.false_ne_true, if_neg ht.semicolon,
      ih fun u hu => hplain u (List.mem_cons_of_mem _ hu)]
    rfl

theorem splitAtCommas_of_plain {body : List Token} (hplain : ∀ t ∈ body, t.IsPlain) :
    splitAtCommas 0 body = [body] := by
  induction body with
  | nil => rfl
  | cons t body ih =>
    have ht := hplain t List.mem_cons_self
    have hdepth : depthAfter 0 t = 0 := by simp [depthAfter, ht.opens, ht.closes]
    rw [splitAtCommas, if_neg (ht.comma ·.1), hdepth,
      ih fun u hu => hplain u (List.mem_cons_of_mem _ hu)]

end Attribute

/-! ## Joined literals -/

/-- The string that joined literals spell. -/
def Token.joinedValue (first : Spelled) (rest : List Spelled) : String :=
  String.join ((first :: rest).map Spelled.value)

theorem Token.joinedValue_cons (first second : Spelled) (rest : List Spelled) :
    joinedValue first (second :: rest) = first.value ++ joinedValue second rest := by
  simp [joinedValue]

namespace Attribute

/-- The token of a literal at an offset. -/
def spelledToken (s : Spelled) (offset : Nat) : Token :=
  { kind := .str s.value, text := String.ofList s.text, start := offset }

theorem isPlain_spelledToken (s : Spelled) (offset : Nat) : (spelledToken s offset).IsPlain :=
  ⟨rfl, rfl, Kind.noConfusion, Kind.noConfusion⟩

/-- The token of the operator `+` at an offset. -/
def plusToken (offset : Nat) : Token :=
  { kind := .other, text := "+", start := offset }

theorem isPlain_plusToken (offset : Nat) : (plusToken offset).IsPlain :=
  ⟨rfl, rfl, Kind.noConfusion, Kind.noConfusion⟩

/-- The tokens of joined literals, the first of which stands at the given offset. -/
def joinedTokens (offset : Nat) (first : Spelled) : List Spelled → List Token
  | [] => [spelledToken first offset]
  | second :: rest =>
    spelledToken first offset :: plusToken (offset + width first.text) ::
      joinedTokens (offset + width first.text + 1) second rest

theorem place_joinedPieces (offset : Nat) (first : Spelled) (rest : List Spelled) :
    place offset (joinedPieces first rest) = joinedTokens offset first rest := by
  induction rest generalizing offset first with
  | nil => rfl
  | cons second rest ih =>
    rw [joinedTokens, ← ih]
    rfl

theorem isPlain_joinedTokens (offset : Nat) (first : Spelled) (rest : List Spelled) :
    ∀ t ∈ joinedTokens offset first rest, t.IsPlain := by
  intro t ht
  induction rest generalizing offset first with
  | nil =>
    rw [List.mem_singleton.mp ht]
    exact isPlain_spelledToken first offset
  | cons second rest ih =>
    rcases List.mem_cons.mp ht with rfl | ht
    · exact isPlain_spelledToken first offset
    rcases List.mem_cons.mp ht with rfl | ht
    · exact isPlain_plusToken _
    · exact ih _ _ ht

theorem constant?_joinedTokens (offset : Nat) (first : Spelled) (rest : List Spelled) :
    constant? (joinedTokens offset first rest) = some (joinedValue first rest) := by
  induction rest generalizing offset first with
  | nil => simp [joinedTokens, constant?, spelledToken, Kind.value?, joinedValue]
  | cons second rest ih =>
    have htail := ih (offset + width first.text + 1) second
    rw [joinedValue_cons]
    simp only [joinedTokens, constant?, spelledToken, Kind.value?]
    rw [if_pos (by simp [isPlus, plusToken]), htail]
    rfl

theorem joinedTokens_eq_cons (offset : Nat) (first : Spelled) (rest : List Spelled) :
    ∃ ts, joinedTokens offset first rest = spelledToken first offset :: ts := by
  cases rest with
  | nil => exact ⟨[], rfl⟩
  | cons second rest => exact ⟨_, rfl⟩

/-- Joined literals are one positional argument with the string that they spell. -/
theorem arguments?_joinedTokens (source : List Char) (offset : Nat) (first : Spelled)
    (rest : List Spelled) :
    arguments? source (joinedTokens offset first rest) =
      some [{ binding := .positional, value := .string (joinedValue first rest) }] := by
  have hconstant := constant?_joinedTokens offset first rest
  have hsplit := splitAtCommas_of_plain (isPlain_joinedTokens offset first rest)
  obtain ⟨ts, hts⟩ := joinedTokens_eq_cons offset first rest
  rw [arguments?, hsplit]
  rw [hts] at hconstant ⊢
  -- the first token is a literal, so it binds no name
  have hpositional : binding (spelledToken first offset :: ts) =
      (.positional, spelledToken first offset :: ts) := by
    cases ts with
    | nil => rfl
    | cons mark ts => simp [binding, spelledToken]
  have hvalue : argument? source (spelledToken first offset :: ts) =
      some { binding := .positional, value := .string (joinedValue first rest) } := by
    rw [argument?, hpositional, value?, hconstant]
    rfl
  rw [List.mapM_cons, hvalue]
  rfl

end Attribute

/-! ## The list -/

namespace Usage

/-- A list with one attribute, whose argument is spelled out of literals. -/
def listed (name : String) (first : Spelled) (rest : List Spelled) : String :=
  String.ofList ('[' :: (name.toList ++ '(' :: (joined first rest ++ [')', ']'])))

/-- The one attribute of the list. -/
def spelledAttribute (name : String) (first : Spelled) (rest : List Spelled) : Attribute :=
  { name, arguments := [{ binding := .positional, value := .string (joinedValue first rest) }] }

theorem writes_spelledAttribute (source : List Char) {ts : List Token} {name : String}
    (hwritten : Attribute.WritesName ts name) (offset : Nat) (first : Spelled)
    (rest : List Spelled) {opening closing : Token} (hopening : opening.kind = .lParen)
    (hclosing : closing.kind = .rParen) :
    Attribute.Writes source
      (ts ++ opening :: (Attribute.joinedTokens offset first rest ++ [closing]))
      (spelledAttribute name first rest) := by
  have hplain := Attribute.isPlain_joinedTokens offset first rest
  have henclosed := Attribute.enclosed?_of_plain hplain closing hclosing []
  have hbalanced := (Attribute.enclosed?_eq_some_iff.mp henclosed).1
  have harguments := Attribute.arguments?_joinedTokens source offset first rest
  exact .call hwritten hopening ((Attribute.arguments?_eq_some_iff hbalanced).mp harguments)
    hclosing

/-- Wherever the list stands, it is cut into the same pieces, and whatever follows them, they are
read as the list. -/
theorem exists_pieces_listed {name last : String} (h : Qualified name last) (first : Spelled)
    (rest : List Spelled) :
    ∃ ps : List Piece, ps.flatMap (·.text) = (listed name first rest).toList ∧
      (∀ lineStart more, pieces lineStart ((listed name first rest).toList ++ more) =
        ps ++ pieces false more) ∧
      ∀ source offset us, ∃ stop, AttributeList.ListAt source (place offset ps ++ us)
        { start := offset, stop, target := none
          attributes := [spelledAttribute name first rest] } us := by
  obtain ⟨ps, htext, hcut, hwritten⟩ := h.exists_pieces
  have hparen : ∀ cs c, ('(' :: cs).head? = some c → isIdentContinue c = false := by
    rintro cs c ⟨⟩
    decide +kernel
  refine ⟨⟨.token .lBracket, ['[']⟩ :: ((ps ++ ⟨.token .lParen, ['(']⟩ ::
    (joinedPieces first rest ++ [⟨.token .rParen, [')']⟩])) ++ [⟨.token .rBracket, [']']⟩]),
    ?_, ?_, ?_⟩
  · simp [listed, htext, flatMap_text_joinedPieces]
  · intro lineStart more
    rw [listed, String.toList_ofList]
    simp only [List.cons_append, List.append_assoc, List.nil_append]
    rw [pieces_single lineStart (by decide), hcut _ _ (hparen _),
      pieces_single false (by decide), pieces_joined false first rest (by simp),
      pieces_single false (by decide), pieces_single false (by decide)]
    rfl
  · intro source offset us
    rw [place_token, place_append, place_append, place_token, place_append,
      Attribute.place_joinedPieces]
    exact ⟨_, ⟨_, _, rfl, rfl⟩, _, rfl, .untargeted (.last
      (writes_spelledAttribute source (hwritten _) _ first rest rfl rfl)) rfl⟩

/-! ## The source -/

/-- A class with an attribute `Error`, whose argument is spelled out of literals. -/
def attributed (first : Spelled) (rest : List Spelled) : String :=
  String.ofList ("[Error(".toList ++ joined first rest ++ ")] class C { }".toList)

/-- The tokens of the source behind the list, which ends at the given offset. -/
def afterList (offset : Nat) : List Token :=
  [⟨.ident, "class", offset + 1⟩, ⟨.ident, "C", offset + 7⟩, ⟨.lBrace, "\x7b", offset + 9⟩,
    ⟨.rBrace, "\x7d", offset + 11⟩]

theorem place_pieces_afterList (offset : Nat) :
    place offset (pieces false " class C { }".toList) = afterList offset := by
  have hcut : pieces false " class C { }".toList =
      [⟨.trivia .blank, [' ']⟩, ⟨.token .ident, "class".toList⟩, ⟨.trivia .blank, [' ']⟩,
        ⟨.token .ident, ['C']⟩, ⟨.trivia .blank, [' ']⟩, ⟨.token .lBrace, ['\x7b']⟩,
        ⟨.trivia .blank, [' ']⟩, ⟨.token .rBrace, ['\x7d']⟩] := by decide +kernel
  rw [hcut]
  rfl

theorem isIdentifier_error : IsIdentifier "Error" :=
  isIdentifier_of_tokenize_eq (by decide +kernel)

/-- The source has one usage, at its start, whose argument is the spelled string. -/
theorem ofSource_attributed (first : Spelled) (rest : List Spelled) :
    ofSource (attributed first rest) =
      [{ name := "Error"
         targetStart := 0
         arguments :=
          [{ binding := .positional, value := .string (joinedValue first rest) }] }] := by
  obtain ⟨ps, htext, hcut, hlist⟩ :=
    exists_pieces_listed (.bare isIdentifier_error) first rest
  have hsource : (attributed first rest).toList =
      (listed "Error" first rest).toList ++ " class C { }".toList := by
    have hopening : "[Error(".toList = '[' :: ("Error".toList ++ ['(']) := by
      decide +kernel
    have hclosing : ")] class C { }".toList = [')', ']'] ++ " class C { }".toList := by
      decide +kernel
    have hwhole : (attributed first rest).toList =
        "[Error(".toList ++ joined first rest ++ ")] class C { }".toList := String.toList_ofList
    have hlist : (listed "Error" first rest).toList = _ := String.toList_ofList
    rw [hwhole, hlist, hopening, hclosing]
    simp only [List.append_assoc, List.cons_append, List.nil_append]
  have htokens : tokenize (attributed first rest) =
      place 0 ps ++ afterList (0 + width (ps.flatMap (·.text))) := by
    rw [tokenize, hsource, hcut, place_append, place_pieces_afterList]
  generalize 0 + width (ps.flatMap (·.text)) = offset at htokens
  obtain ⟨stop, hlist⟩ := hlist (attributed first rest).toList 0 (afterList offset)
  -- the identifier `class` takes the list, and no other bracket follows
  have hnone (t : Token) (ht : t ∈ afterList offset) : t.kind ≠ .lBracket := by
    simp only [afterList, List.mem_cons, List.not_mem_nil, or_false] at ht
    rcases ht with rfl | rfl | rfl | rfl <;> exact Kind.noConfusion
  rw [ofSource, collect, htokens,
    collectFrom_declaration_run_behind (.last hlist (AttributeList.noListAt_cons (by simp) _))
      (List.cons_ne_nil _ _), collectFrom_of_no_bracket _ _ hnone]
  rfl

end Usage

end AttributeLint
