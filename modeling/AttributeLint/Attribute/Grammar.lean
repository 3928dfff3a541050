import AttributeLint.Attribute
import AttributeLint.Token

/-!
# Grammar — reading attribute lists from tokens

A list is `[`, an optional target, attributes between commas with an optional last comma, and `]`.
Each reader takes the tokens that are left and returns what it read with the tokens that follow, or
nothing when they do not fit. Whatever is read is shorter by at least one token (the lemmas
`_length`), which is why repeated reading ends.
-/

namespace AttributeLint

open Text

/-! ## Names -/

/-- The spelling of a separator of qualified names. -/
def Token.Kind.separator? : Token.Kind → Option String
  | .dot => some "."
  | .doubleColon => some "::"
  | _ => none

namespace Attribute

/-- The rest of a qualified name: separators, each with an identifier after it. A separator that
ends the tokens belongs to what follows. -/
def nameTail? : List Token → Option (String × List Token)
  | separator :: part :: ts =>
    match separator.kind.separator? with
    | none => some ("", separator :: part :: ts)
    | some mark =>
      if part.kind = .ident then
        (nameTail? ts).map fun (tail, rest) => (mark ++ part.text ++ tail, rest)
      else none
  | ts => some ("", ts)

/-- A qualified name: an identifier and its tail. -/
def name? : List Token → Option (String × List Token)
  | [] => none
  | t :: ts =>
    if t.kind = .ident then (nameTail? ts).map fun (tail, rest) => (t.text ++ tail, rest)
    else none

/-! ## Arguments -/

/-- The tokens up to the parenthesis that closes the innermost of `depth` open brackets, and the
tokens after it. Brackets of all three sorts count alike; a semicolon ends the search. -/
def enclosed? (depth : Nat) : List Token → Option (List Token × List Token)
  | [] => none
  | t :: ts =>
    if t.kind.opens then (enclosed? (depth + 1) ts).map fun (body, rest) => (t :: body, rest)
    else if t.kind.closes then
      if depth = 0 then none
      else if depth = 1 then if t.kind = .rParen then some ([], ts) else none
      else (enclosed? (depth - 1) ts).map fun (body, rest) => (t :: body, rest)
    else if t.kind = .semicolon then none
    else (enclosed? depth ts).map fun (body, rest) => (t :: body, rest)

/-- The number of open brackets after a token, of `depth` before it. -/
def depthAfter (depth : Nat) (t : Token) : Nat :=
  if t.kind.opens then depth + 1 else if t.kind.closes then depth - 1 else depth

/-- The tokens between the commas that stand outside all brackets. -/
def splitAtCommas (depth : Nat) : List Token → List (List Token)
  | [] => [[]]
  | t :: ts =>
    if t.kind = .comma ∧ depth = 0 then [] :: splitAtCommas depth ts
    else
      match splitAtCommas (depthAfter depth t) ts with
      | [] => [[t]]
      | group :: groups => (t :: group) :: groups

/-- The token is the operator that joins strings. -/
def isPlus (t : Token) : Bool :=
  t.kind = .other && t.text = "+"

/-- The string denoted by constant strings joined by `+`. -/
def constant? : List Token → Option String
  | [] => none
  | [t] => t.kind.value?
  | t :: plus :: ts =>
    match t.kind.value? with
    | none => none
    | some text => if isPlus plus then (constant? ts).map (text ++ ·) else none

/-- The value of an argument: the constant it denotes, or its source text from the first token to
the last. -/
def value? (source : List Char) : List Token → Option Argument.Value
  | [] => none
  | t :: ts =>
    match constant? (t :: ts) with
    | some text => some (.string text)
    | none =>
      let last := (t :: ts).getLast (by simp)
      some (.other (String.ofList (slice source t.start last.stop)))

/-- The binding of an argument, and the tokens of its value. -/
def binding : List Token → Argument.Binding × List Token
  | t :: mark :: ts =>
    if t.kind = .ident ∧ mark.kind = .equals then (.property t.text, ts)
    else if t.kind = .ident ∧ mark.kind = .colon then (.constructor t.text, ts)
    else (.positional, t :: mark :: ts)
  | ts => (.positional, ts)

/-- An argument, which may not be empty. -/
def argument? (source : List Char) (ts : List Token) : Option Argument :=
  (value? source (binding ts).2).map fun value => { binding := (binding ts).1, value }

/-- The arguments between parentheses. -/
def arguments? (source : List Char) (body : List Token) : Option (List Argument) :=
  if body.isEmpty then some [] else (splitAtCommas 0 body).mapM (argument? source)

/-! ## Attributes and lists -/

/-- An attribute: a name and optional arguments in parentheses. -/
def read? (source : List Char) (ts : List Token) : Option (Attribute × List Token) :=
  match name? ts with
  | none => none
  | some (name, []) => some ({ name, arguments := [] }, [])
  | some (name, t :: rest) =>
    if t.kind = .lParen then
      match enclosed? 1 rest with
      | none => none
      | some (body, after) =>
        (arguments? source body).map fun arguments => ({ name, arguments }, after)
    else some ({ name, arguments := [] }, t :: rest)

theorem nameTail?_length {ts rest : List Token} {tail : String}
    (h : nameTail? ts = some (tail, rest)) : rest.length ≤ ts.length := by
  fun_induction nameTail? ts generalizing tail rest with
  | case1 => cases h; exact Nat.le_refl _
  | case2 separator part ts _ _ _ ih =>
    obtain ⟨⟨tail', rest'⟩, h', he⟩ := Option.map_eq_some_iff.mp h
    cases he
    have := ih h'
    simp only [List.length_cons]
    omega
  | case3 => cases h
  | case4 => cases h; exact Nat.le_refl _

theorem name?_length {ts rest : List Token} {name : String}
    (h : name? ts = some (name, rest)) : rest.length < ts.length := by
  cases ts with
  | nil => cases h
  | cons t ts =>
    simp only [name?] at h
    split at h
    · obtain ⟨⟨tail, rest'⟩, h', he⟩ := Option.map_eq_some_iff.mp h
      cases he
      have := nameTail?_length h'
      simp only [List.length_cons]
      omega
    · cases h

theorem enclosed?_length {depth : Nat} {ts body rest : List Token}
    (h : enclosed? depth ts = some (body, rest)) : rest.length < ts.length := by
  fun_induction enclosed? depth ts generalizing body rest with
  | case1 => cases h
  | case2 depth t ts _ ih =>
    obtain ⟨⟨body', rest'⟩, h', he⟩ := Option.map_eq_some_iff.mp h
    cases he
    have := ih h'
    simp only [List.length_cons]
    omega
  | case3 => cases h
  | case4 => cases h; simp
  | case5 => cases h
  | case6 depth t ts _ _ _ _ ih =>
    obtain ⟨⟨body', rest'⟩, h', he⟩ := Option.map_eq_some_iff.mp h
    cases he
    have := ih h'
    simp only [List.length_cons]
    omega
  | case7 => cases h
  | case8 depth t ts _ _ _ ih =>
    obtain ⟨⟨body', rest'⟩, h', he⟩ := Option.map_eq_some_iff.mp h
    cases he
    have := ih h'
    simp only [List.length_cons]
    omega

theorem read?_length {source : List Char} {ts rest : List Token} {a : Attribute}
    (h : read? source ts = some (a, rest)) : rest.length < ts.length := by
  unfold read? at h
  split at h
  · cases h
  · rename_i hn
    cases h
    exact name?_length hn
  · rename_i hn
    have := name?_length hn
    simp only [List.length_cons] at this
    split at h
    · split at h
      · cases h
      · rename_i he
        obtain ⟨_, _, heq⟩ := Option.map_eq_some_iff.mp h
        cases heq
        have := enclosed?_length he
        omega
    · cases h
      simpa using this

end Attribute

namespace AttributeList

/-- The target of a list, if an identifier and a colon stand first, and the tokens after it. -/
def splitTarget : List Token → Option String × List Token
  | t :: colon :: ts =>
    if t.kind = .ident ∧ colon.kind = .colon then (some t.text, ts) else (none, t :: colon :: ts)
  | ts => (none, ts)

/-- The attributes of a list, the bracket that closes it, and the tokens after that. -/
def attributes? (source : List Char) (ts : List Token) :
    Option (List Attribute × Token × List Token) :=
  match _h : Attribute.read? source ts with
  | none => none
  | some (_, []) => none
  | some (a, t :: rest) =>
    if t.kind = .rBracket then some ([a], t, rest)
    else if t.kind = .comma then
      match rest with
      | [] => none
      | u :: rest' =>
        if u.kind = .rBracket then some ([a], u, rest')
        else (attributes? source (u :: rest')).map fun (as, last) => (a :: as, last)
    else none
termination_by ts.length
decreasing_by
  have := Attribute.read?_length _h
  simp only [List.length_cons] at this ⊢
  omega

/-- An attribute list whose opening bracket is the first of the tokens, and the tokens after it. -/
def read? (source : List Char) : List Token → Option (AttributeList × List Token)
  | [] => none
  | opening :: ts =>
    (attributes? source (splitTarget ts).2).map fun (attributes, closing, rest) =>
      ({ start := opening.start, stop := closing.stop, target := (splitTarget ts).1
         attributes }, rest)

theorem splitTarget_length (ts : List Token) : (splitTarget ts).2.length ≤ ts.length := by
  unfold splitTarget
  split
  · split
    · simp only [List.length_cons]
      omega
    · exact Nat.le_refl _
  · exact Nat.le_refl _

theorem attributes?_length {source : List Char} {ts rest : List Token} {as : List Attribute}
    {closing : Token} (h : attributes? source ts = some (as, closing, rest)) :
    rest.length < ts.length := by
  fun_induction attributes? source ts generalizing as closing rest with
  | case1 => cases h
  | case2 => cases h
  | case3 ts a t rest' hr _ =>
    cases h
    have := Attribute.read?_length hr
    simp only [List.length_cons] at this
    omega
  | case4 => cases h
  | case5 ts a t _ _ u rest' hr _ =>
    cases h
    have := Attribute.read?_length hr
    simp only [List.length_cons] at this
    omega
  | case6 ts a t _ _ u rest' hr _ _ ih =>
    obtain ⟨⟨as', last⟩, h', he⟩ := Option.map_eq_some_iff.mp h
    cases he
    have := Attribute.read?_length hr
    have := ih h'
    simp only [List.length_cons] at *
    omega
  | case7 => cases h

theorem read?_length {source : List Char} {ts rest : List Token} {l : AttributeList}
    (h : read? source ts = some (l, rest)) : rest.length < ts.length := by
  cases ts with
  | nil => cases h
  | cons t ts =>
    obtain ⟨⟨as, closing, rest'⟩, h', he⟩ := Option.map_eq_some_iff.mp h
    cases he
    have := attributes?_length h'
    have := splitTarget_length ts
    simp only [List.length_cons]
    omega

end AttributeList

end AttributeLint
