import AttributeLint.Proofs.Loop
import AttributeLint.Proofs.Text.Access
import AttributeLint.Usage

/-!
# Indexed — finding attributes by token indices

The same readers as machines that keep an index into a stream of tokens. A token is looked up
either with a check of its own, where its absence only means that nothing is read, or without one,
where its absence is a fault; stretches of tokens and of the source are always taken without one. A
machine gives nothing at a fault, and nothing if its loop does not come to an end; otherwise it
gives what it read, if it accepts.
-/

namespace AttributeLint.Indexed

open Text Attribute

noncomputable section

variable (source : List Char) (tokens : List Token)

/-! ## Stretches of tokens -/

/-- The tokens from an index on, unless it is past the end. -/
def from? (start : Nat) : Option (List Token) :=
  if start ≤ tokens.length then some (tokens.drop start) else none

/-- The tokens between two indices, unless they are in the wrong order or past the end. -/
def between? (start stop : Nat) : Option (List Token) :=
  if start ≤ stop ∧ stop ≤ tokens.length then some ((tokens.drop start).take (stop - start))
  else none

/-! ## Names -/

/-- One separator of a qualified name and the part after it, behind the name read so far. -/
def namePass? : String × Nat → Option (Pass (String × Nat) (Option (String × Nat)))
  | (name, index) =>
    match tokens[index]?, tokens[index + 1]? with
    | some separator, some part =>
      match separator.kind.separator? with
      | none => some (.done (some (name, index)))
      | some mark =>
        if part.kind = .ident then some (.again (name ++ mark ++ part.text, index + 2))
        else some (.done none)
    | _, _ => some (.done (some (name, index)))

/-- A qualified name at an index, and the index after it. -/
def name? (start : Nat) : Option (Option (String × Nat)) :=
  match tokens[start]? with
  | none => some none
  | some first =>
    if first.kind = .ident then Pass.loop? (namePass? tokens) (first.text, start + 1)
    else some none

/-! ## Arguments -/

/-- How far on the parenthesis stands that closes the innermost of `depth` open brackets. -/
def closingOffset? (depth offset : Nat) : List Token → Option Nat
  | [] => none
  | t :: ts =>
    if t.kind.opens then closingOffset? (depth + 1) (offset + 1) ts
    else if t.kind.closes then
      if depth = 0 then none
      else if depth = 1 then if t.kind = .rParen then some offset else none
      else closingOffset? (depth - 1) (offset + 1) ts
    else if t.kind = .semicolon then none
    else closingOffset? depth (offset + 1) ts

/-- The index of the parenthesis that closes the one at an index. -/
def closing? (opening : Nat) : Option (Option Nat) := do
  let rest ← from? tokens opening
  return (closingOffset? 0 0 rest).map (opening + ·)

/-- An argument. A value of several tokens that is not constant is the source from the first of
them to the last. -/
def argument? (ts : List Token) : Option (Option Argument) := do
  let (binding, valueTokens) := Attribute.binding ts
  match constant? valueTokens, valueTokens with
  | _, [] => return none
  | some text, _ => return some { binding, value := .string text }
  | none, [single] => return some { binding, value := .other single.text }
  | none, first :: second :: rest =>
    let last := (second :: rest).getLast (List.cons_ne_nil second rest)
    let text ← slice? source first.start last.stop
    return some { binding, value := .other (String.ofList text) }

/-- The arguments of a body, where those before the index `current` are read, and the tokens from
`index` on are still to be searched for commas. -/
def argumentsFrom? (body : List Token) (depth current index : Nat) (found : List Argument) :
    List Token → Option (Option (List Argument))
  | [] => do
    match ← argument? source (← from? body current) with
    | none => return none
    | some argument => return some (found ++ [argument])
  | t :: ts => do
    if t.kind = .comma ∧ depth = 0 then
      match ← argument? source (← between? body current index) with
      | none => return none
      | some argument =>
        argumentsFrom? body depth (index + 1) (index + 1) (found ++ [argument]) ts
    else argumentsFrom? body (depthAfter depth t) current (index + 1) found ts

/-- The arguments of a body. -/
def arguments? (body : List Token) : Option (Option (List Argument)) :=
  if body.isEmpty then some (some []) else argumentsFrom? source body 0 0 0 [] body

/-! ## Attributes and lists -/

/-- An attribute at an index, and the index after it. -/
def attribute? (start : Nat) : Option (Option (Attribute × Nat)) := do
  match ← name? tokens start with
  | none => return none
  | some (name, index) =>
    if tokens[index]?.map Token.kind = some .lParen then
      match ← closing? tokens index with
      | none => return none
      | some close =>
        match ← arguments? source (← between? tokens (index + 1) close) with
        | none => return none
        | some arguments => return some ({ name, arguments }, close + 1)
    else return some ({ name, arguments := [] }, index)

/-- One attribute of a list, behind those read before, and what follows it. The loop stops with the
index of the bracket that closes the list. -/
def attributePass? :
    Nat × List Attribute → Option (Pass (Nat × List Attribute) (Option (List Attribute × Nat)))
  | (index, found) => do
    match ← attribute? source tokens index with
    | none => return .done none
    | some (a, next) =>
      match tokens[next]? with
      | none => return .done none
      | some t =>
        if t.kind = .rBracket then return .done (some (found ++ [a], next))
        else if t.kind = .comma then
          match tokens[next + 1]? with
          | none => return .done none
          | some u =>
            if u.kind = .rBracket then return .done (some (found ++ [a], next + 1))
            else return .again (next + 1, found ++ [a])
        else return .done none

/-- The target of a list at an index, and the index at which its attributes begin. -/
def target (index : Nat) : Option String × Nat :=
  match tokens[index]?, tokens[index + 1]? with
  | some name, some colon =>
    if name.kind = .ident ∧ colon.kind = .colon then (some name.text, index + 2) else (none, index)
  | _, _ => (none, index)

/-- An attribute list whose opening bracket is at an index, and the index after the list. -/
def list? (opening : Nat) : Option (Option (AttributeList × Nat)) := do
  match tokens[opening]? with
  | none => return none
  | some first =>
    match ← Pass.loop? (attributePass? source tokens) ((target tokens (opening + 1)).2, []) with
    | none => return none
    | some (attributes, last) =>
      match tokens[last]? with
      | none => return none
      | some close =>
        return some ({ start := first.start, stop := close.stop
                       target := (target tokens (opening + 1)).1, attributes }, last + 1)

/-- One list of a run of lists, behind those read before. The loop stops at the identifier that
follows the run. -/
def listPass? : Nat × List AttributeList →
    Option (Pass (Nat × List AttributeList) (Option (List AttributeList × Nat)))
  | (index, found) => do
    match tokens[index]? with
    | none => return .done none
    | some t =>
      if t.kind = .lBracket then
        match ← list? source tokens index with
        | none => return .done none
        | some (list, next) => return .again (next, found ++ [list])
      else if t.kind = .ident then return .done (some (found, index))
      else return .done none

/-! ## Usages -/

/-- The lists that are accepted at an index, where the token `t` stands. -/
def lists? (boundary : Boundary) (t : Token) (index : Nat) :
    Option (Option (List AttributeList × Nat)) := do
  if t.kind = .lBracket then
    match boundary with
    | .declaration =>
      match ← list? source tokens index with
      | none => return none
      | some (list, next) => return some ([list], next)
    | .member => Pass.loop? (listPass? source tokens) (index, [])
    | .inside => return none
  else return none

/-- The loop over a stream of tokens knows what may begin where it is, the lists that wait for
their declaration, the usages that it has found, and its index. -/
abbrev Collecting :=
  Boundary × List AttributeList × List Usage × Nat

def usagePass? : Collecting → Option (Pass Collecting (List Usage))
  | (boundary, pending, found, index) => do
    if index < tokens.length then
      let t ← tokens[index]?
      match ← lists? source tokens boundary t index with
      | some (lists, next) =>
        return .again (boundary, pending ++ lists.filter (!·.isGlobal), found, next)
      | none => return .again (.after t, [], found ++ AttributeList.usages pending, index + 1)
    else return .done found

/-- The usages in a stream of tokens. -/
def usages? : Option (List Usage) :=
  Pass.loop? (usagePass? source tokens) (.declaration, [], [], 0)

end

end AttributeLint.Indexed
