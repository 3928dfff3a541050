import AttributeLint.Attribute.Grammar
import AttributeLint.Token.Lexer

/-!
# Usage — finding the attributes of a source

A bracket opens an attribute list only where a declaration may begin, or where a parameter, an enum
member or a type parameter may begin and an identifier follows the lists. Lists that follow one
another belong to one declaration, and every attribute of them is attached at the offset of the
first list. Lists for the whole assembly or module annotate nothing, and neither do lists at the
end of the source.
-/

namespace AttributeLint

/-- What may begin at a place in a source. -/
inductive Boundary where
  /-- A declaration or a statement. -/
  | declaration
  /-- A parameter, an enum member or a type parameter. -/
  | member
  /-- Neither. -/
  | inside
  deriving DecidableEq, Repr

/-- What may begin after a token. -/
def Boundary.after (t : Token) : Boundary :=
  match t.kind with
  | .semicolon | .lBrace | .rBrace => .declaration
  | .lParen | .comma => .member
  | .other => if t.text = "<" then .member else .inside
  | _ => .inside

namespace AttributeList

/-- Attribute lists that follow one another, if an identifier follows them, and the tokens from
that identifier on. -/
def readRun? (source : List Char) : List Token → Option (List AttributeList × List Token)
  | [] => none
  | t :: ts =>
    if t.kind = .lBracket then
      match _h : read? source (t :: ts) with
      | none => none
      | some (l, rest) => (readRun? source rest).map fun (ls, after) => (l :: ls, after)
    else if t.kind = .ident then some ([], t :: ts)
    else none
termination_by ts => ts.length
decreasing_by exact read?_length _h

/-- The usages of lists attached to one declaration. -/
def usages : List AttributeList → List Usage
  | [] => []
  | first :: rest =>
    (first :: rest).flatMap fun l => l.attributes.map fun a =>
      { name := a.name, targetStart := first.start, arguments := a.arguments }

theorem readRun?_length {source : List Char} {ts rest : List Token} {ls : List AttributeList}
    (h : readRun? source ts = some (ls, rest)) : rest.length ≤ ts.length := by
  fun_induction readRun? source ts generalizing ls rest with
  | case1 => cases h
  | case2 => cases h
  | case3 t ts _ l rest' hr ih =>
    obtain ⟨⟨ls', after⟩, h', he⟩ := Option.map_eq_some_iff.mp h
    cases he
    have := ih h'
    have := read?_length hr
    omega
  | case4 => cases h; exact Nat.le_refl _
  | case5 => cases h

/-- The next token is an opening bracket. -/
def startsHere : List Token → Bool
  | t :: _ => t.kind = .lBracket
  | [] => false

/-- The lists that stand at a boundary, and the tokens after them: one list where a declaration may
begin, a run of lists where a member may begin. -/
def readAt? (source : List Char) (boundary : Boundary) (ts : List Token) :
    Option (List AttributeList × List Token) :=
  if startsHere ts then
    match boundary with
    | .declaration => (read? source ts).map fun (l, rest) => ([l], rest)
    | .member => readRun? source ts
    | .inside => none
  else none

theorem readAt?_length {source : List Char} {boundary : Boundary} {ts rest : List Token}
    {ls : List AttributeList} (h : readAt? source boundary ts = some (ls, rest)) :
    rest.length < ts.length := by
  unfold readAt? at h
  split at h
  · rename_i hs
    cases boundary with
    | declaration =>
      obtain ⟨⟨l, rest'⟩, h', he⟩ := Option.map_eq_some_iff.mp h
      cases he
      exact read?_length h'
    | member =>
      cases ts with
      | nil => cases hs
      | cons t ts =>
        simp only [startsHere, decide_eq_true_eq] at hs
        simp only [readRun?, hs, if_true] at h
        split at h
        · cases h
        · rename_i hr
          obtain ⟨⟨ls', after⟩, h', he⟩ := Option.map_eq_some_iff.mp h
          cases he
          exact Nat.lt_of_le_of_lt (readRun?_length h') (read?_length hr)
    | inside => cases h
  · cases h

end AttributeList

namespace Usage

/-- The usages in the tokens that are left, where `boundary` tells what may begin here and
`pending` holds the lists that wait for their declaration. -/
def collectFrom (source : List Char) (boundary : Boundary) (pending : List AttributeList) :
    List Token → List Usage
  | [] => []
  | t :: ts =>
    match _h : AttributeList.readAt? source boundary (t :: ts) with
    | some (lists, rest) =>
      collectFrom source boundary (pending ++ lists.filter (!·.isGlobal)) rest
    | none => AttributeList.usages pending ++ collectFrom source (.after t) [] ts
termination_by ts => ts.length
decreasing_by
  · exact AttributeList.readAt?_length _h
  · simp

/-- The usages in a stream of tokens of the given source. -/
def collect (source : String) (ts : List Token) : List Usage :=
  collectFrom source.toList .declaration [] ts

/-- The usages in a source. -/
def ofSource (source : String) : List Usage :=
  collect source (Token.tokenize source)

end Usage

end AttributeLint
