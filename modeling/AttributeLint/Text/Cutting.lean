import AttributeLint.Text.Cut

/-!
# Cutting — the first stretch of a text and what follows it

A cutting takes a stretch off the front of a text that is not empty, and says what the stretch is.
Whichever way it is made, the stretch and the text left make up the text, and the stretch has at
least one character (`Cutting.Divides`).
-/

namespace AttributeLint.Text

/-- What a stretch of text is, the stretch, and the text left. -/
structure Cutting (α : Type) where
  value : α
  text : List Char
  rest : List Char
  deriving DecidableEq, Repr

namespace Cutting

/-- The first character alone. -/
def single {α : Type} (value : α) (c : Char) (cs : List Char) : Cutting α :=
  { value, text := [c], rest := cs }

/-- The first two characters. -/
def pair {α : Type} (value : α) (c : Char) : List Char → Cutting α
  | [] => { value, text := [c], rest := [] }
  | d :: cs => { value, text := [c, d], rest := cs }

/-- The first character and those after it that satisfy `p`. -/
def run {α : Type} (value : α) (p : Char → Bool) (c : Char) (cs : List Char) : Cutting α :=
  { value, text := c :: cs.takeWhile p, rest := cs.dropWhile p }

/-- Everything before `rest`. -/
def upTo {α : Type} (value : α) (rest : List Char) (c : Char) (cs : List Char) : Cutting α :=
  { value, text := Text.upTo rest (c :: cs), rest }

/-- A cutting of the text `c :: cs` divides it and takes at least the first character. -/
structure Divides {α : Type} (k : Cutting α) (c : Char) (cs : List Char) : Prop where
  append : k.text ++ k.rest = c :: cs
  suffix : k.rest <:+ cs

theorem divides_single {α : Type} (value : α) (c : Char) (cs : List Char) :
    (single value c cs).Divides c cs :=
  ⟨rfl, List.suffix_rfl⟩

theorem divides_pair {α : Type} (value : α) (c : Char) (cs : List Char) :
    (pair value c cs).Divides c cs := by
  cases cs with
  | nil => exact ⟨rfl, List.suffix_rfl⟩
  | cons d cs => exact ⟨rfl, List.suffix_cons d cs⟩

theorem divides_run {α : Type} (value : α) (p : Char → Bool) (c : Char) (cs : List Char) :
    (run value p c cs).Divides c cs :=
  ⟨by simp [run], List.dropWhile_suffix p⟩

theorem divides_upTo {α : Type} (value : α) {rest : List Char} (c : Char) {cs : List Char}
    (h : rest <:+ cs) : (upTo value rest c cs).Divides c cs :=
  ⟨upTo_append (h.trans (List.suffix_cons c cs)), h⟩

end Cutting

end AttributeLint.Text
