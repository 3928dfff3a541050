import AttributeLint.Text.Offset

/-!
# LineColumn — where an offset lies

The line and the column of a byte offset, both counted from one. Columns count characters. An
offset past the end is taken for the end, and an offset inside a character has as its column the
number of bytes since the start of its line.
-/

namespace AttributeLint.Text

/-- A line and a column, both counted from one. -/
structure LineColumn where
  line : Nat
  column : Nat
  deriving DecidableEq, Repr

namespace LineColumn

/-- The place `offset` bytes into the text that is left, where `line` lines, and on the present
line `chars` characters of `bytes` bytes, stand before it. -/
def walk (line chars bytes : Nat) : List Char → Nat → LineColumn
  | [], _ => ⟨line + 1, chars + 1⟩
  | c :: cs, offset =>
    if offset = 0 then ⟨line + 1, chars + 1⟩
    else if offset < c.utf8Size then ⟨line + 1, bytes + offset + 1⟩
    else if c = '\n' then walk (line + 1) 0 0 cs (offset - c.utf8Size)
    else walk line (chars + 1) (bytes + c.utf8Size) cs (offset - c.utf8Size)

/-- The place of a byte offset in a text. -/
def ofOffset (cs : List Char) (offset : Nat) : LineColumn :=
  walk 0 0 0 cs offset

end LineColumn

/-- The number of lines of a text: one more than its line feeds. -/
def lineCount (cs : List Char) : Nat :=
  cs.count '\n' + 1

end AttributeLint.Text
