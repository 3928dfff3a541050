import AttributeLint.Proofs.Token.LocalPieces
import Mathlib.Data.List.Basic

/-!
# RawLines — raw strings on several lines

A raw string may be written on lines of its own between two lines with its quotes. Each line begins
with the indentation of the closing one, all line breaks are alike, and the quotes that delimit the
string are more than any line has in a row. Such a literal is read as its lines without indentation,
joined by line feeds (`head?_tokenize_rawLines`): its quotes are not found inside it, because the
search for them passes over every line (`RawLines.passesOver_content`), and each line loses what was
put in front of it and behind it, and nothing else (`dedent_line`).
-/

namespace AttributeLint

namespace Text

variable {p : Char → Bool} {u v : List Char}

/-! ## Lines and their ends -/

theorem lines_of_not_mem (hu : '\n' ∉ u) : lines u = [u] :=
  List.splitOn_eq_singleton hu

theorem lines_append_feed (hu : '\n' ∉ u) (v : List Char) : lines (u ++ '\n' :: v) = u :: lines v :=
  List.splitOn_append_cons_self_of_not_mem hu v

theorem stripEnd_append (hv : ∀ c ∈ v, p c) : stripEnd p (u ++ v) = stripEnd p u := by
  rw [stripEnd, List.reverse_append,
    List.dropWhile_append_of_pos fun c hc => hv c (List.mem_reverse.mp hc), stripEnd]

theorem stripEnd_eq_self (hu : ∀ c, u.getLast? = some c → p c = false) : stripEnd p u = u := by
  rw [stripEnd, List.reverse_eq_iff]
  cases hlast : u.reverse with
  | nil => rfl
  | cons c cs =>
    have hc : p c = false := hu c (by rw [← List.head?_reverse, hlast, List.head?_cons])
    rw [List.dropWhile_cons_of_neg (by rw [hc]; exact Bool.false_ne_true)]

end Text

namespace Token

namespace Literal

open Text

/-! ## Raw strings as they are written -/

/-- The characters that break a line. -/
inductive LineBreak where
  /-- A line feed. -/
  | feed
  /-- A carriage return and a line feed. -/
  | returnFeed
  deriving DecidableEq, Repr

namespace LineBreak

/-- What stands before the line feed. -/
def front : LineBreak → List Char
  | feed => []
  | returnFeed => ['\r']

/-- The line break as it is written. -/
def text (b : LineBreak) : List Char :=
  b.front ++ ['\n']

end LineBreak

/-- The text has no part in a line break before it or behind it. -/
def IsLine (u : List Char) : Prop :=
  '\n' ∉ u ∧ u.getLast? ≠ some '\r'

/-- The text may be a line between delimiters of `quotes` quotes. -/
def FitsBetween (quotes : Nat) (u : List Char) : Prop :=
  IsLine u ∧ ¬ List.replicate quotes '"' <:+: u

/-- The text may be the indentation of lines. -/
def IsIndent (u : List Char) : Prop :=
  IsLine u ∧ ∀ c ∈ u, isBlank c

instance (u : List Char) : Decidable (IsLine u) :=
  inferInstanceAs (Decidable (_ ∧ _))

instance (quotes : Nat) (u : List Char) : Decidable (FitsBetween quotes u) :=
  inferInstanceAs (Decidable (_ ∧ _))

instance (u : List Char) : Decidable (IsIndent u) :=
  decidable_of_iff (IsLine u ∧ u.all isBlank) (by rw [IsIndent, List.all_eq_true])

/-- A raw string on several lines, with the way in which it is written. -/
structure RawLines where
  quotes : Nat
  atLeastThree : 3 ≤ quotes
  lineBreak : LineBreak
  indent : List Char
  indent_blank : IsIndent indent
  lines : List (List Char)
  lines_fit : ∀ line ∈ lines, FitsBetween quotes line

namespace RawLines

/-- The quotes at each end. -/
def delimiter (s : RawLines) : List Char :=
  List.replicate s.quotes '"'

/-- A line with the indentation in front of it and the line break behind it. -/
def written (s : RawLines) (line : List Char) : List Char :=
  s.indent ++ line ++ s.lineBreak.text

/-- What stands between the delimiters: a line break, the lines, and the indentation. -/
def content (s : RawLines) : List Char :=
  s.lineBreak.text ++ s.lines.flatMap s.written ++ s.indent

/-- The literal. -/
def text (s : RawLines) : List Char :=
  s.delimiter ++ s.content ++ s.delimiter

/-- What the literal denotes. -/
def value (s : RawLines) : List Char :=
  List.intercalate ['\n'] s.lines

end RawLines

/-! ## Reading the lines -/

theorem eq_return_of_mem_front {b : LineBreak} {c : Char} (h : c ∈ b.front) : c = '\r' := by
  cases b with
  | feed => cases h
  | returnFeed => exact List.mem_singleton.mp h

theorem feed_not_mem_front (b : LineBreak) : '\n' ∉ b.front :=
  fun h => absurd (eq_return_of_mem_front h) (by decide)

theorem quote_not_mem_lineBreak (b : LineBreak) : '"' ∉ b.text := by
  cases b <;> decide

theorem IsLine.stripEnd_append_front {u : List Char} (h : IsLine u) (b : LineBreak) :
    stripEnd (· = '\r') (u ++ b.front) = u := by
  have hfront : ∀ c ∈ b.front, decide (c = '\r') = true :=
    fun c hc => decide_eq_true (eq_return_of_mem_front hc)
  have hlast : ∀ c, u.getLast? = some c → decide (c = '\r') = false := by
    intro c hc
    rw [decide_eq_false_iff_not]
    rintro rfl
    exact h.2 hc
  rw [stripEnd_append hfront, stripEnd_eq_self hlast]

theorem IsLine.append {u v : List Char} (hu : IsLine u) (hv : IsLine v) : IsLine (u ++ v) := by
  refine ⟨fun h => (List.mem_append.mp h).elim hu.1 hv.1, ?_⟩
  rw [List.getLast?_append]
  cases hlast : v.getLast? with
  | none => exact hu.2
  | some c =>
    rw [Option.some_or, ← hlast]
    exact hv.2

/-- A line gives back the indentation in front of it and what belongs to the line break. -/
theorem dedent_line {indent line : List Char} (hindent : IsLine indent) (hline : IsLine line)
    (b : LineBreak) : dedent indent (indent ++ line ++ b.front) = line := by
  have hafter : after? indent (indent ++ line) = some line := after?_eq_some_iff.mpr rfl
  rw [dedent, (hindent.append hline).stripEnd_append_front b]
  simp only [hafter]

/-- Content on several lines, the first and the last of them blank. -/
theorem rawValue?_of_lines {content first last : List Char} {body : List (List Char)}
    (h : lines content = first :: (body ++ [last])) (hfirst : ∀ c ∈ first, isBlank c)
    (hlast : ∀ c ∈ last, isBlank c) :
    rawValue? content =
      some (List.intercalate ['\n'] (body.map (dedent (stripEnd (· = '\r') last)))) := by
  have hblank : first.all isBlank ∧ last.all isBlank :=
    ⟨List.all_eq_true.mpr hfirst, List.all_eq_true.mpr hlast⟩
  cases body with
  | nil => simp [rawValue?, h, hblank]
  | cons line body =>
    have hdrop : (line :: (body ++ [last])).dropLast = line :: body := by
      rw [← List.cons_append, List.dropLast_concat]
    have hend (hne : line :: (body ++ [last]) ≠ []) :
        (line :: (body ++ [last])).getLast hne = last := by
      simp only [← List.cons_append, List.getLast_concat]
    rw [List.cons_append] at h
    simp only [rawValue?, h, hdrop, hend, if_pos hblank]

namespace RawLines

variable (s : RawLines)

theorem lines_flatMap_written {ls : List (List Char)} (h : ∀ line ∈ ls, IsLine line) :
    Text.lines (ls.flatMap s.written ++ s.indent) =
      ls.map (s.indent ++ · ++ s.lineBreak.front) ++ [s.indent] := by
  induction ls with
  | nil => exact lines_of_not_mem s.indent_blank.1.1
  | cons line ls ih =>
    obtain ⟨hline, hls⟩ := List.forall_mem_cons.mp h
    have hfeed : '\n' ∉ s.indent ++ line ++ s.lineBreak.front := by
      intro hmem
      rcases List.mem_append.mp hmem with hmem | hmem
      · exact (s.indent_blank.1.append hline).1 hmem
      · exact feed_not_mem_front _ hmem
    have htext : (line :: ls).flatMap s.written ++ s.indent =
        (s.indent ++ line ++ s.lineBreak.front) ++
          '\n' :: (ls.flatMap s.written ++ s.indent) := by
      simp [written, LineBreak.text]
    rw [htext, lines_append_feed hfeed, ih hls]
    rfl

theorem lines_content : Text.lines s.content =
    s.lineBreak.front :: (s.lines.map (s.indent ++ · ++ s.lineBreak.front) ++ [s.indent]) := by
  have htext : s.content =
      s.lineBreak.front ++ '\n' :: (s.lines.flatMap s.written ++ s.indent) := by
    simp [content, LineBreak.text]
  rw [htext, lines_append_feed (feed_not_mem_front _),
    s.lines_flatMap_written fun line hline => (s.lines_fit line hline).1]

/-- The content stands for its lines without the indentation. -/
theorem rawValue?_content : rawValue? s.content = some s.value := by
  have hfront : ∀ c ∈ s.lineBreak.front, isBlank c = true := by
    intro c hc
    rw [eq_return_of_mem_front hc]
    decide
  have hindent : stripEnd (· = '\r') s.indent = s.indent := by
    have := s.indent_blank.1.stripEnd_append_front .feed
    rwa [LineBreak.front, List.append_nil] at this
  have hlines : (s.lines.map (s.indent ++ · ++ s.lineBreak.front)).map (dedent s.indent) =
      s.lines := by
    rw [List.map_map]
    refine (List.map_congr_left fun line hline => ?_).trans (List.map_id _)
    exact dedent_line s.indent_blank.1 (s.lines_fit line hline).1 s.lineBreak
  rw [rawValue?_of_lines s.lines_content hfront s.indent_blank.2, hindent, hlines, value]

/-! ## Finding the closing quotes -/

theorem delimiter_ne_nil : s.delimiter ≠ [] := by
  intro h
  have hquotes : s.quotes = 0 := by simpa [delimiter] using h
  have := s.atLeastThree
  omega

theorem not_mem_delimiter {c : Char} (hc : c ≠ '"') : c ∉ s.delimiter :=
  fun h => hc (List.eq_of_mem_replicate h)

theorem passesOver_indent : PassesOver s.delimiter s.indent := by
  refine passesOver_of_not_mem s.delimiter_ne_nil fun c hc => s.not_mem_delimiter ?_
  rintro rfl
  exact absurd (s.indent_blank.2 _ hc) (by decide)

theorem passesOver_lineBreak : PassesOver s.delimiter s.lineBreak.text := by
  refine passesOver_of_not_mem s.delimiter_ne_nil fun c hc => s.not_mem_delimiter ?_
  rintro rfl
  exact quote_not_mem_lineBreak _ hc

/-- A line has too few quotes in a row, and the line break behind it has none. -/
theorem passesOver_written {line : List Char} (h : FitsBetween s.quotes line) :
    PassesOver s.delimiter (s.written line) := by
  have hline (z : Char) (hz : z ≠ '"') : PassesOver s.delimiter (line ++ [z]) :=
    passesOver_append_singleton h.2 (s.not_mem_delimiter hz)
  have hfeed : PassesOver s.delimiter ['\n'] :=
    passesOver_of_not_mem s.delimiter_ne_nil (by simp [delimiter])
  have hbroken : PassesOver s.delimiter (line ++ s.lineBreak.text) := by
    cases s.lineBreak with
    | feed => exact hline '\n' (by decide)
    | returnFeed =>
      have := (hline '\r' (by decide)).append hfeed
      rwa [List.append_assoc] at this
  rw [written, List.append_assoc]
  exact s.passesOver_indent.append hbroken

theorem passesOver_content : PassesOver s.delimiter s.content :=
  (s.passesOver_lineBreak.append
    (passesOver_flatMap fun line hline => s.passesOver_written (s.lines_fit line hline))).append
    s.passesOver_indent

/-- The opening quotes end at the line break behind them. -/
theorem quotes_content (rest : List Char) :
    (s.delimiter ++ (s.content ++ rest)).takeWhile isQuote = s.delimiter ∧
      (s.delimiter ++ (s.content ++ rest)).dropWhile isQuote = s.content ++ rest := by
  have hbreak : s.lineBreak.text ≠ [] := by simp [LineBreak.text]
  refine takeWhile_append_of_head? (fun c hc => ?_) fun c hc => decide_eq_false ?_
  · rw [List.eq_of_mem_replicate hc]
    rfl
  · rintro rfl
    rw [content, List.append_assoc, List.append_assoc,
      List.head?_append_of_ne_nil _ hbreak] at hc
    exact quote_not_mem_lineBreak _ (List.mem_of_head? hc)

theorem raw_text {rest : List Char} (h : rest.head? ≠ some '"') :
    raw (s.text ++ rest) = (some s.value, rest) := by
  have hopen := s.quotes_content (s.delimiter ++ rest)
  have hrest : ∀ c, rest.head? = some c → isQuote c = false := by
    intro c hc
    refine decide_eq_false ?_
    rintro rfl
    exact h hc
  have hclose : rest.dropWhile isQuote = rest :=
    (takeWhile_append_of_head? (List.forall_mem_nil _) hrest).2
  have htext : s.text ++ rest = s.delimiter ++ (s.content ++ (s.delimiter ++ rest)) := by
    simp [text]
  rw [raw, htext, hopen.1, hopen.2, s.passesOver_content.cutAt_append]
  simp only [s.rawValue?_content, hclose]

/-- The literal begins with the quotes of a raw string. -/
theorem exists_text_eq : ∃ inside, s.text = '"' :: '"' :: '"' :: inside := by
  obtain ⟨n, hn⟩ := Nat.exists_eq_add_of_le' s.atLeastThree
  refine ⟨List.replicate n '"' ++ s.content ++ s.delimiter, ?_⟩
  have hquotes : s.delimiter = '"' :: '"' :: '"' :: List.replicate n '"' := by
    rw [delimiter, hn]
    rfl
  exact congrArg (· ++ s.content ++ s.delimiter) hquotes

/-- The literal is one piece that carries what its lines say. -/
theorem pieces_text (lineStart : Bool) {rest : List Char} (h : rest.head? ≠ some '"') :
    pieces lineStart (s.text ++ rest) =
      { role := .token (.str (String.ofList s.value)), text := s.text } :: pieces false rest := by
  have hraw := s.raw_text h
  obtain ⟨inside, hinside⟩ := s.exists_text_eq
  have hquotes : after? ['"', '"'] ('"' :: '"' :: inside ++ rest) = some (inside ++ rest) := rfl
  rw [hinside, List.cons_append] at hraw ⊢
  rw [pieces_eq_scan lineStart _ (by decide) (by decide) (by decide), scan_raw hquotes, hraw,
    constant, Cutting.upTo, ← List.cons_append, upTo_append_self]
  rfl

end RawLines

/-- A raw string on several lines, in front of any text that does not begin with a quote, is the
first token. It spans the literal, and its value is the lines joined by line feeds. -/
theorem head?_tokenize_rawLines (s : RawLines) (rest : List Char) (h : rest.head? ≠ some '"') :
    (tokenize (String.ofList (s.text ++ rest))).head? =
      some { kind := .str (String.ofList (List.intercalate ['\n'] s.lines)),
             text := String.ofList s.text, start := 0 } := by
  rw [tokenize, String.toList_ofList, s.pieces_text true h, place_token]
  rfl

/-- Four quotes around a line with three of them, an empty line and a blank one, all indented by a
tab and a space that does not break. -/
theorem head?_tokenize_rawLines_four :
    (tokenize ("\"\"\"\"\r\n\t\u00a0\"\"\"a\r\n\t\u00a0\r\n\t\u00a0  \r\n" ++
        "\t\u00a0\"\"\"\";")).head? =
      some { kind := .str "\"\"\"a\n\n  ",
             text := "\"\"\"\"\r\n\t\u00a0\"\"\"a\r\n\t\u00a0\r\n\t\u00a0  \r\n" ++
               "\t\u00a0\"\"\"\"",
             start := 0 } :=
  head?_tokenize_rawLines
    { quotes := 4
      atLeastThree := by decide
      lineBreak := .returnFeed
      indent := ['\t', '\u00a0']
      indent_blank := by decide
      lines := [['"', '"', '"', 'a'], [], [' ', ' ']]
      lines_fit := by decide }
    [';'] (by decide)

end Literal

end Token

end AttributeLint
