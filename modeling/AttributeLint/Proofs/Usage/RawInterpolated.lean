import AttributeLint.Proofs.Token.Interpolated
import AttributeLint.Proofs.Token.Unclosed
import AttributeLint.Proofs.Usage.Relocation

/-!
# RawInterpolated — raw strings with holes are read as code

Marks and a quote begin an interpolated string, which the next quote ends. A raw string with holes
has three quotes at least behind its marks, so its token ends with the second one and its content is
outside of it: behind three quotes all lines but the first are code, and behind four quotes the
whole content is (`tokenize_rawInterpolated`). Attributes that stand there are found like any
others.
-/

namespace AttributeLint.Usage

open Text Token

/-- A raw string with holes: dollar signs, quotes, the content, and as many quotes. -/
def rawInterpolated (dollars quotes : Nat) (content : List Char) : List Char :=
  List.replicate dollars '$' ++
    (List.replicate quotes '"' ++ (content ++ List.replicate quotes '"'))

variable {dollars quotes : Nat} {content line more rest : List Char}

/-! ## The first token -/

/-- The literal that the marks and the first two quotes are taken for. -/
def emptyInterpolated (dollars : Nat) : Token :=
  { kind := .literal, text := String.ofList (List.replicate dollars '$' ++ ['"', '"']), start := 0 }

theorem width_replicate {c : Char} (hc : c.utf8Size = 1) (n : Nat) :
    width (List.replicate n c) = n := by
  induction n with
  | zero => rfl
  | succ n ih => rw [List.replicate_succ, width_cons, hc, ih, Nat.add_comm]

theorem pieces_dollars (hdollars : 1 ≤ dollars) (lineStart : Bool) (left : List Char) :
    pieces lineStart (List.replicate dollars '$' ++ '"' :: '"' :: left) =
      { role := .token .literal, text := List.replicate dollars '$' ++ ['"', '"'] } ::
        pieces false left := by
  have hmarks : ∀ c ∈ List.replicate dollars '$', Literal.isMark c := by
    intro c hc
    rw [List.eq_of_mem_replicate hc]
    rfl
  have hne : List.replicate dollars '$' ≠ [] := by
    rw [ne_eq, List.replicate_eq_nil_iff]
    omega
  have hverbatim : '@' ∉ List.replicate dollars '$' := by
    intro hmem
    exact absurd (List.eq_of_mem_replicate hmem) (by decide)
  have hat : List.replicate dollars '$' ≠ ['@'] := by
    intro hmarks
    exact hverbatim (hmarks ▸ List.mem_cons_self)
  have hread : Literal.holes (List.replicate dollars '$') 0 (['"'] ++ left) = left := by
    rw [Literal.holes, List.contains_eq_mem, decide_eq_false hverbatim, if_neg Bool.false_ne_true]
    simp [Literal.escapedHoles]
  exact Literal.pieces_marks hmarks hne hat lineStart hread

theorem tokenize_dollars (hdollars : 1 ≤ dollars) (left : List Char) :
    tokenize (String.ofList (List.replicate dollars '$' ++ '"' :: '"' :: left)) =
      emptyInterpolated dollars :: place (dollars + 2) (pieces false left) := by
  have hwidth : width (List.replicate dollars '$' ++ ['"', '"']) = dollars + 2 := by
    rw [width_append, width_replicate rfl]
    rfl
  rw [tokenize, String.toList_ofList, pieces_dollars hdollars, place_token, hwidth, Nat.zero_add]
  rfl

theorem stop_emptyInterpolated_lt (hquotes : 3 ≤ quotes) (content : List Char) :
    (emptyInterpolated dollars).stop < width (rawInterpolated dollars quotes content) := by
  simp only [Token.stop, emptyInterpolated, rawInterpolated, String.toList_ofList, width_append,
    width_replicate (c := '$') rfl, width_replicate (c := '"') rfl]
  show 0 + (dollars + 2) < _
  omega

/-- The literal ends with the second quote, and the other quotes and the content are behind it. -/
theorem tokenize_rawInterpolated_append (hdollars : 1 ≤ dollars) (hquotes : 3 ≤ quotes)
    (content rest : List Char) :
    tokenize (String.ofList (rawInterpolated dollars quotes content ++ rest)) =
      emptyInterpolated dollars :: place (dollars + 2) (pieces false
        (List.replicate (quotes - 2) '"' ++ (content ++ (List.replicate quotes '"' ++ rest)))) := by
  obtain ⟨q, rfl⟩ : ∃ q, quotes = q + 2 := ⟨quotes - 2, by omega⟩
  rw [← tokenize_dollars hdollars]
  simp [rawInterpolated, List.replicate_succ]

/-! ## Four quotes -/

/-- Two of four quotes are an empty string of their own, and the content is behind it. -/
theorem tokenize_rawInterpolated_four (hdollars : 1 ≤ dollars) (hcontent : content ≠ [])
    (hfirst : content.head? ≠ some '"') (rest : List Char) :
    tokenize (String.ofList (rawInterpolated dollars 4 content ++ rest)) =
      emptyInterpolated dollars :: { kind := .str "", text := "\"\"", start := dollars + 2 } ::
        place (dollars + 4) (pieces false (content ++ (List.replicate 4 '"' ++ rest))) := by
  have hhead : (content ++ (List.replicate 4 '"' ++ rest)).head? ≠ some '"' := by
    rwa [List.head?_append_of_ne_nil _ hcontent]
  have hread : Literal.regular ([] ++ '"' :: (content ++ (List.replicate 4 '"' ++ rest))) =
      (some [], content ++ (List.replicate 4 '"' ++ rest)) := by
    simp [Literal.regular]
  have hempty := pieces_regular false hread (by simp) fun _ => hhead
  rw [tokenize_rawInterpolated_append hdollars (by decide)]
  exact congrArg (fun ps => emptyInterpolated dollars :: place (dollars + 2) ps) hempty

/-! ## Three quotes -/

/-- The first line of the content is taken for a string that is not closed, and the lines behind it
are read as a source of their own. -/
theorem tokenize_rawInterpolated_three (hdollars : 1 ≤ dollars) (hquote : '"' ∉ line)
    (hfeed : '\n' ∉ line) (hends : ¬ EndsEscaping line) (more rest : List Char) :
    tokenize (String.ofList (rawInterpolated dollars 3 (line ++ '\n' :: more) ++ rest)) =
      emptyInterpolated dollars ::
        { kind := .literal, text := String.ofList ('"' :: line), start := dollars + 2 } ::
          (tokenize (String.ofList (more ++ (List.replicate 3 '"' ++ rest)))).map
            (shift (dollars + width line + 4)) := by
  have hpieces := (pieces_append_feed_unclosed (.inl rfl) hquote hfeed false
    (more ++ (List.replicate 3 '"' ++ rest))).1 hends
  have hshift := place_add 0 (dollars + width line + 4)
    (pieces true (more ++ (List.replicate 3 '"' ++ rest)))
  have hstop : dollars + 2 + width ('"' :: line) + width ['\n'] = dollars + width line + 4 := by
    show dollars + 2 + (1 + width line) + 1 = dollars + width line + 4
    omega
  rw [tokenize_rawInterpolated_append hdollars (by decide), List.append_assoc, List.cons_append]
  show _ :: place (dollars + 2) (pieces false ('"' :: (line ++ '\n' :: _))) = _
  rw [hpieces, place_token, place_trivia, hstop, tokenize, String.toList_ofList, ← hshift,
    Nat.zero_add]

/-- The usages in the lines behind the first one are those of a source of these lines, except that
no list may stand at its very start. -/
theorem ofSource_rawInterpolated_three (hdollars : 1 ≤ dollars) (hquote : '"' ∉ line)
    (hfeed : '\n' ∉ line) (hends : ¬ EndsEscaping line) (more rest : List Char) :
    ofSource (String.ofList (rawInterpolated dollars 3 (line ++ '\n' :: more) ++ rest)) =
      (collectFrom (more ++ (List.replicate 3 '"' ++ rest)) .inside []
        (tokenize (String.ofList (more ++ (List.replicate 3 '"' ++ rest))))).map
          fun u => { u with targetStart := u.targetStart + (dollars + width line + 4) } := by
  generalize hbehind : more ++ (List.replicate 3 '"' ++ rest) = behind
  have hsource : rawInterpolated dollars 3 (line ++ '\n' :: more) ++ rest =
      (List.replicate dollars '$' ++ (['"', '"', '"'] ++ (line ++ ['\n']))) ++ behind := by
    simp [rawInterpolated, List.replicate_succ, ← hbehind]
  have hwidth : width (List.replicate dollars '$' ++ (['"', '"', '"'] ++ (line ++ ['\n']))) =
      dollars + width line + 4 := by
    rw [width_append, width_append, width_append, width_replicate rfl]
    show dollars + (3 + (width line + 1)) = dollars + width line + 4
    omega
  have htokens := tokenize_rawInterpolated_three hdollars hquote hfeed hends more rest
  rw [hbehind] at htokens
  have hliteral (t : Token) (ht : t.kind = .literal) (boundary : Boundary) (source : List Char)
      (ts : List Token) : collectFrom source boundary [] (t :: ts) =
        collectFrom source .inside [] ts := by
    rw [collectFrom_cons, AttributeList.readAt?_of_ne _ _ (by simp [ht])]
    simp [AttributeList.usages, Boundary.after, ht]
  rw [ofSource, collect, htokens, hliteral _ rfl, hliteral _ rfl, String.toList_ofList, hsource]
  rw [← hwidth]
  have hmap := (Relocation.behind
    (List.replicate dollars '$' ++ (['"', '"', '"'] ++ (line ++ ['\n']))) behind).collectFrom_map
      .inside .nil (tokenize (String.ofList behind))
  rw [funext (Relocation.mapUsage_behind _ behind)] at hmap
  exact hmap

/-! ## All of it -/

/-- A raw string with holes is never one token. It is a literal that ends with its second quote, and
what is behind that is read as code: with four quotes an empty string and then the content, with
three quotes a string that is not closed and then the lines behind the first one, whose usages are
found. -/
theorem tokenize_rawInterpolated (hdollars : 1 ≤ dollars) (hquotes : 3 ≤ quotes)
    (hcontent : content ≠ []) (hfirst : content.head? ≠ some '"') (rest : List Char) :
    let source := String.ofList (rawInterpolated dollars quotes content ++ rest)
    (emptyInterpolated dollars).stop < width (rawInterpolated dollars quotes content) ∧
      tokenize source =
        emptyInterpolated dollars :: place (dollars + 2) (pieces false
          (List.replicate (quotes - 2) '"' ++ (content ++ (List.replicate quotes '"' ++ rest)))) ∧
      (quotes = 4 → tokenize source =
        emptyInterpolated dollars :: { kind := .str "", text := "\"\"", start := dollars + 2 } ::
          place (dollars + 4) (pieces false (content ++ (List.replicate 4 '"' ++ rest)))) ∧
      ∀ line more, quotes = 3 → content = line ++ '\n' :: more → '"' ∉ line → '\n' ∉ line →
        ¬ EndsEscaping line →
          let behind := more ++ (List.replicate 3 '"' ++ rest)
          let further := dollars + width line + 4
          tokenize source =
            emptyInterpolated dollars ::
              { kind := .literal, text := String.ofList ('"' :: line), start := dollars + 2 } ::
                (tokenize (String.ofList behind)).map (shift further) ∧
          ofSource source =
            (collectFrom behind .inside [] (tokenize (String.ofList behind))).map
              fun u => { u with targetStart := u.targetStart + further } := by
  intro source
  refine ⟨stop_emptyInterpolated_lt hquotes content,
    tokenize_rawInterpolated_append hdollars hquotes content rest, ?_, ?_⟩
  · rintro rfl
    exact tokenize_rawInterpolated_four hdollars hcontent hfirst rest
  · rintro line more rfl rfl hquote hfeed hends
    exact ⟨tokenize_rawInterpolated_three hdollars hquote hfeed hends more rest,
      ofSource_rawInterpolated_three hdollars hquote hfeed hends more rest⟩

/-- A content of three lines between three quotes each. -/
def listedContent : List Char :=
  "\n;[Error(\"a?\")] class C;\n".toList

/-- The second line of a content is read by itself. -/
theorem tokenize_rawInterpolated_listed :
    1 ≤ 2 ∧ 3 ≤ 3 ∧ listedContent ≠ [] ∧ listedContent.head? ≠ some '"' ∧
      tokenize (String.ofList (rawInterpolated 2 3 listedContent)) =
        [emptyInterpolated 2, { kind := .literal, text := "\"", start := 4 }] ++
          (tokenize ";[Error(\"a?\")] class C;\n\"\"\"").map (shift 6) := by
  have hcontent : listedContent ≠ [] := by decide
  have hfirst : listedContent.head? ≠ some '"' := by decide
  have hdollars : 1 ≤ 2 := by decide
  have hquotes : 3 ≤ 3 := by decide
  have hall := tokenize_rawInterpolated hdollars hquotes hcontent hfirst []
  have hlines := (hall.2.2.2 [] ";[Error(\"a?\")] class C;\n".toList rfl (by decide) (by decide)
    (by decide) (by decide)).1
  rw [List.append_nil] at hlines
  exact ⟨hdollars, hquotes, hcontent, hfirst, hlines⟩

/-- An attribute in the content of a raw string with holes is found as one of the code. -/
theorem ofSource_rawInterpolated_listed :
    String.ofList (rawInterpolated 1 3 listedContent) =
        "$\"\"\"\n;[Error(\"a?\")] class C;\n\"\"\"" ∧
      (tokenize "$\"\"\"\n;[Error(\"a?\")] class C;\n\"\"\"").head? =
        some { kind := .literal, text := "$\"\"", start := 0 } ∧
      ofSource "$\"\"\"\n;[Error(\"a?\")] class C;\n\"\"\"" =
        [{ name := "Error"
           targetStart := 6
           arguments := [{ binding := .positional, value := .string "a?" }] }] := by
  decide +kernel

end AttributeLint.Usage
