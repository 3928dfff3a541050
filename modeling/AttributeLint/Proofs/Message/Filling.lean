import AttributeLint.Diagnostic
import AttributeLint.Proofs.Message.Segmentation

/-!
# Filling — what the built-in templates say

The segments of a template are found from the left, so text without an opening brace stands for
itself and a placeholder with one digit is one segment. From these two facts the messages of the
built-in descriptors are read off for all arguments.
-/

namespace AttributeLint.Message

open Text

/-- A character that opens no placeholder is a segment of its own. -/
theorem segments_cons_of_ne {c : Char} (hc : c ≠ '{') (cs : List Char) :
    segments (c :: cs) = .literal c :: segments cs := by
  refine segments_cons fun ds _ hwritten => hc ?_
  rw [Segment.written, List.cons_append, List.cons_prefix_cons] at hwritten
  exact hwritten.1.symm

theorem segments_append_of_no_brace {u : List Char} (hu : '{' ∉ u) (cs : List Char) :
    segments (u ++ cs) = u.map .literal ++ segments cs := by
  induction u with
  | nil => rfl
  | cons c u ih =>
    rw [List.mem_cons, not_or] at hu
    rw [List.cons_append, segments_cons_of_ne (Ne.symm hu.1), ih hu.2]
    rfl

/-- A digit between braces is one segment. -/
theorem segments_placeholder {d : Char} (hd : isDecimalDigit d) (cs : List Char) :
    segments ('{' :: d :: '}' :: cs) = .placeholder [d] :: segments cs :=
  segments_written_append ⟨List.cons_ne_nil d [], List.forall_mem_singleton.mpr hd⟩ cs

theorem flatMap_fill_literal (arguments : List String) (u : List Char) :
    (u.map Segment.literal).flatMap (Segment.fill arguments) = u := by
  induction u with
  | nil => rfl
  | cons c u ih =>
    rw [List.map_cons, List.flatMap_cons, ih]
    rfl

/-- A template that names its two arguments in order. -/
theorem fill_two (before between after : List Char) (hbefore : '{' ∉ before)
    (hbetween : '{' ∉ between) (hafter : '{' ∉ after) (a b : String) :
    fill (String.ofList (before ++ '{' :: '0' :: '}' :: (between ++ '{' :: '1' :: '}' :: after)))
        [a, b] =
      String.ofList (before ++ a.toList ++ between ++ b.toList ++ after) := by
  have htail : segments after = after.map .literal := by
    have := segments_append_of_no_brace hafter []
    rwa [segments_nil, List.append_nil, List.append_nil] at this
  have hfirst : Segment.fill [a, b] (.placeholder ['0']) = a.toList := rfl
  have hsecond : Segment.fill [a, b] (.placeholder ['1']) = b.toList := rfl
  rw [fill, String.toList_ofList, segments_append_of_no_brace hbefore,
    segments_placeholder (by decide), segments_append_of_no_brace hbetween,
    segments_placeholder (by decide), htail]
  simp only [List.flatMap_append, List.flatMap_cons, flatMap_fill_literal, hfirst, hsecond,
    List.append_assoc]

end AttributeLint.Message

namespace AttributeLint.Descriptor

/-- The message of the built-in rule names the character and quotes the text. -/
theorem format_illegalCharacter (character text : String) :
    illegalCharacter.format [character, text] =
      "Illegal character '" ++ character ++ "' in message \"" ++ text ++ "\"" := by
  have hfilled := Message.fill_two "Illegal character '".toList "' in message \"".toList
    "\"".toList (by decide) (by decide) (by decide) character text
  apply String.toList_inj.mp
  refine (congrArg String.toList hfilled).trans ?_
  simp

/-- The message about a usage without a string names the attribute and says what is wrong. -/
theorem format_malformedArguments (name reason : String) :
    malformedArguments.format [name, reason] =
      "Attribute '" ++ name ++ "' expects exactly one string argument (" ++ reason ++ ")" := by
  have hfilled := Message.fill_two "Attribute '".toList
    "' expects exactly one string argument (".toList ")".toList (by decide) (by decide) (by decide)
    name reason
  apply String.toList_inj.mp
  refine (congrArg String.toList hfilled).trans ?_
  simp

end AttributeLint.Descriptor
