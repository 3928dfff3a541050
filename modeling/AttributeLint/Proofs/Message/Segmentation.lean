import AttributeLint.Message
import AttributeLint.Proofs.Text.Decimal
import AttributeLint.Proofs.Text.Mark
import Mathlib.Data.List.Forall2

/-!
# Segmentation — a template is filled in one pass

How a template divides into literal text and placeholders is said here by what is written, not by
how it is read (`Segmentation`): a character is literal only where no placeholder begins. There is
one division of this kind, and it does not depend on what is filled in. Each of its segments gives
its part of the message by itself (`Segment.Gives`), so the text of an argument is never looked at
for placeholders (`exists_segmentation_fill_iff`).
-/

namespace AttributeLint.Message

open Text

/-! ## Segments of a template -/

/-- What may stand between the braces of a placeholder: decimal digits of any script. -/
def Numeral (ds : List Char) : Prop :=
  ds ≠ [] ∧ ∀ d ∈ ds, isDecimalDigit d

instance (ds : List Char) : Decidable (Numeral ds) :=
  decidable_of_iff (ds ≠ [] ∧ ds.all isDecimalDigit) (by rw [Numeral, List.all_eq_true])

/-- The segments divide the template: a placeholder is made wherever one begins, from left to
right, and everything else is literal. -/
structure Segmentation (template : List Char) (ss : List Segment) : Prop where
  /-- The segments as they are written make up the template. -/
  written : ss.flatMap Segment.written = template
  /-- A placeholder holds a numeral. -/
  numeral : ∀ ds, Segment.placeholder ds ∈ ss → Numeral ds
  /-- No placeholder is written where a character is taken literally. -/
  leftmost : ∀ before c after, ss = before ++ Segment.literal c :: after →
    ∀ ds, Numeral ds → ¬ (Segment.placeholder ds).written <+: c :: after.flatMap Segment.written

variable {cs ds rest : List Char} {c : Char} {ss ss' : List Segment} {s : Segment}

theorem not_isDecimalDigit_brace : ¬ isDecimalDigit '}' := by
  decide

theorem Numeral.brace_not_mem (h : Numeral ds) : '{' ∉ ds ++ ['}'] := by
  intro hmem
  rcases List.mem_append.mp hmem with hmem | hmem
  · exact absurd (h.2 _ hmem) (by decide)
  · exact absurd (List.mem_singleton.mp hmem) (by decide)

theorem placeholder?_eq_some_iff : placeholder? cs = some (ds, rest) ↔
    Numeral ds ∧ cs = (Segment.placeholder ds).written ++ rest := by
  constructor
  · intro h
    cases cs with
    | nil => cases h
    | cons c cs =>
      simp only [placeholder?] at h
      split at h
      · rename_i hfront
        split at h
        · rename_i d rest' hrest
          split at h
          · rename_i hd
            cases h
            refine ⟨⟨hfront.2, List.all_eq_true.mp List.all_takeWhile⟩, ?_⟩
            rw [hfront.1, Segment.written, List.append_assoc, List.singleton_append,
              List.cons_append, ← hd, ← hrest, List.takeWhile_append_dropWhile]
          · cases h
        · cases h
      · cases h
  · rintro ⟨⟨hne, hdigits⟩, rfl⟩
    have htake : (ds ++ '}' :: rest).takeWhile isDecimalDigit = ds := by
      rw [List.takeWhile_append_of_pos hdigits,
        List.takeWhile_cons_of_neg not_isDecimalDigit_brace, List.append_nil]
    have hdrop : (ds ++ '}' :: rest).dropWhile isDecimalDigit = '}' :: rest := by
      rw [List.dropWhile_append_of_pos hdigits,
        List.dropWhile_cons_of_neg not_isDecimalDigit_brace]
    rw [Segment.written, List.append_assoc, List.singleton_append, List.cons_append, placeholder?,
      htake, hdrop, if_pos ⟨rfl, hne⟩]
    rfl

theorem segments_nil : segments [] = [] := by
  rw [segments]

/-- Where a placeholder is written, it is the first segment. -/
theorem segments_written_append (h : Numeral ds) (rest : List Char) :
    segments ((Segment.placeholder ds).written ++ rest) = .placeholder ds :: segments rest := by
  have hread : placeholder? ((Segment.placeholder ds).written ++ rest) = some (ds, rest) :=
    placeholder?_eq_some_iff.mpr ⟨h, rfl⟩
  rw [Segment.written, List.cons_append, List.cons_append] at hread ⊢
  rw [segments]
  split
  · rename_i hfound
    rw [hread] at hfound
    cases hfound
    rfl
  · rename_i hnone
    rw [hread] at hnone
    cases hnone

/-- Where none is written, the first character is. -/
theorem segments_cons (h : ∀ ds, Numeral ds → ¬ (Segment.placeholder ds).written <+: c :: cs) :
    segments (c :: cs) = .literal c :: segments cs := by
  rw [segments]
  split
  · rename_i ds rest hfound
    obtain ⟨hnumeral, hwritten⟩ := placeholder?_eq_some_iff.mp hfound
    exact absurd ⟨rest, hwritten.symm⟩ (h ds hnumeral)
  · rfl

/-! ## One division -/

theorem Segmentation.tail (h : Segmentation cs (s :: ss)) :
    Segmentation (ss.flatMap Segment.written) ss := by
  refine ⟨rfl, fun ds hds => h.numeral ds (List.mem_cons_of_mem s hds), ?_⟩
  rintro before c after rfl
  exact h.leftmost (s :: before) c after rfl

theorem Segmentation.eq_segments (h : Segmentation cs ss) : ss = segments cs := by
  induction ss generalizing cs with
  | nil =>
    rw [← h.written]
    exact segments_nil.symm
  | cons s ss ih =>
    have htail := ih h.tail
    rw [← h.written, List.flatMap_cons]
    cases s with
    | literal c =>
      have hfirst := h.leftmost [] c ss rfl
      rw [Segment.written, List.singleton_append, segments_cons hfirst, ← htail]
    | placeholder ds =>
      rw [segments_written_append (h.numeral ds List.mem_cons_self), ← htail]

theorem segmentation_nil : Segmentation [] [] := by
  refine ⟨rfl, fun ds hds => absurd hds List.not_mem_nil, fun before c after h => ?_⟩
  exact absurd h.symm (List.append_ne_nil_of_right_ne_nil _ (List.cons_ne_nil _ _))

theorem Segmentation.placeholder_cons (h : Segmentation rest ss) (hnumeral : Numeral ds) :
    Segmentation ((Segment.placeholder ds).written ++ rest) (.placeholder ds :: ss) := by
  refine ⟨by rw [List.flatMap_cons, h.written], fun ds' hds' => ?_, fun before c after hss => ?_⟩
  · rcases List.mem_cons.mp hds' with heq | hds'
    · cases heq
      exact hnumeral
    · exact h.numeral ds' hds'
  · cases before with
    | nil => cases hss
    | cons s before => exact h.leftmost before c after (List.cons.inj hss).2

theorem Segmentation.literal_cons (h : Segmentation cs ss)
    (hnone : ∀ ds, Numeral ds → ¬ (Segment.placeholder ds).written <+: c :: cs) :
    Segmentation (c :: cs) (.literal c :: ss) := by
  refine ⟨by rw [List.flatMap_cons, h.written]; rfl, fun ds hds => ?_, fun before d after hss => ?_⟩
  · rcases List.mem_cons.mp hds with heq | hds
    · cases heq
    · exact h.numeral ds hds
  · cases before with
    | nil =>
      cases hss
      rw [h.written]
      exact hnone
    | cons s before => exact h.leftmost before d after (List.cons.inj hss).2

theorem segmentation_segments (cs : List Char) : Segmentation cs (segments cs) := by
  fun_induction segments cs with
  | case1 => exact segmentation_nil
  | case2 c cs ds rest hfound ih =>
    obtain ⟨hnumeral, hwritten⟩ := placeholder?_eq_some_iff.mp hfound
    rw [hwritten]
    exact ih.placeholder_cons hnumeral
  | case3 c cs hnone ih =>
    refine ih.literal_cons fun ds hnumeral => ?_
    rintro ⟨rest, hwritten⟩
    rw [placeholder?_eq_some_iff.mpr ⟨hnumeral, hwritten.symm⟩] at hnone
    cases hnone

/-- Divisions of two texts make one of both, if the second begins with a brace: no placeholder
begins in the first text and ends in the second. -/
theorem Segmentation.append_brace (h : Segmentation cs ss) (h' : Segmentation ('{' :: rest) ss') :
    Segmentation (cs ++ '{' :: rest) (ss ++ ss') := by
  refine ⟨by rw [List.flatMap_append, h.written, h'.written], fun ds hds => ?_, ?_⟩
  · exact (List.mem_append.mp hds).elim (h.numeral ds) (h'.numeral ds)
  · intro before c after hdivision ds hnumeral hprefix
    obtain ⟨later, rfl, hlater⟩ | ⟨inside, rfl, hinside⟩ :=
      List.append_eq_append_iff.mp hdivision
    · exact h'.leftmost later c after hlater ds hnumeral hprefix
    cases inside with
    | nil => exact h'.leftmost [] c after hinside.symm ds hnumeral hprefix
    | cons s inside =>
      -- the literal is in the first text, and a placeholder there ends before the next brace
      rw [List.cons_append] at hinside
      obtain ⟨rfl, rfl⟩ := List.cons.inj hinside
      rw [List.flatMap_append, h'.written, Segment.written, List.cons_append,
        List.cons_prefix_cons, prefix_append_cons_iff hnumeral.brace_not_mem] at hprefix
      refine h.leftmost before c inside rfl ds hnumeral ?_
      rw [Segment.written, List.cons_append, List.cons_prefix_cons]
      exact hprefix

/-- Every placeholder that is written in a template is one of its segments. -/
theorem segments_append_written (h : Numeral ds) (before after : List Char) :
    segments (before ++ ((Segment.placeholder ds).written ++ after)) =
      segments before ++ .placeholder ds :: segments after := by
  have hbehind := segmentation_segments ((Segment.placeholder ds).written ++ after)
  rw [← segments_written_append h after]
  exact ((segmentation_segments before).append_brace hbehind).eq_segments.symm

/-! ## Filling -/

/-- What a segment gives: a placeholder the argument with its number, if it writes a number of 64
bits that an argument has, and every other segment itself. -/
inductive Segment.Gives (arguments : List String) : Segment → List Char → Prop where
  | literal (c : Char) : Gives arguments (.literal c) [c]
  | argument {ds : List Char} {n : Nat} {argument : String} (hwrites : WritesNumber ds n)
    (hfits : n < 2 ^ 64) (hgiven : arguments[n]? = some argument) :
    Gives arguments (.placeholder ds) argument.toList
  | asWritten {ds : List Char}
    (hmissing : ∀ n, WritesNumber ds n → n < 2 ^ 64 → arguments.length ≤ n) :
    Gives arguments (.placeholder ds) (.placeholder ds : Segment).written

theorem Segment.gives_fill (arguments : List String) (s : Segment) :
    s.Gives arguments (s.fill arguments) := by
  cases s with
  | literal c => exact .literal c
  | placeholder ds =>
    rw [Segment.fill]
    split
    · rename_i argument hfound
      obtain ⟨n, hnumber, hgiven⟩ := Option.bind_eq_some_iff.mp hfound
      obtain ⟨hwrites, hfits⟩ := number?_eq_some_iff.mp hnumber
      exact .argument hwrites hfits hgiven
    · rename_i hnone
      refine .asWritten fun n hwrites hfits => ?_
      have hnumber := number?_eq_some_iff.mpr ⟨hwrites, hfits⟩
      rw [hnumber, Option.bind_some] at hnone
      exact List.getElem?_eq_none_iff.mp hnone

theorem Segment.Gives.eq_fill {arguments : List String} {text : List Char}
    (h : s.Gives arguments text) : text = s.fill arguments := by
  cases h with
  | literal c => rfl
  | argument hwrites hfits hgiven =>
    rw [Segment.fill, number?_eq_some_iff.mpr ⟨hwrites, hfits⟩, Option.bind_some, hgiven]
  | asWritten hmissing =>
    rw [Segment.fill]
    split
    · rename_i ds _ hfound
      obtain ⟨n, hnumber, hgiven⟩ := Option.bind_eq_some_iff.mp hfound
      obtain ⟨hwrites, hfits⟩ := number?_eq_some_iff.mp hnumber
      rw [List.getElem?_eq_none (hmissing n hwrites hfits)] at hgiven
      cases hgiven
    · rfl

theorem Segment.gives_iff {arguments : List String} {text : List Char} :
    s.Gives arguments text ↔ s.fill arguments = text :=
  ⟨fun h => h.eq_fill.symm, fun h => h ▸ s.gives_fill arguments⟩

/-- The segments of a template give the parts of the message one by one. -/
theorem forall₂_gives_iff {arguments : List String} {texts : List (List Char)} :
    List.Forall₂ (Segment.Gives arguments) ss texts ↔
      texts = ss.map (Segment.fill arguments) := by
  have hgives : Segment.Gives arguments = fun s text => s.fill arguments = text :=
    funext₂ fun s text => propext Segment.gives_iff
  rw [hgives, ← List.forall₂_map_left_iff, List.forall₂_eq_eq_eq, eq_comm]

/-- A template has one division into literal text and placeholders, whatever the arguments, and the
message is what the segments give, one after the other. -/
theorem exists_segmentation_fill_iff (template : String) :
    ∃ ss, Segmentation template.toList ss ∧
      (∀ ss', Segmentation template.toList ss' → ss' = ss) ∧
      ∀ (arguments : List String) (message : String), fill template arguments = message ↔
        ∃ texts, List.Forall₂ (Segment.Gives arguments) ss texts ∧
          message.toList = texts.flatten := by
  refine ⟨segments template.toList, segmentation_segments _, fun ss' h => h.eq_segments, ?_⟩
  intro arguments message
  simp only [forall₂_gives_iff, exists_eq_left, ← List.flatMap_def]
  rw [fill, ← String.toList_inj, String.toList_ofList, eq_comm]

end AttributeLint.Message
