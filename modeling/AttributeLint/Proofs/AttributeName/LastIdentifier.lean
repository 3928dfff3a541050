import AttributeLint.AttributeName
import AttributeLint.Proofs.Text.Mark
import AttributeLint.Proofs.Usage.Names
import Mathlib.Data.List.Infix

/-!
# LastIdentifier — which names refer to an attribute

Of a name that is made of identifiers with points and `::` between them, the last segment is the
last identifier (`Qualified.lastSegment_eq`). So a written name refers to an attribute exactly if
its last identifier is that of the attribute, or becomes it with the ending `Attribute` behind it,
and what stands in front of the last identifiers makes no difference (`isWrittenAs_iff_last`).
-/

namespace AttributeLint

open Text Token

/-! ## The last segment -/

theorem Text.strip_eq_self {p : Char → Bool} {cs : List Char} (h : ∀ c ∈ cs, ¬ p c) :
    strip p cs = cs := by
  have hfront {ds : List Char} (hds : ∀ c ∈ ds, ¬ p c) : ds.dropWhile p = ds :=
    List.dropWhile_eq_self_iff.mpr fun hl => hds _ (List.getElem_mem hl)
  rw [strip, hfront h, hfront (by simpa using h), List.reverse_reverse]

variable {name last mark : String}

theorem Qualified.not_isBlank (h : Qualified name last) : ∀ c ∈ name.toList, ¬ isBlank c := by
  induction h with
  | bare h =>
    intro c hc
    exact (h.of_mem hc).1
  | @member qualifier last mark name _ hmark h ih =>
    have hmarks : mark.toList.all (!isBlank ·) = true := by
      rcases hmark with rfl | rfl
      · decide
      · decide
    intro c hc
    rw [String.toList_append, String.toList_append, List.mem_append, List.mem_append] at hc
    rcases hc with (hc | hc) | hc
    · exact ih c hc
    · simpa using List.all_eq_true.mp hmarks c hc
    · exact (h.of_mem hc).1

/-- The last segment of a name is its last identifier. -/
theorem Qualified.lastSegment_eq (h : Qualified name last) : lastSegment name = last := by
  have hpoint : ¬ ['.'] <:+: last.toList := by
    rw [List.singleton_infix_iff]
    intro hmem
    exact (h.isIdentifier.of_mem hmem).2.1 rfl
  have hcolon : ':' ∉ last.toList := by
    intro hmem
    exact (h.isIdentifier.of_mem hmem).2.2 rfl
  have hcolons : ¬ [':', ':'] <:+: last.toList := by
    intro hinside
    exact hcolon (hinside.subset List.mem_cons_self)
  have hname : lastSegment name =
      String.ofList (afterLast ['.'] (afterLast [':', ':'] name.toList)) := by
    rw [lastSegment, strip_eq_self h.not_isBlank]
  rw [hname, ← String.toList_inj, String.toList_ofList]
  cases h with
  | bare _ =>
    rw [afterLast_of_absent (by decide) hcolons, afterLast_of_absent (by decide) hpoint]
  | @member qualifier _ mark _ _ hmark _ =>
    rw [String.toList_append, String.toList_append, List.append_assoc]
    rcases hmark with rfl | rfl
    · -- the last `::` is in front of the point
      show afterLast ['.'] (afterLast [':', ':'] (qualifier.toList ++ '.' :: last.toList)) = _
      rw [afterLast_append_cons (by decide) (by decide) hcolons]
      exact afterLast_append (by decide) hpoint _
    · show afterLast ['.']
        (afterLast [':', ':'] (qualifier.toList ++ ([':', ':'] ++ last.toList))) = _
      have hagain : ¬ [':', ':'] <:+: [':'] ++ last.toList := by
        rw [List.singleton_append, List.infix_cons_iff, List.cons_prefix_cons]
        rintro (⟨-, hfront⟩ | hinside)
        · exact hcolon (hfront.subset (List.mem_singleton_self _))
        · exact hcolons hinside
      rw [afterLast_append (by decide) hagain, afterLast_of_absent (by decide) hpoint]

/-- A name has one last identifier. -/
theorem Qualified.unique {last' : String} (h : Qualified name last) (h' : Qualified name last') :
    last' = last := by
  rw [← h.lastSegment_eq, ← h'.lastSegment_eq]

/-! ## The names of an attribute -/

theorem beforeEnding?_eq_some_iff {ending cs before : List Char} :
    beforeEnding? ending cs = some before ↔ cs = before ++ ending := by
  rw [beforeEnding?, Option.map_eq_some_iff]
  constructor
  · rintro ⟨front, hfront, rfl⟩
    have hreverse := congrArg List.reverse (after?_eq_some_iff.mp hfront)
    simpa using hreverse
  · rintro rfl
    exact ⟨before.reverse, after?_eq_some_iff.mpr List.reverse_append, List.reverse_reverse before⟩

namespace AttributeName

variable {metadata written short : String}

/-- The short name is what the ending is left out of, unless nothing is left. -/
theorem short?_ofName_eq_some_iff :
    (ofName metadata).short? = some short ↔
      short ≠ "" ∧ short ++ "Attribute" = lastSegment metadata := by
  have hending : "Attribute".toList = attributeEnding := rfl
  rw [ofName, Option.map_eq_some_iff]
  simp only [Option.filter_eq_some_iff, beforeEnding?_eq_some_iff]
  constructor
  · rintro ⟨before, ⟨hbefore, hne⟩, rfl⟩
    refine ⟨?_, ?_⟩
    · rintro hempty
      rw [← String.toList_inj, String.toList_ofList] at hempty
      rw [hempty] at hne
      cases hne
    · rw [← String.toList_inj, String.toList_append, String.toList_ofList, hending, hbefore]
  · rintro ⟨hne, hshort⟩
    refine ⟨short.toList, ⟨?_, ?_⟩, String.ofList_toList⟩
    · rw [← hshort, String.toList_append, hending]
    · rw [Bool.not_eq_true', List.isEmpty_eq_false_iff]
      intro hempty
      exact hne (String.toList_inj.mp hempty)

theorem isWrittenAs_ofName_iff :
    (ofName metadata).isWrittenAs written ↔
      lastSegment written = lastSegment metadata ∨
        lastSegment written ≠ "" ∧ lastSegment written ++ "Attribute" = lastSegment metadata := by
  rw [isWrittenAs, Bool.or_eq_true, decide_eq_true_iff, decide_eq_true_iff,
    short?_ofName_eq_some_iff]
  rfl

theorem isWrittenAs_iff_of_qualified {N L : String} (hN : Qualified metadata N)
    (hL : Qualified written L) :
    (ofName metadata).isWrittenAs written ↔ L = N ∨ L ++ "Attribute" = N := by
  rw [isWrittenAs_ofName_iff, hN.lastSegment_eq, hL.lastSegment_eq]
  have hne := hL.isIdentifier.ne_empty
  constructor
  · rintro (hfull | ⟨-, hshort⟩)
    · exact .inl hfull
    · exact .inr hshort
  · rintro (hfull | hshort)
    · exact .inl hfull
    · exact .inr ⟨hne, hshort⟩

/-- The name of every usage in a source is an identifier, qualified or not, and so has one last
identifier. For such names, the last identifiers decide: the written one has to be that of the
attribute, or to become it with the ending behind it. What stands in front of them, on either side,
makes no difference. -/
theorem isWrittenAs_iff_last :
    (∀ source, ∀ u ∈ Usage.ofSource source, ∃! last, Qualified u.name last) ∧
      ∀ metadata N, Qualified metadata N →
        (∀ written L, Qualified written L →
          ((ofName metadata).isWrittenAs written ↔ L = N ∨ L ++ "Attribute" = N)) ∧
        ∀ metadata', Qualified metadata' N →
          ∀ written written' L, Qualified written L → Qualified written' L →
            (ofName metadata').isWrittenAs written' = (ofName metadata).isWrittenAs written := by
  refine ⟨?_, ?_⟩
  · intro source u hu
    obtain ⟨last, hlast⟩ := Usage.qualified_of_mem_ofSource hu
    exact ⟨last, hlast, fun last' hlast' => hlast.unique hlast'⟩
  intro metadata N hN
  refine ⟨fun written L hL => isWrittenAs_iff_of_qualified hN hL, ?_⟩
  intro metadata' hN' written written' L hL hL'
  rw [Bool.eq_iff_iff, isWrittenAs_iff_of_qualified hN hL, isWrittenAs_iff_of_qualified hN' hL']

theorem isWrittenAs_iff_last_qualified :
    Qualified "My.ErrorAttribute" "ErrorAttribute" ∧ Qualified "global::My.@Error" "@Error" ∧
      Qualified "My::Error" "Error" ∧
      ¬ (ofName "My.ErrorAttribute").isWrittenAs "global::My.@Error" ∧
      (ofName "My.ErrorAttribute").isWrittenAs "My::Error" ∧
      (ofName "ErrorAttribute").isWrittenAs "Error" =
        (ofName "My.ErrorAttribute").isWrittenAs "My::Error" := by
  have hmy : IsIdentifier "My" := isIdentifier_of_tokenize_eq (by decide +kernel)
  have hfull : IsIdentifier "ErrorAttribute" := isIdentifier_of_tokenize_eq (by decide +kernel)
  have hshort : IsIdentifier "Error" := isIdentifier_of_tokenize_eq (by decide +kernel)
  have hmarked : IsIdentifier "@Error" := isIdentifier_of_tokenize_eq (by decide +kernel)
  have hglobal : IsIdentifier "global" := isIdentifier_of_tokenize_eq (by decide +kernel)
  have hmetadata : Qualified "My.ErrorAttribute" "ErrorAttribute" :=
    (Qualified.bare hmy).member (.inl rfl) hfull
  have hwritten : Qualified "global::My.@Error" "@Error" :=
    ((Qualified.bare hglobal).member (.inr rfl) hmy).member (.inl rfl) hmarked
  have hwritten' : Qualified "My::Error" "Error" := (Qualified.bare hmy).member (.inr rfl) hshort
  obtain ⟨hdecide, hsame⟩ := isWrittenAs_iff_last.2 _ _ hmetadata
  refine ⟨hmetadata, hwritten, hwritten', ?_, (hdecide _ _ hwritten').mpr (.inr rfl),
    hsame _ (.bare hfull) _ _ _ hwritten' (.bare hshort)⟩
  rw [hdecide _ _ hwritten]
  decide

end AttributeName

end AttributeLint
