import AttributeLint.Proofs.Usage.Names

/-!
# QualifiedNames — the tokens of a qualified name

Every qualified name is cut into identifiers and separators, wherever it stands, if what follows
could not go on with its last identifier, and these tokens write it (`Qualified.exists_pieces`). So
a name can be put into a source and is read back. The last identifier may have an `@` in front of
it, which makes it another qualified name (`Qualified.marked`).
-/

namespace AttributeLint

open Text Token

variable {name last tail mark : String} {ts : List Token} {separator part : Token}

/-! ## Longer names -/

theorem Attribute.WritesTail.concat (h : WritesTail ts tail)
    (hmark : separator.kind.separator? = some mark) (hpart : part.kind = .ident) :
    WritesTail (ts ++ [separator, part]) (tail ++ mark ++ part.text) := by
  induction h with
  | nil =>
    have hlast := WritesTail.cons hmark hpart .nil
    rwa [String.append_empty] at hlast
  | cons hmark' hpart' _ ih =>
    have hmore := WritesTail.cons hmark' hpart' ih
    rwa [← String.append_assoc, ← String.append_assoc] at hmore

theorem Attribute.WritesName.concat (h : WritesName ts name)
    (hmark : separator.kind.separator? = some mark) (hpart : part.kind = .ident) :
    WritesName (ts ++ [separator, part]) (name ++ mark ++ part.text) := by
  obtain ⟨hfirst, htail⟩ := h
  have hname := WritesName.mk hfirst (htail.concat hmark hpart)
  rwa [← String.append_assoc, ← String.append_assoc] at hname

/-! ## Pieces -/

/-- A separator is one piece, whatever stands in front of it and whatever identifier behind it. -/
theorem Token.pieces_separator (hmark : mark = "." ∨ mark = "::") :
    ∃ kind : Kind, kind.separator? = some mark ∧ ∀ lineStart rest,
      pieces lineStart (mark.toList ++ rest) =
        { role := .token kind, text := mark.toList } :: pieces false rest := by
  have hcolons (cs : List Char) : scan ':' (':' :: cs) = ⟨.doubleColon, [':', ':'], cs⟩ := rfl
  rcases hmark with rfl | rfl
  · exact ⟨.dot, rfl, fun lineStart rest => pieces_single lineStart (by decide) rest⟩
  · refine ⟨.doubleColon, rfl, fun lineStart rest => ?_⟩
    show pieces lineStart (':' :: ':' :: rest) = _
    rw [pieces_eq_scan lineStart _ (by decide) (by decide) (by decide), hcolons]
    rfl

/-- Wherever a qualified name stands, it is cut into the same pieces, and they write it. -/
theorem Qualified.exists_pieces (h : Qualified name last) :
    ∃ ps : List Piece, ps.flatMap (·.text) = name.toList ∧
      (∀ lineStart rest, (∀ c, rest.head? = some c → isIdentContinue c = false) →
        pieces lineStart (name.toList ++ rest) = ps ++ pieces false rest) ∧
      ∀ offset, Attribute.WritesName (place offset ps) name := by
  induction h with
  | @bare name h =>
    refine ⟨[{ role := .token .ident, text := name.toList }], by simp, ?_, fun offset => ?_⟩
    · intro lineStart rest hrest
      exact (isIdentifier_iff.mp h).pieces_append hrest lineStart
    · have hname := Attribute.WritesName.mk (t := ⟨.ident, name, offset⟩) rfl .nil
      rw [String.append_empty] at hname
      rwa [place_token, String.ofList_toList]
  | @member qualifier last mark name _ hmark h ih =>
    obtain ⟨ps, htext, hpieces, hwrites⟩ := ih
    obtain ⟨kind, hkind, hseparator⟩ := pieces_separator hmark
    have hmark' (rest : List Char) : ∀ c, (mark.toList ++ rest).head? = some c →
        isIdentContinue c = false := by
      intro c hc
      rcases hmark with rfl | rfl <;> cases hc <;> decide +kernel
    refine ⟨ps ++ [{ role := .token kind, text := mark.toList },
      { role := .token .ident, text := name.toList }], ?_, ?_, fun offset => ?_⟩
    · simp [htext]
    · intro lineStart rest hrest
      rw [String.toList_append, String.toList_append, List.append_assoc, List.append_assoc,
        hpieces lineStart _ (hmark' _), hseparator,
        (isIdentifier_iff.mp h).pieces_append hrest false, List.append_assoc]
      rfl
    · rw [place_append, place_token, place_token, String.ofList_toList, String.ofList_toList]
      refine (hwrites offset).concat ?_ ?_
      · exact hkind
      · rfl

/-- The last identifier of a qualified name may be written with an `@`. -/
theorem Qualified.marked {front : String} (h : Qualified (front ++ last) last)
    (hmark : last.toList.head? ≠ some '@') :
    Qualified (front ++ ("@" ++ last)) ("@" ++ last) := by
  generalize hname : front ++ last = name at h
  cases h with
  | bare h =>
    have hfront : front = "" := by simpa using hname
    rw [hfront, String.empty_append]
    exact .bare (h.marked hmark)
  | @member qualifier _ mark _ hqualifier hmark' h =>
    have hfront : front = qualifier ++ mark := by
      have hlists : front.toList ++ last.toList = (qualifier ++ mark).toList ++ last.toList := by
        rw [← String.toList_append, ← String.toList_append, hname]
      exact String.toList_inj.mp (List.append_cancel_right hlists)
    rw [hfront]
    exact hqualifier.member hmark' (h.marked hmark)

end AttributeLint
