import AttributeLint.Proofs.Token.Identifiers
import AttributeLint.Proofs.Usage.Extent

/-!
# Names — the names of usages

The name of a usage is written by tokens of its source (`Usage.exists_writes_of_mem_ofSource`), so
it is made of identifiers with points and `::` between them. The last identifier is the name proper,
and those in front of it qualify it (`Qualified`).
-/

namespace AttributeLint

open Token

/-! ## Where an attribute is written -/

variable {source : List Char} {ts rest : List Token} {a : Attribute} {l : AttributeList}
  {lists : List AttributeList}

namespace AttributeList

theorem Writes.exists_writes (h : Writes source ts l) (ha : a ∈ l.attributes) :
    ∃ us, us.Sublist ts ∧ Attribute.Writes source us a := by
  cases h with
  | @untargeted opening closing inner _ h _ =>
    obtain ⟨us, hus, hwrites⟩ := h.exists_writes ha
    exact ⟨us, hus.trans ((List.sublist_append_left inner _).trans
      (List.sublist_cons_self opening _)), hwrites⟩
  | @targeted opening name colon closing inner _ _ _ h _ =>
    obtain ⟨us, hus, hwrites⟩ := h.exists_writes ha
    exact ⟨us, hus.trans ((List.sublist_append_left inner _).trans
      ((List.sublist_cons_self colon _).trans ((List.sublist_cons_self name _).trans
        (List.sublist_cons_self opening _)))), hwrites⟩

theorem Run.exists_writes (h : Run source ts lists rest) (hl : l ∈ lists) :
    ∃ us, us.Sublist ts ∧ Writes source us l := by
  induction h with
  | last hlist _ =>
    cases List.mem_singleton.mp hl
    obtain ⟨_, taken, rfl, hwrites⟩ := hlist
    exact ⟨taken, List.sublist_append_left taken _, hwrites⟩
  | cons hlist _ ih =>
    obtain ⟨_, taken, rfl, hwrites⟩ := hlist
    rcases List.mem_cons.mp hl with rfl | hl
    · exact ⟨taken, List.sublist_append_left taken _, hwrites⟩
    · obtain ⟨us, hus, hwrites⟩ := ih hl
      exact ⟨us, hus.trans (List.sublist_append_right taken _), hwrites⟩

end AttributeList

/-- Every usage in a source is of an attribute that some of its tokens write. -/
theorem Usage.exists_writes_of_mem_ofSource {source : String} {u : Usage}
    (hu : u ∈ ofSource source) :
    ∃ a us, us.Sublist (tokenize source) ∧ Attribute.Writes source.toList us a ∧
      u.name = a.name ∧ u.arguments = a.arguments := by
  obtain ⟨stretches, hwalk⟩ := exists_walk source.toList none (tokenize source)
  obtain ⟨lists, hrun, l, hl, ⟨a, ha, hname, harguments⟩, -⟩ :=
    exists_run_of_yields (yields_ofSource hwalk) hu
  obtain ⟨ts, rest, hts, hlists⟩ := hwalk.exists_run hrun
  obtain ⟨us, hus, hlist⟩ := hlists.exists_writes (List.mem_of_mem_filter hl)
  obtain ⟨vs, hvs, hattribute⟩ := hlist.exists_writes ha
  exact ⟨a, vs, hvs.trans (hus.trans hts), hattribute, hname, harguments⟩

/-! ## Qualified names -/

/-- The name is `last`, or it is qualified: it has any number of identifiers in front of `last`,
each with a point or `::` behind it. -/
inductive Qualified : String → String → Prop where
  | bare {name : String} (h : IsIdentifier name) : Qualified name name
  | member {qualifier last mark name : String} (hfront : Qualified qualifier last)
      (hmark : mark = "." ∨ mark = "::") (h : IsIdentifier name) :
      Qualified (qualifier ++ mark ++ name) name

variable {name last tail mark : String}

theorem Qualified.isIdentifier (h : Qualified name last) : IsIdentifier last := by
  cases h with
  | bare h => exact h
  | member _ _ h => exact h

theorem mark_of_separator? {kind : Token.Kind} (h : kind.separator? = some mark) :
    mark = "." ∨ mark = "::" := by
  cases kind with
  | dot =>
    cases h
    exact .inl rfl
  | doubleColon =>
    cases h
    exact .inr rfl
  | _ => cases h

/-- A name that goes on behind a qualified name is qualified. -/
theorem Attribute.WritesTail.qualified (h : WritesTail ts tail)
    (hts : ∀ t ∈ ts, t.kind = .ident → IsIdentifier t.text) (hname : Qualified name last) :
    ∃ last', Qualified (name ++ tail) last' := by
  induction h generalizing name last with
  | nil => exact ⟨last, by rwa [String.append_empty]⟩
  | @cons separator part ts mark tail hmark hpart _ ih =>
    have hident : IsIdentifier part.text := hts part (by simp) hpart
    have hmember := hname.member (mark_of_separator? hmark) hident
    obtain ⟨last', hlast'⟩ := ih (fun t ht => hts t (by simp [ht])) hmember
    refine ⟨last', ?_⟩
    rwa [← String.append_assoc, ← String.append_assoc]

theorem Attribute.Writes.qualified (h : Attribute.Writes source ts a)
    (hts : ∀ t ∈ ts, t.kind = .ident → IsIdentifier t.text) : ∃ last, Qualified a.name last := by
  have hname {ts : List Token} {name : String} (h : WritesName ts name)
      (hts : ∀ t ∈ ts, t.kind = .ident → IsIdentifier t.text) : ∃ last, Qualified name last := by
    obtain ⟨hfirst, htail⟩ := h
    exact htail.qualified (fun t ht => hts t (List.mem_cons_of_mem _ ht))
      (.bare (hts _ List.mem_cons_self hfirst))
  cases h with
  | name h => exact hname h hts
  | call h _ _ _ => exact hname h fun t ht => hts t (List.mem_append_left _ ht)

/-- The name of every usage in a source is an identifier, qualified or not. -/
theorem Usage.qualified_of_mem_ofSource {source : String} {u : Usage} (hu : u ∈ ofSource source) :
    ∃ last, Qualified u.name last := by
  obtain ⟨a, us, hus, hwrites, hname, -⟩ := exists_writes_of_mem_ofSource hu
  rw [hname]
  refine hwrites.qualified ?_
  intro t ht hkind
  exact ⟨source, t, hus.subset ht, hkind, rfl⟩

end AttributeLint
