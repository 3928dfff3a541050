import AttributeLint.Proofs.Attribute.Nesting
import AttributeLint.Proofs.Usage.IndexedUsages
import AttributeLint.Proofs.Usage.Steps
import Mathlib.Data.List.Forall2
import Mathlib.Data.Set.Subsingleton

/-!
# Derivation — the grammar of attribute lists

What tokens write a name, an argument, an attribute or a list, and which one they write, as
relations that know nothing of how tokens are read. No relation looks at the tokens that follow, and
none asks for the longest match. The readers accept exactly what the grammar derives, behind which
any tokens may stand (`read?_eq_some_iff`), so a list that begins at a given token ends at one
place only and is one list only.
-/

namespace AttributeLint

open Text

namespace Attribute

/-! ## The grammar -/

/-- Separators, each with an identifier after it, write the rest of a qualified name. -/
inductive WritesTail : List Token → String → Prop where
  | nil : WritesTail [] ""
  | cons {separator part : Token} {ts : List Token} {mark tail : String} :
      separator.kind.separator? = some mark → part.kind = .ident → WritesTail ts tail →
        WritesTail (separator :: part :: ts) (mark ++ part.text ++ tail)

/-- An identifier and the rest of a qualified name write the name. -/
inductive WritesName : List Token → String → Prop where
  | mk {t : Token} {ts : List Token} {tail : String} :
      t.kind = .ident → WritesTail ts tail → WritesName (t :: ts) (t.text ++ tail)

/-- Constant strings with `+` between them write the string that they make up. -/
inductive WritesConstant : List Token → String → Prop where
  | single {t : Token} {text : String} : t.kind = .str text → WritesConstant [t] text
  | joined {t plus : Token} {ts : List Token} {text more : String} :
      t.kind = .str text → plus.kind = .other → plus.text = "+" → WritesConstant ts more →
        WritesConstant (t :: plus :: ts) (text ++ more)

/-- One token at least writes a value: the constant, or else the source from the first token to the
last. -/
inductive WritesValue (source : List Char) : List Token → Argument.Value → Prop where
  | string {ts : List Token} {text : String} :
      WritesConstant ts text → WritesValue source ts (.string text)
  | other {first last : Token} {ts : List Token} :
      (∀ text, ¬ WritesConstant ts text) → ts.head? = some first → ts.getLast? = some last →
        WritesValue source ts (.other (String.ofList (slice source first.start last.stop)))

/-- The tokens begin with a name and a mark that bind an argument. -/
def StartsBound (ts : List Token) : Prop :=
  ∃ name mark rest, ts = name :: mark :: rest ∧ name.kind = .ident ∧
    (mark.kind = .equals ∨ mark.kind = .colon)

/-- A value, alone or behind `name =` or `name :`, writes an argument. A name and a mark without a
value behind them write none. -/
inductive WritesArgument (source : List Char) : List Token → Argument → Prop where
  | positional {ts : List Token} {value : Argument.Value} :
      ¬ StartsBound ts → WritesValue source ts value →
        WritesArgument source ts { binding := .positional, value }
  | property {name mark : Token} {ts : List Token} {value : Argument.Value} :
      name.kind = .ident → mark.kind = .equals → WritesValue source ts value →
        WritesArgument source (name :: mark :: ts) { binding := .property name.text, value }
  | constructor {name mark : Token} {ts : List Token} {value : Argument.Value} :
      name.kind = .ident → mark.kind = .colon → WritesValue source ts value →
        WritesArgument source (name :: mark :: ts) { binding := .constructor name.text, value }

/-- Balanced tokens write no argument if there are none of them, and else one argument for each
group between the commas outside all brackets. -/
inductive WritesArguments (source : List Char) : List Token → List Argument → Prop where
  | none : WritesArguments source [] []
  | groups {body : List Token} {groups : List (List Token)} {arguments : List Argument} :
      body ≠ [] → Balanced 0 body → Divided body groups →
        List.Forall₂ (WritesArgument source) groups arguments →
          WritesArguments source body arguments

/-- A name, or a name with arguments in parentheses, writes an attribute. -/
inductive Writes (source : List Char) : List Token → Attribute → Prop where
  | name {ts : List Token} {name : String} :
      WritesName ts name → Writes source ts { name, arguments := [] }
  | call {ts body : List Token} {opening closing : Token} {name : String}
      {arguments : List Argument} :
      WritesName ts name → opening.kind = .lParen → WritesArguments source body arguments →
        closing.kind = .rParen →
          Writes source (ts ++ opening :: (body ++ [closing])) { name, arguments }

end Attribute

namespace AttributeList

/-- Attributes with commas between them, and perhaps one behind the last, write the attributes of a
list. -/
inductive WritesAttributes (source : List Char) : List Token → List Attribute → Prop where
  | last {ts : List Token} {a : Attribute} :
      Attribute.Writes source ts a → WritesAttributes source ts [a]
  | lastComma {ts : List Token} {comma : Token} {a : Attribute} :
      Attribute.Writes source ts a → comma.kind = .comma →
        WritesAttributes source (ts ++ [comma]) [a]
  | cons {ts us : List Token} {comma : Token} {a : Attribute} {as : List Attribute} :
      Attribute.Writes source ts a → comma.kind = .comma → WritesAttributes source us as →
        WritesAttributes source (ts ++ comma :: us) (a :: as)

/-- The attributes of a list between any token and a closing bracket, with a target in front of them
or without one, write the list. -/
inductive Writes (source : List Char) : List Token → AttributeList → Prop where
  | untargeted {opening closing : Token} {ts : List Token} {attributes : List Attribute} :
      WritesAttributes source ts attributes → closing.kind = .rBracket →
        Writes source (opening :: (ts ++ [closing]))
          { start := opening.start, stop := closing.stop, target := none, attributes }
  | targeted {opening name colon closing : Token} {ts : List Token}
      {attributes : List Attribute} :
      name.kind = .ident → colon.kind = .colon → WritesAttributes source ts attributes →
        closing.kind = .rBracket →
          Writes source (opening :: name :: colon :: (ts ++ [closing]))
            { start := opening.start, stop := closing.stop, target := some name.text, attributes }

end AttributeList

namespace Attribute

variable {source : List Char} {t : Token} {ts taken body rest : List Token}

/-! ## Names -/

theorem writesTail_of_nameTail? {tail : String} (h : nameTail? ts = some (tail, rest)) :
    ∃ taken, ts = taken ++ rest ∧ WritesTail taken tail := by
  fun_induction nameTail? ts generalizing tail rest with
  | case1 =>
    cases h
    exact ⟨[], rfl, .nil⟩
  | case2 separator part ts mark hmark hpart ih =>
    obtain ⟨⟨tail', rest'⟩, h', he⟩ := Option.map_eq_some_iff.mp h
    cases he
    obtain ⟨taken, rfl, htail⟩ := ih h'
    exact ⟨separator :: part :: taken, rfl, .cons hmark hpart htail⟩
  | case3 => cases h
  | case4 =>
    cases h
    exact ⟨[], rfl, .nil⟩

theorem nameTail?_of_writesTail {tail : String} (h : WritesTail taken tail)
    (ht : t.kind.separator? = none) (rest : List Token) :
    nameTail? (taken ++ t :: rest) = some (tail, t :: rest) := by
  induction h with
  | nil => cases rest <;> simp [nameTail?, ht]
  | cons hmark hpart _ ih => simp [nameTail?, hmark, hpart, ih]

theorem writesName_of_name? {name : String} (h : name? ts = some (name, rest)) :
    ∃ taken, ts = taken ++ rest ∧ WritesName taken name := by
  cases ts with
  | nil => cases h
  | cons t ts =>
    rw [name?] at h
    split at h
    · rename_i ht
      obtain ⟨⟨tail, rest'⟩, h', he⟩ := Option.map_eq_some_iff.mp h
      cases he
      obtain ⟨taken, rfl, htail⟩ := writesTail_of_nameTail? h'
      exact ⟨t :: taken, rfl, .mk ht htail⟩
    · cases h

theorem name?_of_writesName {name : String} (h : WritesName taken name)
    (ht : t.kind.separator? = none) (rest : List Token) :
    name? (taken ++ t :: rest) = some (name, t :: rest) := by
  obtain ⟨hfirst, htail⟩ := h
  rw [List.cons_append, name?, if_pos hfirst, nameTail?_of_writesTail htail ht]
  rfl

/-! ## Arguments -/

theorem value?_eq_some_iff {kind : Token.Kind} {text : String} :
    kind.value? = some text ↔ kind = .str text := by
  cases kind <;> simp [Token.Kind.value?]

theorem constant?_eq_some_iff {text : String} :
    constant? ts = some text ↔ WritesConstant ts text := by
  constructor
  · intro h
    fun_induction constant? ts generalizing text with
    | case1 => cases h
    | case2 t => exact .single (value?_eq_some_iff.mp h)
    | case3 => cases h
    | case4 t plus ts text' ht hplus ih =>
      obtain ⟨more, h', rfl⟩ := Option.map_eq_some_iff.mp h
      simp only [isPlus, Bool.and_eq_true, decide_eq_true_eq] at hplus
      exact .joined (value?_eq_some_iff.mp ht) hplus.1 hplus.2 (ih h')
    | case5 => cases h
  · intro h
    induction h with
    | single ht => exact value?_eq_some_iff.mpr ht
    | joined ht hkind htext _ ih =>
      simp [constant?, value?_eq_some_iff.mpr ht, isPlus, hkind, htext, ih]

theorem constant?_eq_none_iff : constant? ts = none ↔ ∀ text, ¬ WritesConstant ts text := by
  rw [Option.eq_none_iff_forall_ne_some]
  exact forall_congr' fun text => not_congr constant?_eq_some_iff

theorem value?_iff {value : Argument.Value} :
    value? source ts = some value ↔ WritesValue source ts value := by
  cases ts with
  | nil =>
    constructor
    · intro h
      cases h
    · intro h
      cases h with
      | string h => cases h
      | other _ hfirst _ => cases hfirst
  | cons t ts =>
    rw [value?]
    cases hconstant : constant? (t :: ts) with
    | some text =>
      have hwrites := constant?_eq_some_iff.mp hconstant
      constructor
      · intro h
        cases h
        exact .string hwrites
      · intro h
        cases h with
        | string h =>
          rw [constant?_eq_some_iff.mpr h] at hconstant
          cases hconstant
          rfl
        | other hnone _ _ => exact absurd hwrites (hnone text)
    | none =>
      have hnone := constant?_eq_none_iff.mp hconstant
      have hlast : (t :: ts).getLast? = some ((t :: ts).getLast (List.cons_ne_nil t ts)) :=
        List.getLast?_eq_some_getLast (List.cons_ne_nil t ts)
      constructor
      · intro h
        cases h
        exact .other hnone rfl hlast
      · intro h
        cases h with
        | string h => exact absurd h (hnone _)
        | other _ hfirst' hlast' =>
          rw [hlast] at hlast'
          cases hfirst'
          cases hlast'
          rfl

theorem exists_writesValue_iff : (∃ value, WritesValue source ts value) ↔ ts ≠ [] := by
  constructor
  · rintro ⟨value, h⟩ rfl
    cases h with
    | string h => cases h
    | other _ hfirst _ => cases hfirst
  · intro hne
    by_cases hconstant : ∃ text, WritesConstant ts text
    · obtain ⟨text, h⟩ := hconstant
      exact ⟨_, .string h⟩
    · exact ⟨_, .other (not_exists.mp hconstant) (List.head?_eq_some_head hne)
        (List.getLast?_eq_some_getLast hne)⟩

/-- The only tokens that write no argument are none at all, and a name and a mark alone. -/
theorem exists_writesArgument_iff :
    (∃ a, WritesArgument source ts a) ↔ ts ≠ [] ∧ ¬(StartsBound ts ∧ ts.length = 2) := by
  constructor
  · rintro ⟨a, h⟩
    cases h with
    | positional hfree hvalue =>
      exact ⟨exists_writesValue_iff.mp ⟨_, hvalue⟩, fun h => hfree h.1⟩
    | property _ _ hvalue | constructor _ _ hvalue =>
      have hne := exists_writesValue_iff.mp ⟨_, hvalue⟩
      exact ⟨List.cons_ne_nil _ _, fun h => hne (by simpa using h.2)⟩
  · rintro ⟨hne, hlone⟩
    by_cases hbound : StartsBound ts
    · obtain ⟨name, mark, ts, rfl, hname, hmark⟩ := hbound
      have hvalue : ts ≠ [] := by
        rintro rfl
        exact hlone ⟨⟨name, mark, [], rfl, hname, hmark⟩, rfl⟩
      obtain ⟨value, hvalue⟩ := exists_writesValue_iff.mpr hvalue
      rcases hmark with hmark | hmark
      · exact ⟨_, .property hname hmark hvalue⟩
      · exact ⟨_, .constructor hname hmark hvalue⟩
    · obtain ⟨value, hvalue⟩ := exists_writesValue_iff.mpr hne
      exact ⟨_, .positional hbound hvalue⟩

theorem argument?_eq_some_iff {a : Argument} :
    argument? source ts = some a ↔ WritesArgument source ts a := by
  have hreads : argument? source ts = some a ↔
      (binding ts).1 = a.binding ∧ WritesValue source (binding ts).2 a.value := by
    rw [argument?, Option.map_eq_some_iff]
    constructor
    · rintro ⟨value, hvalue, rfl⟩
      exact ⟨rfl, value?_iff.mp hvalue⟩
    · rintro ⟨hbinding, hvalue⟩
      exact ⟨a.value, value?_iff.mpr hvalue, by rw [hbinding]⟩
  rw [hreads]
  obtain ⟨binding', value⟩ := a
  constructor
  · rintro ⟨rfl, hvalue⟩
    obtain _ | ⟨name, _ | ⟨mark, ts⟩⟩ := ts
    case nil => exact .positional (by rintro ⟨_, _, _, h, _⟩; cases h) hvalue
    case cons.nil => exact .positional (by rintro ⟨_, _, _, h, _⟩; cases h) hvalue
    case cons.cons =>
      rw [binding] at hvalue ⊢
      by_cases hproperty : name.kind = .ident ∧ mark.kind = .equals
      · rw [if_pos hproperty] at hvalue ⊢
        exact .property hproperty.1 hproperty.2 hvalue
      rw [if_neg hproperty] at hvalue ⊢
      by_cases hconstructor : name.kind = .ident ∧ mark.kind = .colon
      · rw [if_pos hconstructor] at hvalue ⊢
        exact .constructor hconstructor.1 hconstructor.2 hvalue
      rw [if_neg hconstructor] at hvalue ⊢
      refine .positional ?_ hvalue
      rintro ⟨name', mark', rest, heq, hname, hmark | hmark⟩
      · cases heq
        exact hproperty ⟨hname, hmark⟩
      · cases heq
        exact hconstructor ⟨hname, hmark⟩
  · intro h
    cases h with
    | positional hfree hvalue =>
      have hbinding : binding ts = (.positional, ts) := by
        obtain _ | ⟨name, _ | ⟨mark, ts⟩⟩ := ts
        case nil => rfl
        case cons.nil => rfl
        case cons.cons =>
          rw [binding, if_neg fun h => hfree ⟨name, mark, ts, rfl, h.1, .inl h.2⟩,
            if_neg fun h => hfree ⟨name, mark, ts, rfl, h.1, .inr h.2⟩]
      rw [hbinding]
      exact ⟨rfl, hvalue⟩
    | property hname hmark hvalue =>
      rw [binding, if_pos ⟨hname, hmark⟩]
      exact ⟨rfl, hvalue⟩
    | constructor hname hmark hvalue =>
      rw [binding, if_neg (by simp [hmark]), if_pos ⟨hname, hmark⟩]
      exact ⟨rfl, hvalue⟩

theorem mapM_eq_some_iff_forall₂ {α β : Type} {f : α → Option β} {xs : List α} {ys : List β} :
    xs.mapM f = some ys ↔ List.Forall₂ (fun x y => f x = some y) xs ys := by
  induction xs generalizing ys with
  | nil =>
    rw [List.mapM_nil, List.forall₂_nil_left_iff, eq_comm]
    exact Option.some_inj
  | cons x xs ih =>
    rw [List.mapM_cons, List.forall₂_cons_left_iff]
    constructor
    · intro h
      obtain ⟨y, hy, h⟩ := Option.bind_eq_some_iff.mp h
      obtain ⟨ys', hys, h⟩ := Option.bind_eq_some_iff.mp h
      cases h
      exact ⟨y, ys', hy, ih.mp hys, rfl⟩
    · rintro ⟨y, ys', hy, hys, rfl⟩
      rw [hy, ih.mpr hys]
      rfl

/-- Of balanced tokens the reader takes the arguments that they write. -/
theorem arguments?_eq_some_iff {arguments : List Argument} (h : Balanced 0 body) :
    arguments? source body = some arguments ↔ WritesArguments source body arguments := by
  have hmapM (groups : List (List Token)) : groups.mapM (argument? source) = some arguments ↔
      List.Forall₂ (WritesArgument source) groups arguments := by
    rw [mapM_eq_some_iff_forall₂]
    simp only [argument?_eq_some_iff]
  cases body with
  | nil =>
    constructor
    · intro h
      cases h
      exact .none
    · intro h
      cases h with
      | none => rfl
      | groups hne _ _ _ => exact absurd rfl hne
  | cons t body =>
    rw [arguments?, List.isEmpty_cons, if_neg Bool.false_ne_true, hmapM]
    constructor
    · intro hforall
      exact .groups (List.cons_ne_nil t body) h ((splitAtCommas_eq_iff h.nested _).mp rfl) hforall
    · intro hwrites
      cases hwrites with
      | groups _ _ hdivided hforall =>
        rwa [(splitAtCommas_eq_iff h.nested _).mpr hdivided]

/-! ## Attributes -/

theorem WritesArguments.balanced {arguments : List Argument}
    (h : WritesArguments source body arguments) : Balanced 0 body := by
  cases h with
  | none => exact balanced_nil_iff.mpr rfl
  | groups _ hbalanced _ _ => exact hbalanced

theorem writes_of_read? {a : Attribute} (h : read? source ts = some (a, rest)) :
    ∃ taken, ts = taken ++ rest ∧ Writes source taken a := by
  unfold read? at h
  split at h
  · cases h
  · rename_i hname
    cases h
    obtain ⟨taken, rfl, hwrites⟩ := writesName_of_name? hname
    exact ⟨taken, rfl, .name hwrites⟩
  · rename_i name t after hname
    obtain ⟨taken, rfl, hwrites⟩ := writesName_of_name? hname
    split at h
    · rename_i ht
      split at h
      · cases h
      · rename_i body rest' henclosed
        obtain ⟨arguments, harguments, heq⟩ := Option.map_eq_some_iff.mp h
        cases heq
        obtain ⟨hbalanced, closing, hclosing, rfl⟩ := enclosed?_eq_some_iff.mp henclosed
        have hbody := (arguments?_eq_some_iff hbalanced).mp harguments
        exact ⟨taken ++ t :: (body ++ [closing]), by simp, .call hwrites ht hbody hclosing⟩
    · cases h
      exact ⟨taken, rfl, .name hwrites⟩

/-- Behind an attribute of a list there is a comma or a closing bracket, and the reader stops
there. -/
theorem read?_of_writes {a : Attribute} (h : Writes source taken a)
    (ht : t.kind = .comma ∨ t.kind = .rBracket) (rest : List Token) :
    read? source (taken ++ t :: rest) = some (a, t :: rest) := by
  cases h with
  | name hname =>
    have hseparator : t.kind.separator? = none := by
      rcases ht with ht | ht <;> rw [ht] <;> rfl
    have hparen : t.kind ≠ .lParen := by
      rcases ht with ht | ht <;> simp [ht]
    rw [read?, name?_of_writesName hname hseparator]
    dsimp only
    rw [if_neg hparen]
  | @call ts body opening closing name arguments hname hopening hbody hclosing =>
    have hseparator : opening.kind.separator? = none := by rw [hopening]; rfl
    have henclosed := enclosed?_of_balanced hbody.balanced hclosing (t :: rest)
    rw [show ts ++ opening :: (body ++ [closing]) ++ t :: rest =
      ts ++ opening :: (body ++ closing :: (t :: rest)) by simp, read?,
      name?_of_writesName hname hseparator]
    dsimp only
    rw [if_pos hopening, henclosed]
    dsimp only
    rw [(arguments?_eq_some_iff hbody.balanced).mpr hbody]
    rfl

/-- An attribute begins with an identifier, and no colon follows that. -/
theorem Writes.begins {a : Attribute} (h : Writes source ts a) :
    ∃ t ts', ts = t :: ts' ∧ t.kind = .ident ∧ ∀ u, ts'.head? = some u → u.kind ≠ .colon := by
  have htail {ts : List Token} {tail : String} (h : WritesTail ts tail) :
      ∀ u, ts.head? = some u → u.kind ≠ .colon := by
    cases h with
    | nil => simp
    | cons hmark _ _ =>
      intro u hu hcolon
      cases hu
      rw [hcolon] at hmark
      cases hmark
  cases h with
  | name hname =>
    obtain ⟨ht, hts⟩ := hname
    exact ⟨_, _, rfl, ht, htail hts⟩
  | @call _ body opening closing _ _ hname hopening _ _ =>
    obtain @⟨t, ts, tail, ht, hts⟩ := hname
    refine ⟨t, ts ++ opening :: (body ++ [closing]), rfl, ht, ?_⟩
    cases ts with
    | nil =>
      intro u hu hcolon
      cases hu
      rw [hopening] at hcolon
      cases hcolon
    | cons separator ts =>
      intro u hu
      exact htail hts u hu

end Attribute

namespace AttributeList

variable {source : List Char} {ts taken rest : List Token}

/-! ## Lists -/

theorem writesAttributes_of_attributes? {as : List Attribute} {closing : Token}
    (h : attributes? source ts = some (as, closing, rest)) :
    closing.kind = .rBracket ∧ ∃ taken, ts = taken ++ closing :: rest ∧
      WritesAttributes source taken as := by
  fun_induction attributes? source ts generalizing as closing rest with
  | case1 => cases h
  | case2 => cases h
  | case3 ts a t rest' hread ht =>
    cases h
    obtain ⟨taken, rfl, hwrites⟩ := Attribute.writes_of_read? hread
    exact ⟨ht, taken, rfl, .last hwrites⟩
  | case4 => cases h
  | case5 ts a t _ hcomma u rest' hread hu =>
    cases h
    obtain ⟨taken, rfl, hwrites⟩ := Attribute.writes_of_read? hread
    exact ⟨hu, taken ++ [t], by simp, .lastComma hwrites hcomma⟩
  | case6 ts a t _ hcomma u rest' hread hu _ ih =>
    obtain ⟨⟨as', last⟩, h', he⟩ := Option.map_eq_some_iff.mp h
    cases he
    obtain ⟨taken, rfl, hwrites⟩ := Attribute.writes_of_read? hread
    obtain ⟨hclosing, more, hmore, hwrites'⟩ := ih h'
    exact ⟨hclosing, taken ++ t :: more, by simp [hmore], .cons hwrites hcomma hwrites'⟩
  | case7 => cases h

/-- The attributes of a list begin as the first of them does. -/
theorem WritesAttributes.begins {as : List Attribute} (h : WritesAttributes source ts as)
    {closing : Token} (hclosing : closing.kind = .rBracket) (rest : List Token) :
    ∃ t u us, ts ++ closing :: rest = t :: u :: us ∧ t.kind = .ident ∧ u.kind ≠ .colon := by
  have hbegins {ts : List Token} {a : Attribute} (h : Attribute.Writes source ts a) {v : Token}
      (hv : v.kind ≠ .colon) (vs : List Token) :
      ∃ t u us, ts ++ v :: vs = t :: u :: us ∧ t.kind = .ident ∧ u.kind ≠ .colon := by
    obtain ⟨t, ts, rfl, ht, hsecond⟩ := h.begins
    cases ts with
    | nil => exact ⟨t, v, vs, rfl, ht, hv⟩
    | cons u ts => exact ⟨t, u, ts ++ v :: vs, rfl, ht, hsecond u rfl⟩
  cases h with
  | last h => exact hbegins h (by simp [hclosing]) rest
  | lastComma h hcomma =>
    rw [List.append_assoc]
    exact hbegins h (by simp [hcomma]) (closing :: rest)
  | cons h hcomma _ =>
    rw [List.append_assoc]
    exact hbegins h (by simp [hcomma]) _

theorem attributes?_of_writesAttributes {as : List Attribute} (h : WritesAttributes source taken as)
    {closing : Token} (hclosing : closing.kind = .rBracket) (rest : List Token) :
    attributes? source (taken ++ closing :: rest) = some (as, closing, rest) := by
  induction h with
  | last h =>
    rw [attributes?_eq, Attribute.read?_of_writes h (.inr hclosing)]
    dsimp only
    rw [if_pos hclosing]
  | @lastComma ts comma a h hcomma =>
    have hopen : comma.kind ≠ .rBracket := by simp [hcomma]
    rw [List.append_assoc, List.singleton_append, attributes?_eq,
      Attribute.read?_of_writes h (.inl hcomma)]
    dsimp only
    rw [if_neg hopen, if_pos hcomma, if_pos hclosing]
  | @cons ts us comma a as h hcomma hmore ih =>
    have hopen : comma.kind ≠ .rBracket := by simp [hcomma]
    obtain ⟨t, u, vs, hvs, ht, _⟩ := hmore.begins hclosing rest
    have hident : t.kind ≠ .rBracket := by simp [ht]
    rw [List.append_assoc, List.cons_append, attributes?_eq,
      Attribute.read?_of_writes h (.inl hcomma)]
    rw [hvs] at ih ⊢
    dsimp only
    rw [if_neg hopen, if_pos hcomma, if_neg hident, ih]
    rfl

theorem splitTarget_cases (ts : List Token) :
    splitTarget ts = (none, ts) ∨ ∃ name colon us, ts = name :: colon :: us ∧
      name.kind = .ident ∧ colon.kind = .colon ∧ splitTarget ts = (some name.text, us) := by
  match ts with
  | [] => exact .inl rfl
  | [t] => exact .inl rfl
  | name :: colon :: us =>
    by_cases htarget : name.kind = .ident ∧ colon.kind = .colon
    · exact .inr ⟨name, colon, us, rfl, htarget.1, htarget.2, if_pos htarget⟩
    · exact .inl (if_neg htarget)

/-- A list is read from the front of the tokens exactly if the tokens in front write it. -/
theorem read?_eq_some_iff {l : AttributeList} :
    read? source ts = some (l, rest) ↔ ∃ taken, ts = taken ++ rest ∧ Writes source taken l := by
  constructor
  · intro h
    cases ts with
    | nil => cases h
    | cons opening ts =>
      obtain ⟨⟨as, closing, rest'⟩, h', he⟩ := Option.map_eq_some_iff.mp h
      cases he
      obtain ⟨hclosing, taken, htaken, hwrites⟩ := writesAttributes_of_attributes? h'
      rcases splitTarget_cases ts with hsplit | ⟨name, colon, us, rfl, hname, hcolon, hsplit⟩
      · rw [hsplit] at htaken ⊢
        dsimp only at htaken ⊢
        rw [htaken]
        exact ⟨opening :: (taken ++ [closing]), by simp, .untargeted hwrites hclosing⟩
      · rw [hsplit] at htaken ⊢
        dsimp only at htaken ⊢
        rw [htaken]
        exact ⟨opening :: name :: colon :: (taken ++ [closing]), by simp,
          .targeted hname hcolon hwrites hclosing⟩
  · rintro ⟨taken, rfl, h⟩
    cases h with
    | @untargeted opening closing ts attributes hwrites hclosing =>
      -- an identifier and a colon would be a target, but no attributes begin so
      obtain ⟨t, u, us, hus, _, hcolon⟩ := hwrites.begins hclosing rest
      have hread := attributes?_of_writesAttributes hwrites hclosing rest
      have hsplit : splitTarget (ts ++ closing :: rest) = (none, ts ++ closing :: rest) := by
        rw [hus, splitTarget, if_neg fun h => hcolon h.2]
      rw [List.cons_append, List.append_assoc, List.singleton_append, read?, hsplit, hread]
      rfl
    | @targeted opening name colon closing ts attributes hname hcolon hwrites hclosing =>
      have hread := attributes?_of_writesAttributes hwrites hclosing rest
      have hsplit : splitTarget (name :: colon :: (ts ++ closing :: rest)) =
          (some name.text, ts ++ closing :: rest) := by
        rw [splitTarget, if_pos ⟨hname, hcolon⟩]
      simp only [List.cons_append, List.append_assoc, List.nil_append]
      rw [read?, hsplit, hread]
      rfl

theorem Writes.ne_nil {l : AttributeList} (h : Writes source taken l) : taken ≠ [] := by
  cases h <;> exact List.cons_ne_nil _ _

/-! ## Indices -/

/-- Reading at an index gives the list that the tokens up to another index write, and that index. -/
theorem placed_read?_eq_some_iff {tokens : List Token} {opening next : Nat} {l : AttributeList} :
    Indexed.placed tokens (read? source (tokens.drop opening)) = some (l, next) ↔
      ∃ taken, Indexed.between? tokens opening next = some taken ∧ Writes source taken l := by
  constructor
  · intro h
    obtain ⟨⟨l, rest⟩, hread, heq⟩ := Option.map_eq_some_iff.mp h
    cases heq
    obtain ⟨taken, htaken, hwrites⟩ := read?_eq_some_iff.mp hread
    exact ⟨taken, Indexed.between?_of_drop htaken hwrites.ne_nil, hwrites⟩
  · rintro ⟨taken, hbetween, hwrites⟩
    obtain ⟨_, hnext, hdrop⟩ := Indexed.between?_eq_some_iff.mp hbetween
    rw [read?_eq_some_iff.mpr ⟨taken, hdrop, hwrites⟩]
    simp only [Indexed.placed, Option.map_some, Indexed.indexOf_drop hnext]

/-- The tokens of a source between two indices write the list. -/
def WrittenBetween (source : String) (opening next : Nat) (l : AttributeList) : Prop :=
  ∃ taken, Indexed.between? (Token.tokenize source) opening next = some taken ∧
    Writes source.toList taken l

/-- At every index of a source, the list that is read and the index behind it are those that the
grammar derives, and it derives at most one list there. -/
theorem read?_drop_iff_writtenBetween (source : String) (opening : Nat) :
    (∀ l next,
      Indexed.placed (Token.tokenize source)
          (read? source.toList ((Token.tokenize source).drop opening)) = some (l, next) ↔
        WrittenBetween source opening next l) ∧
      {p : AttributeList × Nat | WrittenBetween source opening p.2 p.1}.Subsingleton := by
  refine ⟨fun l next => placed_read?_eq_some_iff, fun p hp q hq => ?_⟩
  have hreadp := placed_read?_eq_some_iff.mpr hp
  have hreadq := placed_read?_eq_some_iff.mpr hq
  exact Option.some.inj (hreadp.symm.trans hreadq)

end AttributeList

end AttributeLint
