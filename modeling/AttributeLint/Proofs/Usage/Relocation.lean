import AttributeLint.Proofs.Attribute.Remainder
import AttributeLint.Proofs.Usage.Steps
import Mathlib.Data.List.Forall2

/-!
# Relocation — the same tokens in another source

What is read from tokens depends on their kinds and texts. Where they stand is only passed on, as
the place of a usage, and what stands between them shows only in the text of a value that is not a
constant string. So when tokens are put into another source, what is read from them changes in these
two respects and in no other (`collectFrom_map`).
-/

namespace AttributeLint

open Text

theorem Text.slice_nil (start stop : Nat) : slice [] start stop = [] := by
  have htake (n : Nat) : takeBytes n [] = [] := by cases n <;> rfl
  have hdrop (n : Nat) : dropBytes n [] = [] := by cases n <;> rfl
  rw [slice, hdrop, htake]

/-- Tokens of one source put into another: where they start, and how values are written there. -/
structure Relocation (source source' : List Char) where
  start : Nat → Nat
  spelling : String → String
  spelling_slice : ∀ first last : Token,
    spelling (String.ofList (slice source first.start last.stop)) =
      String.ofList (slice source' (start first.start) (start last.start + width last.text.toList))

namespace Relocation

variable {source source' : List Char} (r : Relocation source source')

def mapToken (t : Token) : Token :=
  { t with start := r.start t.start }

def mapValue : Argument.Value → Argument.Value
  | .string text => .string text
  | .other text => .other (r.spelling text)

def mapArgument (a : Argument) : Argument :=
  { a with value := r.mapValue a.value }

def mapAttribute (a : Attribute) : Attribute :=
  { a with arguments := a.arguments.map r.mapArgument }

def mapUsage (u : Usage) : Usage :=
  { name := u.name, targetStart := r.start u.targetStart
    arguments := u.arguments.map r.mapArgument }

@[simp] theorem mapToken_kind (t : Token) : (r.mapToken t).kind = t.kind := rfl

@[simp] theorem mapToken_text (t : Token) : (r.mapToken t).text = t.text := rfl

/-- A source behind another text: everything stands further on, and nothing is written anew. -/
def behind (front source : List Char) : Relocation source (front ++ source) where
  start offset := offset + width front
  spelling := id
  spelling_slice first last := by
    have hlength : last.start + width front + width last.text.toList - (first.start + width front) =
        last.stop - first.start := by
      rw [Token.stop]
      omega
    rw [slice, slice, hlength, dropBytes_add_width]
    rfl

/-! ## Attributes -/

theorem nameTail?_map (ts : List Token) :
    Attribute.nameTail? (ts.map r.mapToken) =
      (Attribute.nameTail? ts).map (Prod.map id (List.map r.mapToken)) := by
  fun_induction Attribute.nameTail? ts with
  | case1 separator part ts hmark => simp [Attribute.nameTail?, hmark]
  | case2 separator part ts mark hmark hpart ih =>
    simp [Attribute.nameTail?, hmark, hpart, ih, Function.comp_def]
  | case3 separator part ts mark hmark hpart => simp [Attribute.nameTail?, hmark, hpart]
  | case4 ts hshort =>
    match ts with
    | [] => rfl
    | [t] => rfl
    | separator :: part :: ts => exact (hshort separator part ts rfl).elim

theorem name?_map (ts : List Token) :
    Attribute.name? (ts.map r.mapToken) =
      (Attribute.name? ts).map (Prod.map id (List.map r.mapToken)) := by
  cases ts with
  | nil => rfl
  | cons t ts =>
    rw [List.map_cons, Attribute.name?, Attribute.name?, mapToken_kind, r.nameTail?_map]
    split
    · simp [Function.comp_def]
    · rfl

theorem enclosed?_map (depth : Nat) (ts : List Token) :
    Attribute.enclosed? depth (ts.map r.mapToken) =
      (Attribute.enclosed? depth ts).map
        (Prod.map (List.map r.mapToken) (List.map r.mapToken)) := by
  fun_induction Attribute.enclosed? depth ts with
  | case1 => rfl
  | case2 depth t ts hopens ih =>
    simp [Attribute.enclosed?, hopens, ih, Function.comp_def]
  | case6 depth t ts hopens hcloses hzero hone ih =>
    simp [Attribute.enclosed?, hopens, hcloses, hzero, hone, ih, Function.comp_def]
  | case8 depth t ts hopens hcloses hsemicolon ih =>
    simp [Attribute.enclosed?, hopens, hcloses, hsemicolon, ih, Function.comp_def]
  | _ => simp_all [Attribute.enclosed?]

theorem splitAtCommas_map (depth : Nat) (ts : List Token) :
    Attribute.splitAtCommas depth (ts.map r.mapToken) =
      (Attribute.splitAtCommas depth ts).map (List.map r.mapToken) := by
  induction ts generalizing depth with
  | nil => rfl
  | cons t ts ih =>
    by_cases hcomma : t.kind = .comma ∧ depth = 0
    · simp [Attribute.splitAtCommas, hcomma.1, hcomma.2, ih]
    · have hcomma' : ¬((r.mapToken t).kind = .comma ∧ depth = 0) := hcomma
      have hdepth : Attribute.depthAfter depth (r.mapToken t) = Attribute.depthAfter depth t := rfl
      rw [List.map_cons, Attribute.splitAtCommas_cons hcomma',
        Attribute.splitAtCommas_cons hcomma, hdepth, ih]
      cases Attribute.splitAtCommas (Attribute.depthAfter depth t) ts <;> rfl

theorem constant?_map (ts : List Token) :
    Attribute.constant? (ts.map r.mapToken) = Attribute.constant? ts := by
  fun_induction Attribute.constant? ts with
  | case1 => rfl
  | case2 t => rfl
  | case3 t plus ts htext => simp [Attribute.constant?, htext]
  | case4 t plus ts text htext hplus ih =>
    have hplus' : Attribute.isPlus (r.mapToken plus) := hplus
    simp [Attribute.constant?, htext, hplus', ih]
  | case5 t plus ts text htext hplus =>
    have hplus' : ¬ Attribute.isPlus (r.mapToken plus) := hplus
    simp [Attribute.constant?, htext, hplus']

theorem value?_map (ts : List Token) :
    Attribute.value? source' (ts.map r.mapToken) =
      (Attribute.value? source ts).map r.mapValue := by
  cases ts with
  | nil => rfl
  | cons t ts =>
    have hconstant := r.constant?_map (t :: ts)
    rw [List.map_cons] at hconstant ⊢
    rw [Attribute.value?, Attribute.value?, hconstant]
    cases Attribute.constant? (t :: ts) with
    | some text => rfl
    | none =>
      have hlast : ((t :: ts).map r.mapToken).getLast (by simp) =
          r.mapToken ((t :: ts).getLast (by simp)) := List.getLast_map (by simp)
      have hvalue := r.spelling_slice t ((t :: ts).getLast (by simp))
      dsimp only [Option.map_some, mapValue]
      rw [hvalue]
      simp only [List.map_cons] at hlast
      rw [hlast]
      rfl

theorem binding_map (ts : List Token) :
    Attribute.binding (ts.map r.mapToken) =
      Prod.map id (List.map r.mapToken) (Attribute.binding ts) := by
  match ts with
  | [] => rfl
  | [t] => rfl
  | name :: mark :: ts =>
    by_cases hproperty : name.kind = .ident ∧ mark.kind = .equals
    · simp [Attribute.binding, hproperty]
    by_cases hconstructor : name.kind = .ident ∧ mark.kind = .colon
    · simp [Attribute.binding, hconstructor]
    · simp [Attribute.binding, hproperty, hconstructor]

theorem argument?_map (ts : List Token) :
    Attribute.argument? source' (ts.map r.mapToken) =
      (Attribute.argument? source ts).map r.mapArgument := by
  rw [Attribute.argument?, Attribute.argument?, r.binding_map, Prod.map_snd, r.value?_map]
  simp [Function.comp_def, mapArgument]

theorem arguments?_map (body : List Token) :
    Attribute.arguments? source' (body.map r.mapToken) =
      (Attribute.arguments? source body).map (List.map r.mapArgument) := by
  have hmapM (groups : List (List Token)) :
      (groups.map (List.map r.mapToken)).mapM (Attribute.argument? source') =
        (groups.mapM (Attribute.argument? source)).map (List.map r.mapArgument) := by
    induction groups with
    | nil => rfl
    | cons group groups ih =>
      rw [List.map_cons, List.mapM_cons, List.mapM_cons, r.argument?_map, ih]
      cases Attribute.argument? source group with
      | none => rfl
      | some a => cases groups.mapM (Attribute.argument? source) <;> rfl
  rw [Attribute.arguments?, Attribute.arguments?, List.isEmpty_map, r.splitAtCommas_map, hmapM]
  split
  · rfl
  · rfl

theorem read?_map (ts : List Token) :
    Attribute.read? source' (ts.map r.mapToken) =
      (Attribute.read? source ts).map (Prod.map r.mapAttribute (List.map r.mapToken)) := by
  rw [Attribute.read?, Attribute.read?, r.name?_map]
  cases Attribute.name? ts with
  | none => rfl
  | some reading =>
    obtain ⟨name, rest⟩ := reading
    cases rest with
    | nil => rfl
    | cons t rest =>
      simp only [Option.map_some, Prod.map_apply, List.map_cons, mapToken_kind, r.enclosed?_map]
      split
      · cases Attribute.enclosed? 1 rest with
        | none => rfl
        | some enclosed =>
          obtain ⟨body, after⟩ := enclosed
          simp [r.arguments?_map, Function.comp_def, mapAttribute]
      · rfl

/-! ## Lists -/

/-- The list `l'` is `l` in the other source, wherever it ends there. -/
structure Carries (l l' : AttributeList) : Prop where
  start : l'.start = r.start l.start
  target : l'.target = l.target
  attributes : l'.attributes = l.attributes.map r.mapAttribute

/-- In both sources nothing was read, or what was read is related and the same tokens follow. -/
inductive Agree {α : Type} (related : α → α → Prop) :
    Option (α × List Token) → Option (α × List Token) → Prop where
  | none : Agree related none none
  | some {x y : α} {rest : List Token} :
      related x y → Agree related (some (x, rest)) (some (y, rest.map r.mapToken))

theorem splitTarget_map (ts : List Token) :
    AttributeList.splitTarget (ts.map r.mapToken) =
      Prod.map id (List.map r.mapToken) (AttributeList.splitTarget ts) := by
  match ts with
  | [] => rfl
  | [t] => rfl
  | name :: colon :: ts =>
    by_cases htarget : name.kind = .ident ∧ colon.kind = .colon
    · simp [AttributeList.splitTarget, htarget]
    · simp [AttributeList.splitTarget, htarget]

theorem attributes?_map (ts : List Token) :
    AttributeList.attributes? source' (ts.map r.mapToken) =
      (AttributeList.attributes? source ts).map
        (Prod.map (List.map r.mapAttribute) (Prod.map r.mapToken (List.map r.mapToken))) := by
  fun_induction AttributeList.attributes? source ts with
  | case1 ts hread =>
    rw [AttributeList.attributes?_eq, r.read?_map, hread]
    rfl
  | case2 ts a hread =>
    rw [AttributeList.attributes?_eq, r.read?_map, hread]
    rfl
  | case3 ts a t rest hread ht =>
    rw [AttributeList.attributes?_eq, r.read?_map, hread]
    simp [ht]
  | case4 ts a t ht hcomma hread =>
    rw [AttributeList.attributes?_eq, r.read?_map, hread]
    simp [hcomma]
  | case5 ts a t ht hcomma u rest hread hu =>
    rw [AttributeList.attributes?_eq, r.read?_map, hread]
    simp [hcomma, hu]
  | case6 ts a t ht hcomma u rest hread hu hlength ih =>
    rw [AttributeList.attributes?_eq, r.read?_map, hread]
    rw [List.map_cons] at ih
    simp [hcomma, hu, ih, Function.comp_def]
  | case7 ts a t rest hread ht hcomma =>
    rw [AttributeList.attributes?_eq, r.read?_map, hread]
    simp [ht, hcomma]

theorem agree_list_read? (ts : List Token) :
    r.Agree r.Carries (AttributeList.read? source ts)
      (AttributeList.read? source' (ts.map r.mapToken)) := by
  cases ts with
  | nil => exact .none
  | cons opening ts =>
    rw [List.map_cons, AttributeList.read?, AttributeList.read?, r.splitTarget_map, Prod.map_snd,
      r.attributes?_map]
    cases AttributeList.attributes? source (AttributeList.splitTarget ts).2 with
    | none => exact .none
    | some reading => exact .some ⟨rfl, rfl, rfl⟩

theorem startsHere_map (ts : List Token) :
    AttributeList.startsHere (ts.map r.mapToken) = AttributeList.startsHere ts := by
  cases ts <;> rfl

theorem agree_readRun? (ts : List Token) :
    r.Agree (List.Forall₂ r.Carries) (AttributeList.readRun? source ts)
      (AttributeList.readRun? source' (ts.map r.mapToken)) := by
  fun_induction AttributeList.readRun? source ts with
  | case1 =>
    rw [List.map_nil, AttributeList.readRun?]
    exact .none
  | case2 t ts ht hread =>
    have hlist := r.agree_list_read? (t :: ts)
    rw [hread, List.map_cons] at hlist
    rw [List.map_cons, AttributeList.readRun?_cons, mapToken_kind, if_pos ht]
    generalize AttributeList.read? source' (r.mapToken t :: ts.map r.mapToken) = reading'
      at hlist ⊢
    cases hlist
    exact .none
  | case3 t ts ht l rest hread ih =>
    have hlist := r.agree_list_read? (t :: ts)
    rw [hread, List.map_cons] at hlist
    rw [List.map_cons, AttributeList.readRun?_cons, mapToken_kind, if_pos ht]
    generalize AttributeList.read? source' (r.mapToken t :: ts.map r.mapToken) = reading'
      at hlist ⊢
    cases hlist with
    | some hl =>
      dsimp only
      generalize AttributeList.readRun? source rest = more,
        AttributeList.readRun? source' (rest.map r.mapToken) = more' at ih ⊢
      cases ih with
      | none => exact .none
      | some hls => exact .some (.cons hl hls)
  | case4 t ts ht hident =>
    rw [List.map_cons, AttributeList.readRun?_cons, mapToken_kind, if_neg ht, if_pos hident]
    exact .some .nil
  | case5 t ts ht hident =>
    rw [List.map_cons, AttributeList.readRun?_cons, mapToken_kind, if_neg ht, if_neg hident]
    exact .none

theorem agree_readAt? (boundary : Boundary) (ts : List Token) :
    r.Agree (List.Forall₂ r.Carries) (AttributeList.readAt? source boundary ts)
      (AttributeList.readAt? source' boundary (ts.map r.mapToken)) := by
  simp only [AttributeList.readAt?, r.startsHere_map]
  cases AttributeList.startsHere ts with
  | false => exact .none
  | true =>
    cases boundary with
    | declaration =>
      have hlist := r.agree_list_read? ts
      generalize AttributeList.read? source ts = reading,
        AttributeList.read? source' (ts.map r.mapToken) = reading' at hlist ⊢
      cases hlist with
      | none => exact .none
      | some hl => exact .some (.cons hl .nil)
    | member => exact r.agree_readRun? ts
    | inside => exact .none

/-! ## Usages -/

theorem usages_map {ls ls' : List AttributeList} (h : List.Forall₂ r.Carries ls ls') :
    AttributeList.usages ls' = (AttributeList.usages ls).map r.mapUsage := by
  have hattached (start : Nat) {ls ls' : List AttributeList} (h : List.Forall₂ r.Carries ls ls') :
      (ls'.flatMap fun l => l.attributes.map fun a =>
        ({ name := a.name, targetStart := r.start start, arguments := a.arguments } : Usage)) =
      (ls.flatMap fun l => l.attributes.map fun a =>
        ({ name := a.name, targetStart := start, arguments := a.arguments } : Usage)).map
          r.mapUsage := by
    induction h with
    | nil => rfl
    | cons hl _ ih =>
      rw [List.flatMap_cons, List.flatMap_cons, List.map_append, ih, hl.attributes]
      simp [Function.comp_def, mapUsage, mapAttribute]
  cases h with
  | nil => rfl
  | cons hl hls =>
    rw [AttributeList.usages, AttributeList.usages, hl.start]
    exact hattached _ (.cons hl hls)

theorem filter_isGlobal {ls ls' : List AttributeList} (h : List.Forall₂ r.Carries ls ls') :
    List.Forall₂ r.Carries (ls.filter (!·.isGlobal)) (ls'.filter (!·.isGlobal)) := by
  refine List.rel_filter (fun l l' hl => ?_) h
  simp only [AttributeList.isGlobal, hl.target]

/-- The same usages are found in both sources. -/
theorem collectFrom_map (boundary : Boundary) {pending pending' : List AttributeList}
    (hpending : List.Forall₂ r.Carries pending pending') (ts : List Token) :
    Usage.collectFrom source' boundary pending' (ts.map r.mapToken) =
      (Usage.collectFrom source boundary pending ts).map r.mapUsage := by
  fun_induction Usage.collectFrom source boundary pending ts generalizing pending' with
  | case1 =>
    rw [List.map_nil, Usage.collectFrom]
    rfl
  | case2 boundary pending t ts lists rest hread ih =>
    have hlists := r.agree_readAt? boundary (t :: ts)
    rw [hread, List.map_cons] at hlists
    rw [List.map_cons, Usage.collectFrom_cons]
    generalize AttributeList.readAt? source' boundary (r.mapToken t :: ts.map r.mapToken) = reading'
      at hlists ⊢
    cases hlists with
    | some hls => exact ih (List.rel_append hpending (r.filter_isGlobal hls))
  | case3 boundary pending t ts hread ih =>
    have hlists := r.agree_readAt? boundary (t :: ts)
    rw [hread, List.map_cons] at hlists
    rw [List.map_cons, Usage.collectFrom_cons]
    generalize AttributeList.readAt? source' boundary (r.mapToken t :: ts.map r.mapToken) = reading'
      at hlists ⊢
    cases hlists
    dsimp only
    rw [List.map_append, r.usages_map hpending]
    exact congrArg (_ ++ ·) (ih .nil)

/-- A usage behind a text is only further on. -/
theorem mapUsage_behind (front source : List Char) (u : Usage) :
    (behind front source).mapUsage u =
      { u with targetStart := u.targetStart + width front } := by
  have hargument : (behind front source).mapArgument = id := by
    funext a
    obtain ⟨binding, value⟩ := a
    cases value <;> rfl
  rw [mapUsage, hargument, List.map_id]
  rfl

end Relocation

end AttributeLint
