import AttributeLint.Proofs.Token.Layout
import AttributeLint.Proofs.Token.Restart
import AttributeLint.Proofs.Usage.Confinement
import AttributeLint.Proofs.Usage.Relocation
import Mathlib.Data.List.TakeWhile

/-!
# ByteOrderMark — sources behind a byte order mark

A byte order mark is no white space, so it is a token of its own at the start of a source, like an
operator, and nothing may begin behind it. Of a source that begins with a directive, this line is
read as code then (`tokenize_marked_directive`); the tokens of other sources are only further on
(`tokenize_marked`). Attribute lists at the very start of such a source are not found, and what
stands behind them is (`ofSource_marked_run`).
-/

namespace AttributeLint

open Text

/-! ## Tokens -/

namespace Token

/-- The source behind a byte order mark. -/
def marked (source : String) : String :=
  "\ufeff" ++ source

/-- The token of a byte order mark. -/
def markToken : Token :=
  { kind := .other, text := "\ufeff", start := 0 }

/-- The text begins with a directive, perhaps behind white space on its line. -/
def BeginsDirective (cs : List Char) : Prop :=
  ∃ blanks more, cs = blanks ++ '#' :: more ∧ ∀ c ∈ blanks, isBlank c ∧ c ≠ '\n'

variable {c : Char} {cs blanks more : List Char}

theorem beginsDirective_iff :
    BeginsDirective cs ↔ (cs.dropWhile fun c => isBlank c && c ≠ '\n').head? = some '#' := by
  constructor
  · rintro ⟨blanks, more, rfl, hblanks⟩
    rw [List.dropWhile_append_of_pos (by simpa using hblanks),
      List.dropWhile_cons_of_neg (by decide)]
    rfl
  · intro hhead
    obtain ⟨more, hmore⟩ := List.head?_eq_some_iff.mp hhead
    refine ⟨cs.takeWhile fun c => isBlank c && c ≠ '\n', more, ?_, ?_⟩
    · rw [← hmore, List.takeWhile_append_dropWhile]
    · intro c hc
      simpa using List.mem_takeWhile_imp hc

instance (cs : List Char) : Decidable (BeginsDirective cs) :=
  decidable_of_iff _ beginsDirective_iff.symm

theorem scan_mark (cs : List Char) : scan '\ufeff' cs = .single .other '\ufeff' cs := by
  have hstart : isIdentStart '\ufeff' = false := by decide +kernel
  have hdigit : '\ufeff'.isDigit = false := by decide
  simp [scan, hstart, hdigit, punctuation, Kind.ofChar]

/-- The mark is a token, and behind it the line has begun. -/
theorem tokenize_marked_eq (source : String) :
    tokenize (marked source) = markToken :: place 3 (pieces false source.toList) := by
  have htext : (marked source).toList = '\ufeff' :: source.toList := String.toList_append
  rw [tokenize, htext, pieces_eq_scan true _ (by decide) (by decide) (by decide), scan_mark]
  rfl

theorem keepsLineStart_nextPiece (hblank : ¬ isBlank c) (hhash : c ≠ '#') (cs : List Char)
    (lineStart lineStart' : Bool) :
    (nextPiece lineStart c cs).value.keepsLineStart lineStart' = false := by
  have hfeed : c ≠ '\n' := by
    rintro rfl
    exact hblank (by decide)
  rw [nextPiece, if_neg hfeed, if_neg hblank, if_neg fun h => hhash h.1]
  split
  · rfl
  split
  · rfl
  · rfl

/-- Only a directive is read differently where the line has begun. -/
theorem pieces_true_eq (h : ¬ BeginsDirective cs) : pieces true cs = pieces false cs := by
  induction cs with
  | nil => rw [pieces, pieces]
  | cons c cs ih =>
    have hhash : c ≠ '#' := by
      rintro rfl
      exact h ⟨[], cs, rfl, by simp⟩
    rw [pieces, pieces, nextPiece_eq_of_ne_hash hhash true false]
    by_cases hfeed : c = '\n'
    · subst hfeed
      rfl
    by_cases hblank : isBlank c
    · have hnext : nextPiece false c cs = .single (.trivia .blank) c cs := by
        rw [nextPiece, if_neg hfeed, if_pos hblank]
      have hrest : ¬ BeginsDirective cs := by
        rintro ⟨blanks, more, rfl, hblanks⟩
        exact h ⟨c :: blanks, more, rfl, List.forall_mem_cons.mpr ⟨⟨hblank, hfeed⟩, hblanks⟩⟩
      rw [hnext]
      exact congrArg _ (ih hrest)
    · rw [keepsLineStart_nextPiece hblank hhash, keepsLineStart_nextPiece hblank hhash]

/-- Behind the mark, the tokens of a source that does not begin with a directive are those of the
source, three bytes further on. -/
theorem tokenize_marked {source : String} (h : ¬ BeginsDirective source.toList) :
    tokenize (marked source) = markToken :: (tokenize source).map (shift 3) := by
  rw [tokenize_marked_eq, ← pieces_true_eq h, tokenize, ← place_add]

theorem place_pieces_blanks (hblanks : ∀ c ∈ blanks, isBlank c ∧ c ≠ '\n') (lineStart : Bool)
    (offset : Nat) (more : List Char) :
    place offset (pieces lineStart (blanks ++ more)) =
      place (offset + width blanks) (pieces lineStart more) := by
  induction blanks generalizing offset with
  | nil => rfl
  | cons c blanks ih =>
    obtain ⟨⟨hblank, hfeed⟩, hblanks⟩ := List.forall_mem_cons.mp hblanks
    have hnext : nextPiece lineStart c (blanks ++ more) =
        { value := .trivia .blank, text := [c], rest := blanks ++ more } := by
      rw [nextPiece, if_neg hfeed, if_pos hblank]
      rfl
    rw [List.cons_append, pieces_eq_cons hnext, place_trivia, Piece.Role.keepsLineStart,
      ih hblanks, Nat.add_assoc, ← width_append]
    rfl

/-- Behind the mark, a directive is no trivia any more: its `#` is a token, and the rest of its line
is read as code. -/
theorem tokenize_marked_directive {source : String}
    (hsource : source.toList = blanks ++ '#' :: more)
    (hblanks : ∀ c ∈ blanks, isBlank c ∧ c ≠ '\n') :
    tokenize source = place (width blanks + width ('#' :: more.takeWhile isWithinLine))
        (pieces true (more.dropWhile isWithinLine)) ∧
      tokenize (marked source) =
        markToken :: { kind := .other, text := "#", start := 3 + width blanks } ::
          place (3 + width blanks + 1) (pieces false more) := by
  have hdirective : nextPiece true '#' more = .run (.trivia .directive) isWithinLine '#' more := rfl
  have htoken : nextPiece false '#' more = .single (.token .other) '#' more := rfl
  constructor
  · rw [tokenize, hsource, place_pieces_blanks hblanks, pieces_eq_cons hdirective, place_trivia,
      Nat.zero_add]
    rfl
  · rw [tokenize_marked_eq, hsource, place_pieces_blanks hblanks, pieces_eq_cons htoken,
      place_token]
    rfl

end Token

/-! ## The lists at the start -/

open Token Attribute AttributeList

variable {source : List Char} {t : Token} {ts rest : List Token} {l : AttributeList}
  {lists : List AttributeList}

/-- The tokens end a list that was opened in front of them: all of them, and all that end them,
close more brackets than they open. -/
structure EndsList (ts : List Token) : Prop where
  last : ∃ t, ts.getLast? = some t ∧ t.kind = .rBracket
  open_lt : ∀ us, us <:+ ts → us ≠ [] → openings us < closings us

namespace EndsList

theorem ne_nil (h : EndsList ts) : ts ≠ [] := by
  rintro rfl
  obtain ⟨t, hlast, _⟩ := h.last
  cases hlast

theorem of_suffix (h : EndsList ts) {us : List Token} (hus : us <:+ ts) (hne : us ≠ []) :
    EndsList us where
  last := by
    obtain ⟨taken, rfl⟩ := hus
    obtain ⟨t, hlast, ht⟩ := h.last
    exact ⟨t, by rwa [List.getLast?_append_of_ne_nil _ hne] at hlast, ht⟩
  open_lt vs hvs := h.open_lt vs (hvs.trans hus)

end EndsList

/-- What stands behind the opening bracket of a list ends the list. -/
theorem endsList_of_balanced {inner : List Token} {closing : Token} (h : Balanced 0 inner)
    (hclosing : closing.kind = .rBracket) : EndsList (inner ++ [closing]) where
  last := ⟨closing, List.getLast?_concat, hclosing⟩
  open_lt us hus hne := by
    obtain rfl | ⟨us, rfl, taken, rfl⟩ := List.suffix_concat_iff.mp hus
    · exact absurd rfl hne
    · have hnested := h.nested taken (List.prefix_append taken us)
      have hsettled := h.settled
      have hlast : closings [closing] = 1 ∧ openings [closing] = 0 := by
        simp [closings_cons, openings_cons, hclosing, Kind.opens, Kind.closes]
      rw [openings_append, closings_append] at hsettled
      rw [openings_append, closings_append]
      omega

/-- A list that begins inside another one ends inside it, and behind that one nothing may begin. -/
theorem confines_endsList (source : List Char) : Confines source .inside EndsList where
  ne_nil _ hends := hends.ne_nil
  list ts us l rest' hends hlist := by
    obtain ⟨taken, htaken, hbalanced⟩ := hlist.balanced
    have hmore := hends.open_lt ts List.suffix_rfl hends.ne_nil
    rcases List.append_eq_append_iff.mp htaken with ⟨more, rfl, _⟩ | ⟨rest, rfl, rfl⟩
    -- the list would close a bracket that is opened in front of it
    · have hnested := hbalanced.nested ts (List.prefix_append ts more)
      omega
    · refine ⟨rest, rfl, hends.of_suffix (List.suffix_append taken rest) ?_⟩
      rintro rfl
      have hsettled := hbalanced.settled
      rw [List.append_nil] at hmore
      omega
  token t ts hends := by
    cases ts with
    | nil =>
      obtain ⟨u, hlast, hu⟩ := hends.last
      obtain rfl : t = u := Option.some.inj hlast
      exact .inl ⟨rfl, by rw [Boundary.after, hu]⟩
    | cons u ts => exact .inr (hends.of_suffix (List.suffix_cons t _) (List.cons_ne_nil u ts))

namespace Usage

/-- Where nothing may begin, a token is passed over. -/
theorem collectFrom_inside_cons (source : List Char) (t : Token) (ts : List Token) :
    collectFrom source .inside [] (t :: ts) = collectFrom source (.after t) [] ts := by
  have hread : readAt? source .inside (t :: ts) = none := by
    unfold readAt?
    split <;> rfl
  rw [collectFrom_cons, hread]
  rfl

/-- A list that may not stand where it does is read token by token, and nothing may begin behind
it. -/
theorem collectFrom_inside_list (h : ListAt source ts l rest) :
    ∃ taken, ts = taken ++ rest ∧ ∀ us, collectFrom source .inside [] (taken ++ us) =
      collectFrom source .inside [] taken ++ collectFrom source .inside [] us := by
  obtain ⟨opening, inner, closing, rfl, hopening, hinner, hclosing⟩ := h.exists_inner
  have hafter : Boundary.after opening = .inside := by rw [Boundary.after, hopening]
  refine ⟨opening :: (inner ++ [closing]), by simp, fun us => ?_⟩
  rw [List.cons_append, collectFrom_inside_cons, collectFrom_inside_cons, hafter]
  exact (confines_endsList source).collectFrom_append (endsList_of_balanced hinner hclosing)
    .inside [] us

theorem collectFrom_inside_run (h : Run source ts lists rest) :
    ∃ front, ts = front ++ rest ∧ ∀ us, collectFrom source .inside [] (front ++ us) =
      collectFrom source .inside [] front ++ collectFrom source .inside [] us := by
  induction h with
  | last hlist _ => exact collectFrom_inside_list hlist
  | cons hlist _ ih =>
    obtain ⟨taken, rfl, htaken⟩ := collectFrom_inside_list hlist
    obtain ⟨front, rfl, hfront⟩ := ih
    refine ⟨taken ++ front, (List.append_assoc _ _ _).symm, fun us => ?_⟩
    rw [List.append_assoc, htaken, hfront, htaken, List.append_assoc]

/-- Where no list stands, it makes no difference that one could. -/
theorem collectFrom_declaration_eq_inside (h : NoListAt source ts) :
    collectFrom source .declaration [] ts = collectFrom source .inside [] ts := by
  cases ts with
  | nil => rw [collectFrom, collectFrom]
  | cons t ts =>
    rw [collectFrom_cons, readAt?_of_noListAt h, collectFrom_inside_cons]
    rfl

/-! ## Usages -/

/-- The same usage some bytes further on. -/
def further (n : Nat) (u : Usage) : Usage :=
  { u with targetStart := u.targetStart + n }

/-- Behind a mark usages are found where nothing may begin yet. -/
theorem ofSource_marked_eq (source : String) :
    ofSource (marked source) =
      collectFrom (marked source).toList .inside [] (place 3 (pieces false source.toList)) := by
  have hmark (ts : List Token) : readAt? (marked source).toList .declaration (markToken :: ts) =
      none := readAt?_of_ne _ _ Kind.noConfusion _
  rw [ofSource, collect, tokenize_marked_eq, collectFrom_cons, hmark]
  rfl

theorem ofSource_marked {source : String} (h : ¬ BeginsDirective source.toList) :
    ofSource (marked source) =
      (collectFrom source.toList .inside [] (tokenize source)).map (further 3) := by
  have hmap := (Relocation.behind ['\ufeff'] source.toList).collectFrom_map .inside .nil
    (tokenize source)
  rw [funext (Relocation.mapUsage_behind _ source.toList)] at hmap
  have htext : (marked source).toList = ['\ufeff'] ++ source.toList := String.toList_append
  have htokens : place 3 (pieces false source.toList) = (tokenize source).map (shift 3) := by
    rw [← pieces_true_eq h, tokenize, ← place_add]
  rw [ofSource_marked_eq, htokens, htext]
  exact hmap

/-- Of a source that begins with no list and no directive, the same usages are found behind a
mark. -/
theorem ofSource_marked_of_noListAt {source : String} (h : ¬ BeginsDirective source.toList)
    (hnone : NoListAt source.toList (tokenize source)) :
    ofSource (marked source) = (ofSource source).map (further 3) := by
  rw [ofSource_marked h, ofSource, collect, collectFrom_declaration_eq_inside hnone]

/-- The attributes of lists at the start are not found behind a mark. What may stand inside their
brackets is found instead, and all that stands behind them is found as before. -/
theorem ofSource_marked_run {source : String} (h : ¬ BeginsDirective source.toList)
    (hrun : Run source.toList (tokenize source) lists rest) :
    ∃ front, tokenize source = front ++ rest ∧
      ofSource source =
        (if rest = [] then [] else AttributeList.usages (lists.filter (!·.isGlobal))) ++
          collectFrom source.toList .inside [] rest ∧
      ofSource (marked source) =
        (collectFrom source.toList .inside [] front ++
          collectFrom source.toList .inside [] rest).map (further 3) := by
  obtain ⟨front, hfront, hinside⟩ := collectFrom_inside_run hrun
  refine ⟨front, hfront, ?_, ?_⟩
  · rw [ofSource, collect]
    cases rest with
    | nil =>
      rw [collectFrom_declaration_run hrun, collectFrom, collectFrom, if_pos rfl, List.append_nil]
    | cons t rest =>
      rw [collectFrom_declaration_run_behind hrun (List.cons_ne_nil t rest),
        collectFrom_declaration_eq_inside hrun.noListAt, if_neg (List.cons_ne_nil t rest)]
  · rw [ofSource_marked h, hfront, hinside]

end Usage

end AttributeLint
