import AttributeLint.Proofs.Token.DecodedLength
import AttributeLint.Proofs.Usage.Stretches

/-!
# Extent — how far the strings of a usage reach

The string of an argument is written by tokens between the brackets of its list, and these tokens
are longer than the string. So the target of a usage, which is no later than the list, and as many
bytes behind it as the string has characters, are still in front of the end of the list
(`Usage.IsOf.fits`), and with it inside the source (`Usage.fits_of_mem_ofSource`).
-/

namespace AttributeLint

open Text Token

/-! ## Tokens between two offsets -/

/-- The tokens stand one after the other between two offsets, none of them is empty, and every
constant string is longer than its value by the quotes. -/
structure Spread (start stop : Nat) (ts : List Token) : Prop where
  ordered : ts.Pairwise fun t u => t.stop ≤ u.start
  start_lt_stop : ∀ t ∈ ts, t.start < t.stop
  start_le : ∀ t ∈ ts, start ≤ t.start
  stop_le : ∀ t ∈ ts, t.stop ≤ stop
  quoted : ∀ t ∈ ts, ∀ text, t.kind = .str text → t.start + text.length + 2 ≤ t.stop

theorem spread_tokenize (source : String) :
    Spread 0 (width source.toList) (tokenize source) where
  ordered := (tiles_tokenize source).ordered
  start_lt_stop := (tiles_tokenize source).start_lt_stop
  start_le _ _ := Nat.zero_le _
  stop_le := (tiles_tokenize source).stop_le_width
  quoted t ht text htext := by
    have := length_add_two_le_of_mem_tokenize ht htext
    rw [Token.stop]
    omega

namespace Spread

variable {start stop : Nat} {t : Token} {ts us : List Token}

theorem sublist (h : Spread start stop ts) (hsub : us.Sublist ts) : Spread start stop us where
  ordered := h.ordered.sublist hsub
  start_lt_stop t ht := h.start_lt_stop t (hsub.subset ht)
  start_le t ht := h.start_le t (hsub.subset ht)
  stop_le t ht := h.stop_le t (hsub.subset ht)
  quoted t ht := h.quoted t (hsub.subset ht)

/-- The tokens behind a token stand behind its end. -/
theorem of_cons (h : Spread start stop (t :: ts)) : Spread t.stop stop ts := by
  have hbehind := (List.pairwise_cons.mp h.ordered).1
  exact { h.sublist (List.sublist_cons_self t ts) with start_le := hbehind }

/-- The tokens in front of a token stand in front of its start. -/
theorem of_append_singleton (h : Spread start stop (ts ++ [t])) : Spread start t.start ts := by
  have hfront := (List.pairwise_append.mp h.ordered).2.2
  exact { h.sublist (List.sublist_append_left ts [t]) with
    stop_le := fun u hu => hfront u hu t List.mem_cons_self }

end Spread

/-! ## Strings of arguments -/

namespace Attribute

variable {source : List Char} {start stop : Nat} {ts : List Token} {text : String}

/-- A constant is written by tokens that are longer than the string it denotes. -/
theorem WritesConstant.length_add_two_le (h : WritesConstant ts text)
    (hspread : Spread start stop ts) : start + text.length + 2 ≤ stop := by
  induction h generalizing start with
  | @single t text ht =>
    have hstart := hspread.start_le t List.mem_cons_self
    have hstop := hspread.stop_le t List.mem_cons_self
    have hquoted := hspread.quoted t List.mem_cons_self text ht
    omega
  | @joined t plus ts text more ht _ _ _ ih =>
    have hstart := hspread.start_le t List.mem_cons_self
    have hquoted := hspread.quoted t List.mem_cons_self text ht
    -- the strings that follow are written behind the `+`
    have hplus : t.stop ≤ plus.stop := by
      have hbehind := hspread.of_cons.start_le plus List.mem_cons_self
      have hnonempty := hspread.start_lt_stop plus (List.mem_cons_of_mem t List.mem_cons_self)
      omega
    have hmore := ih hspread.of_cons.of_cons
    rw [String.length_append]
    omega

/-- The string `text` is written by some of the tokens. -/
def Contains (ts : List Token) (text : String) : Prop :=
  ∃ us, us.Sublist ts ∧ WritesConstant us text

theorem Contains.sublist {us : List Token} (h : Contains us text) (hsub : us.Sublist ts) :
    Contains ts text := by
  obtain ⟨vs, hvs, hwrites⟩ := h
  exact ⟨vs, hvs.trans hsub, hwrites⟩

theorem exists_mem_of_forall₂ {α β : Type} {related : α → β → Prop} {xs : List α} {ys : List β}
    (h : List.Forall₂ related xs ys) {y : β} (hy : y ∈ ys) : ∃ x ∈ xs, related x y := by
  induction h with
  | nil => cases hy
  | @cons x y' xs ys hfirst _ ih =>
    rcases List.mem_cons.mp hy with rfl | hy
    · exact ⟨x, List.mem_cons_self, hfirst⟩
    · obtain ⟨x', hx', hrelated⟩ := ih hy
      exact ⟨x', List.mem_cons_of_mem x hx', hrelated⟩

theorem WritesArgument.contains {argument : Argument} (h : WritesArgument source ts argument)
    (htext : argument.value = .string text) : Contains ts text := by
  have hvalue {ts : List Token} {value : Argument.Value} (h : WritesValue source ts value)
      (htext : value = .string text) : Contains ts text := by
    cases h with
    | string hconstant =>
      cases htext
      exact ⟨ts, List.Sublist.refl ts, hconstant⟩
    | other => cases htext
  cases h with
  | positional _ h => exact hvalue h htext
  | property _ _ h | constructor _ _ h =>
    exact (hvalue h htext).sublist ((List.sublist_cons_self _ _).trans (List.sublist_cons_self _ _))

theorem WritesArguments.contains {arguments : List Argument}
    (h : WritesArguments source ts arguments) {argument : Argument}
    (hargument : argument ∈ arguments) (htext : argument.value = .string text) :
    Contains ts text := by
  cases h with
  | none => cases hargument
  | groups _ _ hdivided hforall =>
    obtain ⟨group, hgroup, hwrites⟩ := exists_mem_of_forall₂ hforall hargument
    exact (hwrites.contains htext).sublist (hdivided.sublist group hgroup)

theorem Writes.contains {a : Attribute} (h : Writes source ts a) {argument : Argument}
    (hargument : argument ∈ a.arguments) (htext : argument.value = .string text) :
    Contains ts text := by
  cases h with
  | name _ => cases hargument
  | @call ts body opening closing name arguments _ _ hbody _ =>
    have hsub : body.Sublist (ts ++ opening :: (body ++ [closing])) :=
      (List.sublist_append_left body [closing]).trans ((List.sublist_cons_self opening _).trans
        (List.sublist_append_right ts _))
    exact (hbody.contains hargument htext).sublist hsub

end Attribute

/-! ## Lists -/

namespace AttributeList

open Attribute (Contains)

variable {source : List Char} {start stop : Nat} {ts taken rest : List Token} {l : AttributeList}
  {lists : List AttributeList} {text : String}

/-- Each attribute of a list is written by some of the tokens. -/
theorem WritesAttributes.exists_writes {as : List Attribute} (h : WritesAttributes source ts as)
    {a : Attribute} (ha : a ∈ as) : ∃ us, us.Sublist ts ∧ Attribute.Writes source us a := by
  induction h with
  | last h =>
    cases List.mem_singleton.mp ha
    exact ⟨_, List.Sublist.refl _, h⟩
  | lastComma h _ =>
    cases List.mem_singleton.mp ha
    exact ⟨_, List.sublist_append_left _ _, h⟩
  | @cons ts us comma _ _ h _ _ ih =>
    rcases List.mem_cons.mp ha with rfl | ha
    · exact ⟨ts, List.sublist_append_left ts _, h⟩
    · obtain ⟨vs, hvs, hwrites⟩ := ih ha
      exact ⟨vs, hvs.trans ((List.sublist_cons_self comma us).trans
        (List.sublist_append_right ts _)), hwrites⟩

theorem WritesAttributes.contains {as : List Attribute} (h : WritesAttributes source ts as)
    {a : Attribute} (ha : a ∈ as) {argument : Argument} (hargument : argument ∈ a.arguments)
    (htext : argument.value = .string text) : Contains ts text := by
  obtain ⟨us, hus, hwrites⟩ := h.exists_writes ha
  exact (hwrites.contains hargument htext).sublist hus

/-- The list stands between two offsets, and it is longer than each string in it. -/
structure Lies (start stop : Nat) (l : AttributeList) : Prop where
  start_le : start ≤ l.start
  start_lt_stop : l.start < l.stop
  stop_le : l.stop ≤ stop
  longer : ∀ a ∈ l.attributes, ∀ argument ∈ a.arguments, ∀ text,
    argument.value = .string text → l.start + text.length < l.stop

/-- A list goes from one bracket to another, and its strings are written between the two. -/
theorem Writes.exists_brackets (h : Writes source taken l) :
    ∃ opening inner closing, taken = opening :: (inner ++ [closing]) ∧
      l.start = opening.start ∧ l.stop = closing.stop ∧
      ∀ a ∈ l.attributes, ∀ argument ∈ a.arguments, ∀ text,
        argument.value = .string text → Contains inner text := by
  cases h with
  | @untargeted opening closing ts _ h _ =>
    exact ⟨opening, ts, closing, rfl, rfl, rfl, fun _ ha _ hargument _ htext =>
      h.contains ha hargument htext⟩
  | @targeted opening name colon closing ts _ _ _ h _ =>
    refine ⟨opening, name :: colon :: ts, closing, rfl, rfl, rfl, ?_⟩
    intro a ha argument hargument text htext
    exact (h.contains ha hargument htext).sublist
      ((List.sublist_cons_self colon ts).trans (List.sublist_cons_self name _))

theorem Writes.lies (h : Writes source taken l) (hspread : Spread start stop (taken ++ rest)) :
    l.Lies start stop ∧ Spread l.stop stop rest := by
  obtain ⟨opening, inner, closing, rfl, hstart, hstop, hcontains⟩ := h.exists_brackets
  have hbehind : Spread opening.stop stop (inner ++ closing :: rest) := by
    simpa using hspread.of_cons
  have hclosing : closing ∈ inner ++ closing :: rest := by simp
  have hfront : Spread opening.stop stop (inner ++ [closing]) :=
    hbehind.sublist (by simp)
  have hopening_le := hspread.start_le opening List.mem_cons_self
  have hopening_lt := hspread.start_lt_stop opening List.mem_cons_self
  have hclosing_le := hbehind.start_le closing hclosing
  have hclosing_lt := hbehind.start_lt_stop closing hclosing
  refine ⟨⟨?_, ?_, ?_, ?_⟩, ?_⟩
  · rw [hstart]
    exact hopening_le
  · rw [hstart, hstop]
    omega
  · rw [hstop]
    exact hbehind.stop_le closing hclosing
  · intro a ha argument hargument text htext
    obtain ⟨us, hus, hwrites⟩ := hcontains a ha argument hargument text htext
    have hlength := hwrites.length_add_two_le (hfront.of_append_singleton.sublist hus)
    rw [hstart, hstop]
    omega
  · rw [hstop]
    exact (hbehind.sublist (List.sublist_append_right inner _)).of_cons

theorem ListAt.lies (h : ListAt source ts l rest) (hspread : Spread start stop ts) :
    l.Lies start stop ∧ Spread l.stop stop rest := by
  obtain ⟨_, taken, rfl, hwrites⟩ := h
  exact hwrites.lies hspread

theorem Lies.mono (h : l.Lies start stop) {start' : Nat} (hle : start' ≤ start) :
    l.Lies start' stop :=
  { h with start_le := Nat.le_trans hle h.start_le }

/-- Lists that follow one another stand one after the other. -/
theorem Run.lies (h : Run source ts lists rest) (hspread : Spread start stop ts) :
    (∀ l ∈ lists, l.Lies start stop) ∧ lists.Pairwise fun l l' => l.stop ≤ l'.start := by
  induction h generalizing start with
  | last hlist _ =>
    have hl := (hlist.lies hspread).1
    exact ⟨by simpa using hl, List.pairwise_singleton _ _⟩
  | cons hlist _ ih =>
    obtain ⟨hl, hrest⟩ := hlist.lies hspread
    obtain ⟨hlies, hordered⟩ := ih hrest
    have hle := Nat.le_of_lt (Nat.lt_of_le_of_lt hl.start_le hl.start_lt_stop)
    exact ⟨List.forall_mem_cons.mpr ⟨hl, fun l' hl' => (hlies l' hl').mono hle⟩,
      List.pairwise_cons.mpr ⟨fun l' hl' => (hlies l' hl').start_le, hordered⟩⟩

/-- The first of the lists does not begin behind any of them. -/
theorem start_le_of_head? (hlies : ∀ l ∈ lists, l.Lies start stop)
    (hordered : lists.Pairwise fun l l' => l.stop ≤ l'.start) {first : AttributeList}
    (hfirst : lists.head? = some first) (hl : l ∈ lists) : first.start ≤ l.start := by
  obtain ⟨others, rfl⟩ := List.head?_eq_some_iff.mp hfirst
  rcases List.mem_cons.mp hl with rfl | hl
  · exact Nat.le_refl _
  · have hbehind := (List.pairwise_cons.mp hordered).1 l hl
    have hnonempty := (hlies first List.mem_cons_self).start_lt_stop
    omega

end AttributeList

/-- Each run of a walk is a run of some of the tokens. -/
theorem Walk.exists_run {source : List Char} {previous : Option Token} {ts : List Token}
    {stretches : List Stretch} (h : Walk source previous ts stretches)
    {lists : List AttributeList} (hrun : .run lists ∈ stretches) :
    ∃ us rest, us.Sublist ts ∧ AttributeList.Run source us lists rest := by
  induction h with
  | nil => cases hrun
  | @plain _ t ts _ _ _ ih =>
    rcases List.mem_cons.mp hrun with heq | hrun
    · cases heq
    · obtain ⟨us, rest, hus, hlists⟩ := ih hrun
      exact ⟨us, rest, hus.trans (List.sublist_cons_self t ts), hlists⟩
  | @run _ t ts rest _ _ hfirst _ _ ih =>
    rcases List.mem_cons.mp hrun with heq | hrun
    · cases heq
      exact ⟨ts, t :: rest, List.Sublist.refl ts, hfirst⟩
    rcases List.mem_cons.mp hrun with heq | hrun
    · cases heq
    · obtain ⟨front, rfl, _⟩ := hfirst.starts
      obtain ⟨us, rest', hus, hlists⟩ := ih hrun
      exact ⟨us, rest', hus.trans ((List.sublist_cons_self t rest).trans
        (List.sublist_append_right front _)), hlists⟩
  | @last _ ts _ hfirst _ =>
    cases List.mem_singleton.mp hrun
    exact ⟨ts, [], List.Sublist.refl ts, hfirst⟩

theorem Walk.lies {source : List Char} {previous : Option Token} {start stop : Nat}
    {ts : List Token} {stretches : List Stretch} (h : Walk source previous ts stretches)
    (hspread : Spread start stop ts) {lists : List AttributeList}
    (hrun : .run lists ∈ stretches) :
    (∀ l ∈ lists, l.Lies start stop) ∧ lists.Pairwise fun l l' => l.stop ≤ l'.start := by
  obtain ⟨us, rest, hus, hlists⟩ := h.exists_run hrun
  exact hlists.lies (hspread.sublist hus)

/-! ## Usages -/

namespace Usage

/-- The usage is of an attribute of `l`, one of the lists that stand together. Its target is the
first of these that is not for the whole assembly or module. -/
structure IsOf (lists : List AttributeList) (l : AttributeList) (u : Usage) : Prop where
  mem : l ∈ lists.filter (!·.isGlobal)
  written : ∃ a ∈ l.attributes, u.name = a.name ∧ u.arguments = a.arguments
  target : ∃ first, (lists.filter (!·.isGlobal)).head? = some first ∧ u.targetStart = first.start

/-- The target, and as many bytes behind it as a string of the usage has characters, are in front of
an offset. -/
structure Fits (stop : Nat) (u : Usage) : Prop where
  target : u.targetStart < stop
  strings : ∀ argument ∈ u.arguments, ∀ text,
    argument.value = .string text → u.targetStart + text.length < stop

variable {start stop : Nat} {lists : List AttributeList} {l : AttributeList} {u : Usage}

theorem Fits.mono (h : u.Fits start) (hle : start ≤ stop) : u.Fits stop where
  target := Nat.lt_of_lt_of_le h.target hle
  strings argument hargument text htext :=
    Nat.lt_of_lt_of_le (h.strings argument hargument text htext) hle

/-- What lists annotate at a target is of one of them that is not for the whole assembly or
module. -/
theorem exists_of_mem_attached {target : Nat} {us : List Usage}
    (h : AttributeList.Attached target lists us) (hu : u ∈ us) :
    u.targetStart = target ∧ ∃ l ∈ lists.filter (!·.isGlobal),
      ∃ a ∈ l.attributes, u.name = a.name ∧ u.arguments = a.arguments := by
  refine ⟨h.targetStart_eq u hu, ?_⟩
  induction h with
  | nil => cases hu
  | whole hwhole _ ih =>
    rw [AttributeList.filter_isGlobal_of_forWhole hwhole]
    exact ih hu
  | list hlist _ ih =>
    rw [AttributeList.filter_isGlobal_of_not_forWhole hlist]
    rcases List.mem_append.mp hu with hu | hu
    · obtain ⟨a, ha, rfl⟩ := List.mem_map.mp hu
      exact ⟨_, List.mem_cons_self, a, ha, rfl, rfl⟩
    · obtain ⟨l, hl, hwritten⟩ := ih hu
      exact ⟨l, List.mem_cons_of_mem _ hl, hwritten⟩

theorem exists_isOf_of_annotates {us : List Usage} (h : AttributeList.Annotates lists us)
    (hu : u ∈ us) : ∃ l, u.IsOf lists l := by
  induction h with
  | nil => cases hu
  | whole hwhole _ ih =>
    obtain ⟨l, hmem, hwritten, htarget⟩ := ih hu
    rw [← AttributeList.filter_isGlobal_of_forWhole hwhole] at hmem htarget
    exact ⟨l, hmem, hwritten, htarget⟩
  | first hlist hattached =>
    obtain ⟨htarget, l, hmem, hwritten⟩ := exists_of_mem_attached hattached hu
    refine ⟨l, hmem, hwritten, _, ?_, htarget⟩
    rw [AttributeList.filter_isGlobal_of_not_forWhole hlist]
    rfl

/-- The usage reaches no further than its own list, and its target is no earlier than the first of
the lists. -/
theorem IsOf.fits (h : u.IsOf lists l) (hlies : ∀ l ∈ lists, l.Lies start stop)
    (hordered : lists.Pairwise fun l l' => l.stop ≤ l'.start) :
    (∀ first ∈ lists.head?, first.start ≤ u.targetStart) ∧ u.Fits l.stop := by
  obtain ⟨hl, ⟨a, ha, _, harguments⟩, first, hfirst, htarget⟩ := h
  have hlists : ∀ {l}, l ∈ lists.filter (!·.isGlobal) → l ∈ lists := List.mem_of_mem_filter
  have hle : first.start ≤ l.start := AttributeList.start_le_of_head?
    (fun l hl => hlies l (hlists hl)) (hordered.filter _) hfirst hl
  have hlies_l := hlies l (hlists hl)
  refine ⟨fun outer houter => ?_, ?_, fun argument hargument text htext => ?_⟩
  · rw [htarget]
    exact AttributeList.start_le_of_head? hlies hordered houter
      (hlists (List.mem_of_mem_head? hfirst))
  · have := hlies_l.start_lt_stop
    omega
  · rw [harguments] at hargument
    have := hlies_l.longer a ha argument hargument text htext
    omega

theorem exists_run_of_yields {stretches : List Stretch} {us : List Usage}
    (h : Stretch.Yields stretches us) (hu : u ∈ us) :
    ∃ lists, .run lists ∈ stretches ∧ ∃ l, u.IsOf lists l := by
  induction h with
  | nil => cases hu
  | plain _ ih =>
    obtain ⟨lists, hrun, hl⟩ := ih hu
    exact ⟨lists, List.mem_cons_of_mem _ hrun, hl⟩
  | run hhere _ ih =>
    rcases List.mem_append.mp hu with hu | hu
    · exact ⟨_, List.mem_cons_self, exists_isOf_of_annotates hhere hu⟩
    · obtain ⟨lists, hrun, hl⟩ := ih hu
      exact ⟨lists, List.mem_cons_of_mem _ hrun, hl⟩
  | last => cases hu

/-- The usages in a source reach no further than the source. -/
theorem fits_of_mem_ofSource {source : String} (hu : u ∈ ofSource source) :
    u.Fits (width source.toList) := by
  obtain ⟨stretches, hwalk⟩ := exists_walk source.toList none (tokenize source)
  obtain ⟨lists, hrun, l, hl⟩ := exists_run_of_yields (yields_ofSource hwalk) hu
  obtain ⟨hlies, hordered⟩ := hwalk.lies (spread_tokenize source) hrun
  exact (hl.fits hlies hordered).2.mono (hlies l (List.mem_of_mem_filter hl.mem)).stop_le

end Usage

end AttributeLint
