import AttributeLint.Proofs.Attribute.Remainder
import AttributeLint.Proofs.Token.CursorTokens
import AttributeLint.Proofs.Token.Tiling
import AttributeLint.Proofs.Usage.Indexed

/-!
# IndexedUsages — the indexed machines read what the readers read

The index of an end of the tokens is how many tokens stand before it. Started there, each machine
gives what the reader of that end reads, with the index of what the reader leaves: it has no fault
and it comes to an end. The stretches of the source that arguments take lie between tokens that
tile the source, and so on character boundaries in the right order. Since the tokens of a source do
tile it, no access goes wrong from the first character to the last usage.
-/

namespace AttributeLint.Indexed

open Text

/-! ## Indices -/

/-- The index at which an end of the tokens begins. -/
def indexOf (tokens ts : List Token) : Nat :=
  tokens.length - ts.length

/-- A reading with the index of what is left. -/
def placed {α : Type} (tokens : List Token) (reading : Option (α × List Token)) :
    Option (α × Nat) :=
  reading.map fun (value, rest) => (value, indexOf tokens rest)

variable {source : List Char} {tokens ts us : List Token} {t : Token}

theorem drop_indexOf (h : ts <:+ tokens) : tokens.drop (indexOf tokens ts) = ts :=
  (List.suffix_iff_eq_drop.mp h).symm

theorem getElem?_indexOf_add (h : ts <:+ tokens) (k : Nat) :
    tokens[indexOf tokens ts + k]? = ts[k]? := by
  rw [← List.getElem?_drop, drop_indexOf h]

theorem getElem?_indexOf (h : ts <:+ tokens) : tokens[indexOf tokens ts]? = ts[0]? :=
  getElem?_indexOf_add h 0

theorem indexOf_append (h : us ++ ts <:+ tokens) :
    indexOf tokens (us ++ ts) + us.length = indexOf tokens ts := by
  have := h.length_le
  rw [List.length_append] at this
  simp only [indexOf, List.length_append]
  omega

theorem indexOf_cons (h : t :: ts <:+ tokens) :
    indexOf tokens (t :: ts) + 1 = indexOf tokens ts :=
  @indexOf_append tokens ts [t] h

theorem indexOf_lt (h : t :: ts <:+ tokens) : indexOf tokens (t :: ts) < tokens.length := by
  have := h.length_le
  rw [List.length_cons] at this
  rw [indexOf, List.length_cons]
  omega

theorem indexOf_drop {index : Nat} (h : index ≤ tokens.length) :
    indexOf tokens (tokens.drop index) = index := by
  rw [indexOf, List.length_drop]
  omega

theorem from?_append (us ts : List Token) : from? (us ++ ts) us.length = some ts := by
  simp [from?]

theorem between?_append (us vs ts : List Token) :
    between? (us ++ vs ++ ts) us.length (us.length + vs.length) = some vs := by
  simp [between?]

theorem from?_indexOf (h : ts <:+ tokens) : from? tokens (indexOf tokens ts) = some ts := by
  obtain ⟨before, rfl⟩ := h
  rw [indexOf, List.length_append, Nat.add_sub_cancel]
  exact from?_append before ts

theorem between?_indexOf (h : us ++ ts <:+ tokens) :
    between? tokens (indexOf tokens (us ++ ts)) (indexOf tokens ts) = some us := by
  rw [← indexOf_append h]
  obtain ⟨before, rfl⟩ := h
  rw [indexOf, List.length_append, Nat.add_sub_cancel, ← List.append_assoc]
  exact between?_append before us ts

/-- Between two indices stands what is left at the first without what is left at the second. -/
theorem between?_eq_some_iff {start stop : Nat} :
    between? tokens start stop = some us ↔
      start ≤ stop ∧ stop ≤ tokens.length ∧ tokens.drop start = us ++ tokens.drop stop := by
  rw [between?]
  constructor
  · intro h
    split at h
    · rename_i hle
      cases h
      refine ⟨hle.1, hle.2, ?_⟩
      have hstop : tokens.drop stop = (tokens.drop start).drop (stop - start) := by
        rw [List.drop_drop]
        congr 1
        omega
      rw [hstop, List.take_append_drop]
    · cases h
  · rintro ⟨hle, hstop, hdrop⟩
    have hlength : us.length = stop - start := by
      have := congrArg List.length hdrop
      simp only [List.length_append, List.length_drop] at this
      omega
    rw [if_pos ⟨hle, hstop⟩, hdrop, ← hlength, List.take_left]

/-- What was taken off what is left at an index stands between that index and the next one. -/
theorem between?_of_drop {start : Nat} (hdrop : tokens.drop start = us ++ ts) (hus : us ≠ []) :
    between? tokens start (indexOf tokens ts) = some us := by
  have hstart : start ≤ tokens.length := by
    -- past the end nothing is left
    have := List.length_pos_iff.mpr hus
    have := congrArg List.length hdrop
    rw [List.length_drop, List.length_append] at this
    omega
  have hbetween := between?_indexOf (hdrop ▸ List.drop_suffix start tokens)
  rwa [← hdrop, indexOf_drop hstart] at hbetween

/-! ## Names -/

theorem nameLoop_indexOf (name : String) (h : ts <:+ tokens) :
    Pass.loop? (namePass? tokens) (name, indexOf tokens ts) =
      some ((placed tokens (Attribute.nameTail? ts)).map fun (tail, next) =>
        (name ++ tail, next)) := by
  fun_induction Attribute.nameTail? ts generalizing name with
  | case1 separator part ts hseparator =>
    refine Pass.loop?_done ?_
    rw [namePass?, getElem?_indexOf h, getElem?_indexOf_add h]
    simp [hseparator, placed]
  | case2 separator part ts mark hmark hpart ih =>
    have hindex : indexOf tokens (separator :: part :: ts) + 2 = indexOf tokens ts :=
      @indexOf_append tokens ts [separator, part] h
    have hrest : ts <:+ tokens := (List.suffix_append [separator, part] ts).trans h
    have hpass : namePass? tokens (name, indexOf tokens (separator :: part :: ts)) =
        some (.again (name ++ mark ++ part.text, indexOf tokens ts)) := by
      rw [namePass?, getElem?_indexOf h, getElem?_indexOf_add h, ← hindex]
      simp [hmark, hpart]
    rw [Pass.loop?_again hpass, ih _ hrest]
    simp [placed, Function.comp_def, String.append_assoc]
  | case3 separator part ts mark hmark hpart =>
    refine Pass.loop?_done ?_
    rw [namePass?, getElem?_indexOf h, getElem?_indexOf_add h]
    simp [hmark, hpart, placed]
  | case4 ts hpair =>
    refine Pass.loop?_done ?_
    rw [namePass?, getElem?_indexOf h, getElem?_indexOf_add h]
    rcases ts with _ | ⟨separator, _ | ⟨part, ts⟩⟩
    · simp [placed]
    · simp [placed]
    · exact absurd rfl (hpair separator part ts)

theorem name?_indexOf (h : ts <:+ tokens) :
    name? tokens (indexOf tokens ts) = some (placed tokens (Attribute.name? ts)) := by
  rw [name?, getElem?_indexOf h]
  cases ts with
  | nil => rfl
  | cons t ts =>
    have hrest : ts <:+ tokens := (List.suffix_cons t ts).trans h
    by_cases ht : t.kind = .ident
    · simp [Attribute.name?, ht, indexOf_cons h, nameLoop_indexOf _ hrest, placed,
        Function.comp_def]
    · simp [Attribute.name?, ht, placed]

/-! ## Arguments -/

theorem closingOffset?_eq (depth offset : Nat) (ts : List Token) :
    closingOffset? depth offset ts =
      (Attribute.enclosed? depth ts).map fun (body, _) => offset + body.length := by
  fun_induction Attribute.enclosed? depth ts generalizing offset with
  | case1 => rfl
  | case2 depth t ts hopens ih =>
    simp [closingOffset?, hopens, ih, Function.comp_def, Nat.add_assoc, Nat.add_comm 1]
  | case3 => simp_all [closingOffset?]
  | case4 => simp_all [closingOffset?]
  | case5 => simp_all [closingOffset?]
  | case6 depth t ts hopens hcloses hzero hone ih =>
    simp [closingOffset?, hopens, hcloses, hzero, hone, ih, Function.comp_def, Nat.add_assoc,
      Nat.add_comm 1]
  | case7 => simp_all [closingOffset?]
  | case8 depth t ts hopens hcloses hsemicolon ih =>
    simp [closingOffset?, hopens, hcloses, hsemicolon, ih, Function.comp_def, Nat.add_assoc,
      Nat.add_comm 1]

/-- The parenthesis that closes an opened one stands behind the body. -/
theorem closing?_indexOf (ht : t.kind = .lParen) (h : t :: ts <:+ tokens) :
    closing? tokens (indexOf tokens (t :: ts)) =
      some ((Attribute.enclosed? 1 ts).map fun (body, _) => indexOf tokens ts + body.length) := by
  have hopens : t.kind.opens := by rw [ht]; rfl
  simp [closing?, from?_indexOf h, closingOffset?_eq, Attribute.enclosed?, hopens,
    ← indexOf_cons h, Function.comp_def, Nat.add_assoc, Nat.add_comm 1]

/-! ## Stretches of the source -/

theorem slice?_tokens (htiles : Token.Tiles source tokens) {first last : Token}
    (hsub : (first :: ts).Sublist tokens) (hlast : last ∈ first :: ts) :
    slice? source first.start last.stop = some (slice source first.start last.stop) := by
  have hfirst : first ∈ tokens := hsub.subset List.mem_cons_self
  have hle : first.start ≤ last.stop := by
    have := htiles.start_lt_stop first hfirst
    rcases List.mem_cons.mp hlast with rfl | hmem
    · omega
    · have := List.rel_of_pairwise_cons (htiles.ordered.sublist hsub) hmem
      have := htiles.start_lt_stop last (hsub.subset hlast)
      omega
  exact slice?_eq_slice (htiles.onBoundary first hfirst).1
    (htiles.onBoundary last (hsub.subset hlast)).2 hle

theorem argument?_eq (htiles : Token.Tiles source tokens) (hsub : ts.Sublist tokens) :
    argument? source ts = some (Attribute.argument? source ts) := by
  have hvalue := (Attribute.binding_suffix ts).sublist.trans hsub
  simp only [argument?, Attribute.argument?]
  generalize (Attribute.binding ts).2 = valueTokens at hvalue ⊢
  match valueTokens with
  | [] => cases h : Attribute.constant? [] <;> rfl
  | [single] =>
    cases hconstant : Attribute.constant? [single] with
    | some text => simp [Attribute.value?, hconstant]
    | none =>
      -- a value of one token is its text, which is what the source has there
      have hsingle := slice?_tokens htiles hvalue List.mem_cons_self
      rw [htiles.slice?_eq single (hvalue.subset List.mem_cons_self)] at hsingle
      simp [Attribute.value?, hconstant, ← Option.some.inj hsingle]
  | first :: second :: rest =>
    cases hconstant : Attribute.constant? (first :: second :: rest) with
    | some text => simp [Attribute.value?, hconstant]
    | none =>
      have hlast := slice?_tokens htiles hvalue
        (List.getLast_mem (List.cons_ne_nil first (second :: rest)))
      rw [List.getLast_cons (List.cons_ne_nil second rest)] at hlast
      simp [Attribute.value?, hconstant, hlast]

/-- The machine has the arguments of `read` behind it, and `group` lies between the last comma and
the tokens that it still searches. -/
theorem argumentsFrom?_eq (htiles : Token.Tiles source tokens) {body : List Token}
    (hbody : body.Sublist tokens) {read group ts : List Token} (hsplit : body = read ++ group ++ ts)
    (depth : Nat) (found : List Argument) :
    argumentsFrom? source body depth read.length (read.length + group.length) found ts =
      some ((((Attribute.splitAtCommas depth ts).modifyHead (group ++ ·)).mapM
        (Attribute.argument? source)).map (found ++ ·)) := by
  induction ts generalizing depth read group found with
  | nil =>
    have hgroup : group.Sublist tokens := by
      refine List.Sublist.trans ?_ hbody
      rw [hsplit, List.append_nil]
      exact List.sublist_append_right read group
    have hfrom : from? body read.length = some group := by
      rw [hsplit, List.append_nil]
      exact from?_append read group
    simp only [argumentsFrom?, hfrom, Option.bind_eq_bind, Option.bind_some,
      argument?_eq htiles hgroup, Attribute.splitAtCommas]
    cases h : Attribute.argument? source group <;> simp [h]
  | cons t ts ih =>
    by_cases hcomma : t.kind = .comma ∧ depth = 0
    -- the group before a separating comma is complete, and an empty one begins behind it
    · have hgroup : group.Sublist tokens := by
        refine List.Sublist.trans ?_ hbody
        rw [hsplit]
        exact (List.sublist_append_right read group).trans (List.sublist_append_left _ _)
      have hbetween : between? body read.length (read.length + group.length) = some group := by
        rw [hsplit]
        exact between?_append read group (t :: ts)
      have hih := fun found => @ih (read ++ group ++ [t]) [] (by simpa using hsplit) depth found
      simp only [List.length_append, List.length_singleton, List.length_nil, Nat.add_zero,
        Attribute.modifyHead_nil_append] at hih
      rw [argumentsFrom?, if_pos hcomma, hbetween, Attribute.splitAtCommas, if_pos hcomma]
      simp only [Option.bind_eq_bind, Option.bind_some, argument?_eq htiles hgroup,
        List.modifyHead_cons, List.append_nil, List.mapM_cons]
      cases hargument : Attribute.argument? source group with
      | none => rfl
      | some argument =>
        simp only [hih, Option.bind_some, Option.pure_def]
        cases (Attribute.splitAtCommas depth ts).mapM (Attribute.argument? source) with
        | none => rfl
        | some arguments => simp
    · have hih := @ih read (group ++ [t]) (by simpa using hsplit)
        (Attribute.depthAfter depth t) found
      rw [argumentsFrom?, if_neg hcomma, Attribute.splitAtCommas_cons hcomma]
      simpa [Function.comp_def, Nat.add_assoc] using hih

theorem arguments?_eq (htiles : Token.Tiles source tokens) {body : List Token}
    (hbody : body.Sublist tokens) :
    arguments? source body = some (Attribute.arguments? source body) := by
  rw [arguments?, Attribute.arguments?]
  split
  · rfl
  · have hall := @argumentsFrom?_eq _ _ htiles body hbody [] [] body rfl 0 []
    rw [Attribute.modifyHead_nil_append] at hall
    simpa using hall

/-! ## Attributes and lists -/

theorem attribute?_indexOf (htiles : Token.Tiles source tokens) (h : ts <:+ tokens) :
    attribute? source tokens (indexOf tokens ts) =
      some (placed tokens (Attribute.read? source ts)) := by
  rw [attribute?, name?_indexOf h, Attribute.read?]
  match hname : Attribute.name? ts with
  | none => rfl
  | some (name, []) =>
    have hnil : tokens[indexOf tokens []]? = none := getElem?_indexOf List.nil_suffix
    simp [placed, hnil]
  | some (name, t :: rest) =>
    have hrest : t :: rest <:+ tokens := (Attribute.name?_suffix hname).trans h
    have hhead : tokens[indexOf tokens (t :: rest)]? = some t := getElem?_indexOf hrest
    by_cases ht : t.kind = .lParen
    · simp only [placed, Option.map_some, Option.bind_eq_bind, Option.bind_some, hhead, ht,
        if_true, closing?_indexOf ht hrest]
      cases hbody : Attribute.enclosed? 1 rest with
      | none => rfl
      | some parts =>
        obtain ⟨body, after⟩ := parts
        obtain ⟨closing, _, rfl⟩ := Attribute.eq_append_of_enclosed? hbody
        have hinside : body ++ closing :: after <:+ tokens :=
          (List.suffix_cons t _).trans hrest
        have hclosing : closing :: after <:+ tokens := (List.suffix_append body _).trans hinside
        have hsub : body.Sublist tokens :=
          (List.sublist_append_left body _).trans hinside.sublist
        simp only [Option.map_some, indexOf_append hinside, indexOf_cons hrest,
          between?_indexOf hinside, Option.bind_some, arguments?_eq htiles hsub]
        cases Attribute.arguments? source body with
        | none => rfl
        | some arguments => simp [indexOf_cons hclosing]
    · simp [placed, hhead, ht]

theorem attributeLoop_indexOf (htiles : Token.Tiles source tokens) (h : ts <:+ tokens)
    (found : List Attribute) :
    Pass.loop? (attributePass? source tokens) (indexOf tokens ts, found) =
      some ((AttributeList.attributes? source ts).map fun (as, closing, rest) =>
        (found ++ as, indexOf tokens (closing :: rest))) := by
  fun_induction AttributeList.attributes? source ts generalizing found with
  | case1 ts hread =>
    refine Pass.loop?_done ?_
    rw [attributePass?, attribute?_indexOf htiles h, hread]
    rfl
  | case2 ts a hread =>
    have hnil : tokens[indexOf tokens []]? = none := getElem?_indexOf List.nil_suffix
    refine Pass.loop?_done ?_
    rw [attributePass?, attribute?_indexOf htiles h, hread]
    simp [placed, hnil]
  | case3 ts a t rest hread ht =>
    have hrest := (Attribute.read?_suffix hread).trans h
    refine Pass.loop?_done ?_
    rw [attributePass?, attribute?_indexOf htiles h, hread]
    simp [placed, getElem?_indexOf hrest, ht]
  | case4 ts a t ht hcomma hread =>
    have hrest := (Attribute.read?_suffix hread).trans h
    refine Pass.loop?_done ?_
    rw [attributePass?, attribute?_indexOf htiles h, hread]
    simp [placed, getElem?_indexOf hrest, getElem?_indexOf_add hrest, hcomma]
  | case5 ts a t ht hcomma u rest hread hu =>
    -- the comma before the closing bracket is the optional last one
    have hrest := (Attribute.read?_suffix hread).trans h
    have hnext : u :: rest <:+ tokens := (List.suffix_cons t _).trans hrest
    refine Pass.loop?_done ?_
    rw [attributePass?, attribute?_indexOf htiles h, hread]
    simp [placed, getElem?_indexOf hrest, indexOf_cons hrest, hcomma, getElem?_indexOf hnext, hu]
  | case6 ts a t ht hcomma u rest hread hu _ ih =>
    have hrest := (Attribute.read?_suffix hread).trans h
    have hnext : u :: rest <:+ tokens := (List.suffix_cons t _).trans hrest
    have hpass : attributePass? source tokens (indexOf tokens ts, found) =
        some (.again (indexOf tokens (u :: rest), found ++ [a])) := by
      rw [attributePass?, attribute?_indexOf htiles h, hread]
      simp [placed, getElem?_indexOf hrest, indexOf_cons hrest, hcomma, getElem?_indexOf hnext, hu]
    rw [Pass.loop?_again hpass, ih hnext]
    simp [Function.comp_def]
  | case7 ts a t rest hread ht hcomma =>
    have hrest := (Attribute.read?_suffix hread).trans h
    refine Pass.loop?_done ?_
    rw [attributePass?, attribute?_indexOf htiles h, hread]
    simp [placed, getElem?_indexOf hrest, ht, hcomma]

theorem target_indexOf (h : ts <:+ tokens) :
    target tokens (indexOf tokens ts) =
      ((AttributeList.splitTarget ts).1, indexOf tokens (AttributeList.splitTarget ts).2) := by
  rw [target, getElem?_indexOf h, getElem?_indexOf_add h]
  match ts with
  | [] => rfl
  | [t] => rfl
  | t :: colon :: ts =>
    have hindex : indexOf tokens (t :: colon :: ts) + 2 = indexOf tokens ts :=
      @indexOf_append tokens ts [t, colon] h
    by_cases htarget : t.kind = .ident ∧ colon.kind = .colon
    · simp [AttributeList.splitTarget, htarget, hindex]
    · simp [AttributeList.splitTarget, htarget]

theorem list?_indexOf (htiles : Token.Tiles source tokens) (h : ts <:+ tokens) :
    list? source tokens (indexOf tokens ts) =
      some (placed tokens (AttributeList.read? source ts)) := by
  rw [list?, getElem?_indexOf h]
  cases ts with
  | nil => rfl
  | cons opening ts =>
    have hrest : ts <:+ tokens := (List.suffix_cons opening ts).trans h
    have hattributes := (AttributeList.splitTarget_suffix ts).trans hrest
    simp only [List.getElem?_cons_zero, indexOf_cons h, target_indexOf hrest,
      attributeLoop_indexOf htiles hattributes, Option.bind_eq_bind, Option.bind_some,
      AttributeList.read?]
    cases hread : AttributeList.attributes? source (AttributeList.splitTarget ts).2 with
    | none => rfl
    | some parts =>
      obtain ⟨attributes, closing, rest⟩ := parts
      have hclosing := (AttributeList.attributes?_suffix hread).trans hattributes
      simp [placed, getElem?_indexOf hclosing, indexOf_cons hclosing]

theorem listLoop_indexOf (htiles : Token.Tiles source tokens) (h : ts <:+ tokens)
    (found : List AttributeList) :
    Pass.loop? (listPass? source tokens) (indexOf tokens ts, found) =
      some (placed tokens ((AttributeList.readRun? source ts).map fun (ls, rest) =>
        (found ++ ls, rest))) := by
  fun_induction AttributeList.readRun? source ts generalizing found with
  | case1 =>
    refine Pass.loop?_done ?_
    rw [listPass?, getElem?_indexOf h]
    rfl
  | case2 t ts ht hread =>
    refine Pass.loop?_done ?_
    rw [listPass?, getElem?_indexOf h]
    simp [ht, list?_indexOf htiles h, hread, placed]
  | case3 t ts ht l rest hread ih =>
    have hrest := (AttributeList.read?_suffix hread).trans h
    have hpass : listPass? source tokens (indexOf tokens (t :: ts), found) =
        some (.again (indexOf tokens rest, found ++ [l])) := by
      rw [listPass?, getElem?_indexOf h]
      simp [ht, list?_indexOf htiles h, hread, placed]
    rw [Pass.loop?_again hpass, ih hrest]
    simp [placed, Function.comp_def]
  | case4 t ts ht hident =>
    refine Pass.loop?_done ?_
    rw [listPass?, getElem?_indexOf h]
    simp [hident, placed]
  | case5 t ts ht hident =>
    refine Pass.loop?_done ?_
    rw [listPass?, getElem?_indexOf h]
    simp [ht, hident, placed]

theorem lists?_indexOf (htiles : Token.Tiles source tokens) (boundary : Boundary)
    (h : t :: ts <:+ tokens) :
    lists? source tokens boundary t (indexOf tokens (t :: ts)) =
      some (placed tokens (AttributeList.readAt? source boundary (t :: ts))) := by
  by_cases ht : t.kind = .lBracket
  · cases boundary with
    | declaration =>
      simp only [lists?, ht, if_true, list?_indexOf htiles h, AttributeList.readAt?,
        AttributeList.startsHere, decide_true, Option.bind_eq_bind, Option.bind_some]
      cases AttributeList.read? source (t :: ts) <;> rfl
    | member =>
      simp [lists?, ht, listLoop_indexOf htiles h, AttributeList.readAt?, AttributeList.startsHere]
    | inside =>
      simp [lists?, ht, AttributeList.readAt?, AttributeList.startsHere, placed]
  · simp [lists?, ht, AttributeList.readAt?, AttributeList.startsHere, placed]

/-! ## Usages -/

theorem usageLoop_indexOf (htiles : Token.Tiles source tokens) (h : ts <:+ tokens)
    (boundary : Boundary) (pending : List AttributeList) (found : List Usage) :
    Pass.loop? (usagePass? source tokens) (boundary, pending, found, indexOf tokens ts) =
      some (found ++ Usage.collectFrom source boundary pending ts) := by
  fun_induction Usage.collectFrom source boundary pending ts generalizing found with
  | case1 boundary pending =>
    refine Pass.loop?_done ?_
    simp [usagePass?, indexOf]
  | case2 boundary pending t ts lists rest hread ih =>
    have hlt : indexOf tokens (t :: ts) < tokens.length := indexOf_lt h
    have hrest := (AttributeList.readAt?_suffix hread).trans h
    refine (Pass.loop?_again ?_).trans (ih hrest found)
    rw [usagePass?, if_pos hlt, getElem?_indexOf h]
    simp [lists?_indexOf htiles boundary h, hread, placed]
  | case3 boundary pending t ts hread ih =>
    have hlt : indexOf tokens (t :: ts) < tokens.length := indexOf_lt h
    have hrest : ts <:+ tokens := (List.suffix_cons t ts).trans h
    rw [← List.append_assoc]
    refine (Pass.loop?_again ?_).trans (ih hrest _)
    rw [usagePass?, if_pos hlt, getElem?_indexOf h]
    simp [lists?_indexOf htiles boundary h, hread, placed, indexOf_cons h]

/-- The machine finds the usages of every stream of tokens that tiles the source. -/
theorem usages?_eq (htiles : Token.Tiles source tokens) :
    usages? source tokens = some (Usage.collectFrom source .declaration [] tokens) := by
  have hall := usageLoop_indexOf htiles (List.suffix_refl tokens) .declaration [] []
  rwa [indexOf, Nat.sub_self, List.nil_append] at hall

/-- The machine reads the list at every index, and nothing at an index past the end. -/
theorem list?_eq (htiles : Token.Tiles source tokens) (opening : Nat) :
    list? source tokens opening =
      some (placed tokens (AttributeList.read? source (tokens.drop opening))) := by
  by_cases hle : opening ≤ tokens.length
  · have hlist := list?_indexOf htiles (List.drop_suffix opening tokens)
    rwa [indexOf_drop hle] at hlist
  -- past the end there is no token to begin with
  · rw [List.drop_eq_nil_of_le (by omega), list?, List.getElem?_eq_none (by omega)]
    rfl

/-! ## Sources -/

/-- The tokens of every source tile it, and neither finding them nor reading lists and usages from
them ever takes a token or a stretch that is not there. -/
theorem tokens_tile_and_accesses_succeed (source : String) :
    Token.Cursor.tokens? source.toList = some ((Token.tokenize source).map Token.lexeme) ∧
      Token.Tiles source.toList (Token.tokenize source) ∧
      usages? source.toList (Token.tokenize source) = some (Usage.ofSource source) ∧
      ∀ opening, list? source.toList (Token.tokenize source) opening =
        some (placed (Token.tokenize source)
          (AttributeList.read? source.toList ((Token.tokenize source).drop opening))) := by
  have htiles := Token.tiles_tokenize source
  exact ⟨Token.Cursor.tokens?_eq source, htiles, usages?_eq htiles, list?_eq htiles⟩

end AttributeLint.Indexed
