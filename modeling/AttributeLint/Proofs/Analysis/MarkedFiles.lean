import AttributeLint.Proofs.Analysis.Locality
import AttributeLint.Proofs.Usage.ByteOrderMark

/-!
# MarkedFiles — findings in a file that begins with a byte order mark

What is said about a usage moves with it. So where a byte order mark only moves the usages of a
file, the diagnostics of all rules are the same, and those in the file are three bytes further on
(`analyze_marked`). That is so for the files that begin neither with a directive nor with a list.
-/

namespace AttributeLint

open Text Token

/-- The same diagnostic, some bytes further on if it lies in the file. -/
def Diagnostic.furtherIn (file : FileId) (n : Nat) (d : Diagnostic) : Diagnostic :=
  if d.location.file = file then
    { d with location.span.start := d.location.span.start + n }
  else d

namespace Expected

variable {id n : Nat} {say : FileId → String → Usage → List Diagnostic} {a a' : Addition}
  {before after : List Addition}

/-- What is said about a usage moves with it. -/
structure Moving (say : FileId → String → Usage → List Diagnostic) : Prop extends Local say where
  further : ∀ n file path u,
    say file path (u.further n) = (say file path u).map (Diagnostic.furtherIn file n)

theorem furtherIn_place (d : Diagnostic) {file : FileId} {path : String} {start : Nat}
    (h : d.location = place file path start) (n : Nat) :
    d.furtherIn file n = { d with location := place file path (start + n) } := by
  rw [Diagnostic.furtherIn, h]
  exact if_pos rfl

theorem moving_ofUsage (rule : Rule) : Moving (ofUsage rule) where
  toLocal := local_ofUsage rule
  further n file path u := by
    have hcharacter (text : String) (p : (Char × Nat) × Nat) :
        character rule file path (u.further n).targetStart text p =
          (character rule file path u.targetStart text p).furtherIn file n := by
      obtain ⟨⟨c, index⟩, number⟩ := p
      rw [furtherIn_place _ rfl]
      simp only [character, Usage.further]
      cases rule.positionMode <;> simp only [Nat.add_right_comm]
    have harguments : reaching (u.further n).arguments = reaching u.arguments := rfl
    have hname : (u.further n).name = u.name := rfl
    rw [ofUsage, ofUsage, harguments, hname]
    split
    · split
      · rw [List.map_map]
        exact List.map_congr_left fun p _ => hcharacter _ p
      · rfl
    · rfl

theorem moving_ofMalformedUsage (rule : Rule) : Moving (ofMalformedUsage rule) where
  toLocal := local_ofMalformedUsage rule
  further n file path u := by
    have harguments : reaching (u.further n).arguments = reaching u.arguments := rfl
    have hname : (u.further n).name = u.name := rfl
    rw [ofMalformedUsage, ofMalformedUsage, harguments, hname]
    split
    · split
      · rfl
      · rw [List.map_singleton, furtherIn_place _ rfl]
        rfl
    · rfl

/-- Where the usages of one file have moved, what is said about it has, and nothing else. -/
theorem overUsages_further (h : Moving say) (hpath : a'.path = a.path)
    (husages : a'.usages = a.usages.map (Usage.further n)) :
    overUsages id (before ++ a' :: after) say =
      (overUsages id (before ++ a :: after) say).map
        (Diagnostic.furtherIn ⟨id, before.length⟩ n) := by
  have hothers {others : List (Addition × Nat)} (hne : ∀ p ∈ others, p.2 ≠ before.length) :
      (others.flatMap fun p => p.1.usages.flatMap (say ⟨id, p.2⟩ p.1.path)).map
          (Diagnostic.furtherIn ⟨id, before.length⟩ n) =
        others.flatMap fun p => p.1.usages.flatMap (say ⟨id, p.2⟩ p.1.path) := by
    refine (List.map_congr_left fun d hd => ?_).trans (List.map_id _)
    obtain ⟨p, hp, hd⟩ := List.mem_flatMap.mp hd
    obtain ⟨u, -, hd⟩ := List.mem_flatMap.mp hd
    rw [Diagnostic.furtherIn, h.lies _ _ _ d hd, if_neg (by simpa using hne p hp)]
    rfl
  have hbefore : ∀ p ∈ before.zipIdx, p.2 ≠ before.length := fun p hp =>
    Nat.ne_of_lt (List.snd_lt_of_mem_zipIdx hp)
  have hafter : ∀ p ∈ after.zipIdx (before.length + 1), p.2 ≠ before.length := fun p hp =>
    Nat.ne_of_gt (List.le_snd_of_mem_zipIdx hp)
  have hown : a'.usages.flatMap (say ⟨id, before.length⟩ a'.path) =
      (a.usages.flatMap (say ⟨id, before.length⟩ a.path)).map
        (Diagnostic.furtherIn ⟨id, before.length⟩ n) := by
    rw [husages, hpath, List.flatMap_map, List.map_flatMap]
    exact congrArg (a.usages.flatMap ·) (funext fun u => h.further n _ _ u)
  rw [overUsages_eq_flatMap, overUsages_eq_flatMap, List.zipIdx_append, List.zipIdx_append,
    Nat.zero_add, List.zipIdx_cons, List.zipIdx_cons, List.flatMap_append, List.flatMap_append,
    List.flatMap_cons, List.flatMap_cons, List.map_append, List.map_append, hothers hbefore,
    hothers hafter, hown]

theorem ofRule_further (rule : Rule) (hpath : a'.path = a.path)
    (husages : a'.usages = a.usages.map (Usage.further n)) :
    ofRule id (before ++ a' :: after) rule =
      (ofRule id (before ++ a :: after) rule).map
        (Diagnostic.furtherIn ⟨id, before.length⟩ n) := by
  rw [ofRule, ofRule, List.map_append, overUsages_further (moving_ofUsage rule) hpath husages]
  cases rule.malformed with
  | skip => rfl
  | report =>
    exact congrArg _ (overUsages_further (moving_ofMalformedUsage rule) hpath husages)

end Expected

namespace Analysis

/-- Two texts of a file, where the usages of the second one are those of the first further on. -/
theorem exists_analyze_further (registry : Registry) (id : Nat) (path : String)
    {text text' : String} {n : Nat}
    (husages : Usage.ofSource text' = (Usage.ofSource text).map (Usage.further n))
    (before after : List (String × String)) :
    ∃ ds, analyze registry (.ofSources id (before ++ (path, text) :: after)) = .ok ds ∧
      analyze registry (.ofSources id (before ++ (path, text') :: after)) =
        .ok (ds.map (Diagnostic.furtherIn ⟨id, before.length⟩ n)) := by
  have hanalyze (text : String) :
      analyze registry (.ofSources id (before ++ (path, text) :: after)) =
        .ok (registry.enabledRules.flatMap (Expected.ofRule id
          (before.map (fun source => Addition.parsed source.1 source.2) ++ .parsed path text ::
            after.map fun source => Addition.parsed source.1 source.2))) := by
    rw [Compilation.ofSources_eq_build, List.map_append, List.map_cons]
    exact analyze_of_holds (Compilation.holds_build id _) registry
  have hpath : (Addition.parsed path text').path = (Addition.parsed path text).path := rfl
  refine ⟨_, hanalyze text, ?_⟩
  rw [hanalyze text', List.map_flatMap]
  congr 2
  funext rule
  rw [Expected.ofRule_further rule hpath husages, List.length_map]

/-- A byte order mark in front of a source is a token like an operator, and nothing may begin behind
it. If the source begins with a directive, that line is read as code. Otherwise the tokens are only
three bytes further on. Then the attributes of lists at the very start are not found, only what may
stand inside their brackets, and all usages behind them are. If there is no list at the start, the
usages of the source and the diagnostics of any rules are the same, three bytes further on in the
file. -/
theorem analyze_marked (source : String) :
    tokenize (marked source) = markToken :: place 3 (pieces false source.toList) ∧
    Usage.ofSource (marked source) = Usage.collectFrom (marked source).toList .inside []
      (place 3 (pieces false source.toList)) ∧
    (∀ blanks more, source.toList = blanks ++ '#' :: more → (∀ c ∈ blanks, isBlank c ∧ c ≠ '\n') →
      tokenize source = place (width blanks + width ('#' :: more.takeWhile isWithinLine))
          (pieces true (more.dropWhile isWithinLine)) ∧
        tokenize (marked source) =
          markToken :: { kind := .other, text := "#", start := 3 + width blanks } ::
            place (3 + width blanks + 1) (pieces false more)) ∧
    (¬ BeginsDirective source.toList →
      tokenize (marked source) = markToken :: (tokenize source).map (shift 3) ∧
      (∀ lists rest, AttributeList.Run source.toList (tokenize source) lists rest →
        ∃ front, tokenize source = front ++ rest ∧
          Usage.ofSource source =
            (if rest = [] then [] else AttributeList.usages (lists.filter (!·.isGlobal))) ++
              Usage.collectFrom source.toList .inside [] rest ∧
          Usage.ofSource (marked source) =
            (Usage.collectFrom source.toList .inside [] front ++
              Usage.collectFrom source.toList .inside [] rest).map (Usage.further 3)) ∧
      (AttributeList.NoListAt source.toList (tokenize source) →
        Usage.ofSource (marked source) = (Usage.ofSource source).map (Usage.further 3) ∧
        ∀ registry id before path after, ∃ ds,
          analyze registry (.ofSources id (before ++ (path, source) :: after)) = .ok ds ∧
          analyze registry (.ofSources id (before ++ (path, marked source) :: after)) =
            .ok (ds.map (Diagnostic.furtherIn ⟨id, before.length⟩ 3)))) := by
  refine ⟨tokenize_marked_eq source, Usage.ofSource_marked_eq source, ?_, fun hdirective => ?_⟩
  · intro blanks more hsource hblanks
    exact tokenize_marked_directive hsource hblanks
  · refine ⟨tokenize_marked hdirective, ?_, fun hnone => ?_⟩
    · intro lists rest hrun
      exact Usage.ofSource_marked_run hdirective hrun
    · have husages := Usage.ofSource_marked_of_noListAt hdirective hnone
      exact ⟨husages, fun registry id before path after =>
        exists_analyze_further registry id path husages before after⟩

/-- A source that begins with another declaration. -/
theorem analyze_marked_using :
    ¬ BeginsDirective "using X;[Error(\"a?\")] class C;".toList ∧
      AttributeList.NoListAt "using X;[Error(\"a?\")] class C;".toList
        (tokenize "using X;[Error(\"a?\")] class C;") ∧
      Usage.ofSource (marked "using X;[Error(\"a?\")] class C;") =
        [{ name := "Error"
           targetStart := 11
           arguments := [{ binding := .positional, value := .string "a?" }] }] ∧
      ∃ ds, analyze .builtin (.ofSources 0 [("a.cs", "using X;[Error(\"a?\")] class C;")]) =
          .ok ds ∧
        analyze .builtin (.ofSources 0 [("a.cs", marked "using X;[Error(\"a?\")] class C;")]) =
          .ok (ds.map (Diagnostic.furtherIn ⟨0, 0⟩ 3)) := by
  have hdirective : ¬ BeginsDirective "using X;[Error(\"a?\")] class C;".toList := by decide
  have htokens : tokenize "using X;[Error(\"a?\")] class C;" =
      { kind := .ident, text := "using", start := 0 } ::
        (tokenize "using X;[Error(\"a?\")] class C;").tail := by decide +kernel
  have hnone : AttributeList.NoListAt "using X;[Error(\"a?\")] class C;".toList
      (tokenize "using X;[Error(\"a?\")] class C;") := by
    rw [htokens]
    exact AttributeList.noListAt_cons Token.Kind.noConfusion _
  obtain ⟨-, -, -, hbehind⟩ := analyze_marked "using X;[Error(\"a?\")] class C;"
  obtain ⟨husages, hdiagnostics⟩ := (hbehind hdirective).2.2 hnone
  refine ⟨hdirective, hnone, husages.trans (by decide +kernel), ?_⟩
  exact hdiagnostics .builtin 0 [] "a.cs" []

/-- The attribute at the start of a source is not found behind a mark. -/
theorem ofSource_marked_listed :
    "[Error(\"a?\")] class C;".toList.head? ≠ some '\ufeff' ∧
      Usage.ofSource "[Error(\"a?\")] class C;" =
        [{ name := "Error"
           targetStart := 0
           arguments := [{ binding := .positional, value := .string "a?" }] }] ∧
      Usage.ofSource (marked "[Error(\"a?\")] class C;") = [] := by
  decide +kernel

end Analysis

end AttributeLint
