import AttributeLint.Proofs.Compilation.Registration
import AttributeLint.Proofs.Message.Filling
import AttributeLint.Proofs.Scan.Overflow

/-!
# Exactness — which diagnostics an analysis gives

What an analysis should report is written down here as a comprehension over what was registered:
rules in order, then files, then usages, then characters. `ruleDiagnostics_of_holds` says that an
analysis never fails on a compilation that was built by additions, and that it reports these
diagnostics and no others. An analysis with checked addition reports the same, if the places of the
diagnostics about strings fit into words (`Expected.InWords`), and it overflows otherwise.
-/

namespace AttributeLint

/-! ## What is expected -/

namespace Expected

/-- A place in a file, one byte long. -/
def place (file : FileId) (path : String) (start : Nat) : Location :=
  { file, path, span := { start, length := 1 } }

/-- The disallowed characters of a text: each with its index, and the number of those before it. -/
def disallowed (rule : Rule) (text : List Char) : List ((Char × Nat) × Nat) :=
  (text.zipIdx.filter fun p => rule.disallows p.1).zipIdx

/-- The diagnostic of one disallowed character of a string at the declaration at `start`. -/
def character (rule : Rule) (file : FileId) (path : String) (start : Nat) (text : String) :
    (Char × Nat) × Nat → Diagnostic
  | ((c, index), number) =>
    { ruleId := rule.descriptor.id
      title := rule.descriptor.title
      message := rule.descriptor.format [String.singleton c, text]
      severity := rule.descriptor.severity
      location := place file path <|
        match rule.positionMode with
        | .violationCount => start + number
        | .characterIndex => start + index }

/-- The arguments that reach the constructor are all but those that assign properties. -/
def reaching : List Argument → List Argument
  | [] => []
  | { binding := .property _, .. } :: arguments => reaching arguments
  | argument :: arguments => argument :: reaching arguments

/-- The diagnostics of a rule for a usage: one for each disallowed character, if the usage is of the
attribute of the rule and exactly one argument reaches the constructor and is a string. -/
def ofUsage (rule : Rule) (file : FileId) (path : String) (u : Usage) : List Diagnostic :=
  if rule.attributeName.isWrittenAs u.name then
    match reaching u.arguments with
    | [{ value := .string text, .. }] =>
      (disallowed rule text.toList).map (character rule file path u.targetStart text)
    | _ => []
  else []

/-- What is wrong with arguments that are not one string. -/
def reason : List Argument → String
  | [] => "no arguments"
  | [_] => "argument is not a string literal"
  | arguments => toString arguments.length ++ " arguments"

/-- The diagnostic for a usage of the attribute of the rule with any other arguments. -/
def ofMalformedUsage (rule : Rule) (file : FileId) (path : String) (u : Usage) :
    List Diagnostic :=
  if rule.attributeName.isWrittenAs u.name then
    match reaching u.arguments with
    | [{ value := .string _, .. }] => []
    | arguments =>
      [{ ruleId := "ESG0002"
         title := "Malformed attribute arguments"
         message := "Attribute '" ++ u.name ++ "' expects exactly one string argument (" ++
           reason arguments ++ ")"
         severity := .info
         location := place file path u.targetStart }]
  else []

/-- Something said about each usage, for all usages in the order of registration. -/
def overUsages (id : Nat) (additions : List Addition)
    (say : FileId → String → Usage → List Diagnostic) : List Diagnostic :=
  additions.zipIdx.flatMap fun (a, i) => a.usages.flatMap (say ⟨id, i⟩ a.path)

/-- The diagnostics of one rule. -/
def ofRule (id : Nat) (additions : List Addition) (rule : Rule) : List Diagnostic :=
  overUsages id additions (ofUsage rule) ++
    match rule.malformed with
    | .skip => []
    | .report => overUsages id additions (ofMalformedUsage rule)

/-- What a rule says about strings is said at places that fit into words of 64 bits. -/
def InWords (id : Nat) (additions : List Addition) (rule : Rule) : Prop :=
  ∀ d ∈ overUsages id additions (ofUsage rule), d.location.span.start < 2 ^ 64

instance (id : Nat) (additions : List Addition) : DecidablePred (InWords id additions) :=
  fun rule => inferInstanceAs (Decidable (∀ d ∈ overUsages id additions (ofUsage rule), _))

theorem reaching_eq (u : Usage) : reaching u.arguments = u.constructorArguments := by
  rw [Usage.constructorArguments]
  induction u.arguments with
  | nil => rfl
  | cons argument arguments ih =>
    obtain ⟨binding, value⟩ := argument
    cases binding <;> simp [reaching, List.filter_cons, Argument.isConstructor, ih]

end Expected

/-! ## Reports that cannot fail -/

namespace Report

variable {sources : SourceMap} {file : FileId} {source : SourceFile}

theorem locate_eq_ok (h : sources.resolve file = .ok source) (position : Nat) :
    locate sources file position = .ok (Expected.place file source.path position) := by
  rw [locate, h]
  rfl

theorem violation_eq_ok {v : Violation} (h : sources.resolve v.file = .ok source)
    (d : Descriptor) :
    violation sources d v =
      .ok (diagnose d [String.singleton v.character, v.text]
        (Expected.place v.file source.path v.position)) := by
  rw [violation, locate_eq_ok h]
  rfl

/-- A violation is reported where it is. -/
theorem start_of_violation_eq_ok {d : Descriptor} {v : Violation} {found : Diagnostic}
    (h : violation sources d v = .ok found) : found.location.span.start = v.position := by
  rw [violation, locate] at h
  cases hfile : sources.resolve v.file with
  | error e =>
    rw [hfile] at h
    cases h
  | ok file =>
    rw [hfile] at h
    cases h
    rfl

/-- Violations are reported at places in words, if they are at such places. -/
theorem inWords_iff_forall_start {d : Descriptor} {vs : List Violation} {found : List Diagnostic}
    (h : violations sources d vs = .ok found) :
    Scan.InWords vs ↔ ∀ d ∈ found, d.location.span.start < 2 ^ 64 :=
  forall_mem_iff_of_forall₂ (mapM_eq_ok_iff.mp h) fun v d hd => by
    rw [start_of_violation_eq_ok hd]

theorem malformedUsage_eq_ok {m : MalformedUsage} (h : sources.resolve m.file = .ok source)
    (d : Descriptor) :
    malformedUsage sources d m =
      .ok (diagnose d [m.name, m.reason.message]
        (Expected.place m.file source.path m.targetStart)) := by
  rw [malformedUsage, locate_eq_ok h]
  rfl

end Report

/-! ## Scanning one string -/

namespace Scan

/-- The violation for a disallowed character with its index and its number. -/
def toViolation (rule : Rule) (o : Occurrence) : (Char × Nat) × Nat → Violation
  | ((c, index), number) =>
    { file := o.file
      position := o.targetStart + offset rule.positionMode number index
      character := c
      text := o.text
      index }

theorem scanFrom_eq_map (rule : Rule) (o : Occurrence) (cs : List Char) (number index : Nat) :
    scanFrom rule o number index cs =
      (((cs.zipIdx index).filter fun p => rule.disallows p.1).zipIdx number).map
        (toViolation rule o) := by
  induction cs generalizing number index with
  | nil => rfl
  | cons c cs ih =>
    rw [List.zipIdx_cons, List.filter_cons]
    by_cases hc : rule.disallows c
    · rw [scanFrom, if_pos hc, ih, if_pos hc, List.zipIdx_cons, List.map_cons]
      rfl
    · rw [scanFrom, if_neg hc, ih, if_neg hc]

/-- A scan finds the disallowed characters in order, each with its index and its number. -/
theorem scan_eq_map (rule : Rule) (o : Occurrence) :
    scan rule o = (Expected.disallowed rule o.text.toList).map (toViolation rule o) :=
  scanFrom_eq_map rule o o.text.toList 0 0

end Scan

/-! ## One usage -/

/-- A usage has one string for the constructor, or it has none and the reason says why. -/
theorem Usage.singleString_cases (u : Usage) :
    (∃ binding text, u.constructorArguments = [{ binding, value := .string text }] ∧
      u.singleString = .ok text) ∨
    ((∀ binding text, u.constructorArguments ≠ [{ binding, value := .string text }]) ∧
      ∃ reason, u.singleString = .error reason ∧
        reason.message = Expected.reason u.constructorArguments) := by
  rw [Usage.singleString]
  match u.constructorArguments with
  | [] => exact .inr ⟨by intros; simp, .noArguments, rfl, rfl⟩
  | [{ binding, value := .string text }] => exact .inl ⟨binding, text, rfl, rfl⟩
  | [{ binding, value := .other text }] =>
    exact .inr ⟨by intros; simp, .nonStringArgument, rfl, rfl⟩
  | a :: b :: rest =>
    exact .inr ⟨by intros; simp, .tooManyArguments (a :: b :: rest).length, by simp, rfl⟩

namespace Extraction

/-- The string of a usage, if the usage is of the wanted attribute and has one to check. -/
def occurrencesOf (wanted : AttributeName) (file : FileId) (u : Usage) : List Occurrence :=
  if wanted.isWrittenAs u.name then (occurrence? (file, u)).toList else []

/-- The usage with what is wrong with it, if it is of the wanted attribute and has no string. -/
def malformedOf (wanted : AttributeName) (file : FileId) (u : Usage) : List MalformedUsage :=
  if wanted.isWrittenAs u.name then (malformed? (file, u)).toList else []

theorem filterMap_matching {α : Type} (f : FileId × Usage → Option α) (wanted : AttributeName)
    (unit : CompilationUnit) :
    (matching wanted unit).filterMap f =
      unit.usages.flatMap fun u =>
        if wanted.isWrittenAs u.name then (f (unit.file, u)).toList else [] := by
  rw [matching, List.filterMap_map]
  induction unit.usages with
  | nil => rfl
  | cons u usages ih =>
    rw [List.flatMap_cons, ← ih, List.filter_cons]
    by_cases hu : wanted.isWrittenAs u.name
    · rw [if_pos hu, if_pos hu, List.filterMap_cons, Function.comp_apply]
      cases f (unit.file, u) <;> rfl
    · rw [if_neg hu, if_neg hu, List.nil_append]

theorem occurrences_ofCompilation (c : Compilation) (wanted : AttributeName) :
    (ofCompilation c wanted).occurrences =
      c.units.flatMap fun unit => unit.usages.flatMap (occurrencesOf wanted unit.file) := by
  show (c.units.flatMap (matching wanted)).filterMap occurrence? = _
  rw [List.filterMap_flatMap]
  exact congrArg (fun part => c.units.flatMap part)
    (funext fun unit => filterMap_matching occurrence? wanted unit)

theorem malformed_ofCompilation (c : Compilation) (wanted : AttributeName) :
    (ofCompilation c wanted).malformed =
      c.units.flatMap fun unit => unit.usages.flatMap (malformedOf wanted unit.file) := by
  show (c.units.flatMap (matching wanted)).filterMap malformed? = _
  rw [List.filterMap_flatMap]
  exact congrArg (fun part => c.units.flatMap part)
    (funext fun unit => filterMap_matching malformed? wanted unit)

end Extraction

/-! ## Usages, files and rules -/

namespace Analysis

variable {sources : SourceMap} {file : FileId} {source : SourceFile}

/-- Scanning and reporting the string of one usage gives the diagnostics expected of it. -/
theorem report_usage (h : sources.resolve file = .ok source) (rule : Rule) (u : Usage) :
    (Scan.scanAll rule (Extraction.occurrencesOf rule.attributeName file u)).mapM
        (Report.violation sources rule.descriptor) =
      .ok (Expected.ofUsage rule file source.path u) := by
  rw [Extraction.occurrencesOf, Expected.ofUsage, Expected.reaching_eq]
  by_cases hu : rule.attributeName.isWrittenAs u.name
  · rw [if_pos hu, if_pos hu, Extraction.occurrence?]
    rcases u.singleString_cases with ⟨binding, text, hc, hs⟩ | ⟨hc, reason, hs, -⟩
    · simp only [hs, hc, Option.toList_some, Scan.scanAll, List.flatMap_singleton]
      rw [Scan.scan_eq_map, List.mapM_map]
      refine mapM_eq_ok _ ?_
      rintro ⟨⟨c, index⟩, number⟩ -
      refine (Report.violation_eq_ok (v := Scan.toViolation rule _ ((c, index), number)) h
        rule.descriptor).trans ?_
      simp only [Expected.character, Scan.toViolation, Scan.offset]
      cases rule.positionMode <;> rfl
    · simp only [hs]
      rfl
  · rw [if_neg hu, if_neg hu]
    rfl

/-- Reporting a usage without a string gives the one diagnostic expected of it. -/
theorem report_malformedUsage (h : sources.resolve file = .ok source) (rule : Rule) (u : Usage) :
    (Extraction.malformedOf rule.attributeName file u).mapM
        (Report.malformedUsage sources
          { Descriptor.malformedArguments with category := rule.descriptor.category }) =
      .ok (Expected.ofMalformedUsage rule file source.path u) := by
  rw [Extraction.malformedOf, Expected.ofMalformedUsage, Expected.reaching_eq]
  by_cases hu : rule.attributeName.isWrittenAs u.name
  · rw [if_pos hu, if_pos hu, Extraction.malformed?]
    rcases u.singleString_cases with ⟨binding, text, hc, hs⟩ | ⟨hc, reason, hs, hr⟩
    · simp only [hs, hc]
      rfl
    · simp only [hs]
      rw [← hr, ← Descriptor.format_malformedArguments, Option.toList_some, List.mapM_cons,
        Report.malformedUsage_eq_ok h]
      rfl
  · rw [if_neg hu, if_neg hu]
    rfl

variable {id : Nat} {additions : List Addition} {c : Compilation}

theorem report_occurrences (h : Compilation.Holds id additions c) (rule : Rule) :
    Report.violations c.sources rule.descriptor
        (Scan.scanAll rule (Extraction.ofCompilation c rule.attributeName).occurrences) =
      .ok (Expected.overUsages id additions (Expected.ofUsage rule)) := by
  rw [Extraction.occurrences_ofCompilation, Scan.scanAll, List.flatMap_assoc, h.units,
    List.flatMap_map]
  refine mapM_flatMap_eq_ok _ ?_
  rintro ⟨a, i⟩ ha
  rw [List.flatMap_assoc]
  exact mapM_flatMap_eq_ok _ fun u _ => report_usage (h.resolve ha) rule u

theorem report_malformed (h : Compilation.Holds id additions c) (rule : Rule) :
    malformedDiagnostics c.sources rule (Extraction.ofCompilation c rule.attributeName) =
      .ok (match rule.malformed with
        | .skip => []
        | .report => Expected.overUsages id additions (Expected.ofMalformedUsage rule)) := by
  rw [malformedDiagnostics]
  cases rule.malformed with
  | skip => rfl
  | report =>
    show Report.malformed _ _ _ = _
    rw [Extraction.malformed_ofCompilation, h.units, List.flatMap_map, Report.malformed]
    refine mapM_flatMap_eq_ok _ ?_
    rintro ⟨a, i⟩ ha
    exact mapM_flatMap_eq_ok _ fun u _ => report_malformedUsage (h.resolve ha) rule u

/-- One rule reports what is expected of it, and its report cannot fail. -/
theorem ruleDiagnostics_of_holds (h : Compilation.Holds id additions c) (rule : Rule) :
    ruleDiagnostics Scan.scanAll c rule = .ok (Expected.ofRule id additions rule) := by
  simp only [ruleDiagnostics, reportRule]
  rw [report_occurrences h, report_malformed h]
  rfl

/-- All enabled rules report what is expected of them, one rule after the other. -/
theorem analyze_of_holds (h : Compilation.Holds id additions c) (registry : Registry) :
    analyze registry c =
      .ok (registry.enabledRules.flatMap (Expected.ofRule id additions)) := by
  rw [analyze, analyzeWith, mapM_eq_ok _ fun rule _ => ruleDiagnostics_of_holds h rule]
  show Except.ok _ = _
  rw [← List.flatMap_def]

theorem inWordsBy_iff (h : Compilation.Holds id additions c) (rule : Rule) :
    InWordsBy rule c ↔ Expected.InWords id additions rule :=
  Report.inWords_iff_forall_start (report_occurrences h rule)

/-- With checked addition the rules report the same, if the places fit into words. -/
theorem analyzeCheckedWith_of_holds {scanner : CheckedScanner} (hscanner : Checks scanner)
    (h : Compilation.Holds id additions c) (registry : Registry) :
    analyzeCheckedWith scanner registry c =
      if ∀ rule ∈ registry.enabledRules, Expected.InWords id additions rule then
        .ok (registry.enabledRules.flatMap (Expected.ofRule id additions))
      else .error .overflow := by
  have hwords : (∀ rule ∈ registry.enabledRules, InWordsBy rule c) ↔
      ∀ rule ∈ registry.enabledRules, Expected.InWords id additions rule :=
    forall₂_congr fun rule _ => inWordsBy_iff h rule
  rw [analyzeCheckedWith_eq hscanner fun rule _ => ruleDiagnostics_of_holds h rule,
    if_congr hwords rfl rfl]

/-- The analysis of a compilation never meets an unknown file. It gives the diagnostics of the
enabled rules in the order of the registry; those of one rule are one for each disallowed character
of each string of its attribute, followed, if the rule asks for it, by one for each other use of its
attribute. With checked addition these are the diagnostics whenever the places of the first sort fit
into words of 64 bits, and the analysis overflows whenever one of them does not. -/
theorem analyze_build (registry : Registry) (id : Nat) (additions : List Addition) :
    analyze registry (Compilation.build id additions) =
      .ok ((registry.rules.filter (·.enabled)).flatMap (Expected.ofRule id additions)) ∧
    analyzeChecked registry (Compilation.build id additions) =
      if ∀ rule ∈ registry.rules.filter Rule.enabled, Expected.InWords id additions rule then
        .ok ((registry.rules.filter (·.enabled)).flatMap (Expected.ofRule id additions))
      else .error .overflow :=
  ⟨analyze_of_holds (Compilation.holds_build id additions) registry,
    analyzeCheckedWith_of_holds checks_scanAll? (Compilation.holds_build id additions) registry⟩

end Analysis

end AttributeLint
