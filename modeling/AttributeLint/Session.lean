import AttributeLint.Analysis

/-!
# Session — repeated runs over changing input

A session runs the same rules over one compilation after another and tells whether what it reports
has changed. Only what a reader of the diagnostics sees is compared, since handles differ from one
compilation to the next. The declaration of the attribute is generated by the first run, and the
later runs hand out the same one.
-/

namespace AttributeLint

/-- The runs so far: the rules, the declaration that the first run generated, the number of runs,
the last outcome, and whether its diagnostics differ from those of the run before. -/
structure Session where
  registry : Registry
  generated? : Option GeneratedSource
  runs : Nat
  last? : Option RunResult
  changed : Bool
  deriving DecidableEq, Repr

namespace Session

/-- A session without runs. -/
def start (registry : Registry) : Session :=
  { registry, generated? := none, runs := 0, last? := none, changed := false }

/-- Two diagnostics read alike: they agree in rule, severity, message, path and span. -/
def sameReport (a b : Diagnostic) : Bool :=
  a.ruleId = b.ruleId && a.severity = b.severity && a.message = b.message &&
    a.location.path = b.location.path && a.location.span = b.location.span

/-- Two lists of diagnostics read alike. -/
def sameReports : List Diagnostic → List Diagnostic → Bool
  | [], [] => true
  | a :: as, b :: bs => sameReport a b && sameReports as bs
  | _, _ => false

/-- The declaration that runs hand out: the one at hand, or a new one if there is none yet. -/
def generated (s : Session) : GeneratedSource :=
  s.generated?.getD .errorAttribute

/-- The session after a run that found some diagnostics. -/
def record (s : Session) (diagnostics : List Diagnostic) : Session :=
  { s with
    generated? := some s.generated
    runs := s.runs + 1
    last? := some { generatedSources := [s.generated], diagnostics }
    changed :=
      match s.last? with
      | none => true
      | some previous => !sameReports previous.diagnostics diagnostics }

/-- Runs the rules over a compilation. -/
def advance (s : Session) (c : Compilation) : Except UnknownFile Session :=
  (Analysis.analyze s.registry c).map s.record

/-- Runs the rules over a compilation, scanning in chunks. -/
def advanceParallel (arrange : List Scan.Finished → List Scan.Finished) (chunkSize : Nat)
    (s : Session) (c : Compilation) : Except UnknownFile Session :=
  (Analysis.analyzeParallel arrange chunkSize s.registry c).map s.record

/-- Runs the rules over a compilation, unless an addition overflows. -/
def advanceChecked (s : Session) (c : Compilation) : Except Analysis.Failure Session :=
  (Analysis.analyzeChecked s.registry c).map s.record

/-- Runs the rules over a compilation, scanning in chunks, unless an addition overflows. -/
def advanceParallelChecked (arrange : List Scan.Finished → List Scan.Finished) (chunkSize : Nat)
    (s : Session) (c : Compilation) : Except Analysis.Failure Session :=
  (Analysis.analyzeParallelChecked arrange chunkSize s.registry c).map s.record

end Session

end AttributeLint
