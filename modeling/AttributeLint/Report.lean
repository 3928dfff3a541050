import AttributeLint.Scan

/-!
# Report — diagnostics from violations

A report turns violations into diagnostics, one each and in order. The files of all of them are
looked up first, so a handle of another source map fails the report as a whole.
-/

namespace AttributeLint

namespace Report

/-- The place of a byte offset in a file of the map, one byte long. -/
def locate (sources : SourceMap) (file : FileId) (position : Nat) : Except UnknownFile Location :=
  (sources.resolve file).map fun source =>
    { file, path := source.path, span := { start := position, length := 1 } }

/-- A diagnostic of a rule with the given arguments of its message. -/
def diagnose (d : Descriptor) (arguments : List String) (location : Location) : Diagnostic :=
  { ruleId := d.id
    title := d.title
    message := d.format arguments
    severity := d.severity
    location }

/-- The diagnostic of one violation. -/
def violation (sources : SourceMap) (d : Descriptor) (v : Violation) :
    Except UnknownFile Diagnostic :=
  (locate sources v.file v.position).map (diagnose d [String.singleton v.character, v.text])

/-- The diagnostic of one usage without a string to check. -/
def malformedUsage (sources : SourceMap) (d : Descriptor) (m : MalformedUsage) :
    Except UnknownFile Diagnostic :=
  (locate sources m.file m.targetStart).map (diagnose d [m.name, m.reason.message])

/-- The diagnostics of some violations. -/
def violations (sources : SourceMap) (d : Descriptor) (vs : List Violation) :
    Except UnknownFile (List Diagnostic) :=
  vs.mapM (violation sources d)

/-- The diagnostics of some usages without strings to check. -/
def malformed (sources : SourceMap) (d : Descriptor) (ms : List MalformedUsage) :
    Except UnknownFile (List Diagnostic) :=
  ms.mapM (malformedUsage sources d)

/-- The collected diagnostics with one more behind them. -/
def accept (collected : List Diagnostic) (new : Diagnostic) : List Diagnostic :=
  collected ++ [new]

/-- Hands the diagnostics of some violations over, one after the other: what is collected then, and
the number of the new ones. Nothing is handed over before all files were looked up. -/
def handOver (sources : SourceMap) (d : Descriptor) (vs : List Violation)
    (collected : List Diagnostic) : List Diagnostic × Except UnknownFile Nat :=
  match violations sources d vs with
  | .ok new => (new.foldl accept collected, .ok new.length)
  | .error e => (collected, .error e)

/-- What is collected when the diagnostics of some violations were handed over, and the number of
the new ones, for those who stop at an unknown file. -/
def violationsInto (sources : SourceMap) (d : Descriptor) (vs : List Violation)
    (collected : List Diagnostic) : Except UnknownFile (List Diagnostic × Nat) :=
  let (collected, count) := handOver sources d vs collected
  count.map (collected, ·)

end Report

end AttributeLint
