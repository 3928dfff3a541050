import AttributeLint.Report
import AttributeLint.Rule.Registry
import AttributeLint.Scan.Parallel

/-!
# Analysis — running the enabled rules over a compilation

For each enabled rule in turn: the usages of its attribute are extracted, their strings are
scanned, and the violations are reported; after them, if the rule asks for it, the usages without a
string. A run also hands out the declaration of the attribute that the built-in rule is about.

An analysis with checked addition of places (`analyzeChecked`) has one more way to fail.
-/

namespace AttributeLint

/-- A source file that a run produces. -/
structure GeneratedSource where
  name : String
  text : String
  deriving DecidableEq, Repr

/-- The declaration of the attribute that the built-in rule is about. -/
def GeneratedSource.errorAttribute : GeneratedSource :=
  { name := "ErrorAttribute.cs"
    text := String.join
      ["using System;\n",
        "internal sealed class ErrorAttribute : Attribute\n",
        "\x7b\n",
        "    public ErrorAttribute(string message) => Message = message;\n",
        "    public string Message \x7b get; \x7d\n",
        "\x7d\n"] }

/-- The outcome of a run. -/
structure RunResult where
  generatedSources : List GeneratedSource
  diagnostics : List Diagnostic
  deriving DecidableEq, Repr

/-- Why an analysis with checked addition gives no diagnostics. -/
inductive Analysis.Failure where
  /-- A file to report on is not registered. -/
  | unknownFile (e : UnknownFile)
  /-- A place is too large for a word. -/
  | overflow
  deriving DecidableEq, Repr

namespace Analysis

/-- A way to find the violations of several strings. -/
abbrev Scanner := Rule → List Occurrence → List Violation

/-- A way to find the violations of several strings that has no result when an addition
overflows. -/
abbrev CheckedScanner := Rule → List Occurrence → Option (List Violation)

/-- The diagnostics of the usages without a string, if the rule asks for them. -/
def malformedDiagnostics (sources : SourceMap) (rule : Rule) (e : Extraction) :
    Except UnknownFile (List Diagnostic) :=
  match rule.malformed with
  | .skip => .ok []
  | .report =>
    let descriptor := { Descriptor.malformedArguments with category := rule.descriptor.category }
    Report.malformed sources descriptor e.malformed

/-- The diagnostics of one rule, of which these violations were found. -/
def reportRule (c : Compilation) (rule : Rule) (e : Extraction) (vs : List Violation) :
    Except UnknownFile (List Diagnostic) := do
  let found ← Report.violations c.sources rule.descriptor vs
  let malformed ← malformedDiagnostics c.sources rule e
  return found ++ malformed

/-- The diagnostics of one rule. -/
def ruleDiagnostics (scanner : Scanner) (c : Compilation) (rule : Rule) :
    Except UnknownFile (List Diagnostic) :=
  let extraction := Extraction.ofCompilation c rule.attributeName
  reportRule c rule extraction (scanner rule extraction.occurrences)

/-- The diagnostics of one rule, unless an addition overflows. -/
def ruleDiagnosticsChecked (scanner : CheckedScanner) (c : Compilation) (rule : Rule) :
    Except Failure (List Diagnostic) :=
  let extraction := Extraction.ofCompilation c rule.attributeName
  match scanner rule extraction.occurrences with
  | none => .error .overflow
  | some found => (reportRule c rule extraction found).mapError .unknownFile

/-- The diagnostics of the enabled rules, found with the given scanner. -/
def analyzeWith (scanner : Scanner) (registry : Registry) (c : Compilation) :
    Except UnknownFile (List Diagnostic) :=
  (registry.enabledRules.mapM (ruleDiagnostics scanner c)).map List.flatten

/-- The diagnostics of the enabled rules. -/
def analyze (registry : Registry) (c : Compilation) : Except UnknownFile (List Diagnostic) :=
  analyzeWith Scan.scanAll registry c

/-- The diagnostics of the enabled rules, with strings scanned in chunks by tasks that finish in the
order that `arrange` puts them in. -/
def analyzeParallel (arrange : List Scan.Finished → List Scan.Finished) (chunkSize : Nat)
    (registry : Registry) (c : Compilation) : Except UnknownFile (List Diagnostic) :=
  analyzeWith (fun rule os => Scan.scanParallel arrange rule chunkSize os) registry c

/-- The diagnostics of the enabled rules, found with the given scanner. -/
def analyzeCheckedWith (scanner : CheckedScanner) (registry : Registry) (c : Compilation) :
    Except Failure (List Diagnostic) :=
  (registry.enabledRules.mapM (ruleDiagnosticsChecked scanner c)).map List.flatten

/-- The diagnostics of the enabled rules, unless an addition overflows. -/
def analyzeChecked (registry : Registry) (c : Compilation) : Except Failure (List Diagnostic) :=
  analyzeCheckedWith Scan.scanAll? registry c

/-- The diagnostics of the enabled rules, with strings scanned in chunks as in `analyzeParallel`,
unless an addition overflows. -/
def analyzeParallelChecked (arrange : List Scan.Finished → List Scan.Finished) (chunkSize : Nat)
    (registry : Registry) (c : Compilation) : Except Failure (List Diagnostic) :=
  analyzeCheckedWith (fun rule os => Scan.scanParallel? arrange rule chunkSize os) registry c

/-- The outcome of a run that found some diagnostics. -/
def result (diagnostics : List Diagnostic) : RunResult :=
  { generatedSources := [.errorAttribute], diagnostics }

/-- A full run. -/
def run (registry : Registry) (c : Compilation) : Except UnknownFile RunResult :=
  (analyze registry c).map result

/-- A full run that scans in chunks. -/
def runParallel (arrange : List Scan.Finished → List Scan.Finished) (chunkSize : Nat)
    (registry : Registry) (c : Compilation) : Except UnknownFile RunResult :=
  (analyzeParallel arrange chunkSize registry c).map result

end Analysis

end AttributeLint
