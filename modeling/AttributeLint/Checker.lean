import AttributeLint.Configuration
import AttributeLint.Json
import AttributeLint.Session

/-!
# Checker — checking files and printing what was found

A check loads the rules, reads the files in the order given, and runs the rules once. What it found
is printed as one line for each diagnostic or as one array of objects, and decides whether the run
counts as failed.
-/

namespace AttributeLint

/-- Why a check has no outcome. -/
inductive CheckError where
  | noInputFiles
  | rules (cause : LoadError)
  | unreadableFile (path : String)
  | report (cause : UnknownFile)
  deriving DecidableEq, Repr

namespace CheckError

/-- The wording of the error. -/
def message : CheckError → String
  | .noInputFiles => "no input files"
  | .rules cause => cause.message
  | .unreadableFile path => "Failed to read " ++ path
  | .report cause => cause.message

/-- What is wrong with the rules themselves. -/
def cause? : CheckError → Option RuleError
  | .rules cause => cause.cause?
  | _ => none

end CheckError

/-- The files that were checked, and what was found. -/
structure Outcome where
  compilation : Compilation
  result : RunResult
  deriving DecidableEq, Repr

namespace Checker

/-- The compilation of the files with the given paths. -/
def readAll (disk : Disk) : Compilation → List String → Except CheckError Compilation
  | c, [] => .ok c
  | c, path :: paths =>
    match disk.read? path with
    | none => .error (.unreadableFile path)
    | some text => readAll disk (c.addParsed path text) paths

/-- Runs the rules over a compilation as the configuration says. -/
def runOnce (c : Configuration) (rules : Registry) (compilation : Compilation) :
    Except UnknownFile RunResult := do
  let session := Session.start rules
  let session ←
    if c.parallel then session.advanceParallel id c.chunkSize compilation
    else session.advance compilation
  return session.last?.getD (Analysis.result [])

/-- Checks the files of a configuration. -/
def check (disk : Disk) (c : Configuration) : Except CheckError Outcome := do
  if c.files.isEmpty && c.emitDirectory?.isNone then
    throw .noInputFiles
  let rules ← (c.registry disk).mapError .rules
  let compilation ← readAll disk (.empty 0) c.files
  let result ← (runOnce c rules compilation).mapError .report
  return { compilation, result }

end Checker

namespace Outcome

/-- A diagnostic as an object, with its line and column. -/
def jsonEntry (sources : SourceMap) (d : Diagnostic) : JsonValue :=
  let place := (sources.get? d.location.file).elim ⟨0, 0⟩ (·.lineColumn d.location.span.start)
  .object [
    ("rule_id", .string d.ruleId),
    ("title", .string d.title),
    ("message", .string d.message),
    ("severity", .string d.severity.word),
    ("location", .object [
      ("file", .number d.location.file.index),
      ("path", .string d.location.path),
      ("span", .object [
        ("start", .number d.location.span.start),
        ("length", .number d.location.span.length)])]),
    ("line", .number place.line),
    ("column", .number place.column)]

/-- What is printed. -/
def render (o : Outcome) : OutputFormat → String
  | .text =>
    String.join (o.result.diagnostics.map fun d => d.render o.compilation.sources ++ "\n")
  | .json =>
    (JsonValue.array (o.result.diagnostics.map (jsonEntry o.compilation.sources))).pretty 0 ++ "\n"

/-- The run counts as failed: there is an error, or a warning where warnings are denied. -/
def shouldFail (o : Outcome) (denyWarnings : Bool) : Bool :=
  Diagnostic.hasErrors o.result.diagnostics ||
    (denyWarnings && 0 < Diagnostic.count o.result.diagnostics .warning)

end Outcome

end AttributeLint
