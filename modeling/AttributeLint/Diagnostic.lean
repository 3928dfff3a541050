import AttributeLint.Message
import AttributeLint.Source

/-!
# Diagnostic — what is reported, and how it reads

A diagnostic says where a rule is violated and in which words. Its words come from the descriptor of
the rule, and its place is a span of bytes in a file.
-/

namespace AttributeLint

/-- How grave a diagnostic is. -/
inductive Severity where
  | error
  | warning
  | info
  deriving DecidableEq, Repr

/-- A severity as it is written. -/
def Severity.word : Severity → String
  | .error => "error"
  | .warning => "warning"
  | .info => "info"

/-- The severity that a word writes. -/
def Severity.ofWord? (word : String) : Option Severity :=
  [Severity.error, .warning, .info].find? (·.word = word)

/-- What all diagnostics of a rule have in common. -/
structure Descriptor where
  id : String
  title : String
  /-- The template of the message, with the placeholders `{0}` and `{1}`. -/
  messageFormat : String
  category : String
  severity : Severity
  deriving DecidableEq, Repr

namespace Descriptor

/-- The category of rules that name no other. -/
def defaultCategory : String := "ErrorGenerator"

/-- The template of rules that give no other. -/
def defaultMessageFormat : String := "Illegal character '\x7b0\x7d' in message \"\x7b1\x7d\""

/-- The descriptor of the built-in rule. -/
def illegalCharacter : Descriptor :=
  { id := "ESG0001"
    title := "Illegal character in message"
    messageFormat := defaultMessageFormat
    category := defaultCategory
    severity := .warning }

/-- The descriptor for usages without a string to check. -/
def malformedArguments : Descriptor :=
  { id := "ESG0002"
    title := "Malformed attribute arguments"
    messageFormat := "Attribute '\x7b0\x7d' expects exactly one string argument (\x7b1\x7d)"
    category := defaultCategory
    severity := .info }

/-- The message with the arguments put in. -/
def format (d : Descriptor) (arguments : List String) : String :=
  Message.fill d.messageFormat arguments

end Descriptor

/-- A stretch of bytes in a file. -/
structure Span where
  start : Nat
  length : Nat
  deriving DecidableEq, Repr

/-- The offset just after the span. -/
def Span.stop (s : Span) : Nat :=
  s.start + s.length

/-- The file a diagnostic is about, its path, and the span it points at. -/
structure Location where
  file : FileId
  path : String
  span : Span
  deriving DecidableEq, Repr

/-- One reported violation. -/
structure Diagnostic where
  ruleId : String
  title : String
  message : String
  severity : Severity
  location : Location
  deriving DecidableEq, Repr

namespace Diagnostic

/-- What stands after the place: severity, rule and message. -/
def body (d : Diagnostic) : String :=
  d.severity.word ++ "[" ++ d.ruleId ++ "]: " ++ d.message

/-- The diagnostic with its place as byte offsets. -/
def display (d : Diagnostic) : String :=
  d.location.path ++ "@" ++ toString d.location.span.start ++ ".." ++
    toString d.location.span.stop ++ ": " ++ d.body

/-- The diagnostic with its place as line and column, if the map knows the file. -/
def render (sources : SourceMap) (d : Diagnostic) : String :=
  match sources.get? d.location.file with
  | none => d.display
  | some file =>
    let place := file.lineColumn d.location.span.start
    d.location.path ++ ":" ++ toString place.line ++ ":" ++ toString place.column ++ ": " ++ d.body

/-- The number of diagnostics of a severity. -/
def count (ds : List Diagnostic) (severity : Severity) : Nat :=
  ds.countP (·.severity = severity)

/-- Some diagnostic is an error. -/
def hasErrors (ds : List Diagnostic) : Bool :=
  0 < count ds .error

end Diagnostic

end AttributeLint
