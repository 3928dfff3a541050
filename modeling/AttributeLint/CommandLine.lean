import AttributeLint.Rule
import AttributeLint.Text.Digits

/-!
# CommandLine — the words of a command line and what they ask for

Words are read from left to right. An option that takes a value has it after an equals sign in the
same word or in the next word, which may not itself look like an option. A value given in the next
word, like a run of file names, waits until another option or the end shows that it is complete,
and is only then checked; so an unknown option is found before a bad value that still waits.
-/

namespace AttributeLint

/-- How diagnostics are printed. -/
inductive OutputFormat where
  | text
  | json
  deriving DecidableEq, Repr

/-- A format as it is written. -/
def OutputFormat.word : OutputFormat → String
  | .text => "text"
  | .json => "json"

/-- The format that a word writes. -/
def OutputFormat.ofWord? (word : String) : Option OutputFormat :=
  [OutputFormat.text, .json].find? (·.word = word)

/-- Why a command line is not carried out. -/
inductive UsageError where
  | unknownArgument
  /-- A value is missing, empty, or none of the words that are allowed. -/
  | invalidValue
  /-- A value is no number of the right size. -/
  | valueValidation
  /-- A value is given to an option that takes none. -/
  | tooManyValues
  /-- An option that may be given once is given again. -/
  | argumentConflict
  | displayHelp
  | displayVersion
  deriving DecidableEq, Repr

/-- The options that take a value. -/
inductive Setting where
  | rules
  | rulesDir
  | positionMode
  | malformed
  | format
  | chunkSize
  | emitAttribute
  | logLevel
  deriving DecidableEq, Repr

/-- The options that take no value. -/
inductive Switch where
  | noUserRules
  | parallel
  | denyWarnings
  deriving DecidableEq, Repr

/-- All options. -/
inductive CommandOption where
  | setting (s : Setting)
  | switch (s : Switch)
  | help
  | version
  deriving DecidableEq, Repr

/-- The option with the given name, written behind two hyphens. -/
def CommandOption.ofLong? : String → Option CommandOption
  | "rules" => some (.setting .rules)
  | "rules-dir" => some (.setting .rulesDir)
  | "position-mode" => some (.setting .positionMode)
  | "malformed" => some (.setting .malformed)
  | "format" => some (.setting .format)
  | "chunk-size" => some (.setting .chunkSize)
  | "emit-attribute" => some (.setting .emitAttribute)
  | "log-level" => some (.setting .logLevel)
  | "no-user-rules" => some (.switch .noUserRules)
  | "parallel" => some (.switch .parallel)
  | "deny-warnings" => some (.switch .denyWarnings)
  | "help" => some .help
  | "version" => some .version
  | _ => none

/-- The option with the given letter, written behind one hyphen. -/
def CommandOption.ofShort? : Char → Option CommandOption
  | 'h' => some .help
  | 'V' => some .version
  | _ => none

/-- What a command line asks for; an option that is not given is absent. -/
structure Arguments where
  files : List String
  rules : List String
  rulesDir? : Option String
  noUserRules : Bool
  positionMode? : Option PositionMode
  malformed? : Option MalformedPolicy
  format? : Option OutputFormat
  parallel : Bool
  chunkSize? : Option Nat
  emitAttribute? : Option String
  denyWarnings : Bool
  logLevel? : Option String
  deriving DecidableEq, Repr

namespace Arguments

/-- Nothing is asked for. -/
def none : Arguments :=
  { files := [], rules := [], rulesDir? := .none, noUserRules := false, positionMode? := .none
    malformed? := .none, format? := .none, parallel := false, chunkSize? := .none
    emitAttribute? := .none, denyWarnings := false, logLevel? := .none }

/-- A path, which may not be empty. -/
def path (value : String) : Except UsageError String :=
  if value.isEmpty then .error .invalidValue else .ok value

/-- A word that stands for a value. -/
def choice {α : Type} (ofWord? : String → Option α) (value : String) : Except UsageError α :=
  match ofWord? value with
  | some a => .ok a
  | .none => .error .invalidValue

/-- A number in decimal digits, before which a plus sign may stand. -/
def number (value : String) : Except UsageError Nat :=
  let digits := match value.toList with
    | '+' :: rest => rest
    | cs => cs
  match Text.number? digits with
  | some n => .ok n
  | .none => .error .valueValidation

/-- A value for an option that may be given once. -/
def once {α : Type} (given : Option α) (value : Except UsageError α) :
    Except UsageError (Option α) :=
  if given.isSome then .error .argumentConflict else value.map some

/-- The arguments with a value given to an option. -/
def set (a : Arguments) (s : Setting) (value : String) : Except UsageError Arguments :=
  match s with
  | .rules => (path value).map fun file => { a with rules := a.rules ++ [file] }
  | .rulesDir => (once a.rulesDir? (path value)).map ({ a with rulesDir? := · })
  | .positionMode =>
    (once a.positionMode? (choice PositionMode.ofWord? value)).map ({ a with positionMode? := · })
  | .malformed =>
    (once a.malformed? (choice MalformedPolicy.ofWord? value)).map ({ a with malformed? := · })
  | .format => (once a.format? (choice OutputFormat.ofWord? value)).map ({ a with format? := · })
  | .chunkSize => (once a.chunkSize? (number value)).map ({ a with chunkSize? := · })
  | .emitAttribute => (once a.emitAttribute? (path value)).map ({ a with emitAttribute? := · })
  | .logLevel => (once a.logLevel? (.ok value)).map ({ a with logLevel? := · })

/-- The switch that is true, unless it was given before. -/
def raise (given : Bool) : Except UsageError Bool :=
  if given then .error .argumentConflict else .ok true

/-- The arguments with a switch given. -/
def turnOn (a : Arguments) : Switch → Except UsageError Arguments
  | .noUserRules => (raise a.noUserRules).map ({ a with noUserRules := · })
  | .parallel => (raise a.parallel).map ({ a with parallel := · })
  | .denyWarnings => (raise a.denyWarnings).map ({ a with denyWarnings := · })

end Arguments

namespace CommandLine

/-- What was read but is not yet complete. -/
inductive Pending where
  | nothing
  /-- An option and its value, if that was read. -/
  | setting (s : Setting) (value? : Option String)
  | files (paths : List String)
  deriving DecidableEq, Repr

/-- The state between two words. -/
structure State where
  arguments : Arguments
  pending : Pending
  /-- A word of two hyphens was read: everything after it is a file name. -/
  onlyFiles : Bool
  deriving DecidableEq, Repr

/-- The state before the first word. -/
def State.start : State :=
  { arguments := .none, pending := .nothing, onlyFiles := false }

/-- The state with what was pending checked and taken over. -/
def State.settle (state : State) : Except UsageError State :=
  match state.pending with
  | .nothing => .ok state
  | .setting _ none => .error .invalidValue
  | .setting s (some value) =>
    (state.arguments.set s value).map ({ state with arguments := ·, pending := .nothing })
  | .files paths => do
    let files ← paths.mapM Arguments.path
    let arguments := { state.arguments with files := state.arguments.files ++ files }
    .ok { state with arguments, pending := .nothing }

/-- An option, with the value that stands behind an equals sign in the same word. -/
def State.option (state : State) (option : CommandOption) (value? : Option String) :
    Except UsageError State :=
  match option, value? with
  | .setting s, some value => do
    let state ← state.settle
    (state.arguments.set s value).map ({ state with arguments := · })
  | .setting s, none => do
    let state ← state.settle
    .ok { state with pending := .setting s none }
  | _, some _ => .error .tooManyValues
  | .switch s, none => do
    let state ← state.settle
    (state.arguments.turnOn s).map ({ state with arguments := · })
  | .help, none => do
    let _ ← state.settle
    .error .displayHelp
  | .version, none => do
    let _ ← state.settle
    .error .displayVersion

/-- A file name. -/
def State.file (state : State) (path : String) : Except UsageError State :=
  match state.pending with
  | .files paths => .ok { state with pending := .files (paths ++ [path]) }
  | _ => do
    let state ← state.settle
    .ok { state with pending := .files [path] }

/-- A word that is no option: the value that an option waits for, or a file name. -/
def State.plain (state : State) (word : String) : Except UsageError State :=
  match state.pending with
  | .setting s none => .ok { state with pending := .setting s (some word) }
  | _ => state.file word

/-- The name of an option and the value behind an equals sign. -/
def splitValue (cs : List Char) : String × Option String :=
  match cs.dropWhile (· ≠ '=') with
  | [] => (String.ofList cs, none)
  | _ :: value => (String.ofList (cs.takeWhile (· ≠ '=')), some (String.ofList value))

/-- The state after one more word. -/
def State.word (state : State) (word : String) : Except UsageError State :=
  if state.onlyFiles then state.file word
  else
    match word.toList with
    | ['-', '-'] => .ok { state with onlyFiles := true }
    | '-' :: '-' :: cs =>
      match CommandOption.ofLong? (splitValue cs).1 with
      | some option => state.option option (splitValue cs).2
      | none => .error .unknownArgument
    | '-' :: c :: _ =>
      match CommandOption.ofShort? c with
      | some option => state.option option none
      | none => .error .unknownArgument
    | _ => state.plain word

/-- What the words of a command line ask for. -/
def parse (words : List String) : Except UsageError Arguments := do
  let state ← words.foldlM State.word .start
  (·.arguments) <$> state.settle

end CommandLine

end AttributeLint
