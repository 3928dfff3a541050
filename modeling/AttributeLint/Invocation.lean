import AttributeLint.Checker
import AttributeLint.CommandLine.Help
import AttributeLint.Files.Tree

/-!
# Invocation — one call of the program, from its words to its exit code

A call is first turned into a configuration, then into a plan: what is printed, which files are
written after that, and whether the findings make the call fail. Everything up to the plan is a
function of the disk. `Invocation.run` carries the plan out on a directory tree in memory.
-/

namespace AttributeLint

/-- A call of the program: its words, and what its surroundings add to them. -/
structure Invocation where
  words : List String
  /-- The directory that holds the configuration of the user. -/
  configDirectory? : Option String
  /-- One more rule directory, loaded after the others. -/
  ruleDirectory? : Option String
  deriving DecidableEq, Repr

/-- Why a call is not carried out, or not to its end. -/
inductive Failure where
  | usage (cause : UsageError)
  | configuration (cause : ConfigurationError)
  | check (cause : CheckError)
  | directoryNotCreated (path : String)
  | fileNotWritten (path : String)
  deriving DecidableEq, Repr

namespace Failure

/-- The wording of the failure. -/
def message : Failure → String
  | .usage cause => cause.message
  | .configuration cause => cause.message
  | .check cause => cause.message
  | .directoryNotCreated path => "Failed to create " ++ path
  | .fileNotWritten path => "Failed to write " ++ path

/-- What is wrong with the rules themselves. -/
def cause? : Failure → Option RuleError
  | .check cause => cause.cause?
  | _ => none

/-- The text that is printed instead of a failure. -/
def requestedText? : Failure → Option String
  | .usage cause => cause.requestedText?
  | _ => none

/-- The exit code of a call that fails so. -/
def exitCode : Failure → UInt32
  | .usage _ => 2
  | _ => 1

end Failure

/-- What a call does once it has read everything. -/
structure Plan where
  /-- What is printed, before anything is written. -/
  output : String
  /-- The files to write, each with its directory. -/
  files : List (String × GeneratedSource)
  /-- The findings make the call fail. -/
  fails : Bool
  deriving DecidableEq, Repr

/-- How a call ends: what it printed, its exit code, and what went wrong. -/
structure Ending where
  output : String
  exitCode : UInt32
  failure? : Option Failure
  deriving DecidableEq, Repr

namespace Plan

/-- The exit code if all files are written. -/
def exitCode (plan : Plan) : UInt32 :=
  if plan.fails then 1 else 0

/-- How the call ends when the files are written, or one of them is not. -/
def ending (plan : Plan) (failure? : Option Failure) : Ending :=
  { output := plan.output
    exitCode := failure?.elim plan.exitCode (·.exitCode)
    failure? }

end Plan

/-- How a call ends that never comes to a plan. -/
def Failure.ending (failure : Failure) : Ending :=
  match failure.requestedText? with
  | some text => { output := text, exitCode := 0, failure? := none }
  | none => { output := "", exitCode := failure.exitCode, failure? := some failure }

/-- The tree with some files written, up to the first that cannot be. -/
def FileTree.writeAll (tree : FileTree) :
    List (String × GeneratedSource) → FileTree × Option Failure
  | [] => (tree, none)
  | (directory, source) :: rest =>
    match tree.createDirectory? directory with
    | none => (tree, some (.directoryNotCreated directory))
    | some tree =>
      let path := Path.join directory source.name
      match tree.write? path source.text with
      | none => (tree, some (.fileNotWritten path))
      | some tree => tree.writeAll rest

/-- What a check of the configured files leads to. -/
def Configuration.plan (disk : Disk) (c : Configuration) : Except Failure Plan := do
  let outcome ← (Checker.check disk c).mapError .check
  return {
    output := outcome.render c.format
    files := c.emitDirectory?.toList.flatMap fun directory =>
      outcome.result.generatedSources.map (directory, ·)
    fails := outcome.shouldFail c.denyWarnings }

namespace Invocation

/-- The directory with the configuration of a user: the one that is set, if it is an absolute path,
or else the usual one in the home directory. -/
def userConfigDirectory? (set? home? : Option String) : Option String :=
  match set?.filter (·.startsWith "/") with
  | some directory => some directory
  | none => (home?.filter (· ≠ "")).map (Path.join · ".config")

/-- The configuration that a call asks for. -/
def configuration (call : Invocation) : Except Failure Configuration := do
  let arguments ← (CommandLine.parse call.words).mapError .usage
  let c ← (Configuration.ofArguments call.configDirectory? arguments).mapError .configuration
  return c.withRuleDirectory call.ruleDirectory?

/-- Carries a call out on a directory tree. -/
def run (call : Invocation) (tree : FileTree) : Ending × FileTree :=
  match call.configuration.bind (Configuration.plan tree.disk) with
  | .error failure => (failure.ending, tree)
  | .ok plan =>
    let (tree, failure?) := tree.writeAll plan.files
    (plan.ending failure?, tree)

end Invocation

end AttributeLint
