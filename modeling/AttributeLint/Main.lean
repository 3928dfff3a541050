import AttributeLint.Files.Snapshot
import AttributeLint.Invocation

/-!
# Main — the command line

Collects what a call needs to know from the file system, and carries out the plan that the library
makes of it.
-/

namespace AttributeLint.Terminal

/-- The text of a file, if it can be read. -/
def readText? (path : String) : IO (Option String) := do
  try return some (← IO.FS.readFile path)
  catch _ => return none

/-- The names in a directory, if it can be listed. -/
def listNames? (path : String) : IO (Option (List String)) := do
  try
    let entries ← ((← IO.currentDir) / path).readDir
    return some (entries.toList.map (·.fileName))
  catch _ => return none

/-- The directory and its names; nothing if there is no such directory. -/
def directory? (path : String) : IO (Option (String × Option (List String))) := do
  if path ≠ "" && (← ((← IO.currentDir) / path).isDir) then
    return some (path, ← listNames? path)
  else return none

/-- All that the check of a configuration may ask about. -/
def snapshot (c : Configuration) : IO Snapshot := do
  let directories ← c.ruleDirectories.filterMapM directory?
  let listed := directories.flatMap fun d => Registry.ruleFiles d.1 (d.2.getD [])
  let texts ← (listed ++ c.ruleFiles ++ c.files).filterMapM fun path => do
    return (← readText? path).map (path, ·)
  return { texts, directories }

/-- Makes a directory, unless it is there. -/
def makeDirectory (path : String) : IO Unit := do
  try IO.FS.createDir path
  catch failure =>
    if !(← ((← IO.currentDir) / path).isDir) then throw failure

/-- Writes files, up to the first that cannot be written. -/
def writeAll : List (String × GeneratedSource) → IO (Option Failure)
  | [] => return none
  | (directory, source) :: rest => do
    try (Path.directoriesTo directory).forM makeDirectory
    catch _ => return some (.directoryNotCreated directory)
    let path := Path.join directory source.name
    try IO.FS.writeFile path source.text
    catch _ => return some (.fileNotWritten path)
    writeAll rest

/-- Says on the error stream why a call failed. -/
def complain (failure : Failure) : IO Unit := do
  IO.eprintln ("Error: " ++ failure.message)
  match failure.cause? with
  | some cause => IO.eprintln ("\nCaused by:\n    " ++ cause.message)
  | none => return

/-- Carries out a call. -/
def run (call : Invocation) : IO Ending := do
  match call.configuration with
  | .error failure =>
    IO.print failure.ending.output
    return failure.ending
  | .ok c =>
    match c.plan (← snapshot c).disk with
    | .error failure => return failure.ending
    | .ok plan =>
      IO.print plan.output
      (← IO.getStdout).flush
      return plan.ending (← writeAll plan.files)

end AttributeLint.Terminal

/-- The program. -/
def main (words : List String) : IO UInt32 := do
  let configDirectory? := AttributeLint.Invocation.userConfigDirectory?
    (← IO.getEnv "XDG_CONFIG_HOME") (← IO.getEnv "HOME")
  let ruleDirectory? ← IO.getEnv "ATTR_CHECK_RULES_DIR"
  let ending ← AttributeLint.Terminal.run { words, configDirectory?, ruleDirectory? }
  ending.failure?.forM AttributeLint.Terminal.complain
  return ending.exitCode
