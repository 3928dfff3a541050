import AttributeLint.CommandLine

/-!
# Help — what the program says about its command line

The words printed when a command line asks for help or for the version, and those that say why a
command line is not carried out.
-/

namespace AttributeLint.CommandLine

/-- The name of the program. -/
def programName : String := "attr-check"

/-- What is printed when the version is asked for. -/
def versionText : String := programName ++ " 0.1.0\n"

/-- The options as they are written, each with what it does. -/
def optionHelp : List (String × String) :=
  [("    --rules <RULES>", "Rule file in TOML format (repeatable)"),
    ("    --rules-dir <RULES_DIR>", "Directory containing rule TOML files"),
    ("    --no-user-rules", "Do not load rules from the user config directory"),
    ("    --position-mode <POSITION_MODE>", "Override how violation positions are computed"),
    ("    --malformed <MALFORMED>", "Override handling of malformed attribute usages"),
    ("    --format <FORMAT>", "Output format [default: text]"),
    ("    --parallel", "Scan occurrences on multiple worker tasks"),
    ("    --chunk-size <CHUNK_SIZE>",
      "Occurrences per task when scanning in parallel [default: 64]"),
    ("    --emit-attribute <EMIT_ATTRIBUTE>",
      "Write the generated ErrorAttribute declaration into this directory"),
    ("    --deny-warnings", "Exit with failure when warnings are reported"),
    ("    --log-level <LOG_LEVEL>",
      "Log level (trace, debug, info, warn, error) [default: warn]"),
    ("-h, --help", "Print help"),
    ("-V, --version", "Print version")]

/-- What is printed when help is asked for. -/
def helpText : String :=
  String.join
    ["Check attribute string arguments for disallowed characters\n\n",
      "Usage: ", programName, " [OPTIONS] [FILES]...\n\n",
      "Arguments:\n  [FILES]...  Source files to validate\n\n",
      "Options:\n",
      String.join (optionHelp.map fun (option, purpose) =>
        "  " ++ option ++ "\n          " ++ purpose ++ "\n")]

end AttributeLint.CommandLine

namespace AttributeLint.UsageError

/-- The wording of the error. -/
def message : UsageError → String
  | .unknownArgument => "unexpected argument"
  | .invalidValue => "a value is missing or not allowed"
  | .valueValidation => "invalid value for an option that takes a number"
  | .tooManyValues => "unexpected value for an option that takes none"
  | .argumentConflict => "an option cannot be used multiple times"
  | .displayHelp => "help is asked for"
  | .displayVersion => "the version is asked for"

/-- The text that the command line asks for. Printing it is no failure. -/
def requestedText? : UsageError → Option String
  | .displayHelp => some CommandLine.helpText
  | .displayVersion => some CommandLine.versionText
  | _ => none

end AttributeLint.UsageError
