import SchemaLang.Command.LogLevel
import SchemaLang.Command.Run

/-!
# The program

Runs a command on the files below the current directory: looks at what is at the given paths,
reads the files that are found, and writes those that change. What is to be done with them is
decided elsewhere.
-/

namespace SchemaLang.Program

/-- What is printed for help. -/
def help : List String :=
  ["Check and format graph schema language files.",
   "",
   "Usage: schemalang [OPTIONS] [COMMAND]",
   "",
   "Commands:",
   "  check [--file-exts EXTS] PATHS...",
   "        Parse schema files and report any syntax errors",
   "  fmt   [--file-exts EXTS] [-w|--write] [--discard-comments] PATHS...",
   "        Print schema files in canonical form, or write it in place",
   "",
   "Options:",
   "  -v, --verbose  Enable verbose output",
   "  -h, --help     Print help",
   "  -V, --version  Print version"]

/-- What is printed for arguments that make no sense. -/
def complaint : UsageError → String
  | .unknownSubcommand => "unrecognized subcommand"
  | .unknownArgument => "unexpected argument"
  | .missingPaths => "no paths were given"
  | .missingValue => "a value is required and was not given"
  | .unexpectedValue => "a value was given to a flag that takes none"
  | .repeatedFlag => "a flag cannot be used more than once"
  | .help => ""
  | .version => ""

/-- What is at a path, without the contents of files. -/
partial def shape (path : String) : IO (Option (FileTree Unit)) := do
  let place := (← IO.currentDir) / path
  if ← place.isDir then
    let entries ← place.readDir
    let shapes ← entries.toList.mapM fun e =>
      return (e.fileName, ← shape (Path.join path e.fileName))
    return some (.directory (shapes.filterMap fun (name, t) => t.map (name, ·)))
  if ← place.pathExists then
    return some (.file ())
  return none

/-- Reads a file that was found. -/
def load (path : String) : IO Loaded := do
  let bytes ← IO.FS.readBinFile ((← IO.currentDir) / path)
  return .ofContent path (some (.ofBytes bytes))

/-- Runs a command. -/
def run (command : Command) : IO UInt32 := do
  let shapes ← command.paths.mapM fun path => return (path, ← shape path)
  let found := Discovery.discover (fun path => (shapes.lookup path).join) command.paths command.exts
  let (outcome, writes) := command.finish found (← found.paths.mapM load)
  for (path, text) in writes do
    IO.FS.writeFile ((← IO.currentDir) / path) text
  if let some text := outcome.stdout then
    IO.println text
  if let some text := outcome.stderr then
    IO.eprintln text
  return if outcome.success then 0 else 1

/-- Complains about a setting of the log level that is none. -/
def checkLogLevel (verbose : Bool) : IO Unit := do
  if verbose then
    return
  if let some setting ← IO.getEnv "LOG_LEVEL" then
    if (LogLevel.ofText? setting).isNone then
      IO.eprintln s!"Invalid `LOG_LEVEL` environment variable value: `{setting}`"

end SchemaLang.Program

open SchemaLang in
/-- The program. -/
def main (args : List String) : IO UInt32 := do
  match Invocation.ofArguments args with
  | .error .help =>
    IO.println ("\n".intercalate Program.help)
    return 0
  | .error .version =>
    IO.println "schemalang 0.1.0"
    return 0
  | .error e =>
    IO.eprintln s!"error: {Program.complaint e}"
    return 2
  | .ok ⟨verbose, none⟩ =>
    Program.checkLogLevel verbose
    IO.println ("\n".intercalate Program.help)
    return 0
  | .ok ⟨verbose, some command⟩ =>
    Program.checkLogLevel verbose
    Program.run command
