import SchemaLang.Command.Format

/-!
# Arguments

The arguments of the program name a subcommand, the flags that go with it, and paths. Flags and
paths can be mixed; after `--` everything is a path. The value of an option is either joined to it
with `=` or the next argument. The paths between two flags form a group, and so do an option and its
value: whether a group is in order is seen only when it ends, at the next known flag or at the end.
So an unknown flag is told before a fault in the group that it follows.
-/

namespace SchemaLang

/-- What the program is asked to do. -/
inductive Command where
  | check (paths exts : List String)
  | format (mode : Format.Mode) (paths exts : List String)
deriving DecidableEq, Repr

/-- What the arguments mean. Without a command there is only help to give. -/
structure Invocation where
  verbose : Bool
  command : Option Command
deriving DecidableEq, Repr

/-- Why the arguments ask for no run. -/
inductive UsageError where
  | unknownSubcommand
  | unknownArgument
  | missingPaths
  /-- An option without its value, or a path that is empty. -/
  | missingValue
  /-- A flag with a value that takes none. -/
  | unexpectedValue
  | repeatedFlag
  /-- They ask for help. -/
  | help
  /-- They ask for the version. -/
  | version
deriving DecidableEq, Repr

namespace Arguments

/-- An argument by its form. -/
inductive Form where
  | separator
  | long (name : String) (value : Option String)
  | short (letters : List Char)
  | plain
deriving DecidableEq, Repr

/-- The name of a long flag, and the value after the first `=`. -/
def longForm (cs : List Char) : Form :=
  match cs.dropWhile (· ≠ '=') with
  | [] => .long (String.ofList cs) none
  | _ :: value => .long (String.ofList (cs.takeWhile (· ≠ '='))) (some (String.ofList value))

/-- The form of an argument. -/
def form (arg : String) : Form :=
  match arg.toList with
  | ['-', '-'] => .separator
  | '-' :: '-' :: cs => longForm cs
  | '-' :: c :: cs => .short (c :: cs)
  | _ => .plain

/-- What arguments are for: the program, before any subcommand, or a subcommand. -/
inductive Level where
  | program
  | check
  | format
deriving DecidableEq, Repr

/-- The subcommand with a name. -/
def Level.ofText? (name : String) : Option Level :=
  if name = "check" then some .check else if name = "fmt" then some .format else none

/-- Whether there is help on a topic. -/
def isTopic (name : String) : Bool := (Level.ofText? name).isSome || name = "help"

/-- What a flag is for. -/
inductive Flag where
  | verbose
  | help
  | version
  | fileExts
  | write
  | discardComments
deriving DecidableEq, Repr

/-- The flags by their names. -/
def Level.flags : Level → List (String × Flag)
  | .program => [("verbose", .verbose), ("help", .help), ("version", .version)]
  | .check => [("verbose", .verbose), ("help", .help), ("file-exts", .fileExts)]
  | .format =>
    [("verbose", .verbose), ("help", .help), ("file-exts", .fileExts), ("write", .write),
     ("discard-comments", .discardComments)]

/-- The flags by their letters. -/
def Level.letters : Level → List (Char × Flag)
  | .program => [('v', .verbose), ('h', .help), ('V', .version)]
  | .check => [('v', .verbose), ('h', .help)]
  | .format => [('v', .verbose), ('h', .help), ('w', .write)]

/-- The group that is not ended yet. -/
inductive Group where
  | none
  /-- The option for extensions, without its value yet. -/
  | option
  /-- The option for extensions with its value. -/
  | extensions (value : String)
  | paths (paths : List String)
deriving DecidableEq, Repr

/-- What was read of the arguments for one level. -/
structure Given where
  verbose : Bool := false
  write : Bool := false
  discardComments : Bool := false
  exts : Option (List String) := none
  paths : List String := []
  group : Group := .none
deriving DecidableEq, Repr

namespace Given

/-- Adds the extensions in the value of an option, with commas between them. -/
def addExtensions (g : Given) (value : String) : Given :=
  { g with exts := some (g.exts.getD [] ++ (value.toList.splitOn ',').map String.ofList) }

/-- Ends the group. -/
def endGroup (g : Given) : Except UsageError Given :=
  match g.group with
  | .none => .ok g
  | .option => .error .missingValue
  | .extensions value => .ok { g.addExtensions value with group := .none }
  | .paths ps =>
    if "" ∈ ps then .error .missingValue else .ok { g with paths := g.paths ++ ps, group := .none }

/-- Takes a flag without a value, after ending the group. -/
def addFlag (g : Given) (flag : Flag) : Except UsageError Given := do
  let g ← g.endGroup
  match flag with
  | .verbose => if g.verbose then .error .repeatedFlag else .ok { g with verbose := true }
  | .write => if g.write then .error .repeatedFlag else .ok { g with write := true }
  | .discardComments =>
    if g.discardComments then .error .repeatedFlag else .ok { g with discardComments := true }
  | .help => .error .help
  | .version => .error .version
  | .fileExts => .ok { g with group := .option }

/-- Takes a flag by its name. -/
def addLong (level : Level) (g : Given) (name : String) (value : Option String) :
    Except UsageError Given :=
  match level.flags.lookup name, value with
  | none, _ => .error .unknownArgument
  | some flag, none => g.addFlag flag
  | some .fileExts, some v => do return (← g.endGroup).addExtensions v
  | some _, some _ => .error .unexpectedValue

/-- Takes a flag by its letter. -/
def addLetter (level : Level) (g : Given) (letter : Char) : Except UsageError Given :=
  match level.letters.lookup letter with
  | none => .error .unknownArgument
  | some flag => g.addFlag flag

/-- Takes a path, into the group if it is one of paths. -/
def addPath (g : Given) (path : String) : Except UsageError Given :=
  match g.group with
  | .paths ps => .ok { g with group := .paths (ps ++ [path]) }
  | _ => do return { (← g.endGroup) with group := .paths [path] }

/-- Takes an argument that is no flag: the value that an option waits for, or a path. -/
def addPlain (g : Given) (arg : String) : Except UsageError Given :=
  match g.group with
  | .option => .ok { g with group := .extensions arg }
  | _ => g.addPath arg

/-- Takes all arguments up to the end, those of a subcommand. -/
def addAll (level : Level) (g : Given) : List String → Except UsageError Given
  | [] => g.endGroup
  | arg :: args =>
    match form arg with
    | .separator => do (← args.foldlM addPath g).endGroup
    | .long name value => do addAll level (← g.addLong level name value) args
    | .short letters => do addAll level (← letters.foldlM (addLetter level) g) args
    | .plain => do addAll level (← g.addPlain arg) args

/-- What is done with the canonical form of files. -/
def mode (g : Given) : Format.Mode :=
  if !g.write then .print else if g.discardComments then .writeDiscardingComments else .write

/-- The extensions that are looked for if none are given. -/
def defaultExtensions : List String := ["graphql", "graphqls"]

/-- The command that was given. -/
def command (level : Level) (g : Given) : Except UsageError Command :=
  let exts := g.exts.getD defaultExtensions
  if g.paths = [] then .error .missingPaths
  else if level = .format then .ok (.format g.mode g.paths exts)
  else .ok (.check g.paths exts)

end Given

/-- What comes of a request for help on some topics. -/
def helpOn : List String → UsageError
  | [] => .help
  | [topic] => if isTopic topic then .help else .unknownSubcommand
  | _ => .unknownSubcommand

/-- Reads the arguments of the program, after those that gave `g`. -/
def readAll (g : Given) : List String → Except UsageError Invocation
  | [] => .ok ⟨g.verbose, none⟩
  | arg :: args =>
    match Level.ofText? arg with
    | some level => do
      let given ← Given.addAll level {} args
      return ⟨g.verbose || given.verbose, some (← given.command level)⟩
    | none =>
      if arg = "help" then .error (helpOn args)
      else match form arg with
        | .separator =>
          match args with
          | [] => .ok ⟨g.verbose, none⟩
          | first :: _ => .error (if isTopic first then .unknownArgument else .unknownSubcommand)
        | .long name value => do readAll (← g.addLong .program name value) args
        | .short letters => do readAll (← letters.foldlM (Given.addLetter .program) g) args
        | .plain => .error .unknownSubcommand

end Arguments

/-- What the arguments of the program mean. -/
def Invocation.ofArguments (args : List String) : Except UsageError Invocation :=
  Arguments.readAll {} args

end SchemaLang
