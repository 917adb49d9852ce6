import SchemaLang.Command.Arguments
import SchemaLang.Command.Check
import SchemaLang.Files.Discovery

/-!
# Running a command

A run finds files, reads all of them, and only then writes any. So what comes of a file that is
found twice does not hang on which comes first.
-/

namespace SchemaLang

namespace Command

/-- The paths that a command was given. -/
def paths : Command → List String
  | .check ps _ => ps
  | .format _ ps _ => ps

/-- The extensions that a command looks for. -/
def exts : Command → List String
  | .check _ es => es
  | .format _ _ es => es

/-- What comes of a command once its files are found and read: the outcome, and the
files to write. -/
def finish (c : Command) (d : Discovery) (files : List Loaded) : Outcome × List (String × String) :=
  if d.missing ≠ [] then (.unscannable d.missing, [])
  else match c with
    | .check .. => (Check.run files d.skipped, [])
    | .format mode _ _ => Format.run mode files

/-- Runs a command on a file tree. -/
def run (c : Command) (t : FileTree Content) : Outcome × FileTree Content :=
  let d := Discovery.discover t.lookup c.paths c.exts
  let files := d.paths.map fun path => Loaded.ofContent path (t.read? path)
  let (outcome, writes) := c.finish d files
  (outcome, writes.foldl (fun t (path, text) => t.write path (.text text)) t)

end Command

end SchemaLang
