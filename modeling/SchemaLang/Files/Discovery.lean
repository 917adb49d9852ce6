import SchemaLang.Files.Tree

/-!
# Finding files

The files of a run are found at and below the paths that were given, path by path. Of the files in a
directory only those with a wanted extension count. One file that was given alone is taken as it is,
since it was named on purpose.
-/

namespace SchemaLang

/-- The files found for some paths. -/
structure Discovery where
  paths : List String
  /-- How many files were passed over for their extension. -/
  skipped : Nat
  /-- The given paths at which there is nothing. -/
  missing : List String
deriving DecidableEq, Repr

namespace Discovery

/-- All files at and below some paths, where `find` tells what a path means. -/
def candidates (find : String → Option (FileTree α)) (roots : List String) : List String :=
  roots.flatMap fun root => ((find root).map (FileTree.filePaths root)).getD []

/-- The file that was given alone. -/
def lone? (find : String → Option (FileTree α)) : List String → Option String
  | [root] =>
    match find root with
    | some (.file _) => some root
    | _ => none
  | _ => none

/-- Finds the files with one of some extensions at and below some paths. -/
def discover (find : String → Option (FileTree α)) (roots exts : List String) : Discovery :=
  let exts := Path.normalizeExtensions exts
  let missing := roots.filter fun root => (find root).isNone
  let (wanted, others) := (candidates find roots).partition (Path.hasExtension exts)
  match wanted, lone? find roots with
  | [], some root => ⟨[root], others.length - 1, missing⟩
  | _, _ => ⟨wanted, others.length, missing⟩

end Discovery

end SchemaLang
