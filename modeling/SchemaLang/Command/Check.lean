import SchemaLang.Command.Loaded
import SchemaLang.Command.Outcome

/-!
# Checking

A check parses every file and counts the definitions. If any file fails it tells about all that do,
and nothing else.
-/

namespace SchemaLang.Check

/-- How many definitions there are in a file, or what to tell about it. -/
def definitions (f : Loaded) : Except String Nat :=
  f.parse.map fun (_, document) => document.definitions.length

/-- What to tell about the files that fail. -/
def failures (files : List Loaded) : List String :=
  files.filterMap fun f =>
    match definitions f with
    | .error told => some told
    | .ok _ => none

/-- How many definitions there are in the files that parse. -/
def total (files : List Loaded) : Nat :=
  (files.map fun f =>
    match definitions f with
    | .error _ => 0
    | .ok n => n).foldl (· + ·) 0

/-- The lines of a check without failures. -/
def summary (files : List Loaded) (skipped : Nat) : String :=
  "\n".intercalate
    [Outcome.goodMark ++ " All schema files parsed successfully:",
     "  * Checked " ++ Outcome.count files.length "file" ++ ".",
     "  * Skipped " ++ Outcome.count skipped "non-schema file" ++ ".",
     "  * Parsed " ++ Outcome.count (total files) "definition" ++ "."]

/-- Checks files, `skipped` others having been passed over. -/
def run (files : List Loaded) (skipped : Nat) : Outcome :=
  match failures files with
  | [] => .succeed (summary files skipped)
  | told => .fail ("\n\n".intercalate told ++ "\n\n" ++ Outcome.badMark ++
      s!" {told.length} of " ++ Outcome.count files.length "file" ++ " failed to parse.")

end SchemaLang.Check
