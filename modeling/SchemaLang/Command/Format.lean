import SchemaLang.Command.Loaded
import SchemaLang.Command.Outcome
import SchemaLang.Printer.Print
import SchemaLang.Text.Blank

/-!
# Formatting

Formatting prints every file in canonical form, or puts the canonical form in place of what the file
holds. A comment is lost in canonical form, so that a file with comments is left alone unless that
is wanted. A file that fails is left alone in any case.
-/

namespace SchemaLang.Format

/-- What is to be done with the canonical form of a file. -/
inductive Mode where
  /-- Print it. -/
  | print
  /-- Write it, unless that loses comments. -/
  | write
  /-- Write it, with or without comments. -/
  | writeDiscardingComments
deriving DecidableEq, Repr

/-- What was done with a file. -/
inductive Result where
  | printed (text : String)
  | unchanged
  | updated (text : String)
  /-- Writing would have lost comments. -/
  | keptComments (count : Nat)
  | failed (told : String)
deriving DecidableEq, Repr

/-- Updates a text that is not canonical, but not if it has comments that would be lost. -/
def update? (mode : Mode) (body canonical : String) : Result :=
  if canonical = body then .unchanged
  else if mode = .write then
    let source : Source := ⟨body, Source.defaultName⟩
    match source.comments with
    | .error e => .failed (e.diagnostic source).detailed
    | .ok [] => .updated canonical
    | .ok comments => .keptComments comments.length
  else .updated canonical

/-- Formats a file. -/
def file (mode : Mode) (f : Loaded) : Result :=
  match f.parse with
  | .error told => .failed told
  | .ok (body, document) =>
    let canonical := (Node.document document).print
    if mode = .print then .printed canonical else update? mode body canonical

/-- Files with what was done with each. -/
abbrev Results := List (String × Result)

/-- What to tell about the files that fail. -/
def failures (rs : Results) : List String :=
  rs.filterMap fun
    | (_, .failed told) => some told
    | _ => none

/-- The paths of the files that keep their comments. -/
def keptPaths (rs : Results) : List String :=
  rs.filterMap fun
    | (path, .keptComments _) => some path
    | _ => none

/-- The files to write, with their new texts. -/
def writes (rs : Results) : List (String × String) :=
  rs.filterMap fun
    | (path, .updated text) => some (path, text)
    | _ => none

/-- The canonical texts, each under its path if there is more than one file. -/
def printedTexts (rs : Results) : List String :=
  rs.filterMap fun
    | (path, .printed text) => some (if rs.length > 1 then s!"# {path}\n{text}" else text)
    | _ => none

/-- All canonical texts as one, without white space at the end. -/
def printedSchema (rs : Results) : String :=
  String.ofList (Text.trimEnd ("\n".intercalate (printedTexts rs)).toList)

/-- What is told about files that were written, and about those that were not because of
their comments. -/
def writeSummary (rs : Results) : String :=
  let wellFormed := rs.length - (failures rs).length
  let updated := Outcome.goodMark ++
    s!" Rewrote {(writes rs).length} of " ++ Outcome.count wellFormed "well-formed file" ++ "."
  match keptPaths rs with
  | [] => updated
  | kept => updated ++ "\n" ++ Outcome.badMark ++
      " Left " ++ Outcome.count kept.length "file" ++
      " with comments untouched (see --discard-comments):" ++
      String.join (kept.map fun path => s!"\n  {path}")

/-- What formatting comes to. -/
def outcome (mode : Mode) (rs : Results) : Outcome :=
  let stdout := if mode = .print then printedSchema rs else writeSummary rs
  match failures rs with
  | [] => .succeed stdout
  | told => .failPartly stdout ("\n\n".intercalate told ++ "\n\n" ++ Outcome.badMark ++
      s!" {told.length} of " ++ Outcome.count rs.length "file" ++ " failed to parse and " ++
      (if told.length = 1 then "was" else "were") ++ " left untouched.")

/-- Formats files. Answers what it comes to, and the files to write. -/
def run (mode : Mode) (files : List Loaded) : Outcome × List (String × String) :=
  let rs := files.map fun f => (f.path, file mode f)
  (outcome mode rs, writes rs)

end SchemaLang.Format
