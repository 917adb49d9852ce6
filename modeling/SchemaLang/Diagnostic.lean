import SchemaLang.Source

/-!
# Diagnostics

A diagnostic is a message about a place in a source, with notes that may point at other places. It
is shown as one line, or in full: then each place comes with its line of the source and a mark under
the character. The mark is preceded by one character of padding for each character before the place;
a tab stays a tab there, so that the mark stands under its character whatever the width of a tab is.
-/

namespace SchemaLang

/-- What a note does: it adds a fact, or it says how to mend the text. -/
inductive NoteKind where
  | note
  | help
deriving DecidableEq, Repr

/-- The word in front of a note of this kind. -/
def NoteKind.text : NoteKind → String
  | .note => "note"
  | .help => "help"

/-- A remark to a diagnostic, which may point at a byte offset of the same source. -/
structure Note where
  kind : NoteKind
  message : String
  position : Option Nat
deriving DecidableEq, Repr

namespace Note

/-- A fact about the text as a whole. -/
def general (message : String) : Note := ⟨.note, message, none⟩

/-- A fact about a place. -/
def pointing (message : String) (position : Nat) : Note := ⟨.note, message, some position⟩

/-- Advice. -/
def advice (message : String) : Note := ⟨.help, message, none⟩

end Note

/-- A message about a place in a source. -/
structure Diagnostic where
  source : Source
  position : Nat
  message : String
  notes : List Note
deriving DecidableEq, Repr

namespace Diagnostic

/-- Line and column of the place. -/
def location (d : Diagnostic) : Location := d.source.locationAt d.position

/-- The message on one line, after the name of the source and the place. -/
def oneLine (d : Diagnostic) : String :=
  s!"Syntax Error {d.source.name} ({d.location.text}) {d.message}"

/-- Pads on the left with spaces up to `width` characters. -/
def padLeft (width : Nat) (s : String) : String :=
  String.ofList (List.replicate (width - s.length) ' ') ++ s

/-- What stands before the mark: one character for each of the first `count`
characters of the line. -/
def padding (count : Nat) (line : List Char) : List Char :=
  (line.take count).map fun c => if c = '\t' then '\t' else ' '

/-- The line of a place and below it the mark, behind a margin with the line's number. -/
def snippet (source : Source) (place : Location) (mark : Char) : Option String :=
  (source.line? place.line).map fun line =>
    let number := toString place.line
    let margin := padLeft (max 2 number.length) ""
    margin ++ " |\n" ++
      padLeft (max 2 number.length) number ++ " | " ++ String.ofList line ++ "\n" ++
      margin ++ " | " ++ String.ofList (padding (place.column - 1) line ++ [mark]) ++ "\n"

/-- A note with the snippet of the place it points at. -/
def noteText (source : Source) (note : Note) : String :=
  s!"   = {note.kind.text}: {note.message}\n" ++
    ((note.position.bind fun p => snippet source (source.locationAt p) '-').getD "")

/-- The diagnostic in full, over several lines. -/
def detailed (d : Diagnostic) : String :=
  s!"error: {d.message}\n  --> {d.source.name}:{d.location.text}\n" ++
    (snippet d.source d.location '^').getD "" ++
    String.join (d.notes.map (noteText d.source))

end Diagnostic

end SchemaLang
