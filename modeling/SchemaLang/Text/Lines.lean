/-!
# Lines of a text

A line ends at CR LF, LF, CR, U+2028 or U+2029. `lines` cuts a text there, and `locate` counts to a
byte offset, so that a position can be shown as a line and a column. Both count from 1, and columns
count characters.
-/

namespace SchemaLang.Text

/-- The characters that end a line, each on its own. -/
def isLineBreak (c : Char) : Bool :=
  c == '\n' || c == '\r' || c == '\u2028' || c == '\u2029'

/-- The lines without what ends them. There is always one, and the last one may be empty. -/
def lines : List Char → List (List Char)
  | [] => [[]]
  | '\r' :: '\n' :: cs => [] :: lines cs
  | c :: cs => if isLineBreak c then [] :: lines cs else (lines cs).modifyHead (c :: ·)

end SchemaLang.Text

namespace SchemaLang

/-- A place in a text as people count: line and column, from 1. -/
structure Location where
  line : Nat
  column : Nat
deriving DecidableEq, Repr

namespace Location

/-- The first place of a text. -/
def origin : Location := ⟨1, 1⟩

/-- The first place of the next line. -/
def nextLine (l : Location) : Location := ⟨l.line + 1, 1⟩

/-- The next place of the same line. -/
def nextColumn (l : Location) : Location := ⟨l.line, l.column + 1⟩

/-- The usual form, `line:column`. -/
def text (l : Location) : String := s!"{l.line}:{l.column}"

end Location

/-- The place `n` bytes after `here`, where `cs` starts. An offset inside a character stands for the
start of that character, one past the end for the end, and one between CR and LF for the start of
the next line. -/
def locate (here : Location) : Nat → List Char → Location
  | _, [] => here
  | n, '\r' :: '\n' :: cs =>
    if n = 0 then here
    else if n = 1 then here.nextLine
    else locate here.nextLine (n - 2) cs
  | n, c :: cs =>
    if n < c.utf8Size then here
    else locate (if Text.isLineBreak c then here.nextLine else here.nextColumn) (n - c.utf8Size) cs

end SchemaLang
