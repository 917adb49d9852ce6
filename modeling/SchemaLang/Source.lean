import SchemaLang.Text.Bytes
import SchemaLang.Text.Lines

/-!
# Sources and the spans in them

A source is the text of a document with the name under which its errors are reported. Places in it
are byte offsets; a span is the half-open interval between two of them.
-/

namespace SchemaLang

/-- The text of a document and the name it is reported under. -/
structure Source where
  body : String
  name : String
deriving DecidableEq, Repr

/-- The bytes from `start` up to, not including, `stop`. -/
structure Span where
  start : Nat
  stop : Nat
deriving DecidableEq, Repr

namespace Span

/-- The number of bytes. -/
def length (s : Span) : Nat := s.stop - s.start

/-- No byte at all. -/
def isEmpty (s : Span) : Bool := s.start == s.stop

end Span

namespace Source

/-- The name of a source that was given none. -/
def defaultName : String := "GraphQL"

/-- The text as characters. -/
def chars (s : Source) : List Char := s.body.toList

/-- The length of the text in bytes. -/
def byteLength (s : Source) : Nat := Text.byteLength s.chars

/-- Line and column of a byte offset. -/
def locationAt (s : Source) (position : Nat) : Location :=
  locate .origin position s.chars

/-- The characters of a line, counted from 1. -/
def line? (s : Source) (number : Nat) : Option (List Char) :=
  (Text.lines s.chars)[number - 1]?

/-- The text that a span covers, if both of its ends are character boundaries. -/
def text? (s : Source) (span : Span) : Option String :=
  (Text.slice? span.start span.stop s.chars).map String.ofList

end Source

end SchemaLang
