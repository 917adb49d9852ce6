/-!
# Tokens

The smallest pieces of a document that carry meaning. Arrows such as `-->` are no tokens: each of
their characters is one, and the grammar puts them together. A description is the text of a `##`
line; it is a token of its own, and what it describes is the token after it.
-/

namespace SchemaLang

/-- The tokens that are one fixed character. -/
inductive Punctuator where
  | atSign
  | bang
  | braceClose
  | braceOpen
  | bracketClose
  | bracketOpen
  | colon
  | dash
  | dollar
  | equals
  | greater
  | less
  | parenClose
  | parenOpen
  | pipe
deriving DecidableEq, Repr

namespace Punctuator

/-- The character. -/
def char : Punctuator → Char
  | .atSign => '@'
  | .bang => '!'
  | .braceClose => '}'
  | .braceOpen => '{'
  | .bracketClose => ']'
  | .bracketOpen => '['
  | .colon => ':'
  | .dash => '-'
  | .dollar => '$'
  | .equals => '='
  | .greater => '>'
  | .less => '<'
  | .parenClose => ')'
  | .parenOpen => '('
  | .pipe => '|'

/-- Every punctuator once. -/
def all : List Punctuator :=
  [.atSign, .bang, .braceClose, .braceOpen, .bracketClose, .bracketOpen, .colon, .dash, .dollar,
    .equals, .greater,
   .less, .parenClose, .parenOpen, .pipe]

/-- The punctuator that a character is. -/
def ofChar? (c : Char) : Option Punctuator :=
  all.find? fun p => p.char = c

theorem ofChar?_char (p : Punctuator) : ofChar? p.char = some p := by
  cases p <;> decide

theorem char_of_ofChar? {c : Char} {p : Punctuator} (h : ofChar? c = some p) : p.char = c := by
  simpa using List.find?_some h

end Punctuator

/-- A token. Numbers keep the text they were written as; a string holds what its escapes stand for;
a description holds its line without the `##` and without the white space around it. -/
inductive Token where
  | punctuator (p : Punctuator)
  | name (text : String)
  | int (text : String)
  | float (text : String)
  | string (value : String)
  | description (text : String)
  | endOfInput
deriving DecidableEq, Repr

namespace Token

/-- The word for tokens of this sort in messages: the character of a punctuator, a capitalised word
for the rest. -/
def sort : Token → String
  | .punctuator p => p.char.toString
  | .name _ => "Name"
  | .int _ => "Int"
  | .float _ => "Float"
  | .string _ => "String"
  | .description _ => "Description"
  | .endOfInput => "EOF"

/-- The text that the token carries, for the sorts that carry one. -/
def payload? : Token → Option String
  | .punctuator _ => none
  | .name text => some text
  | .int text => some text
  | .float text => some text
  | .string value => some value
  | .description text => some text
  | .endOfInput => none

/-- A token as a message names it: its sort, and its text between quotes if it carries one. -/
def describe (t : Token) : String :=
  match t.payload? with
  | some text => s!"{t.sort} \"{text}\""
  | none => t.sort

/-- Whether an arrow can begin with this token. -/
def startsArrow : Token → Bool
  | .punctuator .dash => true
  | .punctuator .equals => true
  | .punctuator .less => true
  | _ => false

/-- Whether the token is a name. -/
def isName : Token → Bool
  | .name _ => true
  | _ => false

end Token

end SchemaLang
