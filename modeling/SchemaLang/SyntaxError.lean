import SchemaLang.Diagnostic
import SchemaLang.Text.Visible
import SchemaLang.Token

/-!
# Syntax errors

Reading stops at the first fault of a text. A syntax error says where the fault is, what it is (its
cause) and, where the grammar knows more, a hint. Its wording and its category follow from these:
`message` is what a person reads, `category` is what a program asks for.
-/

namespace SchemaLang

/-- What the grammar wanted at a place. -/
inductive Expectation where
  | punctuator (p : Punctuator)
  | keyword (word : String)
  | name
  | endOfInput
deriving DecidableEq, Repr

/-- The word for it in messages. -/
def Expectation.text : Expectation → String
  | .punctuator p => p.char.toString
  | .keyword word => s!"\"{word}\""
  | .name => "Name"
  | .endOfInput => "EOF"

/-- Why reading stopped. -/
inductive Cause where
  /-- One thing was wanted and another token stands there. -/
  | expected (wanted : Expectation) (found : Token)
  /-- The token starts nothing that may stand there. -/
  | unexpected (found : Token)
  /-- The character starts no token. -/
  | unexpectedCharacter (c : Char)
  /-- The line or the text ended within a string, `length` bytes after its opening quote began. -/
  | unterminatedString (length : Nat)
  /-- A control character stands in a string. -/
  | invalidCharacterInString (c : Char)
  /-- A backslash in a string starts no escape; `written` is the text from it on that was
  taken for one. -/
  | invalidEscape (written : String)
  /-- A number goes on after a leading zero. -/
  | leadingZero (next : Char)
  /-- A number wants a digit where another character or the end of the text is. -/
  | missingDigit (found : Option Char)
  /-- Lists, objects or list types are nested deeper than `limit`. -/
  | nestingTooDeep (limit : Nat)
deriving DecidableEq, Repr

/-- The sorts of faults that a program can tell apart. -/
inductive Category where
  | unexpectedToken (expected : List String) (found : String)
  | unexpectedEnd (expected : List String)
  | unexpectedCharacter (c : Char)
  | unterminatedString
  | invalidCharacterInString (c : Char)
  | invalidEscape (written : String)
  | invalidNumber
  | nestingTooDeep (limit : Nat)
deriving DecidableEq, Repr

namespace Category

/-- A short text that names the category and what is particular to it. -/
def text : Category → String
  | .unexpectedToken _ found => s!"unexpected token: {found}"
  | .unexpectedEnd _ => "unexpected end of input"
  | .unexpectedCharacter c => s!"unexpected character {Text.quotedChar c}"
  | .unterminatedString => "unterminated string"
  | .invalidCharacterInString c => s!"invalid character {Text.quotedChar c} within string"
  | .invalidEscape written => s!"invalid escape sequence `{written}`"
  | .invalidNumber => "invalid number"
  | .nestingTooDeep limit => s!"nesting deeper than {limit} levels"

/-- The category of a token that does not fit, where `expected` would have. -/
def ofMisfit (expected : List String) : Token → Category
  | .endOfInput => .unexpectedEnd expected
  | found => .unexpectedToken expected found.describe

end Category

/-- The four hexadecimal digits, upper case, by which a message shows a control character. -/
def controlNumber (c : Char) : String :=
  let digits := (Nat.toDigits 16 c.toNat).map Char.toUpper
  String.ofList (List.replicate (4 - digits.length) '0' ++ digits)

/-- A character as a message shows it: between double quotes, a control by its number. -/
def describeChar (c : Char) : String :=
  if c < ' ' ∨ c = '\x7f' then "\"\\u" ++ controlNumber c ++ "\""
  else "\"" ++ String.singleton c ++ "\""

namespace Cause

/-- The message for a person. -/
def message : Cause → String
  | .expected wanted found => s!"Expected {wanted.text}, found {found.describe}"
  | .unexpected found => s!"Unexpected {found.describe}"
  | .unexpectedCharacter c => s!"Unexpected character {describeChar c}."
  | .unterminatedString _ => "Unterminated string."
  | .invalidCharacterInString c => s!"Invalid character within String: {describeChar c}."
  | .invalidEscape written => s!"Invalid character escape sequence: {written}."
  | .leadingZero next => s!"Invalid number, unexpected digit after 0: \"{next}\"."
  | .missingDigit (some c) => s!"Invalid number, expected digit but got: \"{c}\"."
  | .missingDigit none => "Invalid number, expected digit but got: <EOF>."
  | .nestingTooDeep limit => s!"Maximum nesting depth of {limit} exceeded"

/-- The category for a program. -/
def category : Cause → Category
  | .expected wanted found => .ofMisfit [wanted.text] found
  | .unexpected found => .ofMisfit [] found
  | .unexpectedCharacter c => .unexpectedCharacter c
  | .unterminatedString _ => .unterminatedString
  | .invalidCharacterInString c => .invalidCharacterInString c
  | .invalidEscape written => .invalidEscape written
  | .leadingZero _ => .invalidNumber
  | .missingDigit _ => .invalidNumber
  | .nestingTooDeep limit => .nestingTooDeep limit

/-- The notes that a cause brings, for a fault at `position`. -/
def notes (position : Nat) : Cause → List Note
  | .unexpectedCharacter '\'' => [.advice "string literals use double quotes"]
  | .unterminatedString length =>
    [.pointing "string started here" (position - length),
     .advice "strings cannot span lines; close it with `\"`"]
  | _ => []

end Cause

/-- The arrows of a field's connections and of a mutation's edges, as far as they differ in
what is advised. -/
inductive ArrowShape where
  | outgoingOne
  | outgoingMany
  | incomingOne
  | incomingMany
deriving DecidableEq, Repr

/-- The two ways to write an arrow of a shape, without and with a label. -/
def ArrowShape.text : ArrowShape → String
  | .outgoingOne => "`--> Type` or `-Label-> Type`"
  | .outgoingMany => "`==> Type` or `=Label=> Type`"
  | .incomingOne => "`<-- Type` or `<-Label- Type`"
  | .incomingMany => "`<== Type` or `<=Label= Type`"

/-- What the grammar knows about a fault beyond its cause. -/
inductive Hint where
  | nullIsNoValue
  | variableInDefault
  | incomingArrowStart
  | arrow (shape : ArrowShape)
  | fieldColon
  | definitionKeyword
deriving DecidableEq, Repr

/-- The note that gives a hint. -/
def Hint.note : Hint → Note
  | .nullIsNoValue => .general "`null` is not a value in schema documents"
  | .variableInDefault => .general "variables are not allowed in default values"
  | .incomingArrowStart => .advice "incoming connections start with `<-` or `<=`"
  | .arrow shape => .advice s!"this arrow must be written as {shape.text}"
  | .fieldColon => .advice "field definitions need `:` between the name and the type"
  | .definitionKeyword =>
    .advice ("expected a definition: scalar, type, interface, union, enum, input, " ++
      "extend, directive, mutation, query, filter or order")

/-- The first fault of a text. -/
structure SyntaxError where
  position : Nat
  cause : Cause
  hint : Option Hint
deriving DecidableEq, Repr

namespace SyntaxError

/-- A fault without a hint. -/
def ofCause (position : Nat) (cause : Cause) : SyntaxError := ⟨position, cause, none⟩

/-- The same fault with a hint. -/
def withHint (hint : Hint) (e : SyntaxError) : SyntaxError := { e with hint := some hint }

/-- The same fault in a text with `count` bytes more in front. -/
def shift (count : Nat) (e : SyntaxError) : SyntaxError := { e with position := count + e.position }

/-- The message for a person. -/
def message (e : SyntaxError) : String := e.cause.message

/-- The notes: those of the cause, then the hint. -/
def notes (e : SyntaxError) : List Note :=
  e.cause.notes e.position ++ (e.hint.map Hint.note).toList

/-- The fault as a diagnostic about the source it was found in. -/
def diagnostic (e : SyntaxError) (source : Source) : Diagnostic :=
  ⟨source, e.position, e.message, e.notes⟩

end SyntaxError

end SchemaLang
