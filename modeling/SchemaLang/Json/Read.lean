import SchemaLang.Json.Numeral
import SchemaLang.Token.StringLiteral

/-!
# Reading JSON

A text is first cut into brackets, separators and single values, character by character, and the
value is then put together from those. Every text that is no JSON value gives nothing. Of the
members of an object with one key the last one counts.
-/

namespace SchemaLang.Json

/-- A bracket, a separator, or a value that is neither an array nor an object. -/
inductive Lexeme where
  | openArray
  | closeArray
  | openObject
  | closeObject
  | comma
  | colon
  | single (value : Json)
deriving Repr, Inhabited

namespace Lexeme

/-- Where in a text a character stands. The characters read so far are given with the last one
first; the ones of a string are given as numbers, with surrogates where they were written so. -/
inductive Position where
  | between
  | inWord (word : List Char)
  | inString (units : List Nat)
  | afterBackslash (units : List Nat)
  | inNumber (units : List Nat) (unit digitsLeft : Nat)
deriving Repr

/-- The lexemes found so far, the last one first, and the position. -/
structure Progress where
  found : List Lexeme
  position : Position
deriving Repr

/-- The characters that a word is made of. -/
def isWordCharacter (c : Char) : Bool := c.isAlphanum || c == '-' || c == '+' || c == '.'

/-- The value of a word. -/
def ofWord (word : List Char) : Option Lexeme :=
  if word = ['n', 'u', 'l', 'l'] then some (.single .null)
  else if word = ['t', 'r', 'u', 'e'] then some (.single (.bool true))
  else if word = ['f', 'a', 'l', 's', 'e'] then some (.single (.bool false))
  else (Numeral.ofText? word).bind Numeral.value? |>.map .single

/-- Puts `done` behind the characters with these numbers, of which the last one comes first. A
surrogate counts only as one half of a pair. -/
def characters (done : List Char) : List Nat → Option (List Char)
  | [] => some done
  | u :: us =>
    if u.isValidChar then characters (Char.ofNat u :: done) us
    else
      match us with
      | [] => none
      | v :: us =>
        if 0xD800 ≤ v ∧ v < 0xDC00 ∧ 0xDC00 ≤ u ∧ u < 0xE000 then
          characters (Char.ofNat (0x10000 + 0x400 * (v - 0xD800) + (u - 0xDC00)) :: done) us
        else none

/-- A character between two lexemes: it is one, or begins one, or is a blank. -/
def begin (found : List Lexeme) (c : Char) : Option Progress :=
  match c with
  | ' ' | '\t' | '\n' | '\r' => some ⟨found, .between⟩
  | '[' => some ⟨.openArray :: found, .between⟩
  | ']' => some ⟨.closeArray :: found, .between⟩
  | '\x7b' => some ⟨.openObject :: found, .between⟩
  | '\x7d' => some ⟨.closeObject :: found, .between⟩
  | ',' => some ⟨.comma :: found, .between⟩
  | ':' => some ⟨.colon :: found, .between⟩
  | '"' => some ⟨found, .inString []⟩
  | c => if isWordCharacter c then some ⟨found, .inWord [c]⟩ else none

/-- Reads one character. -/
def step (p : Progress) (c : Char) : Option Progress :=
  match p.position with
  | .between => begin p.found c
  | .inWord word =>
    if isWordCharacter c then some ⟨p.found, .inWord (c :: word)⟩
    else do begin ((← ofWord word.reverse) :: p.found) c
  | .inString units =>
    if c = '"' then do
      return ⟨.single (.str (String.ofList (← characters [] units))) :: p.found, .between⟩
    else if c = '\\' then some ⟨p.found, .afterBackslash units⟩
    else if c < ' ' then none
    else some ⟨p.found, .inString (c.toNat :: units)⟩
  | .afterBackslash units =>
    if c = 'u' then some ⟨p.found, .inNumber units 0 3⟩
    else (StringLiteral.simpleEscape? c).map fun e => ⟨p.found, .inString (e.toNat :: units)⟩
  | .inNumber units unit digitsLeft => do
    let unit := 16 * unit + (← StringLiteral.hexDigit? c)
    match digitsLeft with
    | 0 => return ⟨p.found, .inString (unit :: units)⟩
    | left + 1 => return ⟨p.found, .inNumber units unit left⟩

/-- The lexemes of a text. -/
def ofText? (cs : List Char) : Option (List Lexeme) := do
  let p ← cs.foldlM step ⟨[], .between⟩
  match p.position with
  | .between => return p.found.reverse
  | .inWord word => return ((← ofWord word.reverse) :: p.found).reverse
  | _ => none

end Lexeme

/-- An array or an object that is still open, with the parts read so far, the last one first. For an
object the key of the next member has been read too. -/
inductive Frame where
  | array (items : List Json)
  | object (members : List (String × Json)) (key : String)

/-- The members of an object that was read, in their order, without those whose key comes again. -/
def lastOfEachKey : List (String × Json) → List (String × Json) → List (String × Json)
  | done, [] => done
  | done, m :: ms => lastOfEachKey (if done.any (·.1 == m.1) then done else m :: done) ms

mutual

/-- Goes on where a value must start. -/
def startValue (frames : List Frame) : List Lexeme → Option Json
  | .single value :: rest => endValue frames value rest
  | .openArray :: .closeArray :: rest => endValue frames (.arr []) rest
  | .openArray :: rest => startValue (.array [] :: frames) rest
  | .openObject :: .closeObject :: rest => endValue frames (.obj []) rest
  | .openObject :: .single (.str key) :: .colon :: rest =>
    startValue (.object [] key :: frames) rest
  | _ => none

/-- Goes on after a value. -/
def endValue (frames : List Frame) (value : Json) : List Lexeme → Option Json
  | [] =>
    match frames with
    | [] => some value
    | _ => none
  | .comma :: rest =>
    match frames with
    | .array items :: frames => startValue (.array (value :: items) :: frames) rest
    | .object members key :: frames =>
      match rest with
      | .single (.str next) :: .colon :: rest =>
        startValue (.object ((key, value) :: members) next :: frames) rest
      | _ => none
    | [] => none
  | .closeArray :: rest =>
    match frames with
    | .array items :: frames => endValue frames (.arr (value :: items).reverse) rest
    | _ => none
  | .closeObject :: rest =>
    match frames with
    | .object members key :: frames =>
      endValue frames (.obj (lastOfEachKey [] ((key, value) :: members))) rest
    | _ => none
  | _ => none

end

/-- Reads a text that is one JSON value, with blanks around it. -/
def parse? (text : String) : Option Json := do startValue [] (← Lexeme.ofText? text.toList)

end SchemaLang.Json
