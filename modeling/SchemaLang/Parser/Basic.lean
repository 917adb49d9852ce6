import SchemaLang.Ast.Definition
import SchemaLang.Parser.Lexeme

/-!
# Parsers

A parser reads lexemes from a cursor and answers a value and a later cursor, or the fault it met. It
sees one lexeme ahead; a fault of the text shows when the lexeme before it is taken, since the next
one is read then. What does not change during a parse is its setting. In particular the locations of
nodes are made by a function of the setting, so that nothing a parser decides can hang on whether
locations are wanted.

Repetition counts down the lexemes that are left, which no parse of an item gives back.
-/

namespace SchemaLang

/-- What is wanted of a parse: locations, sources in them, and how deep lists and objects
may be nested. -/
structure ParseOptions where
  noLocation : Bool := false
  noSource : Bool := false
  maxDepth : Nat := 64
deriving DecidableEq, Repr

/-- The location of a node, as far as it is wanted. -/
def ParseOptions.locate (o : ParseOptions) (source : Source) (start stop : Nat) : Option Loc :=
  if o.noLocation then none else some ⟨start, stop, if o.noSource then none else some source⟩

/-- What holds throughout a parse. -/
structure Setting where
  /-- The fault at which the lexemes end, if they do not end with the text. -/
  fault : Option SyntaxError
  maxDepth : Nat
  locate : Nat → Nat → Option Loc

/-- Where a parse is: the lexeme that is looked at, those after it, and the end of the
one before it. -/
structure Cursor where
  current : Lexeme
  rest : List Lexeme
  lastStop : Nat
deriving DecidableEq, Repr

/-- Reads part of the lexemes. -/
def Parser (α : Type) : Type := Setting → Cursor → Except SyntaxError (α × Cursor)

namespace Parser

instance : Monad Parser where
  pure a := fun _ c => .ok (a, c)
  bind p f := fun s c =>
    match p s c with
    | .error e => .error e
    | .ok (a, c') => f a s c'

/-- The setting of the parse. -/
def setting : Parser Setting := fun s c => .ok (s, c)

/-- The lexeme that is looked at. -/
def here : Parser Lexeme := fun _ c => .ok (c.current, c)

/-- The token that is looked at. -/
def token : Parser Token := fun _ c => .ok (c.current.token, c)

/-- Where the lexeme that is looked at starts. -/
def start : Parser Nat := fun _ c => .ok (c.current.span.start, c)

/-- How many lexemes are left. -/
def remaining : Parser Nat := fun _ c => .ok (c.rest.length + 1, c)

/-- The description in front of the lexeme that is looked at. -/
def description : Parser (Option String) := fun _ c => .ok (c.current.description, c)

/-- The location of a node from `start` to the last lexeme that was taken. -/
def located (start : Nat) : Parser (Option Loc) := fun s c => .ok (s.locate start c.lastStop, c)

/-- A fault at the lexeme that is looked at. -/
def fail (cause : Cause) : Parser α := fun _ c => .error (.ofCause c.current.span.start cause)

/-- The fault of a lexeme that is not what is wanted. -/
def expected (wanted : Expectation) : Parser α := do fail (.expected wanted (← token))

/-- The fault of a lexeme that starts nothing. -/
def unexpected : Parser α := do fail (.unexpected (← token))

/-- The fault of going one level too deep. -/
def tooDeep : Parser α := do fail (.nestingTooDeep (← setting).maxDepth)

/-- Adds a hint to whatever fault the parser meets. -/
def withHint (hint : Hint) (p : Parser α) : Parser α := fun s c =>
  match p s c with
  | .error e => .error (e.withHint hint)
  | .ok r => .ok r

/-- Takes the lexeme that is looked at. After the last one stands the fault of the text, or its
end, which stays. -/
def advance : Parser Unit := fun s c =>
  match c.rest with
  | next :: rest => .ok ((), ⟨next, rest, c.current.span.stop⟩)
  | [] =>
    match s.fault with
    | some e => .error e
    | none => .ok ((), { c with lastStop := c.current.span.stop })

/-- Whether a punctuator is looked at. -/
def peek (p : Punctuator) : Parser Bool := return (← token) = .punctuator p

/-- Takes a punctuator if it is looked at. -/
def skip (p : Punctuator) : Parser Bool := do
  if ← peek p then
    advance
    return true
  return false

/-- Takes a punctuator, which must be looked at. -/
def expect (p : Punctuator) : Parser Unit := do
  if ← peek p then advance else expected (.punctuator p)

/-- Takes a name that must be `word`. -/
def keyword (word : String) : Parser Unit := do
  if (← token) = .name word then advance else expected (.keyword word)

/-- A name. -/
def name : Parser Name := do
  let start ← start
  match ← token with
  | .name value =>
    advance
    return ⟨value, ← located start⟩
  | _ => expected .name

/-- Items up to a closing punctuator, which is taken; there are at most `count` of them. -/
def untilClose (close : Punctuator) (item : Parser α) : (count : Nat) → Parser (List α)
  | 0 => unexpected
  | count + 1 => do
    if ← skip close then return []
    let x ← item
    return x :: (← untilClose close item count)

/-- Items as long as the next lexeme starts one; there are at most `count` of them. -/
def whileNext (starts : Token → Bool) (item : Parser α) : (count : Nat) → Parser (List α)
  | 0 => return []
  | count + 1 => do
    if starts (← token) then
      let x ← item
      return x :: (← whileNext starts item count)
    return []

/-- Items each after a punctuator; there are at most `count` of them. -/
def eachAfter (p : Punctuator) (item : Parser α) : (count : Nat) → Parser (List α)
  | 0 => return []
  | count + 1 => do
    if ← skip p then
      let x ← item
      return x :: (← eachAfter p item count)
    return []

/-- Any number of items between two punctuators. -/
def block (before after : Punctuator) (item : Parser α) : Parser (List α) := do
  expect before
  untilClose after item (← remaining)

/-- One or more items between two punctuators. -/
def block1 (before after : Punctuator) (item : Parser α) : Parser (List α) := do
  expect before
  let x ← item
  return x :: (← untilClose after item (← remaining))

/-- One or more items between two punctuators, or nothing at all. -/
def optionalBlock (before after : Punctuator) (item : Parser α) : Parser (List α) := do
  if ← peek before then block1 before after item else return []

/-- Items as long as the next lexeme starts one. -/
def many (starts : Token → Bool) (item : Parser α) : Parser (List α) := do
  whileNext starts item (← remaining)

/-- One or more items with a punctuator between each two. -/
def separatedBy (p : Punctuator) (item : Parser α) : Parser (List α) := do
  let x ← item
  return x :: (← eachAfter p item (← remaining))

/-- Takes the end of the input, which must be looked at. -/
def endOfInput : Parser Unit := do
  if (← token) = .endOfInput then advance else expected .endOfInput

/-- Reads a whole source. Its text holds a token or a fault, and if it is a fault that comes first,
no parser is needed to find it. -/
def run (p : Parser α) (source : Source) (options : ParseOptions) : Except SyntaxError α :=
  let tokens := source.tokens
  match Lexeme.gather [] tokens.readings with
  | current :: rest =>
    (p ⟨tokens.fault, options.maxDepth, options.locate source⟩ ⟨current, rest, 0⟩).map Prod.fst
  | [] => .error (tokens.fault.getD (.ofCause source.byteLength (.unexpected .endOfInput)))

end Parser

end SchemaLang
