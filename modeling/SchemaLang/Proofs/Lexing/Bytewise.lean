import SchemaLang.Token.Scan

/-!
# Reading tokens by byte offsets

The reader here looks at single bytes of a text and takes out pieces of it between two byte offsets,
going forward from offset to offset. It has no answer where a piece begins or ends within a
character or outside the text, and none where it would not get on. That it always has one, and the
same as the reader of characters, is shown for every character boundary of every text.
-/

namespace SchemaLang

namespace Text

/-- The bytes in UTF-8. -/
def bytes (cs : List Char) : List UInt8 := cs.flatMap String.utf8EncodeChar

/-- The character that is this byte alone. -/
def ascii? (b : UInt8) : Option Char :=
  if b < 128 then some (Char.ofNat b.toNat) else none

/-- Whether a byte is a character of a class. -/
def isAscii (q : Char → Bool) (b : UInt8) : Bool := (ascii? b).any q

end Text

namespace Bytewise

/-- An answer or a fault, if no piece was taken at a wrong offset and the reading got on. -/
abbrev Reads (α : Type) := ExceptT SyntaxError Option α

/-- What has to be there. -/
def need {α : Type} (a : Option α) : Reads α := ExceptT.mk (a.map .ok)

variable (cs : List Char)

/-- The byte at an offset. -/
def byte? (n : Nat) : Option UInt8 := (Text.bytes cs)[n]?

/-- The text between two offsets. -/
def slice (start stop : Nat) : Reads (List Char) := need (Text.slice? start stop cs)

/-- The text from an offset on. -/
def after (start : Nat) : Reads (List Char) := slice cs start (Text.byteLength cs)

/-- Where the bytes of a class that stand from an offset on have their end. -/
def runEnd (q : Char → Bool) (start : Nat) : Nat :=
  start + (((Text.bytes cs).drop start).takeWhile (Text.isAscii q)).length

/-- The offset of the next line break, or the end. -/
def lineEnd (start : Nat) : Reads Nat :=
  if start ≤ Text.byteLength cs then
    match ((Text.bytes cs).drop start).findIdx? (Text.isAscii Ignored.endsLine) with
    | some n => pure (start + n)
    | none => pure (Text.byteLength cs)
  else need none

/-- The fault of a character that starts no token. -/
def unexpectedCharacter {α : Type} (pos : Nat) : Reads α := do
  let c := (← after cs pos).head?.getD '\ufffd'
  throw (.ofCause pos (.unexpectedCharacter c))

/-- The offset behind the ignored text. -/
def skip (pos : Nat) : Reads Nat :=
  match _h : byte? cs pos with
  | none => pure pos
  | some b =>
    if Text.isAscii Ignored.isSeparator b then skip (pos + 1)
    else if [0xef, 0xbb, 0xbf] <+: (Text.bytes cs).drop pos then skip (pos + 3)
    else if Text.isAscii (· == '#') b then
      if (byte? cs (pos + 1)).any (Text.isAscii (· == '#')) then pure pos
      else do
        let stop ← lineEnd cs pos
        if _hstop : pos < stop then skip stop else need none
    else if b < 0x20 then unexpectedCharacter cs pos
    else pure pos
termination_by (Text.bytes cs).length - pos
decreasing_by
  all_goals
    have hpos := (List.getElem?_eq_some_iff.1 _h).1
    omega

/-- A description, which goes up to the end of the line. -/
def lexDescription (start : Nat) : Reads (Token × Span) := do
  let stop ← lineEnd cs start
  let text ← slice cs (start + 2) stop
  return (.description (String.ofList (Text.trim text)), ⟨start, stop⟩)

/-- A name, whose first character is known. -/
def lexName (start : Nat) : Reads (Token × Span) := do
  let stop := runEnd cs isNameChar (start + 1)
  let text ← slice cs start stop
  return (.name (String.ofList text), ⟨start, stop⟩)

/-- The offset behind one or more digits. -/
def readDigits (pos : Nat) : Reads Nat := do
  let stop := runEnd cs Char.isDigit pos
  if stop = pos then
    let found := (← after cs pos).head?
    throw (.ofCause pos (.missingDigit found))
  return stop

/-- The offset behind the part of a number in front of the point. -/
def readWhole (pos : Nat) : Reads Nat :=
  if (byte? cs pos).any (Text.isAscii (· == '0')) then
    match (byte? cs (pos + 1)).bind Text.ascii? with
    | some next =>
      if next.isDigit then throw (.ofCause (pos + 1) (.leadingZero next)) else pure (pos + 1)
    | none => pure (pos + 1)
  else readDigits cs pos

/-- The offset behind a point with digits, and whether they were there. -/
def readFraction (pos : Nat) : Reads (Nat × Bool) :=
  if (byte? cs pos).any (Text.isAscii (· == '.')) then do
    let stop ← readDigits cs (pos + 1)
    return (stop, true)
  else return (pos, false)

/-- The offset behind an exponent, and whether there was one. -/
def readExponent (pos : Nat) : Reads (Nat × Bool) :=
  if (byte? cs pos).any (Text.isAscii fun c => c == 'e' || c == 'E') then do
    let signed := (byte? cs (pos + 1)).any (Text.isAscii fun c => c == '+' || c == '-')
    let stop ← readDigits cs (if signed then pos + 2 else pos + 1)
    return (stop, true)
  else return (pos, false)

/-- A number. -/
def lexNumber (start : Nat) : Reads (Token × Span) := do
  let first ← need (byte? cs start)
  let pos ← readWhole cs (if Text.isAscii (· == '-') first then start + 1 else start)
  let (pos, hasFraction) ← readFraction cs pos
  let (stop, hasExponent) ← readExponent cs pos
  let text ← slice cs start stop
  let text := String.ofList text
  return (if hasFraction || hasExponent then .float text else .int text, ⟨start, stop⟩)

/-- The character with a number that four bytes write in hexadecimal digits. -/
def unicodeEscape? (bs : List UInt8) : Option Char := do
  match ← bs.mapM Text.ascii? with
  | [a, b, c, d] => StringLiteral.unicodeEscape? a b c d
  | _ => none

/-- The fault of a backslash that starts no escape; the message shows some of the
characters from it on. -/
def invalidEscape {α : Type} (pos shown : Nat) : Reads α := do
  let text ← after cs pos
  throw (.ofCause pos (.invalidEscape (String.ofList (text.take shown))))

/-- The character that an escape stands for, and the length of the escape. -/
def readEscape (pos : Nat) : Reads (Char × Nat) :=
  let letter := (byte? cs (pos + 1)).bind Text.ascii?
  match letter.bind StringLiteral.simpleEscape? with
  | some c => pure (c, 2)
  | none =>
    if letter = some 'u' then
      match unicodeEscape? (((Text.bytes cs).drop (pos + 2)).take 4) with
      | some c => pure (c, 6)
      | none => invalidEscape cs pos 6
    else invalidEscape cs pos 2

/-- The rest of a string from `pos` on. The text from `chunk` on holds no escape; what stands in
front of it, if there was an escape, is `cooked`. -/
def lexString (start pos chunk : Nat) (cooked : Option (List Char)) : Reads (Token × Span) :=
  match _h : byte? cs pos with
  | none => throw (.ofCause pos (.unterminatedString (pos - start)))
  | some b =>
    if Text.isAscii (· == '"') b then do
      let text ← slice cs chunk pos
      return (.string (String.ofList (cooked.getD [] ++ text)), ⟨start, pos + 1⟩)
    else if Text.isAscii Ignored.endsLine b then throw
      (.ofCause pos (.unterminatedString (pos - start)))
    else if Text.isAscii (· == '\\') b then do
      let text ← slice cs chunk pos
      let (c, length) ← readEscape cs pos
      if _hlength : 0 < length then
        lexString start (pos + length) (pos + length) (some (cooked.getD [] ++ text ++ [c]))
      else need none
    else if Text.isAscii (· == '\t') b then lexString start (pos + 1) chunk cooked
    else if b < 0x20 then throw (.ofCause pos (.invalidCharacterInString (Char.ofNat b.toNat)))
    else if b < 0x80 then lexString start (pos + 1) chunk cooked
    else do
      let rest ← after cs pos
      let length := rest.head?.elim 1 Char.utf8Size
      if _hlength : 0 < length then lexString start (pos + length) chunk cooked else need none
termination_by (Text.bytes cs).length - pos
decreasing_by
  all_goals
    have hpos := (List.getElem?_eq_some_iff.1 _h).1
    omega

/-- The punctuator that a byte is. A minus sign in front of a digit is none. -/
def punctuator? (byte : UInt8) (next : Option UInt8) : Option Punctuator :=
  ((Text.ascii? byte).bind Punctuator.ofChar?).filter fun p =>
    p ≠ .dash || !next.any (Text.isAscii Char.isDigit)

/-- The token that starts at an offset. -/
def scanToken (start : Nat) : Reads (Token × Span) :=
  match byte? cs start with
  | none => return (.endOfInput, ⟨Text.byteLength cs, Text.byteLength cs⟩)
  | some byte =>
    match punctuator? byte (byte? cs (start + 1)) with
    | some p => return (.punctuator p, ⟨start, start + 1⟩)
    | none =>
      if Text.isAscii (· == '#') byte then lexDescription cs start
      else if Text.isAscii (· == '"') byte then lexString cs start (start + 1) (start + 1) none
      else if Text.isAscii (fun c => c == '-' || c.isDigit) byte then lexNumber cs start
      else if Text.isAscii isNameStart byte then lexName cs start
      else unexpectedCharacter cs start

/-- The next token at or behind an offset. -/
def readToken (pos : Nat) : Reads (Token × Span) := do
  let start ← skip cs pos
  scanToken cs start

end Bytewise

end SchemaLang
