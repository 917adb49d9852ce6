import SchemaLang.SyntaxError

/-!
# String literals

A string stands between double quotes on one line. It is read from left to right, character by
character; a backslash starts an escape, which stands for one character. The first thing that does
not fit is the fault: a line break or the end of the text, a control character other than the tab,
or a backslash that starts no escape.
-/

namespace SchemaLang.StringLiteral

/-- What a backslash in front of this character stands for. -/
def simpleEscape? : Char → Option Char
  | '"' => some '"'
  | '\\' => some '\\'
  | '/' => some '/'
  | 'b' => some '\x08'
  | 'f' => some '\x0c'
  | 'n' => some '\n'
  | 'r' => some '\r'
  | 't' => some '\t'
  | _ => none

/-- The value of a hexadecimal digit of either case. -/
def hexDigit? (c : Char) : Option Nat :=
  if '0' ≤ c ∧ c ≤ '9' then some (c.toNat - '0'.toNat)
  else if 'a' ≤ c ∧ c ≤ 'f' then some (c.toNat - 'a'.toNat + 10)
  else if 'A' ≤ c ∧ c ≤ 'F' then some (c.toNat - 'A'.toNat + 10)
  else none

/-- The character with a number of four hexadecimal digits. Surrogates are no characters. -/
def unicodeEscape? (a b c d : Char) : Option Char := do
  let n := 4096 * (← hexDigit? a) + 256 * (← hexDigit? b) + 16 * (← hexDigit? c) + (← hexDigit? d)
  guard n.isValidChar
  return Char.ofNat n

/-- What was read of a string: its value, the text it was written as, and the rest after it. -/
structure Reading where
  value : List Char
  text : List Char
  rest : List Char
deriving DecidableEq, Repr

/-- Puts one more character in front: `c`, written as `text`. -/
def Reading.push (c : Char) (text : List Char) (r : Reading) : Reading :=
  { r with value := c :: r.value, text := text ++ r.text }

/-- Reads on to the closing quote, `length` bytes after the opening one began. -/
def scan (length : Nat) : List Char → Except SyntaxError Reading
  | [] => .error (.ofCause length (.unterminatedString length))
  | '"' :: rest => .ok ⟨[], ['"'], rest⟩
  | '\\' :: 'u' :: a :: b :: c :: d :: rest =>
    match unicodeEscape? a b c d with
    | some ch => (scan (length + 6) rest).map (.push ch ['\\', 'u', a, b, c, d])
    | none => .error (.ofCause length (.invalidEscape (String.ofList ['\\', 'u', a, b, c, d])))
  | '\\' :: e :: rest =>
    match simpleEscape? e with
    | some ch => (scan (length + 2) rest).map (.push ch ['\\', e])
    | none =>
      .error (.ofCause length
        (.invalidEscape (String.ofList ('\\' :: e :: if e = 'u' then rest.take 4 else []))))
  | ['\\'] => .error (.ofCause length (.invalidEscape "\\"))
  | c :: rest =>
    if c = '\n' ∨ c = '\r' then .error (.ofCause length (.unterminatedString length))
    else if c < ' ' ∧ c ≠ '\t' then .error (.ofCause length (.invalidCharacterInString c))
    else (scan (length + c.utf8Size) rest).map (.push c [c])

/-- What was read and the rest make up the text. -/
theorem append_of_scan {n : Nat} {cs : List Char} {r : Reading} (h : scan n cs = .ok r) :
    r.text ++ r.rest = cs := by
  fun_induction scan n cs generalizing r with
  | case1 => simp at h
  | case2 => simp only [Except.ok.injEq] at h; subst h; rfl
  | case3 n a b c d rest ch hu ih =>
    cases hr : scan (n + 6) rest with
    | error e => simp [hr, Except.map] at h
    | ok q =>
      simp only [hr, Except.map, Except.ok.injEq] at h
      subst h
      simp [Reading.push, ih hr]
  | case4 => simp at h
  | case5 n e rest _ ch _ ih =>
    cases hr : scan (n + 2) rest with
    | error e => simp [hr, Except.map] at h
    | ok q =>
      simp only [hr, Except.map, Except.ok.injEq] at h
      subst h
      simp [Reading.push, ih hr]
  | case6 => simp at h
  | case7 => simp at h
  | case8 => simp at h
  | case9 => simp at h
  | case10 n c rest _ _ _ _ _ _ ih =>
    cases hr : scan (n + c.utf8Size) rest with
    | error e => simp [hr, Except.map] at h
    | ok q =>
      simp only [hr, Except.map, Except.ok.injEq] at h
      subst h
      simp [Reading.push, ih hr]

end SchemaLang.StringLiteral
