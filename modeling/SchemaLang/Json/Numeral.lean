import SchemaLang.Json
import SchemaLang.Token.Number

/-!
# Numerals of JSON

A numeral is written like a number of the schema language. Without a fraction and an exponent it is
an integer, if 64 bits hold it, and all other numerals are binary numbers. Of the digits as many are
taken as 64 bits hold; the others count by their place only. The number that they make is rounded to
a binary number, and multiplied with a power of ten or divided by one, which is a rounded binary
number too. So a numeral with many digits may become another binary number than the nearest one, but
a neighbour of it.
-/

namespace SchemaLang.Json

/-- A numeral by its parts: a minus sign, the digits before and after the point, and
the exponent. -/
structure Numeral where
  negative : Bool
  whole : List Nat
  fraction : Option (List Nat)
  exponent : Option Int
deriving DecidableEq, Repr

namespace Numeral

/-- The value of a digit. -/
def digit (c : Char) : Nat := c.toNat - '0'.toNat

/-- The value of an exponent with its letter and perhaps a sign. -/
def exponentValue : List Char → Option Int
  | [] => none
  | _ :: '-' :: ds => some (-(Nat.ofDigitChars 10 ds 0 : Int))
  | _ :: '+' :: ds => some (Nat.ofDigitChars 10 ds 0)
  | _ :: ds => some (Nat.ofDigitChars 10 ds 0)

/-- Reads a text that is a numeral from its first character to its last. -/
def ofText? (cs : List Char) : Option Numeral := do
  let (s, cs) := Number.sign ['-'] cs
  let (w, cs) ← (Number.whole 0 cs).toOption
  let (f, cs) ← (Number.fraction 0 cs).toOption
  let (e, cs) ← (Number.exponent 0 cs).toOption
  guard cs.isEmpty
  return ⟨!s.isEmpty, w.map digit, if f.isEmpty then none else some ((f.drop 1).map digit),
    exponentValue e⟩

/-- Appends digits to a number while 64 bits hold it. Gives the number and how many digits
are left over. -/
def append (n : Nat) : List Nat → Nat × Nat
  | [] => (n, 0)
  | d :: ds => if 10 * n + d < Nat.pow 2 64 then append (10 * n + d) ds else (n, ds.length + 1)

/-- The binary number nearest to a power of ten. -/
def powerOfTen (exponent : Nat) : Binary := .ofNat (Nat.pow 10 exponent)

/-- The largest power of ten that is not too large for a binary number. -/
def largestPower : Nat := 308

/-- Divides by a power of ten, in steps of the largest one. -/
def overPowerOfTen (b : Binary) (exponent : Nat) : Binary :=
  if exponent ≤ largestPower then b.quotient (powerOfTen exponent)
  else if b.digits = 0 then b
  else overPowerOfTen (b.quotient (powerOfTen largestPower)) (exponent - largestPower)
termination_by exponent
decreasing_by
  simp only [largestPower] at *
  omega

/-- Multiplies with a power of ten, unless the product is too large. -/
def timesPowerOfTen (b : Binary) (exponent : Nat) : Option Binary := do
  if b.digits = 0 then return b
  guard (exponent ≤ largestPower)
  let product := b.times (powerOfTen exponent)
  guard product.isFinite
  return product

/-- The binary number that `n * 10 ^ exponent` becomes, unless it is too large. -/
def toBinary (n : Nat) : (exponent : Int) → Option Binary
  | .ofNat e => timesPowerOfTen (.ofNat n) e
  | .negSucc e => some (overPowerOfTen (.ofNat n) (e + 1))

/-- The value of an integer with this size, which 64 bits hold if it is not negative. A negative one
with more than 63 bits is a binary number, and so is the negative zero. -/
def integer (negative : Bool) (n : Nat) : Json :=
  if !negative then .int n
  else if 0 < n ∧ n ≤ Nat.pow 2 63 then .int (-n)
  else .float true (.ofNat n)

/-- The value of a numeral, unless it is too large. -/
def value? (x : Numeral) : Option Json :=
  let (n, leftOver) := append 0 x.whole
  if x.fraction.isNone && x.exponent.isNone && leftOver == 0 then some (integer x.negative n)
  else
    let digits := x.fraction.getD []
    let (n, ignored) := append n digits
    let exponent : Int := leftOver - (digits.length - ignored) + x.exponent.getD 0
    (toBinary n exponent).map (.float x.negative)

end Numeral

end SchemaLang.Json
