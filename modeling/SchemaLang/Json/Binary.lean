/-!
# Binary numbers

A number that is no integer of 64 bits is held as a binary number: at most 53 binary digits and an
exponent that is bounded from below, as in the common format of 64 bits. Quotients and products are
rounded to the nearest binary number, half way to the one with even digits. All of it is exact
arithmetic on natural numbers. The sign of a number is kept apart, so that zero can have one.
-/

namespace SchemaLang.Json

/-- The fraction `n / d` times a power of `base`. -/
def scaled (base : Nat) (exponent : Int) (n d : Nat) : Nat × Nat :=
  if 0 ≤ exponent then (n * base.pow exponent.toNat, d) else (n, d * base.pow (-exponent).toNat)

/-- The natural number nearest to `n / d`, the even one of two. -/
def nearest (n d : Nat) : Nat :=
  if 2 * (n % d) < d then n / d
  else if d < 2 * (n % d) then n / d + 1
  else n / d + n / d % 2

/-- The number `digits * 2 ^ exponent`. -/
structure Binary where
  digits : Nat
  exponent : Int
deriving DecidableEq, Repr, Inhabited

namespace Binary

/-- No binary number has a lower exponent. -/
def lowestExponent : Int := -1074

/-- From this exponent on a binary number with all its digits is too large. -/
def exponentLimit : Int := 972

/-- The number zero. -/
def zero : Binary := ⟨0, lowestExponent⟩

/-- The binary number nearest to `n / d`, however large. -/
def ofQuotient (n d : Nat) : Binary :=
  if n = 0 then zero
  else
    let guess : Int := (n.log2 : Int) - d.log2 - 52
    let (a, b) := scaled 2 (-guess) n d
    let exponent := max (if a < Nat.pow 2 52 * b then guess - 1 else guess) lowestExponent
    let (a, b) := scaled 2 (-exponent) n d
    let digits := nearest a b
    if digits = Nat.pow 2 53 then ⟨Nat.pow 2 52, exponent + 1⟩ else ⟨digits, exponent⟩

/-- The binary number nearest to a natural number. -/
def ofNat (n : Nat) : Binary := ofQuotient n 1

/-- Whether a number is not too large. -/
def isFinite (b : Binary) : Bool := b.exponent < exponentLimit

/-- The number as a fraction. -/
def fraction (b : Binary) : Nat × Nat := scaled 2 b.exponent b.digits 1

/-- The binary number nearest to the product. -/
def times (a b : Binary) : Binary :=
  let (n, d) := scaled 2 (a.exponent + b.exponent) (a.digits * b.digits) 1
  ofQuotient n d

/-- The binary number nearest to the quotient. -/
def quotient (a b : Binary) : Binary :=
  let (n, d) := scaled 2 (a.exponent - b.exponent) a.digits b.digits
  ofQuotient n d

end Binary

/-- The nearest natural number is at most one half away. -/
theorem nearest_close (n d : Nat) (h : 0 < d) :
    2 * (d * nearest n d) ≤ 2 * n + d ∧ 2 * n ≤ 2 * (d * nearest n d) + d := by
  have hn := Nat.div_add_mod n d
  have hd := Nat.mod_lt n h
  unfold nearest
  split
  · omega
  · split
    · rw [Nat.mul_add]
      omega
    · rcases Nat.mod_two_eq_zero_or_one (n / d) with he | he <;> rw [he, Nat.mul_add] <;> omega

/-- Half way between two natural numbers the even one is the nearest. -/
theorem nearest_even (n d : Nat) (h : 2 * (n % d) = d) : nearest n d % 2 = 0 := by
  unfold nearest
  rw [if_neg (by omega), if_neg (by omega)]
  omega

end SchemaLang.Json
