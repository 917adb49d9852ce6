import SchemaLang.Json.Binary

/-!
# Binary numbers in decimal digits

A binary number is written with the fewest decimal digits that are nearer to it than to any other
binary number; of those the ones nearest to it, half way the even ones. Numbers from `0.00001` up to
and without `10 ^ 16` are written with a point only, all others with an exponent that has a sign.
-/

namespace SchemaLang.Json

/-- The number `digits / 10 ^ places`. -/
structure Decimal where
  digits : Nat
  places : Int
deriving DecidableEq, Repr

namespace Decimal

/-- Whether a decimal number is nearer to a binary number than to the ones next to it. Half way
it counts as near to the one with even digits. Below a power of two the next number is only
half as far away. -/
def isNear (b : Binary) (x : Decimal) : Bool :=
  let below := if b.digits = Nat.pow 2 52 ∧ Binary.lowestExponent < b.exponent then 1 else 2
  let (n, d) := scaled 10 (-x.places) x.digits 1
  let (ln, ld) := scaled 2 (b.exponent - 2) (4 * b.digits - below) 1
  let (un, ud) := scaled 2 (b.exponent - 2) (4 * b.digits + 2) 1
  if b.digits % 2 = 0 then ln * d ≤ n * ld && n * ud ≤ un * d
  else ln * d < n * ld && n * ud < un * d

/-- How many digits a binary number has before the point; less than one if the first one
comes after it. -/
def magnitude (b : Binary) : Int :=
  let (n, d) := b.fraction
  let guess : Int := ((toString n).length : Int) - (toString d).length
  let (a, b) := scaled 10 (-guess) n d
  if b ≤ a then guess + 1 else guess

/-- The decimal number with so many places that is nearest to a binary number, if one
is near enough. -/
def withPlaces (b : Binary) (places : Int) : Option Decimal :=
  let (n, d) := b.fraction
  let (n, d) := scaled 10 places n d
  let below : Decimal := ⟨n / d, places⟩
  let above : Decimal := ⟨n / d + 1, places⟩
  match isNear b below, isNear b above with
  | true, true => some ⟨nearest n d, places⟩
  | true, false => some below
  | false, true => some above
  | false, false => none

/-- A binary number with all its decimal digits. -/
def exact (b : Binary) : Decimal :=
  if 0 ≤ b.exponent then ⟨b.digits * Nat.pow 2 b.exponent.toNat, 0⟩
  else ⟨b.digits * Nat.pow 5 (-b.exponent).toNat, -b.exponent⟩

/-- The first number near enough with `places` places, or one, two, … more, in `count` attempts. -/
def search (b : Binary) (places : Int) : (count : Nat) → Decimal
  | 0 => exact b
  | count + 1 => (withPlaces b places).getD (search b (places + 1) count)

/-- Drops up to `count` zeros at the end of the digits, each with one place. -/
def dropZeros : (count : Nat) → Decimal → Decimal
  | 0, x => x
  | count + 1, x =>
    if x.digits ≠ 0 ∧ x.digits % 10 = 0 then dropZeros count ⟨x.digits / 10, x.places - 1⟩ else x

/-- The fewest digits that stand for a binary number. Seventeen are always enough. -/
def shortest (b : Binary) : Decimal :=
  if b.digits = 0 then ⟨0, 0⟩ else dropZeros 17 (search b (1 - magnitude b) 17)

/-- Zeros. -/
def zeros (count : Nat) : String := String.ofList (List.replicate count '0')

/-- The number with a point and without an exponent. -/
def positional (x : Decimal) : String :=
  let text := toString x.digits
  if x.places ≤ 0 then text ++ zeros (-x.places).toNat ++ ".0"
  else if x.places.toNat < text.length then
    String.ofList (text.toList.take (text.length - x.places.toNat)) ++ "." ++
      String.ofList (text.toList.drop (text.length - x.places.toNat))
  else "0." ++ zeros (x.places.toNat - text.length) ++ text

/-- The first digit, a point and the others if there are any, and the exponent with its sign. -/
def scientific (x : Decimal) : String :=
  let text := toString x.digits
  let exponent := (text.length : Int) - 1 - x.places
  let rest := String.ofList (text.toList.drop 1)
  String.ofList (text.toList.take 1) ++ (if rest.isEmpty then "" else "." ++ rest) ++
    (if exponent < 0 then "e-" else "e+") ++ toString exponent.natAbs

/-- The text of a decimal number. -/
def text (x : Decimal) : String :=
  let beforePoint := ((toString x.digits).length : Int) - x.places
  if x.digits = 0 then "0.0"
  else if -5 < beforePoint ∧ beforePoint ≤ 16 then x.positional
  else x.scientific

end Decimal

/-- The text of a binary number. -/
def Binary.text (b : Binary) : String := (Decimal.shortest b).text

end SchemaLang.Json
