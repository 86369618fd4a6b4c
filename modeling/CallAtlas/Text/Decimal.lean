/-!
# Decimals of fixed length

Numbers with a given number of places behind the point. The exact value of a binary fraction is
rounded, and a value half-way between two decimals goes to the one whose last digit is even.
-/

namespace CallAtlas.Text

/-- A quotient rounded to the nearest integer, half-way ones to the even neighbour. -/
def roundDiv (num den : Nat) : Nat :=
  let q := num / den
  let r := num % den
  if den < 2 * r ∨ (2 * r = den ∧ q % 2 = 1) then q + 1 else q

/-- A number of units of the last place as a decimal. -/
def decimalOfUnits (places units : Nat) : String :=
  let digits := toString (units % Nat.pow 10 places)
  toString (units / Nat.pow 10 places) ++ "."
    ++ String.ofList (List.replicate (places - digits.length) '0') ++ digits

/-- The decimal of `mantissa * 2 ^ exponent`. -/
def decimalOfBinary (places mantissa : Nat) (exponent : Int) : String :=
  let num := mantissa * Nat.pow 10 places
  decimalOfUnits places <|
    if 0 ≤ exponent then num * Nat.pow 2 exponent.toNat else roundDiv num (Nat.pow 2 (-exponent).toNat)

/-- The decimal of a floating-point number that is finite and not negative. -/
def decimal (places : Nat) (x : Float) : String :=
  let bits := x.toBits.toNat
  let exponent : Nat := bits / 4503599627370496 % 2048
  let fraction := bits % 4503599627370496
  if exponent = 0 then decimalOfBinary places fraction (-1074)
  else decimalOfBinary places (fraction + 4503599627370496) ((exponent : Int) - 1075)

/-- The binary logarithm; exact for powers of two. -/
def log2 (x : Float) : Float :=
  let (fraction, exponent) := x.frExp
  if fraction == 0.5 then Float.ofInt (exponent - 1)
  else fraction.log * (1 / 0.693147180559945309417232121458176568) + Float.ofInt exponent

/-- How the logarithms of one more than two numbers compare, as a fraction of `scale` above `base`. -/
def logScale (base scale : Float) (n most : Nat) : Float :=
  base + scale * log2 (n.toFloat + 1) / log2 (most.toFloat + 1)

end CallAtlas.Text
