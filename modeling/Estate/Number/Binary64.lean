/-! Floating-point numbers of 64 bits, computed in exact arithmetic on naturals. Every result is the
exact quotient of two naturals rounded once to the nearest representable number, ties to the even
significand; what exceeds the largest finite number becomes infinite. -/
namespace Estate

/-- A number in the binary64 format: its sign, and its exponent and fraction fields read as one
natural, the magnitude. Magnitudes are ordered as the absolute values they stand for. -/
structure Binary64 where
  negative : Bool
  magnitude : Fin (Nat.pow 2 63)
deriving DecidableEq

namespace Binary64

/-- The magnitude of the infinities; larger ones are not numbers. -/
def infiniteMagnitude : Nat := 2047 * Nat.pow 2 52

/-- Whether the number is neither infinite nor undefined. -/
def isFinite (x : Binary64) : Bool := decide (x.magnitude.val < infiniteMagnitude)

/-- The number of a sign and a magnitude; magnitudes beyond infinity are capped there. -/
def ofMagnitude (negative : Bool) (magnitude : Nat) : Binary64 :=
  ⟨negative, ⟨min magnitude infiniteMagnitude,
    Nat.lt_of_le_of_lt (Nat.min_le_right _ _) (by decide)⟩⟩

def zero (negative : Bool) : Binary64 := ofMagnitude negative 0

def infinity (negative : Bool) : Binary64 := ofMagnitude negative infiniteMagnitude

/-- The value that stands for no number. -/
def undefined : Binary64 := ⟨false, ⟨infiniteMagnitude + Nat.pow 2 51, by decide⟩⟩

def neg (x : Binary64) : Binary64 := { x with negative := !x.negative }

/-- Integer significand and binary exponent of the absolute value of a finite number. -/
def parts (x : Binary64) : Nat × Int :=
  let field : Nat := x.magnitude.val / Nat.pow 2 52
  let fraction : Nat := x.magnitude.val % Nat.pow 2 52
  if field = 0 then (fraction, -1074) else (fraction + Nat.pow 2 52, Int.ofNat field - 1075)

/-- Numerator and denominator of `m * 2 ^ e`. -/
def scaled (m : Nat) (e : Int) : Nat × Nat :=
  if e < 0 then (m, Nat.pow 2 (-e).toNat) else (m * Nat.pow 2 e.toNat, 1)

/-- The absolute value of a finite number as a quotient of naturals. -/
def ratio (x : Binary64) : Nat × Nat := scaled x.parts.1 x.parts.2

/-- The natural nearest to a quotient, ties to even. -/
def roundQuotient (num den : Nat) : Nat :=
  let q := num / den
  let twice := 2 * (num % den)
  if twice < den then q else if den < twice then q + 1 else q + q % 2

/-- The binary exponent of the leading bit of a positive quotient. -/
def leadingExponent (num den : Nat) : Int :=
  let guess : Int := (Nat.log2 num : Int) - Nat.log2 den
  let reached :=
    if guess < 0 then den ≤ num * Nat.pow 2 (-guess).toNat else den * Nat.pow 2 guess.toNat ≤ num
  if reached then guess else guess - 1

/-- The number nearest to a quotient of naturals with a sign. The unit in the last place is two to
the power `max (leading - 52) (-1074)`; a significand that rounds up to the next power of two
carries into the exponent field by itself. -/
def ofRatio (negative : Bool) (num den : Nat) : Binary64 :=
  if num = 0 then zero negative
  else
    let unit : Int := max (leadingExponent num den - 52) (-1074)
    let significand :=
      if unit < 0 then roundQuotient (num * Nat.pow 2 (-unit).toNat) den
      else roundQuotient num (den * Nat.pow 2 unit.toNat)
    ofMagnitude negative ((unit + 1074).toNat * Nat.pow 2 52 + significand)

def ofNat (n : Nat) : Binary64 := ofRatio false n 1

/-- The product of two finite numbers, rounded. -/
def mul (x y : Binary64) : Binary64 :=
  ofRatio (x.negative ^^ y.negative) (x.ratio.1 * y.ratio.1) (x.ratio.2 * y.ratio.2)

/-- The quotient of two finite numbers of which the second is not zero, rounded. -/
def div (x y : Binary64) : Binary64 :=
  ofRatio (x.negative ^^ y.negative) (x.ratio.1 * y.ratio.2) (x.ratio.2 * y.ratio.1)

/-- The number nearest to `digits * 10 ^ exponent`. Exponents far outside the format are decided by
the length of the digits alone. -/
def ofDecimal (negative : Bool) (digits : Nat) (exponent : Int) : Binary64 :=
  let leading : Int := (Nat.toDigits 10 digits).length + exponent
  if digits = 0 ∨ leading < -400 then zero negative
  else if 400 < leading then infinity negative
  else if exponent < 0 then ofRatio negative digits (Nat.pow 10 (-exponent).toNat)
  else ofRatio negative (digits * Nat.pow 10 exponent.toNat) 1

end Binary64
end Estate
