import Estate.Number.Binary64

/-! The shortest decimal text of a binary64 number: the fewest digits that read back as the number,
of two such the nearer, of two equally near the even one. -/
namespace Estate.Binary64

/-- A decimal `digits * 10 ^ exponent`. -/
structure Decimal where
  digits : Nat
  exponent : Int
deriving DecidableEq

/-- The decimal exponent of the leading digit of a positive quotient, found from its binary one. -/
def leadingDecimal (num den : Nat) : Int :=
  let guess : Int := (leadingExponent num den * 30103 - 100000) / 100000
  let reached (e : Int) : Bool :=
    if e < 0 then decide (den ≤ num * Nat.pow 10 (-e).toNat)
    else decide (den * Nat.pow 10 e.toNat ≤ num)
  if reached (guess + 2) then guess + 2 else if reached (guess + 1) then guess + 1 else guess

/-- Of the two neighbours of the number on the grid `10 ^ exponent`, the nearer that reads back as
the number. -/
def neighbour? (x : Binary64) (exponent : Int) : Option Decimal :=
  let (num, den) := x.ratio
  let (n, d) := if exponent < 0 then (num * Nat.pow 10 (-exponent).toNat, den)
    else (num, den * Nat.pow 10 exponent.toNat)
  let below := n / d
  let reads (digits : Nat) : Bool := decide (ofDecimal x.negative digits exponent = x)
  let nearest := roundQuotient n d
  let other := if nearest = below then below + 1 else below
  if reads nearest then some ⟨nearest, exponent⟩
  else if reads other then some ⟨other, exponent⟩
  else none

/-- The decimal without zeros at its end; `fuel` bounds their number. -/
def Decimal.trim : Nat → Decimal → Decimal
  | 0, d => d
  | fuel + 1, d =>
    if d.digits % 10 = 0 then trim fuel ⟨d.digits / 10, d.exponent + 1⟩ else d

/-- The shortest decimal that reads back as a finite number other than zero. Seventeen digits always
suffice. -/
def shortest (x : Binary64) : Decimal :=
  let leading := leadingDecimal x.ratio.1 x.ratio.2
  let found := (List.range 17).findSome? fun (n : Nat) => neighbour? x (leading - n)
  (found.getD ⟨x.ratio.1 / x.ratio.2, 0⟩).trim 20

/-- Text of a finite number: positional with a decimal point while the leading digit stands between
the fifth place after the point and the sixteenth before it, and with a signed exponent otherwise.
-/
def text (x : Binary64) : String :=
  let sign := if x.negative then "-" else ""
  if x.magnitude.val = 0 then sign ++ "0.0"
  else
    let decimal := x.shortest
    let digits := Nat.toDigits 10 decimal.digits
    let leading : Int := decimal.exponent + digits.length - 1
    let body : List Char :=
      if leading < -5 ∨ 15 < leading then
        let fraction := digits.drop 1
        let point := if fraction.isEmpty then [] else '.' :: fraction
        let exponentSign := if leading < 0 then '-' else '+'
        digits.take 1 ++ point ++ 'e' :: exponentSign :: Nat.toDigits 10 leading.natAbs
      else if leading < 0 then
        '0' :: '.' :: List.replicate (-leading - 1).toNat '0' ++ digits
      else
        let places := leading.toNat + 1
        let whole := digits.take places ++ List.replicate (places - digits.length) '0'
        let fraction := digits.drop places
        whole ++ '.' :: (if fraction.isEmpty then ['0'] else fraction)
    sign ++ String.ofList body

end Estate.Binary64
