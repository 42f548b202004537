import Estate.Number.Binary64

/-! Reading digits: naturals in a radix, and floats in decimal notation. -/
namespace Estate.Decimal

/-- The value of a digit, letters of either case standing for ten to fifteen. -/
def digit? (c : Char) : Option Nat :=
  if c.isDigit then some (c.toNat - '0'.toNat)
  else if 'a' ≤ c ∧ c ≤ 'f' then some (c.toNat - 'a'.toNat + 10)
  else if 'A' ≤ c ∧ c ≤ 'F' then some (c.toNat - 'A'.toNat + 10)
  else none

def digitBelow? (radix : Nat) (c : Char) : Option Nat := (digit? c).filter (· < radix)

/-- The natural that digits stand for, from the left, after digits already read. -/
def continueNatural? (radix : Nat) : Nat → List Char → Option Nat
  | n, [] => some n
  | n, c :: cs => (digitBelow? radix c).bind fun d => continueNatural? radix (n * radix + d) cs

/-- The natural that one or more digits stand for. -/
def natural? (radix : Nat) (cs : List Char) : Option Nat :=
  if cs.isEmpty then none else continueNatural? radix 0 cs

/-- A decimal exponent: an optional sign and digits. -/
def exponent? : List Char → Option Int
  | '+' :: cs => (natural? 10 cs).map Int.ofNat
  | '-' :: cs => (natural? 10 cs).map fun n => -Int.ofNat n
  | cs => (natural? 10 cs).map Int.ofNat

/-- The float nearest to a decimal: digits with an optional point among or beside them, and an
optional exponent. -/
def float? (negative : Bool) (cs : List Char) : Option Binary64 := do
  let whole := cs.takeWhile Char.isDigit
  let (fraction, rest) := match cs.dropWhile Char.isDigit with
    | '.' :: rest => (rest.takeWhile Char.isDigit, rest.dropWhile Char.isDigit)
    | rest => ([], rest)
  let digits ← natural? 10 (whole ++ fraction)
  let exponent ← match rest with
    | [] => some 0
    | 'e' :: rest | 'E' :: rest => exponent? rest
    | _ => none
  return .ofDecimal negative digits (exponent - fraction.length)

end Estate.Decimal
