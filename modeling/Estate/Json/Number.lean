import Estate.Number.Basic
import Estate.Number.Decimal

/-! Numbers in JSON text. An integer in range is exact. Any other number is a float, computed with
two roundings: of its leading digits as a natural, and of the product or quotient of that with the
float nearest to a power of ten. A number that is well formed but too large has no value. -/
namespace Estate.Json

/-- As many digits as fit into 64 bits after a natural, and the number of digits that do not. -/
def packDigits : Nat → List Nat → Nat × Nat
  | n, [] => (n, 0)
  | n, d :: ds =>
    if n * 10 + d < Nat.pow 2 64 then packDigits (n * 10 + d) ds else (n, ds.length + 1)

/-- Division by a power of ten. Powers beyond the format are divided by in steps; after three of
them nothing is left of a 64-bit natural. -/
def descend : Nat → Binary64 → Nat → Binary64
  | 0, x, _ => .zero x.negative
  | steps + 1, x, exponent =>
    if exponent ≤ 308 then x.div (.ofNat (Nat.pow 10 exponent))
    else descend steps (x.div (.ofNat (Nat.pow 10 308))) (exponent - 308)

/-- The float of a natural times a power of ten, unless it overflows. -/
def scale? (n : Nat) (exponent : Int) : Option Binary64 :=
  let x := Binary64.ofNat n
  if exponent < 0 then some (descend 4 x (-exponent).toNat)
  else if exponent ≤ 308 then
    some (x.mul (.ofNat (Nat.pow 10 exponent.toNat))) |>.filter Binary64.isFinite
  else if n = 0 then some x
  else none

def splitDigits (cs : List Char) : List Nat × List Char :=
  ((cs.takeWhile Char.isDigit).map fun c => c.toNat - '0'.toNat, cs.dropWhile Char.isDigit)

/-- The digits after a decimal point, if there is one; at least one must follow it. -/
def fraction? : List Char → Option (Option (List Nat) × List Char)
  | '.' :: cs => match splitDigits cs with
    | ([], _) => none
    | (ds, rest) => some (some ds, rest)
  | cs => some (none, cs)

/-- The exponent, if there is one; its mark must be followed by digits. -/
def exponent? : List Char → Option (Option Int × List Char)
  | 'e' :: cs | 'E' :: cs =>
    let (negative, cs) := match cs with
      | '-' :: cs => (true, cs)
      | '+' :: cs => (false, cs)
      | cs => (false, cs)
    match splitDigits cs with
    | ([], _) => none
    | (ds, rest) =>
      let n := Int.ofNat (ds.foldl (fun n d => n * 10 + d) 0)
      some (some (if negative then -n else n), rest)
  | cs => some (none, cs)

/-- A number without its sign, if it has a value, and the rest of the text. No digit may follow a
leading zero. -/
def unsigned? (negative : Bool) (cs : List Char) : Option (Option Number × List Char) := do
  let (whole, rest) := splitDigits cs
  if whole.isEmpty || (whole.head? == some 0 && whole.length > 1) then none
  let (fraction, rest) ← fraction? rest
  let (exponent, rest) ← exponent? rest
  let (leading, dropped) := packDigits 0 whole
  let signed : Int := if negative then -leading else leading
  let exact := dropped = 0 && fraction.isNone && exponent.isNone
    && Number.inRange signed && !(negative && leading = 0)
  if exact then return (some (.int signed), rest)
  let kept := fraction.getD []
  let (digits, lost) := packDigits leading kept
  let shift : Int := dropped - (kept.length - lost : Nat)
  let x := scale? digits (shift + exponent.getD 0)
  return (x.map fun x => .float (if negative then x.neg else x), rest)

/-- A number at the front of a text, if it has a value, and the rest. -/
def number? : List Char → Option (Option Number × List Char)
  | '-' :: cs => unsigned? true cs
  | cs => unsigned? false cs

end Estate.Json
