import Estate.Number.Shortest

/-! Numbers as documents hold them. An integer and a float of the same value are different numbers,
and their texts differ. -/
namespace Estate

/-- A number of a document: an exact integer or a binary64 float. -/
inductive Number where
  | int (n : Int)
  | float (x : Binary64)
deriving DecidableEq

namespace Number

/-- Whether the number can be written: floats must be finite. -/
def isFinite : Number → Bool
  | int _ => true
  | float x => x.isFinite

def text : Number → String
  | int n => toString n
  | float x => x.text

/-- The smallest and the largest integer that a reader keeps exact: the range of signed and unsigned
64-bit words together. -/
def integerRange : Int × Int := (-Nat.pow 2 63, Nat.pow 2 64 - 1)

def inRange (n : Int) : Bool := decide (integerRange.1 ≤ n ∧ n ≤ integerRange.2)

end Number
end Estate
