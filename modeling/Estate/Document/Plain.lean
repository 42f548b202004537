import Estate.Number.Decimal
import Estate.Document.Node

/-! The type of text that stands unquoted, where nothing in particular is wanted of it: null, a
flag, an integer, a float, or else text. -/
namespace Estate.Document.Plain

def isNull (s : String) : Bool := s ∈ ["", "~", "null", "Null", "NULL"]

def flag? (s : String) : Option Bool :=
  if s ∈ ["true", "True", "TRUE"] then some true
  else if s ∈ ["false", "False", "FALSE"] then some false
  else none

/-- The sign of the text and what follows it. -/
def splitSign : List Char → Bool × List Char
  | '-' :: cs => (true, cs)
  | '+' :: cs => (false, cs)
  | cs => (false, cs)

/-- Whether the digits after the sign have a zero in front; such text is no number. -/
def hasLeadingZero (digits : List Char) : Bool :=
  digits.head? == some '0' && digits.length > 1 && digits.all Char.isDigit

/-- The integer that the text spells, in decimal or in a radix named by two characters. -/
def integer? (cs : List Char) : Option Int := do
  let (negative, digits) := splitSign cs
  let magnitude ← match digits with
    | '0' :: 'x' :: rest => Decimal.natural? 16 rest
    | '0' :: 'o' :: rest => Decimal.natural? 8 rest
    | '0' :: 'b' :: rest => Decimal.natural? 2 rest
    | _ => if hasLeadingZero digits then none else Decimal.natural? 10 digits
  return if negative then -Int.ofNat magnitude else Int.ofNat magnitude

/-- The float that the text spells. A decimal too large to be finite is no float. -/
def float? (cs : List Char) : Option Binary64 :=
  let (negative, digits) := splitSign cs
  if digits ∈ [".inf".toList, ".Inf".toList, ".INF".toList] then some (.infinity negative)
  else if cs ∈ [".nan".toList, ".NaN".toList, ".NAN".toList] then some .undefined
  else if hasLeadingZero digits then none
  else (Decimal.float? negative digits).filter Binary64.isFinite

/-- Whether an integer outside the exact range still fits twice its width; such an integer is
refused rather than rounded. -/
def isWide (n : Int) : Bool := decide (-Nat.pow 2 127 ≤ n ∧ n < Nat.pow 2 128)

/-- The typed scalar that plain text stands for, unless it is an integer that cannot be held. -/
def type? (s : String) : Option Node :=
  if isNull s then some .null
  else match flag? s with
    | some b => some (.flag b)
    | none =>
      match integer? s.toList with
      | some n =>
        if Number.inRange n then some (.number (.int n))
        else if isWide n then none
        else some ((float? s.toList).elim (.text s) fun x => .number (.float x))
      | none => some ((float? s.toList).elim (.text s) fun x => .number (.float x))

end Plain

namespace Node

/-- A key once it is typed. An integer with a minus sign in front numbers nothing, zero included. -/
def settledKey (key typed : Node) : Node :=
  match key, typed with
  | .plain s, .number (.int n) => if (Plain.splitSign s.toList).1 then .null else .number (.int n)
  | _, typed => typed

mutual

/-- The tree with every plain scalar typed, those in keys included. -/
def settle : Node → Option Node
  | .plain s => Plain.type? s
  | .list items => (settleItems items).map .list
  | .object entries => (settleEntries entries).map .object
  | .unreadable => none
  | n => some n
termination_by structural n => n

def settleItems : List Node → Option (List Node)
  | [] => some []
  | n :: ns => do return (← settle n) :: (← settleItems ns)
termination_by structural ns => ns

def settleEntries : List (Node × Node) → Option (List (Node × Node))
  | [] => some []
  | (key, n) :: rest => do
    return (settledKey key (← settle key), ← settle n) :: (← settleEntries rest)
termination_by structural es => es

end

end Node
end Estate.Document
