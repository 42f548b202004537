import Estate.Number.Decimal

/-! Text in JSON: how characters are escaped between quotes, and how quoted text is read back.
Quoted text may be well formed and still stand for no text, where half of a pair of escapes is
alone. -/
namespace Estate.Json

/-- The digit of a hexadecimal text, in lower case. -/
def hexDigit (n : Nat) : Char := (Nat.toDigits 16 (n % 16)).headD '0'

/-- A character as it stands between quotes. Quotes, backslashes and control characters are escaped,
all else is itself. -/
def escape (c : Char) : List Char :=
  match c with
  | '"' => ['\\', '"']
  | '\\' => ['\\', '\\']
  | '\x08' => ['\\', 'b']
  | '\x0c' => ['\\', 'f']
  | '\n' => ['\\', 'n']
  | '\r' => ['\\', 'r']
  | '\t' => ['\\', 't']
  | c =>
    if c.toNat < 32 then ['\\', 'u', '0', '0', hexDigit (c.toNat / 16), hexDigit c.toNat]
    else [c]

def quote (s : String) : String := String.ofList ('"' :: s.toList.flatMap escape ++ ['"'])

def hexUnit? : List Char → Option (Nat × List Char)
  | a :: b :: c :: d :: rest => do
    let a ← Decimal.digit? a
    let b ← Decimal.digit? b
    let c ← Decimal.digit? c
    let d ← Decimal.digit? d
    return (((a * 16 + b) * 16 + c) * 16 + d, rest)
  | _ => none

/-- The second half of a pair of escapes by number, and the rest. -/
def lowHalf? : List Char → Option (Nat × List Char)
  | '\\' :: 'u' :: rest => (hexUnit? rest).filter fun (low, _) => 0xDC00 ≤ low && low < 0xE000
  | _ => none

/-- The character of an escape by number, and the rest. A character beyond the first plane takes two
escapes; half of such a pair is no character. -/
def unicode? (cs : List Char) : Option (Option Char × List Char) := do
  let (unit, rest) ← hexUnit? cs
  if unit < 0xD800 ∨ 0xE000 ≤ unit then return (some (Char.ofNat unit), rest)
  match if unit < 0xDC00 then lowHalf? rest else none with
  | some (low, rest) =>
    return (some (Char.ofNat (0x10000 + (unit - 0xD800) * 0x400 + (low - 0xDC00))), rest)
  | none => return (none, rest)

def escaped? : List Char → Option (Option Char × List Char)
  | '"' :: rest => some (some '"', rest)
  | '\\' :: rest => some (some '\\', rest)
  | '/' :: rest => some (some '/', rest)
  | 'b' :: rest => some (some '\x08', rest)
  | 'f' :: rest => some (some '\x0c', rest)
  | 'n' :: rest => some (some '\n', rest)
  | 'r' :: rest => some (some '\r', rest)
  | 't' :: rest => some (some '\t', rest)
  | 'u' :: rest => unicode? rest
  | _ => none

/-- The characters up to the closing quote, after those read already in reverse, and the rest. A
character after a backslash closes nothing. -/
def splitQuoted? : (read : List Char) → List Char → Option (List Char × List Char)
  | read, '"' :: rest => some (read.reverse, rest)
  | read, '\\' :: c :: rest => splitQuoted? (c :: '\\' :: read) rest
  | read, c :: rest => splitQuoted? (c :: read) rest
  | _, [] => none

/-- The text that quoted characters stand for, if they are well formed and it is text, after the
characters read already in reverse; `fuel` bounds their number. -/
def unquote? : (fuel : Nat) → (read : Option (List Char)) → List Char → Option (Option String)
  | _, read, [] => some (read.map fun cs => String.ofList cs.reverse)
  | 0, _, _ => none
  | fuel + 1, read, '\\' :: rest => do
    let (c, rest) ← escaped? rest
    unquote? fuel (do return (← c) :: (← read)) rest
  | fuel + 1, read, c :: rest =>
    if c.toNat < 32 then none else unquote? fuel (read.map (c :: ·)) rest

/-- The text after an opening quote, if what is quoted is text, and what follows the closing quote.
-/
def text? (cs : List Char) : Option (Option String × List Char) := do
  let (quoted, rest) ← splitQuoted? [] cs
  return (← unquote? quoted.length (some []) quoted, rest)

end Estate.Json
