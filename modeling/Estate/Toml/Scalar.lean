import Estate.Document.Node
import Estate.Number.Decimal

/-! Scalars of settings files: quoted text of four kinds, numbers, truth values and dates. Readers
return what is left of the text. -/
namespace Estate.Toml
open Document

/-- Whether a character may stand in a comment and, apart from quotes and backslashes, in quoted
text. -/
def isInline (c : Char) : Bool := c == '\t' || (' ' ≤ c && c ≤ '~') || 0x80 ≤ c.toNat

def isBlank (c : Char) : Bool := c == ' ' || c == '\t'

def skipBlanks (cs : List Char) : List Char := cs.dropWhile isBlank

/-- The text with a line feed for every line break. A carriage return that none follows is no line
break. -/
def unifyBreaks : List Char → List Char
  | '\r' :: '\n' :: cs => '\n' :: unifyBreaks cs
  | c :: cs => c :: unifyBreaks cs
  | [] => []

def newline? : List Char → Option (List Char)
  | '\n' :: cs => some cs
  | _ => none

/-- The character of an escape by so many hexadecimal digits, and the rest. -/
def numbered? (digits : Nat) (cs : List Char) : Option (Char × List Char) := do
  let taken := cs.take digits
  if taken.length < digits then none
  let n ← Decimal.natural? 16 taken
  if n.isValidChar then return (Char.ofNat n, cs.drop digits) else none

def escaped? : List Char → Option (Char × List Char)
  | 'u' :: cs => numbered? 4 cs
  | 'U' :: cs => numbered? 8 cs
  | c :: cs =>
    ([('b', '\x08'), ('t', '\t'), ('n', '\n'), ('f', '\x0c'), ('r', '\r'), ('"', '"'),
      ('\\', '\\')].lookup c).map (·, cs)
  | [] => none

/-- Text on one line up to its closing quote, after what was read already, in reverse. -/
def lineText? (quote : Char) : (fuel : Nat) → (read : List Char) → List Char →
    Option (String × List Char)
  | 0, _, _ => none
  | _ + 1, _, [] => none
  | fuel + 1, read, c :: cs =>
    if c == quote then some (String.ofList read.reverse, cs)
    else if c == '\\' && quote == '"' then do
      let (e, rest) ← escaped? cs
      lineText? quote fuel (e :: read) rest
    else if isInline c then lineText? quote fuel (c :: read) cs
    else none

/-- The text after a backslash at the end of a line: the break and all blanks and breaks after it
are left out. -/
def continued? (cs : List Char) : Option (List Char) :=
  (newline? (skipBlanks cs)).map (·.dropWhile fun c => isBlank c || c == '\n')

/-- Text over lines up to three closing quotes, before which two more may stand, after what was read
already, in reverse. -/
def linesText? (quote : Char) : (fuel : Nat) → (read : List Char) → List Char →
    Option (String × List Char)
  | 0, _, _ => none
  | _ + 1, _, [] => none
  | fuel + 1, read, c :: cs =>
    let quotes := ((c :: cs).takeWhile (· == quote)).length
    if 3 ≤ quotes then
      let more := min (quotes - 3) 2
      some (String.ofList (read.reverse ++ List.replicate more quote), (c :: cs).drop (3 + more))
    else if c == '\\' && quote == '"' then
      match continued? cs with
      | some rest => linesText? quote fuel read rest
      | none => do
        let (e, rest) ← escaped? cs
        linesText? quote fuel (e :: read) rest
    else if isInline c || c == '\n' then linesText? quote fuel (c :: read) cs
    else none

/-- Quoted text after its first quote. Three quotes open text over lines, of which a first empty
line is left out. -/
def text? (quote : Char) (cs : List Char) : Option (String × List Char) :=
  match cs with
  | a :: b :: rest =>
    if a == quote && b == quote then
      let rest := (newline? rest).getD rest
      linesText? quote (rest.length + 1) [] rest
    else lineText? quote (cs.length + 1) [] cs
  | _ => lineText? quote (cs.length + 1) [] cs

/-- The digits of a natural in a radix, without the underscores that may stand between two of them.
-/
def digits? (radix : Nat) (cs : List Char) : Option (List Char) :=
  let isDigit (c : Char) : Bool := (Decimal.digitBelow? radix c).isSome
  let digits := cs.filter (· != '_')
  let apart := cs.zip (cs.drop 1) |>.all fun (a, b) => isDigit a || isDigit b
  if !digits.isEmpty && digits.all isDigit && cs.head?.any isDigit && cs.getLast?.any isDigit
    && apart
  then some digits else none

def isInteger (n : Int) : Bool := decide (-Nat.pow 2 63 ≤ n ∧ n < Nat.pow 2 63)

/-- The digits of a decimal natural, which starts with zero only if it is zero. -/
def whole? (cs : List Char) : Option (List Char) :=
  (digits? 10 cs).filter fun ds => ds.head? != some '0' || ds.length == 1

def splitSign : List Char → Bool × List Char
  | '+' :: cs => (false, cs)
  | '-' :: cs => (true, cs)
  | cs => (false, cs)

def integer? (cs : List Char) : Option Int := do
  let n ← match cs with
    | '0' :: 'x' :: ds => (digits? 16 ds).bind (Decimal.natural? 16)
    | '0' :: 'o' :: ds => (digits? 8 ds).bind (Decimal.natural? 8)
    | '0' :: 'b' :: ds => (digits? 2 ds).bind (Decimal.natural? 2)
    | cs => (whole? (splitSign cs).2).bind (Decimal.natural? 10)
  let n : Int := if (splitSign cs).1 then -n else n
  if isInteger n then some n else none

/-- A float: a decimal with a fraction, an exponent or both. -/
def float? (cs : List Char) : Option Binary64 := do
  let (negative, cs) := splitSign cs
  if cs == "inf".toList then return .infinity negative
  if cs == "nan".toList then return .undefined
  let mantissa := cs.takeWhile fun c => c != 'e' && c != 'E'
  let exponent := cs.drop mantissa.length
  let whole ← whole? (mantissa.takeWhile (· != '.'))
  let fraction ← match mantissa.dropWhile (· != '.') with
    | [] => some []
    | _ :: ds => digits? 10 ds
  let scale ← match exponent with
    | [] => some []
    | e :: rest => (digits? 10 (splitSign rest).2).map fun ds =>
        e :: (if (splitSign rest).1 then '-' :: ds else ds)
  if fraction.isEmpty && scale.isEmpty then none
  let point := if fraction.isEmpty then [] else '.' :: fraction
  let x ← Decimal.float? negative (whole ++ point ++ scale)
  if x = .infinity false then none else some x

/-- A natural of so many digits within bounds. -/
def field? (width least most : Nat) (cs : List Char) : Option Nat :=
  if cs.length == width then
    (Decimal.natural? 10 cs).filter fun n => least ≤ n && n ≤ most
  else none

def daysIn (year month : Nat) : Nat :=
  if month == 2 then
    if year % 4 == 0 && (year % 100 != 0 || year % 400 == 0) then 29 else 28
  else if [4, 6, 9, 11].contains month then 30
  else 31

def isDate : List Char → Bool
  | [a, b, c, d, '-', e, f, '-', g, h] =>
    (do
      let year ← field? 4 0 9999 [a, b, c, d]
      let month ← field? 2 1 12 [e, f]
      field? 2 1 (daysIn year month) [g, h]).isSome
  | _ => false

/-- Whether the text is a time of day, with seconds that may have a fraction. -/
def isTime : List Char → Bool
  | a :: b :: ':' :: c :: d :: ':' :: e :: f :: fraction =>
    (field? 2 0 23 [a, b]).isSome && (field? 2 0 59 [c, d]).isSome && (field? 2 0 60 [e, f]).isSome
      && match fraction with
        | [] => true
        | '.' :: ds => !ds.isEmpty && ds.all Char.isDigit
        | _ => false
  | _ => false

/-- Whether the text is a distance from standard time. -/
def isOffset : List Char → Bool
  | ['Z'] | ['z'] => true
  | [sign, a, b, ':', c, d] =>
    (sign == '+' || sign == '-') && (field? 2 0 23 [a, b]).isSome && (field? 2 0 59 [c, d]).isSome
  | _ => false

/-- Whether the text is a date, a time or both, the latter perhaps with an offset. -/
def isMoment (cs : List Char) : Bool :=
  isDate cs || isTime cs
    || (isDate (cs.take 10)
      && (cs.drop 10).head?.any (fun c => c == 'T' || c == 't' || c == ' ')
      && let time := (cs.drop 11).takeWhile fun c => c.isDigit || c == ':' || c == '.'
        let offset := cs.drop (11 + time.length)
        isTime time && (offset.isEmpty || isOffset offset))

/-- Whether a character belongs to a word without quotes. -/
def isWordChar (c : Char) : Bool :=
  c.isAlphanum || c == '_' || c == '-' || c == '+' || c == '.' || c == ':'

/-- The word at the front of a text, and the rest. A date and a time with one space between them are
one word. -/
def splitWord (cs : List Char) : List Char × List Char :=
  let word := cs.takeWhile isWordChar
  match cs.drop word.length with
  | ' ' :: c :: rest =>
    if isDate word && c.isDigit then
      let time := (c :: rest).takeWhile isWordChar
      (word ++ ' ' :: time, (c :: rest).drop time.length)
    else (word, ' ' :: c :: rest)
  | rest => (word, rest)

/-- The key under which the text of a date or time stands. -/
def momentKey : String := "$__toml_private_datetime"

def word? (word : List Char) : Option Node :=
  if word == "true".toList then some (.flag true)
  else if word == "false".toList then some (.flag false)
  else if isMoment word then some (.record [(momentKey, .text (String.ofList word))])
  else
    match integer? word with
    | some n => some (.number (.int n))
    | none => (float? word).map fun x => .number (.float x)

end Estate.Toml
