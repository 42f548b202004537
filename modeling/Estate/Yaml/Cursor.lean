/-! Positions in a text of lines. Every kind of line break that ends a line in the usual way is one
line feed; the line and paragraph separators end lines too but keep their character. -/
namespace Estate.Yaml

/-- Whether a character may stand in a document: no control characters other than tabs and line
breaks. -/
def isAllowed (c : Char) : Bool :=
  let n := c.toNat
  n == 0x09 || n == 0x0A || n == 0x0D || n == 0x85 || (0x20 ≤ n && n ≤ 0x7E)
    || (0xA0 ≤ n && n ≤ 0xFFFD) || 0x10000 ≤ n

/-- The text with a line feed for every usual line break. -/
def unifyBreaks : List Char → List Char
  | '\r' :: '\n' :: cs => '\n' :: unifyBreaks cs
  | c :: cs => (if c == '\r' || c == '\u0085' then '\n' else c) :: unifyBreaks cs
  | [] => []

def isBreak (c : Char) : Bool := c == '\n' || c == '\u2028' || c == '\u2029'

def isBlank (c : Char) : Bool := c == ' ' || c == '\t'

def isGap (c : Char) : Bool := isBlank c || isBreak c

/-- Whether a text is over or starts with a character that separates words. -/
def startsGap : List Char → Bool
  | [] => true
  | c :: _ => isGap c

/-- Whether a text starts with one of the marks that begin and end documents. -/
def startsMark (mark : Char) : List Char → Bool
  | a :: b :: c :: rest => a == mark && b == mark && c == mark && startsGap rest
  | _ => false

/-- A place in a text: its line, and how many characters and how many bytes are before it on that
line. -/
structure Place where
  line : Nat
  column : Nat
  bytes : Nat

namespace Place

def next (p : Place) (c : Char) : Place := ⟨p.line, p.column + 1, p.bytes + c.utf8Size⟩

def nextLine (p : Place) : Place := ⟨p.line + 1, 0, 0⟩

end Place

/-- A position: what is left of the text, and where that starts. -/
structure Cursor where
  rest : List Char
  place : Place

namespace Cursor

def line (c : Cursor) : Nat := c.place.line

def column (c : Cursor) : Nat := c.place.column

def start (text : List Char) : Cursor := ⟨text, 0, 0, 0⟩

def skip (c : Cursor) (n : Nat) : Cursor :=
  ⟨c.rest.drop n, (c.rest.take n).foldl Place.next c.place⟩

/-- The position after the characters on the same line that have a property. -/
def skipWhile (c : Cursor) (p : Char → Bool) : Cursor := c.skip (c.rest.takeWhile p).length

/-- The position at the start of the next line, from a line break. -/
def nextLine (c : Cursor) : Cursor := ⟨c.rest.drop 1, c.place.nextLine⟩

/-- Whether a mark that begins or ends a document stands here. -/
def atMark (c : Cursor) : Bool :=
  c.column == 0 && (startsMark '-' c.rest || startsMark '.' c.rest)

/-- The position of the next token, and whether a key may start there: it may on a new line outside
of brackets. A byte order mark may start a line, of which it takes up a column. Tabs are skipped
only where they cannot be taken for indentation. -/
def toToken (inFlow : Bool) : (keyAllowed inComment : Bool) → Place → List Char → Cursor × Bool
  | keyAllowed, _, place, [] => (⟨[], place⟩, keyAllowed)
  | keyAllowed, inComment, place, c :: cs =>
    if isBreak c then toToken inFlow (keyAllowed || !inFlow) false place.nextLine cs
    else if inComment || c == '#' then toToken inFlow keyAllowed true (place.next c) cs
    else if c == ' ' || (c == '\t' && (inFlow || !keyAllowed))
        || (c == '\uFEFF' && place.column == 0) then
      toToken inFlow keyAllowed false (place.next c) cs
    else (⟨c :: cs, place⟩, keyAllowed)

/-- The position after blanks and line breaks. Tabs in the first columns of a line are refused. -/
def pastGap? (indent : Nat) : (broken : Bool) → Place → List Char → Option Cursor
  | _, place, [] => some ⟨[], place⟩
  | broken, place, c :: cs =>
    if isBreak c then pastGap? indent true place.nextLine cs
    else if isBlank c then
      if broken && place.column < indent && c == '\t' then none
      else pastGap? indent broken (place.next c) cs
    else some ⟨c :: cs, place⟩

end Cursor
end Estate.Yaml
