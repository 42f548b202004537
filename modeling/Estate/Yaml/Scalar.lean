import Estate.Number.Decimal
import Estate.Yaml.Cursor

/-! Scalars: plain words, quoted text and block text, each with its own rules for what line breaks
and blanks inside it stand for. -/
namespace Estate.Yaml

/-- What blanks and line breaks between words stand for. Without line break they stand for
themselves; one line feed is a space, and of more the first is dropped. -/
def fold (gap : List Char) : List Char :=
  match gap.filter isBreak with
  | [] => gap
  | first :: more =>
    if first == '\n' then (if more.isEmpty then [' '] else more) else first :: more

/-- A plain word at the front of a text, and the rest. It ends before a gap, a colon that a gap
follows and, in brackets, their punctuation, which must not follow a colon at once. -/
def plainWord? (inFlow : Bool) : List Char → Option (List Char × List Char)
  | [] => some ([], [])
  | c :: cs =>
    if isGap c then some ([], c :: cs)
    else if inFlow && c == ':' && cs.head?.any (",?[]\x7b\x7d".toList.contains ·) then none
    else if (c == ':' && startsGap cs) || (inFlow && ",[]\x7b\x7d".toList.contains c) then
      some ([], c :: cs)
    else (plainWord? inFlow cs).map fun (word, rest) => (c :: word, rest)

/-- A scalar that was read: its text in reverse, the position after it, and whether it ended with a
line. -/
structure Reading where
  reversed : List Char
  cursor : Cursor
  broken : Bool

def Reading.text (r : Reading) : String := String.ofList r.reversed.reverse

/-- Plain text over words and lines, which must be indented so far unless in brackets. The words
before are given in reverse, with what joins the next one to them. -/
def plainText? (inFlow : Bool) (indent : Nat) :
    (fuel : Nat) → (read joint : List Char) → (broken : Bool) → Cursor → Option Reading
  | 0, _, _, _, _ => none
  | fuel + 1, read, joint, broken, cursor =>
    if cursor.atMark || cursor.rest.head? == some '#' then some ⟨read, cursor, broken⟩
    else do
      let (word, rest) ← plainWord? inFlow cursor.rest
      if word.isEmpty then return ⟨read, cursor, broken⟩
      let read := word.reverse ++ joint.reverse ++ read
      let gap := rest.takeWhile isGap
      let place := word.foldl Place.next cursor.place
      if gap.isEmpty then return ⟨read, ⟨rest, place⟩, false⟩
      let next ← Cursor.pastGap? indent false place rest
      let broken := gap.any isBreak
      if !inFlow && next.column < indent then return ⟨read, next, broken⟩
      plainText? inFlow indent fuel read (fold gap) broken next

/-- The character of an escape by so many hexadecimal digits after a letter, and the width of both.
-/
def numbered? (digits : Nat) (cs : List Char) : Option (Char × Nat) := do
  let taken := cs.take digits
  if taken.length < digits then none
  let n ← Decimal.natural? 16 taken
  if n.isValidChar then return (Char.ofNat n, digits + 1) else none

/-- The character of an escape in quoted text, and how many characters it takes. -/
def escaped? : List Char → Option (Char × Nat)
  | 'x' :: cs => numbered? 2 cs
  | 'u' :: cs => numbered? 4 cs
  | 'U' :: cs => numbered? 8 cs
  | c :: _ =>
    ([('0', '\x00'), ('a', '\x07'), ('b', '\x08'), ('t', '\t'), ('\t', '\t'), ('n', '\n'),
      ('v', '\x0b'), ('f', '\x0c'), ('r', '\r'), ('e', '\x1b'), (' ', ' '), ('"', '"'),
      ('/', '/'), ('\\', '\\'), ('N', '\u0085'), ('_', '\u00a0'), ('L', '\u2028'),
      ('P', '\u2029')].lookup c).map (·, 1)
  | [] => none

/-- Quoted text up to the closing quote, after what was read already, in reverse. Between single
quotes a quote is written twice; between double ones a backslash escapes, also the end of a line. -/
def quotedText? (quote : Char) : (fuel : Nat) → (read : List Char) → Cursor → Option Reading
  | 0, _, _ => none
  | fuel + 1, read, cursor =>
    if cursor.atMark then none
    else match cursor.rest with
      | [] => none
      | c :: cs =>
        if c == quote then
          if quote == '\'' && cs.head? == some '\'' then
            quotedText? quote fuel ('\'' :: read) (cursor.skip 2)
          else some ⟨read, cursor.skip 1, false⟩
        else if c == '\\' && quote == '"' then
          if cs.head?.any isBreak then do
            let gap := (cs.drop 1).takeWhile isGap
            let next ← Cursor.pastGap? 0 true cursor.place.nextLine (cs.drop 1)
            quotedText? quote fuel ((gap.filter isBreak).reverse ++ read) next
          else do
            let (e, width) ← escaped? cs
            quotedText? quote fuel (e :: read) (cursor.skip (width + 1))
        else if isGap c then do
          let next ← Cursor.pastGap? 0 false cursor.place cursor.rest
          quotedText? quote fuel ((fold (cursor.rest.takeWhile isGap)).reverse ++ read) next
        else quotedText? quote fuel (c :: read) (cursor.skip 1)

/-- What becomes of the line breaks at the end of block text: the first of them stays, none does, or
all do. -/
inductive Chomping where
  | clip | strip | keep
deriving DecidableEq

/-- The signs after the mark of block text: how it ends and how far it is indented, in any order. -/
def blockHeader? (cursor : Cursor) : Option (Chomping × Option Nat × Cursor) :=
  let sign? (c : Char) : Option Chomping :=
    if c == '+' then some .keep else if c == '-' then some .strip else none
  let digit? (c : Char) : Option Nat := if c.isDigit then some (c.toNat - '0'.toNat) else none
  let (chomping, indent, length) : Option Chomping × Option Nat × Nat :=
    match cursor.rest with
    | a :: b :: _ =>
      match sign? a, digit? a with
      | some s, _ => (some s, digit? b, if (digit? b).isSome then 2 else 1)
      | none, some d => (sign? b, some d, if (sign? b).isSome then 2 else 1)
      | none, none => (none, none, 0)
    | [a] => (sign? a, digit? a, if (sign? a).isSome || (digit? a).isSome then 1 else 0)
    | [] => (none, none, 0)
  if indent == some 0 then none
  else some (chomping.getD .clip, indent, cursor.skip length)

/-- The line breaks of empty lines and the position of the next text, with the deepest column of
blanks on the way. Blanks count as indentation up to the given column, or all of them if that is not
known; a tab must not stand among them. -/
def emptyLines? (indent : Option Nat) : (deepest : Nat) → (breaks : List Char) →
    Place → List Char → Option (Nat × List Char × Cursor)
  | deepest, breaks, place, [] => some (max deepest place.column, breaks, ⟨[], place⟩)
  | deepest, breaks, place, c :: cs =>
    let inIndent := indent.all (place.column < ·)
    if inIndent && c == ' ' then emptyLines? indent deepest breaks (place.next c) cs
    else if inIndent && c == '\t' then none
    else if isBreak c then
      emptyLines? indent (max deepest place.column) (breaks ++ [c]) place.nextLine cs
    else some (max deepest place.column, breaks, ⟨c :: cs, place⟩)

/-- What joins a line of block text to the one before: the line break between them, or in folded
text a space for it if neither line starts with a blank, and the line breaks of empty lines. -/
def blockJoint (isFolded afterBlank : Bool) (lineBreak breaks line : List Char) : List Char :=
  if isFolded && lineBreak == ['\n'] && !afterBlank && !line.head?.any isBlank then
    if breaks.isEmpty then [' '] else breaks
  else lineBreak ++ breaks

/-- The lines of block text at a column in reverse, after what was read already, and the line breaks
after them, the first apart. -/
def blockLines? (isFolded : Bool) (indent : Nat) : (fuel : Nat) → (read : List Char) →
    (afterBlank : Bool) → (lineBreak breaks : List Char) → Cursor →
    Option (List Char × List Char × List Char × Cursor)
  | 0, _, _, _, _, _ => none
  | fuel + 1, read, afterBlank, lineBreak, breaks, cursor =>
    if cursor.column == indent && !cursor.rest.isEmpty then do
      let line := cursor.rest.takeWhile (!isBreak ·)
      let joint := blockJoint isFolded afterBlank lineBreak breaks line
      let read := line.reverse ++ joint.reverse ++ read
      let after := cursor.skip line.length
      let ending := after.rest.take 1
      let (_, breaks, next) ←
        if ending.isEmpty then some (0, [], after)
        else emptyLines? (some indent) 0 [] after.place.nextLine (after.rest.drop 1)
      blockLines? isFolded indent fuel read (line.head?.any isBlank) ending breaks next
    else some (read, lineBreak, breaks, cursor)

/-- Block text after its mark, in a block that is indented to a column. Unless it says how far it is
indented, its deepest empty line or first line decides. -/
def blockText? (isFolded : Bool) (outer : Option Nat) (cursor : Cursor) : Option Reading := do
  let (chomping, increment, cursor) ← blockHeader? cursor
  let cursor := cursor.skipWhile isBlank
  let cursor := if cursor.rest.head? == some '#' then cursor.skipWhile (!isBreak ·) else cursor
  let cursor ← match cursor.rest with
    | [] => some cursor
    | c :: _ => if isBreak c then some cursor.nextLine else none
  let known := increment.map (· + outer.getD 0)
  let (deepest, breaks, cursor) ← emptyLines? known 0 [] cursor.place cursor.rest
  let indent := known.getD (max deepest (outer.elim 1 (· + 1)))
  let (text, lineBreak, breaks, cursor) ←
    blockLines? isFolded indent (cursor.rest.length + 1) [] false [] breaks cursor
  let ending := match chomping with
    | .strip => []
    | .clip => lineBreak
    | .keep => lineBreak ++ breaks
  return ⟨ending.reverse ++ text, cursor, true⟩

end Estate.Yaml
