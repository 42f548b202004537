import Estate.Yaml.Scalar

/-! The tokens of a document. Where a block starts and ends follows from indentation, and what a key
is shows only at the colon after it, so its tokens are put in then. -/
namespace Estate.Yaml

inductive Token where
  | version (isKnown : Bool)
  | documentStart | documentEnd
  | sequenceStart | mappingStart | blockEnd
  | openBracket | closeBracket | openBrace | closeBrace
  | entry | comma | key | value
  | scalar (text : String) (isPlain : Bool)
deriving DecidableEq

/-- The start of what may turn out to be a key: how many tokens are before it, and where it is. A
key is required where a block of keys goes on. -/
structure Candidate where
  position : Nat
  place : Place
  isRequired : Bool

/-- A key and its colon stand on one line, no more bytes apart than this. -/
def keyLimit : Nat := 1024

/-- How far the text has been read: the tokens so far, the columns of the blocks that are open,
innermost first, the candidate for a key inside the innermost brackets and those outside, and
whether a key may start. -/
structure Scanner where
  cursor : Cursor
  tokens : Array Token
  blocks : List Nat
  candidate : Option Candidate
  outer : List (Option Candidate)
  keyAllowed : Bool

namespace Scanner

def start (text : List Char) : Scanner := ⟨.start text, #[], [], none, [], true⟩

def inFlow (s : Scanner) : Bool := !s.outer.isEmpty

def emit (s : Scanner) (token : Token) : Scanner := { s with tokens := s.tokens.push token }

def isStale (cursor : Cursor) (c : Candidate) : Bool :=
  c.place.line < cursor.line || c.place.bytes + keyLimit < cursor.place.bytes

/-- Drops candidates that cannot become keys any more, unless one has to. -/
def expire? (s : Scanner) : Option Scanner :=
  let drop? : Option Candidate → Option (Option Candidate)
    | some c =>
      if isStale s.cursor c then (if c.isRequired then none else some none) else some (some c)
    | none => some none
  do return { s with candidate := ← drop? s.candidate, outer := ← s.outer.mapM drop? }

/-- Gives up the candidate, unless it has to become a key. -/
def giveUp? (s : Scanner) : Option Scanner :=
  if s.candidate.any (·.isRequired) then none else some { s with candidate := none }

/-- Takes what starts here as a candidate, where a key may start. -/
def propose? (s : Scanner) : Option Scanner :=
  if s.keyAllowed then do
    let s ← s.giveUp?
    return { s with
      candidate := some
        ⟨s.tokens.size, s.cursor.place, !s.inFlow && s.blocks.head? == some s.cursor.column⟩ }
  else some s

/-- Opens a block at a column if that is further in than the blocks that are open. -/
def indentTo (s : Scanner) (column position : Nat) (token : Token) : Scanner :=
  if !s.inFlow && s.blocks.head?.all (· < column) then
    { s with
      blocks := column :: s.blocks
      tokens := s.tokens.insertIdxIfInBounds position token }
  else s

/-- Closes the blocks that are further in than a column, or all blocks. -/
def unindentTo (s : Scanner) (column : Option Nat) : Scanner :=
  if s.inFlow then s
  else
    let left := s.blocks.dropWhile fun block => column.all (· < block)
    { s with
      blocks := left
      tokens := s.tokens ++ Array.replicate (s.blocks.length - left.length) .blockEnd }

/-- Reads so many characters as a token. -/
def take (s : Scanner) (width : Nat) (token : Token) : Scanner :=
  { s with cursor := s.cursor.skip width, tokens := s.tokens.push token }

/-- A mark that begins or ends a document. -/
def mark? (s : Scanner) (token : Token) : Option Scanner := do
  let s ← (s.unindentTo none).giveUp?
  return { s with keyAllowed := false }.take 3 token

/-- A number of a version at the front of a text, and the rest. It has at most nine digits. -/
def versionPart? (cs : List Char) : Option (Nat × List Char) :=
  let digits := cs.takeWhile Char.isDigit
  if digits.isEmpty || 9 < digits.length then none
  else (Decimal.natural? 10 digits).map (·, cs.drop digits.length)

/-- The line that gives the version a document is written in, before the document starts. -/
def version? (s : Scanner) : Option Scanner := do
  let s ← (s.unindentTo none).giveUp?
  match s.cursor.rest with
  | '%' :: 'Y' :: 'A' :: 'M' :: 'L' :: c :: cs =>
    if !isBlank c then none
    let (major, rest) ← versionPart? (cs.dropWhile isBlank)
    let (minor, rest) ← match rest with
      | '.' :: rest => versionPart? rest
      | _ => none
    match rest.dropWhile isBlank with
    | [] | '#' :: _ => some ()
    | c :: _ => if isBreak c then some () else none
    let cursor := s.cursor.skipWhile (!isBreak ·)
    return { s with cursor := cursor, keyAllowed := false }.emit
      (.version (major == 1 && (minor == 1 || minor == 2)))
  | _ => none

def open? (s : Scanner) (token : Token) : Option Scanner := do
  let s ← s.propose?
  let inside := { s with candidate := none, outer := s.candidate :: s.outer, keyAllowed := true }
  return inside.take 1 token

def close? (s : Scanner) (token : Token) : Option Scanner := do
  let s ← s.giveUp?
  let s := match s.outer with
    | candidate :: outer => { s with candidate := candidate, outer := outer }
    | [] => s
  return { s with keyAllowed := false }.take 1 token

def comma? (s : Scanner) : Option Scanner := do
  let s ← s.giveUp?
  return { s with keyAllowed := true }.take 1 .comma

def entry? (s : Scanner) : Option Scanner := do
  if !s.inFlow && !s.keyAllowed then none
  let s ← (s.indentTo s.cursor.column s.tokens.size .sequenceStart).giveUp?
  return { s with keyAllowed := true }.take 1 .entry

def key? (s : Scanner) : Option Scanner := do
  if !s.inFlow && !s.keyAllowed then none
  let s ← (s.indentTo s.cursor.column s.tokens.size .mappingStart).giveUp?
  return { s with keyAllowed := !s.inFlow }.take 1 .key

/-- The colon before a value. The candidate becomes the key. -/
def value? (s : Scanner) : Option Scanner :=
  match s.candidate with
  | some c =>
    let s := { s with tokens := s.tokens.insertIdxIfInBounds c.position .key, candidate := none }
    let s := { s.indentTo c.place.column c.position .mappingStart with keyAllowed := false }
    some (s.take 1 .value)
  | none =>
    if !s.inFlow && !s.keyAllowed then none
    else
      let s := s.indentTo s.cursor.column s.tokens.size .mappingStart
      some ({ s with keyAllowed := !s.inFlow }.take 1 .value)

def block? (s : Scanner) (isFolded : Bool) : Option Scanner := do
  let s ← s.giveUp?
  let r ← blockText? isFolded s.blocks.head? (s.cursor.skip 1)
  return { s with cursor := r.cursor, keyAllowed := true }.emit (.scalar r.text false)

def quoted? (s : Scanner) (quote : Char) : Option Scanner := do
  let s ← s.propose?
  let r ← quotedText? quote (s.cursor.rest.length + 1) [] (s.cursor.skip 1)
  return { s with cursor := r.cursor, keyAllowed := false }.emit (.scalar r.text false)

/-- Plain text. A key may start after it if it ended with its line. -/
def plain? (s : Scanner) : Option Scanner := do
  let s ← s.propose?
  let r ← plainText? s.inFlow (s.blocks.head?.elim 0 (· + 1)) (s.cursor.rest.length + 1) [] [] false
    s.cursor
  return { s with cursor := r.cursor, keyAllowed := r.broken }.emit (.scalar r.text true)

/-- Whether plain text may start with a character, given what follows it. -/
def startsPlain (inFlow : Bool) (c : Char) (rest : List Char) : Bool :=
  if c == '-' then !startsGap rest
  else if c == '?' || c == ':' then !inFlow && !startsGap rest
  else !isGap c && !",[]\x7b\x7d#&*!|>'\"%@\x60".toList.contains c

/-- Reads the token that starts with a character. -/
def token? (s : Scanner) (c : Char) (rest : List Char) : Option Scanner :=
  if s.cursor.column == 0 && c == '%' then s.version?
  else if s.cursor.column == 0 && startsMark '-' s.cursor.rest then s.mark? .documentStart
  else if s.cursor.column == 0 && startsMark '.' s.cursor.rest then s.mark? .documentEnd
  else if c == '[' then s.open? .openBracket
  else if c == '\x7b' then s.open? .openBrace
  else if c == ']' then s.close? .closeBracket
  else if c == '\x7d' then s.close? .closeBrace
  else if c == ',' then s.comma?
  else if c == '-' && startsGap rest then s.entry?
  else if c == '?' && (s.inFlow || startsGap rest) then s.key?
  else if c == ':' && (s.inFlow || startsGap rest) then s.value?
  else if c == '|' && !s.inFlow then s.block? false
  else if c == '>' && !s.inFlow then s.block? true
  else if c == '\'' || c == '"' then s.quoted? c
  else if startsPlain s.inFlow c rest then s.plain?
  else none

/-- Reads the rest of the text; every token takes up at least one character. -/
def run? : (fuel : Nat) → Scanner → Option (Array Token)
  | 0, _ => none
  | fuel + 1, s => do
    let (cursor, keyAllowed) :=
      Cursor.toToken s.inFlow s.keyAllowed false s.cursor.place s.cursor.rest
    let s ← { s with cursor := cursor, keyAllowed := keyAllowed }.expire?
    match s.cursor.rest with
    | [] =>
      let s ← (s.unindentTo none).giveUp?
      return s.tokens
    | c :: rest => run? fuel (← (s.unindentTo (some s.cursor.column)).token? c rest)

end Scanner

def tokens? (text : String) : Option (List Token) :=
  if text.toList.all isAllowed then
    let text := unifyBreaks text.toList
    (Scanner.run? (text.length + 1) (.start text)).map Array.toList
  else none

end Estate.Yaml
