import Estate.Document.Node
import Estate.Json.Number
import Estate.Json.Text

/-! Reading JSON text as a document tree: one value with nothing but blanks around it. Lists and
objects that are nested deeper than a fixed limit are unreadable. -/
namespace Estate.Json
open Document

/-- Lists and objects nest at most this deep. -/
def depthLimit : Nat := 127

def isBlank (c : Char) : Bool := c == ' ' || c == '\t' || c == '\n' || c == '\r'

def skipBlanks (cs : List Char) : List Char := cs.dropWhile isBlank

/-- Quoted text as a tree. -/
def ofText (s : Option String) : Node := s.elim .unreadable .text

/-- A list or an object where so many levels are left. -/
def nested (depth : Nat) (n : Node) : Node := if depth = 0 then .unreadable else n

mutual

/-- A value at the front of a text, and the rest. Every call takes one unit of `fuel`; a text never
needs more than twice its length. -/
def value? : (fuel depth : Nat) → List Char → Option (Node × List Char)
  | 0, _, _ => none
  | fuel + 1, depth, cs =>
    match skipBlanks cs with
    | 'n' :: 'u' :: 'l' :: 'l' :: rest => some (.null, rest)
    | 't' :: 'r' :: 'u' :: 'e' :: rest => some (.flag true, rest)
    | 'f' :: 'a' :: 'l' :: 's' :: 'e' :: rest => some (.flag false, rest)
    | '"' :: rest => (text? rest).map fun (s, rest) => (ofText s, rest)
    | '[' :: rest =>
      match skipBlanks rest with
      | ']' :: rest => some (nested depth (.list []), rest)
      | rest => (items? fuel (depth - 1) rest).map
          fun (items, rest) => (nested depth (.list items), rest)
    | '{' :: rest =>
      match skipBlanks rest with
      | '}' :: rest => some (nested depth (.object []), rest)
      | rest => (entries? fuel (depth - 1) rest).map
          fun (es, rest) => (nested depth (.object es), rest)
    | rest => (number? rest).map fun (n, rest) => (n.elim .unreadable .number, rest)

def items? : (fuel depth : Nat) → List Char → Option (List Node × List Char)
  | 0, _, _ => none
  | fuel + 1, depth, cs => do
    let (item, rest) ← value? fuel depth cs
    match skipBlanks rest with
    | ',' :: rest => (items? fuel depth rest).map fun (items, rest) => (item :: items, rest)
    | ']' :: rest => some ([item], rest)
    | _ => none

/-- The entries of an object up to its closing brace, and the rest. -/
def entries? : (fuel depth : Nat) → List Char → Option (List (Node × Node) × List Char)
  | 0, _, _ => none
  | fuel + 1, depth, cs =>
    match skipBlanks cs with
    | '"' :: rest => do
      let (key, rest) ← text? rest
      match skipBlanks rest with
      | ':' :: rest =>
        let (value, rest) ← value? fuel depth rest
        match skipBlanks rest with
        | ',' :: rest =>
          (entries? fuel depth rest).map fun (es, rest) => ((ofText key, value) :: es, rest)
        | '}' :: rest => some ([(ofText key, value)], rest)
        | _ => none
      | _ => none
    | _ => none

end

def read? (s : String) : Option Node :=
  let cs := s.toList
  match value? (2 * cs.length + 1) depthLimit cs with
  | some (n, rest) => if (skipBlanks rest).isEmpty then some n else none
  | none => none

end Estate.Json
