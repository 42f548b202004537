import Estate.Json.Printer
import Estate.Policy.Statement

/-! Placeholders in statements: `$`, an opening brace, a name and a closing brace. A text is a
sequence of characters and placeholders, found from the left in one pass; what is put in the place
of one is not searched again. -/
namespace Estate.Policy
open Document

inductive Piece where
  | char (c : Char)
  | placeholder (name : List Char)
deriving DecidableEq

def startsName (c : Char) : Bool := c.isAlpha || c == '_'

def continuesName (c : Char) : Bool := c.isAlphanum || c == '_' || c == '.' || c == '-'

/-- The name of the placeholder at the front of a text. -/
def placeholderAt? : List Char → Option (List Char)
  | '$' :: '{' :: c :: rest =>
    if startsName c && (rest.dropWhile continuesName).head? == some '}' then
      some (c :: rest.takeWhile continuesName)
    else none
  | _ => none

/-- The parts of a text after `skip` characters, which belong to a part found before. -/
def piecesAfter : (skip : Nat) → List Char → List Piece
  | _, [] => []
  | skip + 1, _ :: rest => piecesAfter skip rest
  | 0, c :: rest =>
    match placeholderAt? (c :: rest) with
    | some name => .placeholder name :: piecesAfter (name.length + 2) rest
    | none => .char c :: piecesAfter 0 rest

def pieces (cs : List Char) : List Piece := piecesAfter 0 cs

def Piece.written : List Char → List Char
  | name => '$' :: '{' :: name ++ ['}']

/-- The text of a value in the place of a placeholder: text as it is, anything else in JSON. -/
def insertion (v : Value) : String :=
  match v.node with
  | .text s => s
  | n => Json.compact n

/-- What stands for a part: a known placeholder gives way to its value, all else stays as written.
-/
def Piece.fill (values : StringMap Value) : Piece → List Char
  | char c => [c]
  | placeholder name =>
    match values.get? (String.ofList name) with
    | some v => (insertion v).toList
    | none => written name

/-- The text with its known placeholders replaced. -/
def substitute (values : StringMap Value) (s : String) : String :=
  String.ofList ((pieces s.toList).flatMap (Piece.fill values))

/-- The statement with the placeholders of its actions, resources and condition values replaced. -/
def Statement.fill (values : StringMap Value) (s : Statement) : Statement :=
  { s with
    actions := s.actions.map (substitute values)
    resources := s.resources.map (substitute values)
    conditions := s.conditions.map (substitute values) }

/-- The statements under the values of variables. Without variables there is nothing to replace. -/
def instantiate (values : StringMap Value) (statements : List Statement) : List Statement :=
  if values.isEmpty then statements else statements.map (Statement.fill values)

end Estate.Policy
