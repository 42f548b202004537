import Estate.Document.Value
import Estate.Json.Text

/-! Writing document trees as JSON text: compactly on one line, or with one item a line and two
blanks for each level. Entries are written in their order. -/
namespace Estate.Json
open Document

/-- Scalars; plain text is written as text, and what has no value as null. -/
def scalar : Node → String
  | .null | .unreadable => "null"
  | .flag b => if b then "true" else "false"
  | .number n => if n.isFinite then n.text else "null"
  | .text s | .plain s => quote s
  | .list _ | .object _ => ""

mutual

def compact : Node → String
  | .list items => "[" ++ ",".intercalate (compactItems items) ++ "]"
  | .object entries => "\x7b" ++ ",".intercalate (compactEntries entries) ++ "\x7d"
  | n => scalar n
termination_by structural n => n

def compactItems : List Node → List String
  | [] => []
  | n :: ns => compact n :: compactItems ns
termination_by structural ns => ns

def compactEntries : List (Node × Node) → List String
  | [] => []
  | (key, n) :: rest => (quote key.label ++ ":" ++ compact n) :: compactEntries rest
termination_by structural es => es

end

/-- A new line and the blanks of a level. -/
def lineBreak (level : Nat) : String := String.ofList ('\n' :: List.replicate (2 * level) ' ')

/-- Lines between brackets; without lines the brackets stand alone. -/
def block (opening closing : String) (level : Nat) (lines : List String) : String :=
  if lines.isEmpty then opening ++ closing
  else opening ++ lineBreak (level + 1) ++ ("," ++ lineBreak (level + 1)).intercalate lines
    ++ lineBreak level ++ closing

mutual

/-- The text with one item a line, inside `level` lists and objects. -/
def indented (level : Nat) : Node → String
  | .list items => block "[" "]" level (indentedItems (level + 1) items)
  | .object entries => block "\x7b" "\x7d" level (indentedEntries (level + 1) entries)
  | n => scalar n
termination_by structural n => n

def indentedItems (level : Nat) : List Node → List String
  | [] => []
  | n :: ns => indented level n :: indentedItems level ns
termination_by structural ns => ns

def indentedEntries (level : Nat) : List (Node × Node) → List String
  | [] => []
  | (key, n) :: rest => (quote key.label ++ ": " ++ indented level n) :: indentedEntries level rest
termination_by structural es => es

end

def pretty (n : Node) : String := indented 0 n

end Estate.Json
