import Estate.Toml.Scalar
import Estate.Toml.Table

/-! Reading settings files as document trees: lines of keys with values, under headers of tables. -/
namespace Estate.Toml
open Document

/-- Lists and tables between braces nest at most this deep, and a dotted key has at most this many
parts. -/
def depthLimit : Nat := 79

def simpleKey? : List Char → Option (String × List Char)
  | '"' :: cs => lineText? '"' (cs.length + 1) [] cs
  | '\'' :: cs => lineText? '\'' (cs.length + 1) [] cs
  | cs =>
    let name := cs.takeWhile fun c => c.isAlphanum || c == '_' || c == '-'
    if name.isEmpty then none else some (String.ofList name, cs.drop name.length)

/-- Keys with dots between them and blanks around, at most so many, and the rest. -/
def parts? : (most : Nat) → List Char → Option (List String × List Char)
  | 0, _ => none
  | most + 1, cs => do
    let (name, rest) ← simpleKey? (skipBlanks cs)
    match skipBlanks rest with
    | '.' :: rest => (parts? most rest).map fun (names, rest) => (name :: names, rest)
    | rest => return ([name], rest)

def key? (cs : List Char) : Option (List String × List Char) := parts? depthLimit cs

def skipComment : List Char → List Char
  | '#' :: cs => cs.dropWhile isInline
  | cs => cs

/-- The text after blanks, comments and line breaks. -/
def skipLines : (fuel : Nat) → List Char → List Char
  | 0, cs => cs
  | fuel + 1, cs =>
    match newline? (skipComment (skipBlanks cs)) with
    | some rest => skipLines fuel rest
    | none => skipBlanks cs

mutual

/-- A value at the front of a text, and the rest. Every call takes one unit of `fuel`; a text never
needs more than twice its length. -/
def value? : (fuel depth : Nat) → List Char → Option (Node × List Char)
  | 0, _, _ => none
  | fuel + 1, depth, cs =>
    match cs with
    | '"' :: rest => (text? '"' rest).map fun (s, rest) => (.text s, rest)
    | '\'' :: rest => (text? '\'' rest).map fun (s, rest) => (.text s, rest)
    | '[' :: rest =>
      if depth = 0 then none
      else (items? fuel (depth - 1) (skipLines rest.length rest)).map
        fun (items, rest) => (.list items, rest)
    | '{' :: rest =>
      if depth = 0 then none
      else match skipBlanks rest with
        | '}' :: rest => some (.object [], rest)
        | rest => (fields? fuel (depth - 1) [] rest).map
            fun (entries, rest) => (Item.node (.table .header entries), rest)
    | cs => do
      let (word, rest) := splitWord cs
      return (← word? word, rest)

/-- The items of a list up to its closing bracket. A comma may follow the last one. -/
def items? : (fuel depth : Nat) → List Char → Option (List Node × List Char)
  | 0, _, _ => none
  | _ + 1, _, ']' :: rest => some ([], rest)
  | fuel + 1, depth, cs => do
    let (item, rest) ← value? fuel depth cs
    match skipLines rest.length rest with
    | ',' :: rest =>
      (items? fuel depth (skipLines rest.length rest)).map fun (items, rest) =>
        (item :: items, rest)
    | ']' :: rest => return ([item], rest)
    | _ => none

/-- The entries of a table up to its closing brace, added to those read already. -/
def fields? : (fuel depth : Nat) → Entries → List Char → Option (Entries × List Char)
  | 0, _, _, _ => none
  | fuel + 1, depth, entries, cs => do
    let (key, rest) ← key? cs
    match rest with
    | '=' :: rest =>
      let (n, rest) ← value? fuel depth (skipBlanks rest)
      let entries ← define? key n .header entries
      match skipBlanks rest with
      | ',' :: rest => fields? fuel depth entries rest
      | '}' :: rest => return (entries, rest)
      | _ => none
    | _ => none

end

def wholeValue? (cs : List Char) : Option (Node × List Char) :=
  value? (2 * cs.length + 1) depthLimit cs

/-- The text after the end of a line, before which a comment may stand. -/
def lineEnd? (cs : List Char) : Option (List Char) :=
  match skipComment (skipBlanks cs) with
  | [] => some []
  | rest => newline? rest

/-- The keys of a header after its brackets, and the text after the line. -/
def header? (closing : List Char) (cs : List Char) : Option (List String × List Char) := do
  let (key, rest) ← key? cs
  if closing.isPrefixOf rest then
    return (key, ← lineEnd? (rest.drop closing.length))
  else none

/-- The tables of lines, added to those of the lines before; the last header says to which one keys
belong. -/
def lines? : (fuel : Nat) → (current : List String) → Entries → List Char → Option Entries
  | 0, _, _, _ => none
  | fuel + 1, current, root, cs =>
    match skipBlanks cs with
    | [] => some root
    | '[' :: '[' :: rest => do
      let (header, rest) ← header? [']', ']'] rest
      lines? fuel header (← openNext? header root) rest
    | '[' :: rest => do
      let (header, rest) ← header? [']'] rest
      lines? fuel header (← openTable? header root) rest
    | c :: rest =>
      if c == '#' || c == '\n' then do lines? fuel current root (← lineEnd? (c :: rest))
      else do
        let (key, rest) ← key? (c :: rest)
        match rest with
        | '=' :: rest =>
          let (n, rest) ← wholeValue? (skipBlanks rest)
          let root ← within? false (define? key n) current .header root
          lines? fuel current root (← lineEnd? rest)
        | _ => none

/-- The tree of a text. A byte order mark at its start is left out. -/
def read? (text : String) : Option Node :=
  let cs := unifyBreaks <| match text.toList with
    | '\uFEFF' :: cs => cs
    | cs => cs
  (lines? (cs.length + 1) [] [] cs).map fun root => Item.node (.table .header root)

end Estate.Toml
