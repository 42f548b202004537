import Estate.Document.Plain
import Estate.Json.Printer

/-! Writing document trees in block form: one line for each scalar, lists and objects further in by
two blanks. Text stands plain where it cannot be taken for anything else, and between double quotes
otherwise. -/
namespace Estate.Yaml
open Document

/-- Whether a character of quoted text has to be escaped by its number. -/
def isHidden (c : Char) : Bool :=
  let n := c.toNat
  (0x7F ≤ n && n < 0xA0) || n == 0x2028 || n == 0x2029 || (0xFDD0 ≤ n && n < 0x10000)

def fourDigits (n : Nat) : List Char :=
  [n / 4096, n / 256, n / 16, n].map Json.hexDigit

def quote (s : String) : String :=
  let escape (c : Char) : List Char :=
    if isHidden c then '\\' :: 'u' :: fourDigits c.toNat else Json.escape c
  String.ofList ('"' :: s.toList.flatMap escape ++ ['"'])

/-- Whether text can stand plain: letters, digits and a few signs that are nothing but text. -/
def isSafe (s : String) : Bool :=
  s.toList.head?.any Char.isAlpha
    && s.toList.all (fun c => c.isAlphanum || c == '-' || c == '_' || c == '.' || c == '/')
    && s.length ≤ 64
    && Plain.type? s == some (.text s)

def word (s : String) : String := if isSafe s then s else quote s

/-- A key with its colon, or over two lines if it is too long for one. -/
def keyLines (key : String) : List String :=
  if (word key).utf8ByteSize ≤ 1000 then [word key ++ ":"] else ["? " ++ word key, ":"]

/-- The scalar, empty list or empty object of one line. -/
def inline? : Node → Option String
  | .text s | .plain s => some (word s)
  | .list [] => some "[]"
  | .object [] => some "\x7b\x7d"
  | .list _ | .object _ => none
  | n => some (Json.scalar n)

/-- Lines further in, with something before the first of them. -/
def indentAfter (first : String) : List String → List String
  | [] => []
  | line :: rest => (first ++ line) :: rest.map ("  " ++ ·)

/-- A key with the lines of its value: on the same line if there is only one. -/
def fieldLines (key : String) (n : Node) (lines : List String) : List String :=
  let keys := keyLines key
  match inline? n with
  | some line => keys.dropLast ++ keys.getLast?.toList.map (· ++ " " ++ line)
  | none => keys ++ lines.map ("  " ++ ·)

mutual

def lines : Node → List String
  | .list (n :: ns) => itemLines (n :: ns)
  | .object (e :: es) => entryLines (e :: es)
  | n => (inline? n).toList
termination_by structural n => n

def itemLines : List Node → List String
  | [] => []
  | n :: ns => indentAfter "- " (lines n) ++ itemLines ns
termination_by structural ns => ns

def entryLines : List (Node × Node) → List String
  | [] => []
  | (key, n) :: rest => fieldLines key.label n (lines n) ++ entryLines rest
termination_by structural es => es

end

def print (n : Node) : String := String.join ((lines n).map (· ++ "\n"))

end Estate.Yaml
