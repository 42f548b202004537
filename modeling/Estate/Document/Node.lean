import Estate.Number.Basic

/-! The trees that documents are read from and written as, whatever their notation. Beside typed
scalars there are plain ones: text that stands unquoted, whose type is decided by what a reader
wants of it. -/
namespace Estate.Document

/-- A document tree. Objects keep their entries in the order of the text, repeated keys included;
keys are trees too. What is well formed but has no value, such as a number that is too large, is
unreadable: it can only be ignored. -/
inductive Node where
  | null
  | flag (b : Bool)
  | number (n : Number)
  | text (s : String)
  | plain (s : String)
  | list (items : List Node)
  | object (entries : List (Node × Node))
  | unreadable

namespace Node

mutual

/-- Whether two trees are the same. -/
def same : Node → Node → Bool
  | .null, .null => true
  | .flag a, .flag b => decide (a = b)
  | .number a, .number b => decide (a = b)
  | .text a, .text b => decide (a = b)
  | .plain a, .plain b => decide (a = b)
  | .list a, .list b => sameItems a b
  | .object a, .object b => sameEntries a b
  | .unreadable, .unreadable => true
  | _, _ => false
termination_by structural a => a

def sameItems : List Node → List Node → Bool
  | [], [] => true
  | a :: as, b :: bs => same a b && sameItems as bs
  | _, _ => false
termination_by structural a => a

def sameEntries : List (Node × Node) → List (Node × Node) → Bool
  | [], [] => true
  | (k, a) :: as, (l, b) :: bs => same k l && same a b && sameEntries as bs
  | _, _ => false
termination_by structural a => a

end

mutual

theorem same_iff : ∀ a b : Node, same a b = true ↔ a = b
  | .null, b | .flag _, b | .number _, b | .text _, b | .plain _, b | .unreadable, b => by
    cases b <;> simp [same]
  | .list a, b => by cases b <;> simp [same, sameItems_iff a]
  | .object a, b => by cases b <;> simp [same, sameEntries_iff a]

theorem sameItems_iff : ∀ a b : List Node, sameItems a b = true ↔ a = b
  | [], b => by cases b <;> simp [sameItems]
  | a :: as, b => by cases b <;> simp [sameItems, same_iff a, sameItems_iff as]

theorem sameEntries_iff : ∀ a b : List (Node × Node), sameEntries a b = true ↔ a = b
  | [], b => by cases b <;> simp [sameEntries]
  | (k, a) :: as, b => by
    cases b <;> simp [sameEntries, same_iff k, same_iff a, sameEntries_iff as, Prod.ext_iff]

end

instance : DecidableEq Node := fun a b => decidable_of_iff _ (same_iff a b)

/-- An object whose keys are meant as text. -/
def record (entries : List (String × Node)) : Node :=
  .object (entries.map fun e => (.text e.1, e.2))

def texts (items : List String) : Node := .list (items.map .text)

/-- The text of a scalar that is text, plain or not. -/
def text? : Node → Option String
  | .text s | .plain s => some s
  | _ => none

/-- The text of a key; one that is not text counts as empty. -/
def label (key : Node) : String := key.text?.getD ""

def count (n : Nat) : Node := .number (.int n)

end Node
end Estate.Document
