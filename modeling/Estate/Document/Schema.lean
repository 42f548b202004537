import Estate.Document.Value

/-! Schemas: for a type of document, how its values are written as trees and which trees are read as
its values. A schema is data, so writing and reading are two functions over the same description. -/
namespace Estate.Document

/-- What a key can name a field by: its own word, or its place, counted from zero. -/
inductive Name where
  | word (s : String)
  | position (n : Nat)
deriving DecidableEq

/-- The same name once one thing before the named one is left out. -/
def Name.pred : Name → Name
  | word s => .word s
  | position n => .position (n - 1)

/-- The name that a tree is as a key. Only a typed key can be a number. -/
def Node.name? : Node → Option Name
  | .text s | .plain s => some (.word s)
  | .number (.int n) => if 0 ≤ n then some (.position n.toNat) else none
  | _ => none

/-- The ways in which documents are noted. Parts of a document may be typed before anything is
wanted of them, whatever its notation. -/
inductive Dialect where
  | json | yaml | toml | typed
deriving DecidableEq

/-- Whether a list of values, in the order of the fields, can stand for a record. -/
def Dialect.listsRecords : Dialect → Bool
  | yaml => false
  | json | toml | typed => true

/-- Whether such a list may go on after the last field. -/
def Dialect.toleratesMore : Dialect → Bool
  | toml => true
  | json | yaml | typed => false

/-- Whether a tree stands for nothing, beside the name of a member of an enumeration. -/
def Dialect.isVoid : Dialect → Node → Bool
  | json, .null => true
  | toml, .list [] | toml, .object [] => true
  | typed, .null | typed, .object [] => true
  | _, _ => false

/-- The words of an enumeration: each member has one, no two members the same. -/
structure Vocabulary (α : Type) where
  members : List α
  word : α → String
  complete : ∀ a, a ∈ members
  distinct : ∀ a b, word a = word b → a = b

namespace Vocabulary

def member? (v : Vocabulary α) (word : String) : Option α :=
  v.members.find? fun a => v.word a == word

/-- The member that a name stands for; a number counts the members from zero. -/
def named? (v : Vocabulary α) : Name → Option α
  | .word s => v.member? s
  | .position i => v.members[i]?

/-- The member that a tree stands for: a word, or an object whose only entry has the member's name
as its key and nothing as its value. -/
def read? (v : Vocabulary α) (dialect : Dialect) : Node → Option α
  | .object [(key, n)] => if dialect.isVoid n then key.name?.bind v.named? else none
  | n => n.text?.bind v.member?

end Vocabulary

/-- What the absence of a field means. A field may be left out of the written form only where its
value is the one that absence means. Where a record is noted as a list, a value that is merely
implied may not be left out. -/
inductive Presence (α : Type) where
  | required
  | implied (value : α)
  | defaulted (value : α)
  | elided (value : α) (isDefault : α → Bool) (isDefault_iff : ∀ a, isDefault a = true ↔ a = value)

namespace Presence

def absent? : Presence α → Option α
  | required => none
  | implied value | defaulted value | elided value _ _ => some value

/-- What a field reads as whose place a list ends before. -/
def beyond? : Presence α → Option α
  | required | implied _ => none
  | defaulted value | elided value _ _ => some value

/-- Whether the field is left out when a value is written. -/
def omits : Presence α → α → Bool
  | elided _ isDefault _, a => isDefault a
  | _, _ => false

/-- An optional value, left out when there is none. -/
def unlessNone : Presence (Option α) := .elided none Option.isNone (by simp)

def unlessNil : Presence (List α) := .elided [] List.isEmpty (by simp)

def unlessEmpty : Presence (StringMap α) :=
  .elided .empty StringMap.isEmpty fun m =>
    ⟨fun h => StringMap.ext (List.isEmpty_iff.mp h), fun h => by rw [h]; rfl⟩

end Presence

mutual

/-- A description of the documents that stand for values of a type. -/
inductive Schema : Type → Type 1 where
  /-- Text. -/
  | text : Schema String
  /-- A truth value. -/
  | flag : Schema Bool
  /-- A natural number. -/
  | count : Schema Nat
  /-- A free-form value. -/
  | any : Schema Value
  /-- One word of an enumeration. -/
  | word {α : Type} (vocabulary : Vocabulary α) : Schema α
  /-- A value or null. -/
  | optional {α : Type} (some : Schema α) : Schema (Option α)
  /-- A list. -/
  | list {α : Type} (item : Schema α) : Schema (List α)
  /-- A set of texts, written as a list. -/
  | set : Schema StringSet
  /-- An object whose keys are data. -/
  | map {α : Type} (value : Schema α) : Schema (StringMap α)
  /-- An object with named fields. -/
  | object {ρ : Type} (fields : Fields ρ) : Schema ρ
  /-- The same documents for another type of values. -/
  | via {α β : Type} (schema : Schema β) (make : β → α) (parts : α → β)
      (make_parts : ∀ a, make (parts a) = a) : Schema α
  /-- Documents in which every plain scalar has its own type, whatever is wanted of it. -/
  | settled {α : Type} (schema : Schema α) : Schema α

/-- The named fields of an object, in the order in which they are written. -/
inductive Fields : Type → Type 1 where
  | done : Fields Unit
  /-- A field under its key. -/
  | field {α ρ : Type} (key : String) (presence : Presence α) (schema : Schema α)
      (rest : Fields ρ) : Fields (α × ρ)
  /-- A tag that names one of several cases, whose fields stand beside it. Where tag and case are
  embedded among other fields, the tag may also give the number of the case. -/
  | choice {σ ρ : Type} (tag : String) (isEmbedded : Bool) (cases : Cases σ) (rest : Fields ρ) :
      Fields (σ × ρ)

/-- The cases that a tag may name. -/
inductive Cases : Type → Type 1 where
  | none : Cases Empty
  | case {α σ : Type} (label : String) (fields : Fields α) (rest : Cases σ) : Cases (α ⊕ σ)

end

mutual

def Schema.write {α : Type} : Schema α → α → Node
  | .text, s => .text s
  | .flag, b => .flag b
  | .count, n => .count n
  | .any, v => v.node
  | .word v, a => .text (v.word a)
  | .optional _, none => .null
  | .optional s, some a => s.write a
  | .list s, items => .list (items.map fun a => s.write a)
  | .set, members => .texts members.toList
  | .map s, m => .record (m.entries.map fun e => (e.1, s.write e.2))
  | .object fields, r => .record (fields.write r)
  | .via s _ parts _, a => s.write (parts a)
  | .settled s, a => s.write a
termination_by structural s => s

def Fields.write {ρ : Type} : Fields ρ → ρ → List (String × Node)
  | .done, _ => []
  | .field key presence s rest, (a, r) =>
    (if presence.omits a then [] else [(key, s.write a)]) ++ rest.write r
  | .choice tag _ cases rest, (c, r) =>
    (tag, .text (cases.write c).1) :: (cases.write c).2 ++ rest.write r
termination_by structural s => s

/-- The label of a case and the entries of its fields. -/
def Cases.write {σ : Type} : Cases σ → σ → String × List (String × Node)
  | .none, c => nomatch c
  | .case label fields _, .inl a => (label, fields.write a)
  | .case _ _ rest, .inr c => rest.write c
termination_by structural s => s

end

namespace Node

def flag? : Node → Option Bool
  | .flag b => some b
  | .plain s => Plain.flag? s
  | _ => none

def count? : Node → Option Nat
  | .number (.int n) => if 0 ≤ n then some n.toNat else none
  | .plain s => ((Plain.integer? s.toList).filter fun n => 0 ≤ n && Number.inRange n).map Int.toNat
  | _ => none

def isNull : Node → Bool
  | .null => true
  | .plain s => Plain.isNull s
  | _ => false

/-- The items of a list; empty plain text is the empty one. -/
def items? : Node → Option (List Node)
  | .list items => some items
  | .plain s => if s = "" then some [] else none
  | _ => none

/-- The entries of an object; empty plain text is the empty one. -/
def entries? : Node → Option (List (Node × Node))
  | .object entries => some entries
  | .plain s => if s = "" then some [] else none
  | _ => none

/-- The entries of an object all of whose keys are names. -/
def namedEntries? (n : Node) : Option (List (Name × Node)) :=
  n.entries?.bind fun entries => entries.mapM fun (key, n) => key.name?.map (·, n)

end Node

/-- Whether a record is a case with its tag. Such a record is taken as it stands, in any notation.
-/
def Fields.isTagged {ρ : Type} : Fields ρ → Bool
  | .choice _ isEmbedded _ _ => !isEmbedded
  | _ => false

/-- The trees under one of some names. -/
def occurrences (names : List Name) (entries : List (Name × Node)) : List Node :=
  (entries.filter fun e => e.1 ∈ names).map (·.2)

mutual

/-- The value that a tree stands for. -/
def Schema.read {α : Type} : Schema α → Dialect → Node → Option α
  | .text, _, n => n.text?
  | .flag, _, n => n.flag?
  | .count, _, n => n.count?
  | .any, _, n => Value.ofNode? n
  | .word v, d, n => v.read? d n
  | .optional s, d, n => if n.isNull then some none else (s.read d n).map some
  | .list s, d, n => n.items?.bind fun items => items.mapM fun item => s.read d item
  | .set, _, n => n.items?.bind fun items => (items.mapM Node.text?).map StringSet.ofList
  | .map s, d, n => n.entries?.bind fun entries =>
      (entries.mapM fun e : Node × Node =>
        e.1.text?.bind fun key => (s.read d e.2).map (key, ·)).map StringMap.ofList
  | .object fields, d, n =>
    match n with
    | .list items => if d.listsRecords || fields.isTagged then fields.readItems d items else none
    | n => n.namedEntries?.bind fun entries => fields.read d 0 entries
  | .via s make _ _, d, n => (s.read d n).map make
  | .settled s, _, n => n.settle.bind fun typed => s.read .typed typed
termination_by structural s => s

/-- The values of the fields of an object, from the field at a position on. Keys that name no field
are ignored; a field that occurs twice is refused. -/
def Fields.read {ρ : Type} : Fields ρ → Dialect → (position : Nat) → List (Name × Node) → Option ρ
  | .done, _, _, _ => some ()
  | .field key presence s rest, d, position, entries =>
    (match occurrences [.word key, .position position] entries with
      | [] => presence.absent?
      | [n] => s.read d n
      | _ => none).bind fun a => (rest.read d (position + 1) entries).map (a, ·)
  | .choice tag isEmbedded cases rest, d, position, entries =>
    (match occurrences [.word tag] entries with
      | [n] => (if isEmbedded then n.name? else n.text?.map .word).bind fun named =>
          cases.read d named entries
      | _ => none).bind fun c => (rest.read d position entries).map (c, ·)
termination_by structural s => s

/-- The case of a name; a number counts the cases from zero. The positions of its fields are counted
on their own. -/
def Cases.read {σ : Type} : Cases σ → Dialect → Name → List (Name × Node) → Option σ
  | .none, _, _, _ => none
  | .case label fields rest, d, named, entries =>
    if named = .word label ∨ named = .position 0 then (fields.read d 0 entries).map .inl
    else (rest.read d named.pred entries).map .inr
termination_by structural s => s

/-- The values of the fields of a record noted as a list, told by their places alone. A tag has the
first place, and the fields of its case all others; one that is embedded has no place. -/
def Fields.readItems {ρ : Type} : Fields ρ → Dialect → List Node → Option ρ
  | .done, d, items => if items.isEmpty || d.toleratesMore then some () else none
  | .field _ presence _ rest, d, [] =>
    presence.beyond?.bind fun a => (rest.readItems d []).map (a, ·)
  | .field _ _ s rest, d, n :: items =>
    (s.read d n).bind fun a => (rest.readItems d items).map (a, ·)
  | .choice _ _ _ _, _, [] => none
  | .choice _ isEmbedded cases rest, d, n :: items =>
    if isEmbedded then none
    else (n.text?.bind fun label => cases.readItems d label items).bind fun c =>
      (rest.readItems d []).map (c, ·)
termination_by structural s => s

def Cases.readItems {σ : Type} : Cases σ → Dialect → String → List Node → Option σ
  | .none, _, _, _ => none
  | .case label fields rest, d, named, items =>
    if named = label then (fields.readItems d items).map .inl
    else (rest.readItems d named items).map .inr
termination_by structural s => s

end

end Estate.Document
