import Estate.Document.Node
import Estate.Yaml.Token

/-! Reading a document as a tree: one node, of scalars, sequences and mappings in block form or in
brackets. What is left out is empty plain text. Sequences and mappings that are nested deeper than a
fixed limit are unreadable. -/
namespace Estate.Yaml
open Document

/-- Sequences and mappings nest at most this deep. -/
def depthLimit : Nat := 128

/-- What stands for a node that is left out. -/
def absent : Node := .plain ""

def sequence (depth : Nat) (items : List Node) : Node :=
  if depth = 0 then .unreadable else .list items

def mapping (depth : Nat) (entries : List (Node × Node)) : Node :=
  if depth = 0 then .unreadable else .object entries

/-- Whether a block goes on with the next entry or ends. -/
def endsItem : List Token → Bool
  | .entry :: _ | .key :: _ | .value :: _ | .blockEnd :: _ => true
  | _ => false

def endsEntry : List Token → Bool
  | .entry :: _ | .blockEnd :: _ => true
  | _ => false

/-- Whether a key or value of a mapping is left out. -/
def endsPart : List Token → Bool
  | .key :: _ | .value :: _ | .blockEnd :: _ => true
  | _ => false

/-- Whether what stands in brackets goes on after a comma or ends. -/
def endsFlow (closing : Token) : List Token → Bool
  | [] => false
  | token :: _ => token == .comma || token == closing

mutual

/-- A node at the front of the tokens, and the rest. Every call takes one unit of `fuel`; tokens
never need more than three times their number. -/
def node? : (fuel depth : Nat) → (inBlock indentless : Bool) → List Token →
    Option (Node × List Token)
  | 0, _, _, _, _ => none
  | fuel + 1, depth, inBlock, indentless, tokens =>
    match tokens with
    | .scalar s isPlain :: rest => some (if isPlain then .plain s else .text s, rest)
    | .entry :: _ =>
      if indentless then
        (bareEntries? fuel (depth - 1) tokens).map fun (items, rest) => (sequence depth items, rest)
      else none
    | token :: rest =>
      if token = .openBracket then
        (flowItems? fuel (depth - 1) true rest).map fun (items, rest) =>
          (sequence depth items, rest)
      else if token = .openBrace then
        (flowEntries? fuel (depth - 1) true rest).map fun (es, rest) => (mapping depth es, rest)
      else if token = .sequenceStart && inBlock then
        (blockItems? fuel (depth - 1) rest).map fun (items, rest) => (sequence depth items, rest)
      else if token = .mappingStart && inBlock then
        (blockEntries? fuel (depth - 1) rest).map fun (es, rest) => (mapping depth es, rest)
      else none
    | [] => none

/-- The entries of a sequence up to the end of its block. -/
def blockItems? : (fuel depth : Nat) → List Token → Option (List Node × List Token)
  | fuel + 1, depth, .entry :: rest => do
    let (item, rest) ←
      if endsEntry rest then some (absent, rest) else node? fuel depth true false rest
    let (items, rest) ← blockItems? fuel depth rest
    return (item :: items, rest)
  | _, _, .blockEnd :: rest => some ([], rest)
  | _, _, _ => none

/-- The entries of a sequence that is not further in than the mapping it is a value of. -/
def bareEntries? : (fuel depth : Nat) → List Token → Option (List Node × List Token)
  | fuel + 1, depth, .entry :: rest => do
    let (item, rest) ←
      if endsItem rest then some (absent, rest) else node? fuel depth true false rest
    let (items, rest) ← bareEntries? fuel depth rest
    return (item :: items, rest)
  | 0, _, .entry :: _ => none
  | _, _, rest => some ([], rest)

def blockEntries? : (fuel depth : Nat) → List Token → Option (List (Node × Node) × List Token)
  | fuel + 1, depth, .key :: rest => do
    let (key, rest) ←
      if endsPart rest then some (absent, rest) else node? fuel depth true true rest
    let (value, rest) ← match rest with
      | .value :: rest =>
        if endsPart rest then some (absent, rest) else node? fuel depth true true rest
      | rest => some (absent, rest)
    let (entries, rest) ← blockEntries? fuel depth rest
    return ((key, value) :: entries, rest)
  | _, _, .blockEnd :: rest => some ([], rest)
  | _, _, _ => none

/-- The items between brackets. One may be a single entry of a mapping. -/
def flowItems? : (fuel depth : Nat) → (isFirst : Bool) → List Token →
    Option (List Node × List Token)
  | 0, _, _, _ => none
  | _ + 1, _, _, .closeBracket :: rest => some ([], rest)
  | fuel + 1, depth, isFirst, tokens => do
    let tokens ← match isFirst, tokens with
      | true, tokens => some tokens
      | false, .comma :: rest => some rest
      | false, _ => none
    match tokens with
    | .closeBracket :: rest => return ([], rest)
    | .key :: rest =>
      let (key, rest) ←
        if rest.head? == some .value || endsFlow .closeBracket rest then
          some (absent, rest.drop 1)
        else node? fuel (depth - 1) false false rest
      let (value, rest) ← match rest with
        | .value :: rest =>
          if endsFlow .closeBracket rest then some (absent, rest)
          else node? fuel (depth - 1) false false rest
        | rest => some (absent, rest)
      let (items, rest) ← flowItems? fuel depth false rest
      return (mapping depth [(key, value)] :: items, rest)
    | tokens =>
      let (item, rest) ← node? fuel depth false false tokens
      let (items, rest) ← flowItems? fuel depth false rest
      return (item :: items, rest)

/-- The entries between braces. A value may be left out. -/
def flowEntries? : (fuel depth : Nat) → (isFirst : Bool) → List Token →
    Option (List (Node × Node) × List Token)
  | 0, _, _, _ => none
  | _ + 1, _, _, .closeBrace :: rest => some ([], rest)
  | fuel + 1, depth, isFirst, tokens => do
    let tokens ← match isFirst, tokens with
      | true, tokens => some tokens
      | false, .comma :: rest => some rest
      | false, _ => none
    match tokens with
    | .closeBrace :: rest => return ([], rest)
    | .key :: rest =>
      let (key, rest) ←
        if rest.head? == some .value || endsFlow .closeBrace rest then some (absent, rest)
        else node? fuel depth false false rest
      let (value, rest) ← match rest with
        | .value :: rest =>
          if endsFlow .closeBrace rest then some (absent, rest)
          else node? fuel depth false false rest
        | rest => some (absent, rest)
      let (entries, rest) ← flowEntries? fuel depth false rest
      return ((key, value) :: entries, rest)
    | tokens =>
      let (key, rest) ← node? fuel depth false false tokens
      let (entries, rest) ← flowEntries? fuel depth false rest
      return ((key, absent) :: entries, rest)

end

/-- The tree of a document's tokens. A document without content is empty. After a version, which
must be a known one, a mark has to begin the document. -/
def document? (tokens : List Token) : Option Node := do
  let content? (tokens : List Token) : Option (Node × List Token) :=
    node? (3 * tokens.length + 1) depthLimit true false tokens
  let tokens ← match tokens with
    | .version isKnown :: rest =>
      if isKnown && rest.head? == some .documentStart then some rest else none
    | tokens => some tokens
  let (n, rest) ← match tokens with
    | [] => some (absent, [])
    | .documentStart :: rest =>
      if rest.isEmpty || rest.head? == some .documentEnd then some (absent, rest)
      else content? rest
    | tokens => content? tokens
  if (rest.dropWhile (· == .documentEnd)).isEmpty then some n else none

def read? (text : String) : Option Node := (tokens? text).bind document?

end Estate.Yaml
