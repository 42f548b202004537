import Estate.StringMap
import Estate.Document.Plain

/-! Free-form values: document trees in their normal form. Objects are sorted by key without
repetition, every scalar has its type and every float is finite, so two values are equal exactly if
they mean the same. -/
namespace Estate.Document

namespace Node

/-- Whether an entry of an object comes before another in the order of the keys. -/
def isBefore (a b : Node × Node) : Prop := a.1.label < b.1.label

instance : DecidableRel isBefore := fun a b =>
  inferInstanceAs (Decidable (a.1.label < b.1.label))

mutual

def isNormal : Node → Bool
  | .null | .flag _ | .text _ => true
  | .number n => n.isFinite
  | .plain _ | .unreadable => false
  | .list items => areNormal items
  | .object entries => areNormalEntries entries && decide (entries.Pairwise isBefore)
termination_by structural n => n

def areNormal : List Node → Bool
  | [] => true
  | n :: ns => isNormal n && areNormal ns
termination_by structural ns => ns

/-- Whether all keys are meant as text and all trees below them are in normal form. -/
def areNormalEntries : List (Node × Node) → Bool
  | [] => true
  | (.text _, n) :: rest => isNormal n && areNormalEntries rest
  | _ => false
termination_by structural es => es

end

/-- Typed scalars in normal form; a float that is not finite becomes null. -/
def normalNumber (n : Number) : Node := if n.isFinite then .number n else .null

mutual

/-- The normal form of a tree. Of repeated keys the last one counts; keys that are not text have
none. -/
def normalize : Node → Option Node
  | .number n => some (normalNumber n)
  | .plain s => (Plain.type? s).map fun
    | .number n => normalNumber n
    | scalar => scalar
  | .list items => (normalizeItems items).map .list
  | .object entries => (normalizeEntries entries).map fun es => record (StringMap.ofList es).entries
  | .unreadable => none
  | n => some n
termination_by structural n => n

def normalizeItems : List Node → Option (List Node)
  | [] => some []
  | n :: ns => do return (← normalize n) :: (← normalizeItems ns)
termination_by structural ns => ns

def normalizeEntries : List (Node × Node) → Option (List (String × Node))
  | [] => some []
  | (key, n) :: rest => do return (← key.text?, ← normalize n) :: (← normalizeEntries rest)
termination_by structural es => es

end

theorem isNormal_normalNumber (n : Number) : (normalNumber n).isNormal = true := by
  unfold normalNumber
  split <;> simp_all [isNormal]

theorem areNormalEntries_record {es : List (String × Node)} :
    areNormalEntries (es.map fun e => (Node.text e.1, e.2)) = true ↔
      ∀ e ∈ es, e.2.isNormal = true := by
  induction es with
  | nil => simp [areNormalEntries]
  | cons e rest ih =>
    simp only [List.map_cons, areNormalEntries, List.forall_mem_cons, ← ih, Bool.and_eq_true]

theorem isNormal_record {es : List (String × Node)} (normal : ∀ e ∈ es, e.2.isNormal = true)
    (sorted : es.Pairwise fun a b => a.1 < b.1) : (record es).isNormal = true := by
  simp only [record, isNormal, Bool.and_eq_true, decide_eq_true_eq]
  exact ⟨areNormalEntries_record.mpr normal, List.pairwise_map.mpr sorted⟩

/-- Plain text is never typed as a list, an object or plain text again. -/
theorem type?_scalar {s : String} {n : Node} (typed : Plain.type? s = some n) :
    n = .null ∨ (∃ b, n = .flag b) ∨ (∃ k, n = .number k) ∨ ∃ t, n = .text t := by
  have ending : ∀ f : Option Binary64,
      (f.elim (Node.text s) fun x => .number (.float x)) = n →
        n = .null ∨ (∃ b, n = .flag b) ∨ (∃ k, n = .number k) ∨ ∃ t, n = .text t := by
    rintro (_ | x) rfl
    · exact .inr (.inr (.inr ⟨s, rfl⟩))
    · exact .inr (.inr (.inl ⟨_, rfl⟩))
  unfold Plain.type? at typed
  split at typed
  · exact .inl (Option.some.inj typed).symm
  · split at typed
    · exact .inr (.inl ⟨_, (Option.some.inj typed).symm⟩)
    · split at typed
      · split at typed
        · exact .inr (.inr (.inl ⟨_, (Option.some.inj typed).symm⟩))
        · split at typed
          · contradiction
          · exact ending _ (Option.some.inj typed)
      · exact ending _ (Option.some.inj typed)

mutual

theorem normalize_isNormal : ∀ {n m : Node}, n.normalize = some m → m.isNormal = true
  | .null, m, done | .flag _, m, done | .text _, m, done => by
    simp only [normalize, Option.some.injEq] at done
    simp [← done, isNormal]
  | .number k, m, done => by
    simp only [normalize, Option.some.injEq] at done
    exact done ▸ isNormal_normalNumber k
  | .plain s, m, done => by
    simp only [normalize, Option.map_eq_some_iff] at done
    obtain ⟨typed, found, rfl⟩ := done
    rcases type?_scalar found with rfl | ⟨b, rfl⟩ | ⟨k, rfl⟩ | ⟨t, rfl⟩
    · simp [isNormal]
    · simp [isNormal]
    · exact isNormal_normalNumber k
    · simp [isNormal]
  | .list items, m, done => by
    simp only [normalize, Option.map_eq_some_iff] at done
    obtain ⟨normal, found, rfl⟩ := done
    simpa only [isNormal] using normalizeItems_areNormal found
  | .object entries, m, done => by
    simp only [normalize, Option.map_eq_some_iff] at done
    obtain ⟨normal, found, rfl⟩ := done
    exact isNormal_record
      (fun e member => normalizeEntries_areNormal found e (StringMap.mem_of_mem_ofList member))
      (StringMap.ofList normal).sorted

theorem normalizeItems_areNormal : ∀ {ns ms : List Node},
    normalizeItems ns = some ms → areNormal ms = true
  | [], ms, done => by
    simp only [normalizeItems, Option.some.injEq] at done
    simp [← done, areNormal]
  | n :: ns, ms, done => by
    simp only [normalizeItems, Option.pure_def, Option.bind_eq_bind, Option.bind_eq_some_iff,
      Option.some.injEq] at done
    obtain ⟨m, head, rest, tail, rfl⟩ := done
    simp [areNormal, normalize_isNormal head, normalizeItems_areNormal tail]

theorem normalizeEntries_areNormal : ∀ {ns : List (Node × Node)} {ms : List (String × Node)},
    normalizeEntries ns = some ms → ∀ e ∈ ms, e.2.isNormal = true
  | [], ms, done => by
    simp only [normalizeEntries, Option.some.injEq] at done
    simp [← done]
  | (key, n) :: ns, ms, done => by
    simp only [normalizeEntries, Option.pure_def, Option.bind_eq_bind, Option.bind_eq_some_iff,
      Option.some.injEq] at done
    obtain ⟨_, _, m, head, rest, tail, rfl⟩ := done
    intro e member
    rcases List.mem_cons.mp member with same | later
    · exact same ▸ normalize_isNormal head
    · exact normalizeEntries_areNormal tail e later

end

end Node

structure Value where
  node : Node
  normal : node.isNormal = true
deriving DecidableEq

namespace Value

def null : Value := ⟨.null, rfl⟩

instance : Inhabited Value := ⟨null⟩

/-- The value that a tree means. -/
def ofNode? (n : Node) : Option Value :=
  match found : n.normalize with
  | some m => some ⟨m, Node.normalize_isNormal found⟩
  | none => none

def isNull (v : Value) : Bool := decide (v.node = .null)

end Value
end Estate.Document
