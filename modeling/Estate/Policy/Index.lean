import Estate.Distinct
import Estate.Policy.Library

/-! The library as a table from ids to definitions. -/
namespace Estate.Policy

structure Index where
  definitions : List Definition
  distinct : (definitions.map (·.id)).Nodup

namespace Index

instance : Inhabited Index := ⟨⟨[], List.nodup_nil⟩⟩

/-- The index of a library, or the first id that is defined twice. -/
def build (library : Library) : Except String Index :=
  match unique : firstRepeated? (library.policies.map (·.id)) with
  | some id => .error id
  | none => .ok ⟨library.policies, firstRepeated?_eq_none_iff.mp unique⟩

def get? (index : Index) (id : String) : Option Definition := index.definitions.find? (·.id == id)

def size (index : Index) : Nat := index.definitions.length

end Index

/-- Why policies cannot be resolved. -/
inductive PolicyError where
  | duplicatePolicy (id : String)
  | unknownCompartment (id : String)
deriving DecidableEq

def PolicyError.message : PolicyError → String
  | duplicatePolicy id => s!"duplicate library policy id '{id}'"
  | unknownCompartment id => s!"no compartment '{id}' in topology"

end Estate.Policy
