import Estate.Proofs.Deployment.Rounds

/-! Dependencies between stacks, by their positions in the input. An id means the first stack that
has it; a dependency on an id that no stack has dangles. -/
namespace Estate.Deployment

/-- A stack with dependencies and nothing else set. -/
def Stack.depending (id : String) (dependsOn : List String) : Stack :=
  { bare id id with dependsOn }

variable {ss : List Stack} {i j : Fin ss.length} {id : String}

/-- The first stack with an id stands at a position. -/
def FirstAt (ss : List Stack) (id : String) (j : Fin ss.length) : Prop :=
  (ss.get j).id = id ∧ ∀ k < j, (ss.get k).id ≠ id

/-- The stack at one position lists the id of the one at another. -/
def DependsOn (ss : List Stack) (i j : Fin ss.length) : Prop :=
  ∃ id ∈ (ss.get i).dependsOn, FirstAt ss id j

/-- Some stack has the id. -/
def Known (ss : List Stack) (id : String) : Prop := id ∈ ss.map (·.id)

/-- No dependency dangles. -/
def Closed (ss : List Stack) : Prop := ∀ s ∈ ss, ∀ d ∈ s.dependsOn, Known ss d

/-- Some stack depends on itself, directly or not. -/
def Cyclic (ss : List Stack) : Prop := ∃ i, Relation.TransGen (DependsOn ss) i i

theorem position?_eq_some_iff : position? ss id = some j ↔ FirstAt ss id j := by
  simp only [position?, List.findFinIdx?_eq_some_iff, beq_iff_eq]
  rfl

theorem position?_eq_none_iff : position? ss id = none ↔ ¬ Known ss id := by
  simp [position?, Known]

theorem position?_isSome_iff : (position? ss id).isSome = true ↔ Known ss id := by
  rw [Option.isSome_iff_ne_none, Ne, position?_eq_none_iff, not_not]

theorem Known.exists_firstAt (known : Known ss id) : ∃ j, FirstAt ss id j := by
  obtain ⟨j, found⟩ := Option.isSome_iff_exists.mp (position?_isSome_iff.mpr known)
  exact ⟨j, position?_eq_some_iff.mp found⟩

theorem dependencies_ofStacks : (Graph.ofStacks ss).dependencies i =
    ((ss.get i).dependsOn.filterMap (position? ss)).eraseDups := by
  simp [Graph.ofStacks]

theorem depends_ofStacks : (Graph.ofStacks ss).Depends = DependsOn ss := by
  funext i j
  simp [Graph.Depends, Graph.ofStacks, DependsOn, List.mem_eraseDups, position?_eq_some_iff]

/-- The first stack with a dependency that dangles, by its id, and the first such dependency. -/
def FirstDangling (ss : List Stack) (stackId dependencyId : String) : Prop :=
  ∃ before s after listed others, ss = before ++ s :: after ∧
    (∀ b ∈ before, ∀ d ∈ b.dependsOn, Known ss d) ∧ s.id = stackId ∧
    s.dependsOn = listed ++ dependencyId :: others ∧ (∀ d ∈ listed, Known ss d) ∧
    ¬ Known ss dependencyId

theorem dangling?_eq_none_iff : dangling? ss = none ↔ Closed ss := by
  simp [dangling?, Closed, position?_eq_none_iff]

theorem dangling?_eq_some_iff {stackId dependencyId : String} :
    dangling? ss = some (stackId, dependencyId) ↔ FirstDangling ss stackId dependencyId := by
  simp only [dangling?, List.findSome?_eq_some_iff, Option.map_eq_some_iff, Option.map_eq_none_iff,
    List.find?_eq_some_iff_append, List.find?_eq_none, Option.isNone_iff_eq_none,
    position?_eq_none_iff, not_not, Prod.mk.injEq]
  constructor
  · rintro ⟨before, s, after, split, ⟨d, ⟨unknown, listed, others, list, known⟩, rfl, rfl⟩, clean⟩
    exact ⟨before, s, after, listed, others, split, clean, rfl, list,
      by simpa [position?_isSome_iff] using known, unknown⟩
  · rintro ⟨before, s, after, listed, others, split, clean, rfl, list, known, unknown⟩
    refine ⟨before, s, after, split, ⟨dependencyId, ⟨unknown, listed, others, list, ?_⟩, rfl, rfl⟩,
      clean⟩
    simpa [position?_isSome_iff] using known

theorem FirstDangling.not_closed {stackId dependencyId : String}
    (first : FirstDangling ss stackId dependencyId) : ¬ Closed ss := by
  obtain ⟨before, s, after, listed, others, rfl, _, _, list, _, unknown⟩ := first
  exact fun closed => unknown (closed s (by simp) dependencyId (by simp [list]))

theorem exists_firstDangling_iff :
    (∃ stackId dependencyId, FirstDangling ss stackId dependencyId) ↔ ¬ Closed ss := by
  constructor
  · rintro ⟨_, _, first⟩
    exact first.not_closed
  · intro loose
    obtain ⟨⟨stackId, dependencyId⟩, found⟩ :=
      Option.ne_none_iff_exists'.mp (mt dangling?_eq_none_iff.mp loose)
    exact ⟨stackId, dependencyId, dangling?_eq_some_iff.mp found⟩

end Estate.Deployment
