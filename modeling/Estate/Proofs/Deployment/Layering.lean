import Estate.Proofs.Deployment.Dependency

/-! The order of stacks as a layering of their positions: whole, valid, and the lowest there is. -/
namespace Estate.Deployment

variable {ss : List Stack}

/-- The position is in the wave with this number. -/
def InWave {n : Nat} (waves : List (List (Fin n))) (k : Nat) (i : Fin n) : Prop :=
  ∃ wave, waves[k]? = some wave ∧ i ∈ wave

/-- Waves of positions that hold every position once, none before what it depends on, and each
as early as its dependencies allow. Whatever a stack lists is the id of some stack, and the first
stack with that id is in an earlier wave. -/
structure Layering (ss : List Stack) (waves : List (List (Fin ss.length))) : Prop where
  whole : waves.flatten.Perm (List.finRange ss.length)
  inhabited : ∀ wave ∈ waves, wave ≠ []
  inOrder : ∀ wave ∈ waves, wave.Pairwise (· < ·)
  earlier : ∀ k i, InWave waves k i → ∀ id ∈ (ss.get i).dependsOn,
    ∃ j, FirstAt ss id j ∧ ∃ l < k, InWave waves l j
  longest : ∀ k i, InWave waves k i →
    Path (DependsOn ss) i k ∧ ∀ length, Path (DependsOn ss) i length → length ≤ k
  lowest : ∀ level : Fin ss.length → Nat, (∀ i j, DependsOn ss i j → level j < level i) →
    ∀ k i, InWave waves k i → k ≤ level i

section Layers

variable {n : Nat} {depends : Fin n → Fin n → Prop} {count : Nat}

theorem mem_layer_iff {k : Nat} {i : Fin n} : i ∈ layer depends k ↔ Longest depends i k := by
  simp [layer]

theorem inWave_layers_iff {k : Nat} {i : Fin n} :
    InWave ((List.range count).map (layer depends)) k i ↔ k < count ∧ Longest depends i k := by
  by_cases less : k < count
  · simp [InWave, less, mem_layer_iff]
  · simp [InWave, less]

theorem perm_layers (short : ∀ i, ¬ Path depends i count) :
    ((List.range count).map (layer depends)).flatten.Perm (List.finRange n) := by
  refine (List.perm_ext_iff_of_nodup ?_ (List.nodup_finRange n)).mpr fun i => ?_
  · rw [List.nodup_flatten]
    constructor
    · intro wave member
      obtain ⟨k, _, rfl⟩ := List.mem_map.mp member
      exact (List.nodup_finRange n).filter _
    · refine List.pairwise_map.mpr ((List.pairwise_lt_range).imp ?_)
      intro k l less i first second
      have := (mem_layer_iff.mp first).unique (mem_layer_iff.mp second)
      omega
  · obtain ⟨k, less, longest⟩ := exists_longest count (short i)
    simp only [List.mem_finRange, iff_true, List.mem_flatten, List.mem_map, List.mem_range]
    exact ⟨layer depends k, ⟨k, less, rfl⟩, mem_layer_iff.mpr longest⟩

end Layers

theorem layering_layers (closed : Closed ss) {count : Nat}
    (short : ∀ i, ¬ Path (DependsOn ss) i count)
    (inhabited : ∀ wave ∈ (List.range count).map (layer (DependsOn ss)), wave ≠ []) :
    Layering ss ((List.range count).map (layer (DependsOn ss))) where
  whole := perm_layers short
  inhabited := inhabited
  inOrder wave member := by
    obtain ⟨k, _, rfl⟩ := List.mem_map.mp member
    exact (List.pairwise_lt_finRange _).filter _
  earlier k i placed id listed := by
    obtain ⟨_, longest⟩ := inWave_layers_iff.mp placed
    obtain ⟨j, first⟩ := (closed _ (List.get_mem ..) id listed).exists_firstAt
    obtain ⟨l, less, next⟩ := exists_longest count (short j)
    have edge : DependsOn ss i j := ⟨id, listed, first⟩
    exact ⟨j, first, l, longest.lt_of_depends edge next, inWave_layers_iff.mpr ⟨less, next⟩⟩
  longest k i placed := by
    obtain ⟨_, longest⟩ := inWave_layers_iff.mp placed
    exact ⟨longest.1, fun _ path => longest.le path⟩
  lowest level falls k i placed := by
    obtain ⟨_, longest⟩ := inWave_layers_iff.mp placed
    exact longest.1.le_level falls

theorem order_eq_ok {o : Order} (ordered : order ss = .ok o) :
    Closed ss ∧ ∃ count,
      o.waves = ((List.range count).map (layer (DependsOn ss))).map (·.map fun i => (ss.get i).id) ∧
      (∀ i, ¬ Path (DependsOn ss) i count) ∧
      ∀ wave ∈ (List.range count).map (layer (DependsOn ss)), wave ≠ [] := by
  unfold order at ordered
  split at ordered
  · contradiction
  · next known =>
    split at ordered
    · next waves found =>
      cases Except.ok.inj ordered
      obtain ⟨count, rfl, short, inhabited⟩ := layers_eq_ok found
      rw [depends_ofStacks] at short inhabited
      exact ⟨dangling?_eq_none_iff.mp known, count, by rw [depends_ofStacks], short, inhabited⟩
    · contradiction

theorem id_injective (distinct : (ss.map (·.id)).Nodup) {i j : Fin ss.length}
    (same : (ss.get i).id = (ss.get j).id) : i = j := by
  have equal : (ss.map (·.id)).get ⟨i, by simp⟩ = (ss.map (·.id)).get ⟨j, by simp⟩ := by
    simpa using same
  exact Fin.ext (Fin.mk.inj (distinct.get_inj_iff.mp equal))

theorem waveOf_eq_none_iff {o : Order} {waves : List (List (Fin ss.length))}
    (named : o.waves = waves.map (·.map fun i => (ss.get i).id))
    (whole : waves.flatten.Perm (List.finRange ss.length)) {id : String} :
    o.waveOf id = none ↔ ¬ Known ss id := by
  rw [Order.waveOf, List.findIdx?_eq_none_iff, named, Known, List.mem_map]
  constructor
  · rintro absent ⟨s, member, rfl⟩
    obtain ⟨i, bound, rfl⟩ := List.mem_iff_getElem.mp member
    obtain ⟨wave, inside, placed⟩ :=
      List.mem_flatten.mp (whole.mem_iff.mpr (List.mem_finRange ⟨i, bound⟩))
    have missing := absent _ (List.mem_map.mpr ⟨wave, inside, rfl⟩)
    simp only [List.contains_eq_mem, decide_eq_false_iff_not, List.mem_map] at missing
    exact missing ⟨_, placed, rfl⟩
  · intro unknown wave inside
    obtain ⟨positions, _, rfl⟩ := List.mem_map.mp inside
    simp only [List.contains_eq_mem, decide_eq_false_iff_not, List.mem_map]
    rintro ⟨i, _, rfl⟩
    exact unknown ⟨(ss.get i), List.getElem_mem _, rfl⟩

theorem waveOf_eq_some_iff {o : Order} {count : Nat}
    (named : o.waves =
      ((List.range count).map (layer (DependsOn ss))).map (·.map fun i => (ss.get i).id))
    (distinct : (ss.map (·.id)).Nodup) {i : Fin ss.length} {k : Nat} :
    o.waveOf (ss.get i).id = some k ↔
      InWave ((List.range count).map (layer (DependsOn ss))) k i := by
  have contains (l : Nat) : ((layer (DependsOn ss) l).map fun j => (ss.get j).id).contains
      (ss.get i).id = true ↔ Longest (DependsOn ss) i l := by
    rw [List.contains_iff_mem, List.mem_map]
    constructor
    · rintro ⟨j, member, same⟩
      exact id_injective distinct same ▸ mem_layer_iff.mp member
    · exact fun longest => ⟨i, mem_layer_iff.mpr longest, rfl⟩
  rw [Order.waveOf, List.findIdx?_eq_some_iff_getElem, inWave_layers_iff, named]
  simp only [List.map_map, List.getElem_map, List.getElem_range, Function.comp_apply, contains,
    List.length_map, List.length_range]
  constructor
  · rintro ⟨less, longest, _⟩
    exact ⟨less, longest⟩
  · rintro ⟨less, longest⟩
    refine ⟨less, longest, fun l before other => ?_⟩
    have := longest.unique other
    omega

/-- An order of stacks is a layering of their positions, by their ids. It names every id of the
input once for every stack that has it, and knows no other; where ids are distinct it finds the
wave of each. -/
theorem order_layering {o : Order} (ordered : order ss = .ok o) :
    ∃ waves : List (List (Fin ss.length)), o.waves = waves.map (·.map fun i => (ss.get i).id) ∧
      Layering ss waves ∧ o.stackIds.Perm (ss.map (·.id)) ∧
      (∀ id, o.waveOf id = none ↔ ¬ Known ss id) ∧
      ((ss.map (·.id)).Nodup → ∀ i k, o.waveOf (ss.get i).id = some k ↔ InWave waves k i) := by
  obtain ⟨closed, count, named, short, inhabited⟩ := order_eq_ok ordered
  have layering := layering_layers closed short inhabited
  refine ⟨_, named, layering, ?_, fun _ => waveOf_eq_none_iff named layering.whole,
    fun distinct _ _ => waveOf_eq_some_iff named distinct⟩
  have ids : ss.map (·.id) = (List.finRange ss.length).map fun i => (ss.get i).id := by
    apply List.ext_getElem <;> simp
  rw [Order.stackIds, named, ids, ← List.map_flatten]
  exact layering.whole.map _

/-- Two stacks share an id, and a dependency is listed twice. -/
theorem order_layering_repeated_id :
    let ss := [.depending "app" ["db", "db", "net"], .depending "db" ["net"],
      .depending "net" [], .depending "net" ["app"]]
    let o : Order := ⟨[["net"], ["db"], ["app"], ["net"]]⟩
    order ss = .ok o ∧
      ∃ waves : List (List (Fin ss.length)), o.waves = waves.map (·.map fun i => (ss.get i).id) ∧
        Layering ss waves ∧ o.stackIds.Perm (ss.map (·.id)) ∧
        (∀ id, o.waveOf id = none ↔ ¬ Known ss id) ∧
        ((ss.map (·.id)).Nodup → ∀ i k, o.waveOf (ss.get i).id = some k ↔ InWave waves k i) :=
  ⟨by decide +kernel, order_layering (by decide +kernel)⟩

end Estate.Deployment
