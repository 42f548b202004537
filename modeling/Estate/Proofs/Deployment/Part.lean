import Estate.Proofs.Deployment.Naming

/-! Parts of a list of stacks that have all that they depend on. Paths of dependencies never leave
such a part, so that it is ordered as it is within the whole: every wave is the wave of the whole
without the stacks outside, and what the whole has later is outside altogether. -/
namespace Estate.Deployment

open scoped Classical

variable {ss part : List Stack} {id other : String} {length count : Nat}

/-- Some of the stacks, in the same order, and with them all stacks that they depend on. -/
structure PartOf (part ss : List Stack) : Prop where
  sublist : part.Sublist ss
  whole : ∀ s ∈ part, ∀ t ∈ ss, t.id ∈ s.dependsOn → t ∈ part

/-- The ids of a wave that are ids of some of the stacks, in their order. -/
def restrict (part : List Stack) (wave : List String) : List String :=
  wave.filter fun id => id ∈ part.map (·.id)

/-- The ids of the stacks whose longest path of dependencies has a length, in order. -/
noncomputable def level (ss : List Stack) (length : Nat) : List String :=
  (ss.filter fun s => Longest (Names ss) s.id length).map (·.id)

/-- Positions chosen by their stacks are the stacks chosen. -/
theorem map_get_filter_finRange {choose : Stack → Bool} :
    ((List.finRange ss.length).filter fun i => choose (ss.get i)).map (fun i => (ss.get i).id) =
      (ss.filter choose).map (·.id) := by
  have chosen : ((List.finRange ss.length).filter (choose ∘ ss.get)).map ss.get =
      ss.filter choose := by
    rw [← List.filter_map, List.map_get_finRange]
  rw [← chosen, List.map_map]
  rfl

theorem map_layer_eq_level (distinct : (ss.map (·.id)).Nodup) (closed : Closed ss) (length : Nat) :
    ((layer (DependsOn ss) length).map fun i => (ss.get i).id) = level ss length := by
  have told : layer (DependsOn ss) length = (List.finRange ss.length).filter fun i =>
      Longest (Names ss) (ss.get i).id length :=
    List.filter_congr fun i _ => by rw [longest_dependsOn_iff distinct closed]
  rw [told, level, ← map_get_filter_finRange]

/-- An order has a wave for every length of longest paths. -/
theorem waves_eq_levels {o : Order} (distinct : (ss.map (·.id)).Nodup)
    (ordered : order ss = .ok o) :
    ∃ count, o.waves = (List.range count).map (level ss) ∧
      (∀ id, Known ss id → ¬ Path (Names ss) id count) ∧ ∀ wave ∈ o.waves, wave ≠ [] := by
  obtain ⟨closed, count, waves, short, inhabited⟩ := order_eq_ok ordered
  have levels : o.waves = (List.range count).map (level ss) := by
    rw [waves, List.map_map]
    exact List.map_congr_left fun length _ => map_layer_eq_level distinct closed length
  refine ⟨count, levels, ?_, ?_⟩
  · intro id known path
    obtain ⟨i, first⟩ := known.exists_firstAt
    rw [← first.1] at path
    exact short i ((path_dependsOn_iff distinct closed).mpr path)
  · rw [waves]
    intro wave member
    obtain ⟨positions, inside, rfl⟩ := List.mem_map.mp member
    simpa using inhabited positions inside

theorem mem_level_iff : id ∈ level ss length ↔ Known ss id ∧ Longest (Names ss) id length := by
  simp only [level, Known, List.mem_map, List.mem_filter, decide_eq_true_eq]
  constructor
  · rintro ⟨s, ⟨member, longest⟩, rfl⟩
    exact ⟨⟨s, member, rfl⟩, longest⟩
  · rintro ⟨⟨s, member, rfl⟩, longest⟩
    exact ⟨s, ⟨member, longest⟩, rfl⟩

/-- What has some of the ids of distinct stacks, in their order, is chosen by these ids. -/
theorem filter_eq_of_sublist (distinct : (ss.map (·.id)).Nodup) (sublist : part.Sublist ss) :
    (ss.filter fun s => s.id ∈ part.map (·.id)) = part := by
  induction sublist with
  | slnil => rfl
  | @cons part ss s sublist ih =>
    obtain ⟨fresh, distinct⟩ := List.nodup_cons.mp distinct
    have outside : s.id ∉ part.map (·.id) := fun member => fresh ((sublist.map _).subset member)
    rw [List.filter_cons_of_neg (by simpa using outside), ih distinct]
  | @cons_cons part ss s sublist ih =>
    obtain ⟨fresh, distinct⟩ := List.nodup_cons.mp distinct
    rw [List.filter_cons_of_pos (by simp)]
    congr 1
    refine Eq.trans (List.filter_congr fun t member => ?_) (ih distinct)
    have apart : t.id ≠ s.id := fun same => fresh (List.mem_map.mpr ⟨t, member, same⟩)
    simp [apart]

namespace PartOf

variable (inside : PartOf part ss)
include inside

theorem known (known : Known part id) : Known ss id := (inside.sublist.map _).subset known

theorem distinct (distinct : (ss.map (·.id)).Nodup) : (part.map (·.id)).Nodup :=
  (inside.sublist.map _).nodup distinct

theorem closed (closed : Closed ss) : Closed part := by
  intro s member d listed
  obtain ⟨t, held, rfl⟩ := List.mem_map.mp (closed s (inside.sublist.subset member) d listed)
  exact List.mem_map_of_mem (inside.whole s member t held listed)

section Distinct

variable (distinct : (ss.map (·.id)).Nodup) (closed : Closed ss)
include distinct closed

omit closed in
/-- A member lists the same ids in the whole. -/
theorem names_iff (known : Known part id) : Names part id other ↔ Names ss id other := by
  constructor
  · rintro ⟨s, member, same, listed⟩
    exact ⟨s, inside.sublist.subset member, same, listed⟩
  · rintro ⟨s, member, rfl, listed⟩
    obtain ⟨t, held, same⟩ := List.mem_map.mp known
    obtain rfl := List.inj_on_of_nodup_map distinct (inside.sublist.subset held) member same
    exact ⟨t, held, rfl, listed⟩

/-- Paths that start at a member do not leave the part. -/
theorem path_iff (known : Known part id) :
    Path (Names part) id length ↔ Path (Names ss) id length := by
  induction length generalizing id with
  | zero => exact ⟨fun _ => .stop, fun _ => .stop⟩
  | succ length ih =>
    rw [path_succ_iff, path_succ_iff]
    refine exists_congr fun other => ?_
    rw [inside.names_iff distinct known]
    refine and_congr_right fun names => ih ?_
    exact closed_iff_names.mp (inside.closed closed) id other
      ((inside.names_iff distinct known).mpr names)

theorem longest_iff (known : Known part id) :
    Longest (Names part) id length ↔ Longest (Names ss) id length := by
  rw [Longest, Longest, inside.path_iff distinct closed known,
    inside.path_iff distinct closed known]

/-- A level of the whole has, of the members, those that are on that level by themselves. -/
theorem restrict_level (length : Nat) : restrict part (level ss length) = level part length := by
  have members : (level ss length).filter (fun id => id ∈ part.map (·.id)) =
      (((ss.filter fun s => s.id ∈ part.map (·.id)).filter fun s =>
        Longest (Names ss) s.id length)).map (·.id) := by
    rw [level, List.filter_map, List.filter_filter, List.filter_filter]
    simp only [Function.comp_def, Bool.and_comm]
  rw [restrict, members, filter_eq_of_sublist distinct inside.sublist, level]
  congr 1
  refine List.filter_congr fun s member => ?_
  rw [inside.longest_iff distinct closed (List.mem_map_of_mem member)]

omit closed in
/-- What is ordered has no part that is not. -/
theorem exists_order_eq_ok {o : Order} (ordered : order ss = .ok o) :
    ∃ o', order part = .ok o' := by
  obtain ⟨closed, _⟩ := order_eq_ok ordered
  obtain done | ⟨ids, cyclic⟩ := order_of_closed (inside.closed closed)
  · exact done
  · exfalso
    obtain ⟨closed', _, some⟩ := order_eq_cycle cyclic
    obtain ⟨i, stuck⟩ := List.exists_mem_of_ne_nil _ some
    have reaches : ReachesCycle (DependsOn part) i := by simpa [entangled] using stuck
    obtain ⟨count, _, short, _⟩ := waves_eq_levels distinct ordered
    have path := (path_dependsOn_iff (inside.distinct distinct) closed').mp (reaches.endless count)
    exact short _ (inside.known (known_get i))
      ((inside.path_iff distinct closed (known_get i)).mp path)

end Distinct

end PartOf

/-- Levels from one on which no path is so long are empty. -/
theorem level_eq_nil (short : ∀ id, Known ss id → ¬ Path (Names ss) id count)
    (above : count ≤ length) : level ss length = [] := by
  refine List.eq_nil_iff_forall_not_mem.mpr fun id member => ?_
  obtain ⟨known, longest⟩ := mem_level_iff.mp member
  exact short id known (longest.1.of_le above)

/-- The waves of the part, and after them only waves that it has no part in, are those of the
whole without the stacks outside. -/
theorem PartOf.map_restrict_waves {o o' : Order} (inside : PartOf part ss)
    (distinct : (ss.map (·.id)).Nodup) (ordered : order ss = .ok o)
    (ordered' : order part = .ok o') :
    o.waves.map (restrict part) = o'.waves ++ List.replicate (o.size - o'.size) [] := by
  obtain ⟨closed, _⟩ := order_eq_ok ordered
  obtain ⟨count, waves, short, _⟩ := waves_eq_levels distinct ordered
  obtain ⟨count', waves', short', inhabited'⟩ :=
    waves_eq_levels (inside.distinct distinct) ordered'
  have fewer : count' ≤ count := by
    by_contra more
    have wave : level part count ≠ [] := by
      refine inhabited' _ ?_
      rw [waves']
      exact List.mem_map_of_mem (List.mem_range.mpr (by omega))
    obtain ⟨id, member⟩ := List.exists_mem_of_ne_nil _ wave
    obtain ⟨known, longest⟩ := mem_level_iff.mp member
    exact short id (inside.known known) ((inside.path_iff distinct closed known).mp longest.1)
  have size : o.size = count' + (count - count') := by
    rw [Order.size, waves, List.length_map, List.length_range]
    omega
  have size' : o'.size = count' := by rw [Order.size, waves', List.length_map, List.length_range]
  have levels : o.waves.map (restrict part) = (List.range o.size).map (level part) := by
    rw [Order.size, waves, List.map_map, List.length_map, List.length_range]
    exact List.map_congr_left fun length _ => inside.restrict_level distinct closed length
  rw [levels, size, size', List.range_add, List.map_append, waves', List.map_map,
    Nat.add_sub_cancel_left]
  congr 1
  refine List.eq_replicate_iff.mpr ⟨by simp, fun wave member => ?_⟩
  obtain ⟨extra, _, rfl⟩ := List.mem_map.mp member
  exact level_eq_nil short' (Nat.le_add_right ..)

theorem findIdx?_restrict {o : Order} (known : Known part id) :
    (o.waves.map (restrict part)).findIdx? (·.contains id) = o.waveOf id := by
  rw [List.findIdx?_map, Order.waveOf]
  congr 1
  funext wave
  have listed : id ∈ part.map (·.id) := known
  have kept : id ∈ restrict part wave ↔ id ∈ wave := by
    rw [restrict, List.mem_filter]
    exact and_iff_left (decide_eq_true listed)
  simp [Function.comp_apply, kept]

/-- Of stacks with distinct ids that can be ordered, some of them with all that they depend on can
be ordered too: their waves are the waves of all of them without the others, of which only the
last ones can become empty, so that every stack is in the wave in which it is among all. -/
theorem order_part {o : Order} (distinct : (ss.map (·.id)).Nodup) (ordered : order ss = .ok o)
    (inside : PartOf part ss) :
    ∃ o', order part = .ok o' ∧
      o'.waves = (o.waves.map (restrict part)).filter (· ≠ []) ∧
      o.waves.map (restrict part) = o'.waves ++ List.replicate (o.size - o'.size) [] ∧
      ∀ id, Known part id → o'.waveOf id = o.waveOf id := by
  obtain ⟨o', ordered'⟩ := inside.exists_order_eq_ok distinct ordered
  obtain ⟨_, _, _, inhabited'⟩ := waves_eq_levels (inside.distinct distinct) ordered'
  have restricted := inside.map_restrict_waves distinct ordered ordered'
  refine ⟨o', ordered', ?_, restricted, fun id known => ?_⟩
  · rw [restricted, List.filter_append, List.filter_eq_self.mpr (by simpa using inhabited'),
      List.filter_replicate]
    simp
  · rw [← findIdx?_restrict (o := o) known, restricted, List.findIdx?_append, Order.waveOf]
    simp [List.findIdx?_replicate]

/-- Two of the stacks are left out, and the waves in which they would be alone. -/
theorem order_part_two_waves :
    let ss := [.depending "job" ["app"], .depending "net" [], .depending "app" ["db", "net"],
      .depending "db" ["net"], .depending "log" []]
    let part := [.depending "net" [], .depending "db" ["net"], .depending "log" []]
    let o : Order := ⟨[["net", "log"], ["db"], ["app"], ["job"]]⟩
    (ss.map (·.id)).Nodup ∧ order ss = .ok o ∧ PartOf part ss ∧
      ∃ o', order part = .ok o' ∧
        o'.waves = (o.waves.map (restrict part)).filter (· ≠ []) ∧
        o.waves.map (restrict part) = o'.waves ++ List.replicate (o.size - o'.size) [] ∧
        ∀ id, Known part id → o'.waveOf id = o.waveOf id := by
  intro ss part o
  have distinct : (ss.map (·.id)).Nodup := by decide
  have ordered : order ss = .ok o := by decide +kernel
  have inside : PartOf part ss := ⟨by decide, by decide⟩
  exact ⟨distinct, ordered, inside, order_part distinct ordered inside⟩

end Estate.Deployment
