import Estate.Proofs.Compartment.Rearrangement

/-! A document saved among compartments. A way up never comes back to where it began, so that what
is above the document is as it was before; the document's way up can be had without saving it. -/
namespace Estate

variable {cs : List Compartment} {c d : Compartment}

/-- The compartments after a document was saved: it takes the place of the one with its id, or
the last place if there is none. -/
def saved (document : Compartment) (cs : List Compartment) : List Compartment :=
  if document.id ∈ cs.map (·.id) then cs.map fun c => if c.id = document.id then document else c
  else cs ++ [document]

theorem mem_saved_self (document : Compartment) (cs : List Compartment) :
    document ∈ saved document cs := by
  unfold saved
  split
  · next known =>
    obtain ⟨c, member, same⟩ := List.mem_map.mp known
    exact List.mem_map.mpr ⟨c, member, if_pos same⟩
  · exact List.mem_append_right _ List.mem_cons_self

theorem mem_of_mem_saved (member : c ∈ saved d cs) : c = d ∨ c ∈ cs := by
  unfold saved at member
  split at member
  · obtain ⟨b, inside, rfl⟩ := List.mem_map.mp member
    by_cases same : b.id = d.id
    · exact .inl (if_pos same)
    · rw [if_neg same]
      exact .inr inside
  · rcases List.mem_append.mp member with inside | last
    · exact .inr inside
    · exact .inl (List.mem_singleton.mp last)

/-- Saving a compartment as it is changes nothing. -/
theorem saved_of_mem (distinct : (cs.map (·.id)).Nodup) (member : d ∈ cs) : saved d cs = cs := by
  have known : d.id ∈ cs.map (·.id) := List.mem_map_of_mem member
  rw [saved, if_pos known]
  refine (List.map_congr_left ?_).trans (List.map_id cs)
  intro c inside
  by_cases same : c.id = d.id
  · rw [if_pos same]
    exact (List.inj_on_of_nodup_map distinct inside member same).symm
  · exact if_neg same

/-- The way up from a document that was saved is its way up among the compartments of before. -/
theorem ascent_of_saved {forest forest' : Forest}
    (saves : forest'.compartments = saved d forest.compartments) :
    Ascent forest.compartments d (forest'.chain d.id) := by
  have inside : d ∈ forest'.compartments := saves ▸ mem_saved_self d _
  have way := Forest.ascent_chain (Forest.get?_eq_some_iff.mpr ⟨inside, rfl⟩)
  have rooted := rooted_of_reachesRoot (forest'.rooted d inside)
  generalize forest'.chain d.id = ways at way
  cases way with
  | top none =>
    cases rooted with
    | root alone => exact .top (by rw [parentIn, alone]; rfl)
    | under above _ => rw [none] at above; contradiction
  | @up _ p above named rest =>
    obtain ⟨member, parent⟩ := parentIn_eq_some named
    have fresh : d ∉ above := (Ascent.up named rest).not_mem_above
    have old : ∀ q ∈ above, q ∈ forest.compartments := by
      intro q onWay
      have held : q ∈ saved d forest.compartments := saves ▸ rest.subset member q onWay
      refine (mem_of_mem_saved held).resolve_left ?_
      rintro rfl
      exact fresh onWay
    have rooted' := rooted_of_reachesRoot (forest'.rooted p member)
    have parentHere : parentIn forest.compartments d = some p := by
      rw [parentIn, parent, Option.bind_some, findCompartment_eq_some_iff forest.distinct]
      exact ⟨old p rest.mem_self, rfl⟩
    exact .up parentHere (rest.within rooted' forest.distinct old)

end Estate
