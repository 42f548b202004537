import Mathlib.Data.List.DropRight
import Estate.Proofs.Storage.Reading
import Estate.Proofs.Storage.Tree

/-! What making directories does to a volume. If a path is there, nothing changes; otherwise the
directory that it leads to in the end is new and empty, unless the path goes back up behind a name
that was missing. -/
namespace Estate.Storage
open Estate.Path (isStep steps along)

variable {α β : Type}

/-- The volume that a program leaves when it works on a volume. -/
def Volume.after (v : Volume) (program : StateM Volume α) : Volume := (program.run v).2

namespace Volume

variable {v w : Volume} {here location : Location} {path name last : String}
  {first blank : List String}

/-- A directory is put where the last step of a path led to nothing. -/
structure Adds (v w : Volume) (path : String) (first : List String) (last : String)
    (here : Location) : Prop where
  ends : steps path = first ++ [last]
  reached : v.follow (v.start path) first = .ok here
  lacks : v.Lacks here last
  result : w = v.put (here ++ [last]) .directory
  found : w.locate? path = some (here ++ [last])

/-- A path leads to the directory that is put where its last step led to nothing. -/
theorem locate?_put (proper : isPath path = true)
    (parted : Path.names path = first ++ [last] ++ blank) (empty : ∀ name ∈ blank, name = "")
    (reached : v.follow (v.start path) first = .ok here) (lacks : v.Lacks here last) :
    (v.put (here ++ [last]) .directory).locate? path = some (here ++ [last]) := by
  have grows : v.Grows (v.put (here ++ [last]) .directory) := .put lacks.free
  have made : (v.put (here ++ [last]) .directory).isDirectory (here ++ [last]) = true := by
    simp [isDirectory, entry?_put]
  refine locate?_eq_some_iff.mpr ⟨proper, ?_⟩
  rw [grows.start, parted, follow_append, follow_concat, grows.follow reached]
  have below : (v.put (here ++ [last]) .directory).descend here last = .ok (here ++ [last]) :=
    (descend_eq_ok_iff lacks.step lacks.onward).mpr
      ⟨grows.isDirectory _ lacks.directory, lacks.short, by simp [entry?_put], rfl⟩
  exact (congrArg (· >>= _) below).trans (follow_blank made empty)

/-- What making a directory does: it leaves the volume as it is, or finds something missing on the
way, or puts a directory where the last step of the path leads to nothing. -/
theorem makeDirectory_cases (v : Volume) (named : path ≠ "") :
    (v.makeDirectory path = (.present, v) ∨ v.makeDirectory path = (.refused, v)) ∨
    (v.makeDirectory path = (.missing, v) ∧
      v.follow (v.start path) (steps path) = .error .missing) ∨
    ∃ w first last there, v.makeDirectory path = (.made, w) ∧ v.Adds w path first last there := by
  -- Empty names at the end are no steps, and do not lead away from a directory.
  let counted := (Path.names path).rdropWhile (· = "")
  have parted : Path.names path = counted ++ (Path.names path).rtakeWhile (· = "") :=
    List.rdropWhile_append_rtakeWhile.symm
  have blank : ∀ name ∈ (Path.names path).rtakeWhile (· = ""), name = "" := fun name member => by
    simpa using List.mem_rtakeWhile_imp member
  have counts : steps path = counted.filter isStep := by
    rw [steps, parted, List.filter_append, filter_blank blank, List.append_nil]
  have same : ((Path.names path).reverse.dropWhile (· = "")).reverse = counted := rfl
  unfold makeDirectory
  rw [if_neg named]
  simp only [same]
  cases proper : isPath path with
  | false => exact .inl (.inr rfl)
  | true =>
    rcases List.eq_nil_or_concat counted with none | ⟨first, last, ends⟩
    · rw [none]
      exact .inl (.inl rfl)
    · rw [List.concat_eq_append] at ends
      rw [ends] at parted counts
      rw [ends, List.dropLast_concat, List.getLast?_concat]
      have missing (obstructed : v.follow (v.start path) (first ++ [last]) = .error .missing) :
          v.follow (v.start path) (steps path) = .error .missing :=
        counts ▸ follow_steps obstructed (by simp)
      rw [follow_concat] at missing
      cases reached : v.follow (v.start path) first with
      | error obstacle =>
        cases obstacle with
        | refused => exact .inl (.inr rfl)
        | missing => exact .inr (.inl ⟨rfl, missing (by rw [reached]; rfl)⟩)
      | ok there =>
        cases below : v.descend there last with
        | ok location => exact .inl (.inl (by simp [below]))
        | error obstacle =>
          cases obstacle with
          | refused => exact .inl (.inr (by simp [below]))
          | missing =>
            have lacks := descend_eq_missing_iff.mp below
            have ends : steps path = first.filter isStep ++ [last] := by
              rw [counts, List.filter_append, List.filter_singleton, lacks.step]
              rfl
            exact .inr (.inr ⟨_, _, last, there, by simp [below], ends,
              follow_steps reached (by simp), lacks, rfl,
              locate?_put proper parted blank reached lacks⟩)

theorem of_makeDirectory_missing (named : path ≠ "")
    (passed : (v.makeDirectory path).1 = .missing) : v.makeDirectory path = (.missing, v) ∧
      v.follow (v.start path) (steps path) = .error .missing := by
  rcases v.makeDirectory_cases named with (made | made) | missing | ⟨_, _, _, _, made, _⟩
  · cases passed.symm.trans (congrArg Prod.fst made)
  · cases passed.symm.trans (congrArg Prod.fst made)
  · exact missing
  · cases passed.symm.trans (congrArg Prod.fst made)

/-- The second volume is the first one with directories made at a location and on the way there. -/
structure Founds (v w : Volume) (location : Location) : Prop where
  home : w.home = v.home
  kept (other : Location) : (v.entry? other).isSome → w.entry? other = v.entry? other
  fresh : v.entry? location = none
  made (other : Location) : v.entry? other = none → (w.entry? other).isSome → other <+: location

/-- A new directory is empty. -/
theorem Founds.entry?_below (founds : v.Founds w location) (tree : v.IsTree) (name : String) :
    w.entry? (location ++ [name]) = none := by
  by_contra there
  have absent : v.entry? (location ++ [name]) = none :=
    tree.entry?_below (by simp [isDirectory, founds.fresh])
  have above := founds.made _ absent (Option.isSome_iff_ne_none.mpr there)
  exact absurd above.length_le (by simp)

theorem founds_put (absent : v.entry? (here ++ [name]) = none) :
    v.Founds (v.put (here ++ [name]) .directory) (here ++ [name]) where
  home := rfl
  kept other there := by
    rw [entry?_put, if_neg fun same => ?_]
    simp [same, absent] at there
  fresh := absent
  made other none there := by
    rw [entry?_put] at there
    split at there
    · next same => exact same ▸ List.prefix_rfl
    · simp [none] at there

theorem Founds.put (founds : v.Founds w location) (tree : v.IsTree) :
    v.Founds (w.put (location ++ [name]) .directory) (location ++ [name]) where
  home := founds.home
  kept other there := by
    rw [(founds_put (founds.entry?_below tree name)).kept other (founds.kept other there ▸ there)]
    exact founds.kept other there
  fresh := tree.entry?_below (by simp [isDirectory, founds.fresh])
  made other absent there := by
    rw [entry?_put] at there
    split at there
    · next same => exact same ▸ List.prefix_rfl
    · exact (founds.made other absent there).trans (List.prefix_append _ _)

end Volume

section Running

variable {u v w : Volume} {location : Location} {path parent last : String}
  {first higher : List String}

theorem answer_bind_after (first : StateM Volume α) (next : α → StateM Volume β) :
    v.answer (first >>= next) = (v.after first).answer (next (v.answer first)) := rfl

theorem after_bind (first : StateM Volume α) (next : α → StateM Volume β) :
    v.after (first >>= next) = (v.after first).after (next (v.answer first)) := rfl

section Steps

variable {m : Type → Type} [Monad m] [Files m]

/-- Whether there is a directory in the end, by what came of making it. -/
def isSettled (path : String) : Making → m Bool
  | .made => return true
  | .present => return (← Files.kind? path) == some .directory
  | _ => return false

/-- Makes one directory, and says whether it is there. -/
def mkdir (path : String) : m Bool := Files.makeDirectory path >>= isSettled path

-- The recursion is over the paths above, behind a step that does not look at them, so that it has
-- to be opened before the steps can be compared.
theorem ensureDirectory_nil : (ensureDirectory path [] : m Bool) = mkdir path := by
  delta ensureDirectory
  exact congrArg (bind (Files.makeDirectory path)) (funext fun making => by cases making <;> rfl)

theorem ensureDirectory_cons : (ensureDirectory path (parent :: higher) : m Bool) =
    Files.makeDirectory path >>= fun making =>
      if making = .missing then ensureDirectory parent higher >>= fun ensured =>
        if ensured then mkdir path else return false
      else isSettled path making := by
  delta ensureDirectory
  exact congrArg (bind (Files.makeDirectory path)) (funext fun making => by cases making <;> rfl)

end Steps

/-- There is a directory at a path already, and nothing changes. -/
structure Finds (v w : Volume) (path : String) : Prop where
  same : w = v
  there : v.find? path = some .directory

/-- A path that led to nothing leads to a new directory. -/
structure Opens (v w : Volume) (path : String) (location : Location) : Prop where
  missing : v.follow (v.start path) (steps path) = .error .missing
  founds : v.Founds w location
  tree : w.IsTree
  reached : w.locate? path = some location
  isDirectory : w.isDirectory location = true

/-- The path does not go back up from where nothing is yet. -/
def Volume.LeadsOnward (v : Volume) (path : String) : Prop :=
  ∃ first rest there, steps path = first ++ rest ∧ v.follow (v.start path) first = .ok there ∧
    ".." ∉ rest

theorem answer_mkdir : v.answer (mkdir path) =
    (v.makeDirectory path).2.answer (isSettled path (v.makeDirectory path).1) := rfl

theorem after_mkdir : v.after (mkdir path) =
    (v.makeDirectory path).2.after (isSettled path (v.makeDirectory path).1) := rfl

theorem mkdir_cases (settled : v.answer (mkdir path) = true) :
    Finds v (v.after (mkdir path)) path ∨
      ∃ first last here, v.Adds (v.after (mkdir path)) path first last here := by
  have named : path ≠ "" := by
    rintro rfl
    cases settled
  rcases v.makeDirectory_cases named with
    (made | made) | ⟨made, _⟩ | ⟨w, first, last, here, made, adds⟩
  · rw [answer_mkdir, made] at settled
    rw [after_mkdir, made]
    have directory : (v.find? path).map Entry.kind = some .directory := eq_of_beq settled
    refine .inl ⟨rfl, ?_⟩
    obtain ⟨entry, there, kind⟩ := Option.map_eq_some_iff.mp directory
    cases entry with
    | file content => cases kind
    | directory => exact there
  · rw [answer_mkdir, made] at settled
    cases settled
  · rw [answer_mkdir, made] at settled
    cases settled
  · rw [after_mkdir, made]
    exact .inr ⟨first, last, here, adds⟩

/-- A path that led to nothing leads to the directory that was added to a volume, in which those
above it may be new as well. -/
theorem Volume.Adds.opens (adds : u.Adds w path first last location) (kept : u.IsTree)
    (missing : v.follow (v.start path) (steps path) = .error .missing)
    (founds : v.Founds (u.put (location ++ [last]) .directory) (location ++ [last])) :
    Opens v w path (location ++ [last]) where
  missing := missing
  founds := adds.result ▸ founds
  tree := adds.result ▸ kept.put adds.lacks.directory adds.lacks.free
  reached := adds.found
  isDirectory := by simp [adds.result, Volume.isDirectory, Volume.entry?_put]

theorem mkdir_opens (tree : v.IsTree) (settled : v.answer (mkdir path) = true) :
    Finds v (v.after (mkdir path)) path ∨
      ∃ location, Opens v (v.after (mkdir path)) path location := by
  refine (mkdir_cases settled).imp_right ?_
  rintro ⟨first, last, here, adds⟩
  have missing : v.follow (v.start path) (steps path) = .error .missing := by
    rw [adds.ends, Volume.follow_concat, adds.reached]
    exact Volume.descend_eq_missing_iff.mpr adds.lacks
  exact ⟨_, adds.opens tree missing (Volume.founds_put adds.lacks.absent)⟩

/-- Below a directory that is new another one can be made. -/
theorem Opens.mkdir (tree : v.IsTree)
    (missing : v.follow (v.start path) (steps path) = .error .missing)
    (ends : steps path = first ++ [last]) (onward : last ≠ "..")
    (opens : Opens v u (along (Path.isAbsolute path) first) location)
    (settled : u.answer (mkdir path) = true) :
    ∃ location, Opens v (u.after (mkdir path)) path location := by
  have areSteps : Path.AreSteps first := Path.areSteps_of_append ends
  have step : isStep last = true :=
    (Path.areSteps_steps path last (ends ▸ List.mem_append_right _ List.mem_cons_self)).2
  have parent : u.follow (u.start path) first = .ok location := by
    have reached := Volume.follow_steps_of_locate? opens.reached
    rwa [Path.steps_along _ areSteps, Volume.start, Path.isAbsolute_along _ areSteps] at reached
  rcases mkdir_cases settled with finds | ⟨first', last', here, adds⟩
  · -- The directory above is new, so that nothing can be in it already.
    obtain ⟨found, reached, _⟩ := Option.bind_eq_some_iff.mp finds.there
    have leads := Volume.follow_steps_of_locate? reached
    rw [ends, Volume.follow_concat, parent] at leads
    obtain ⟨_, _, there, rfl⟩ := (Volume.descend_eq_ok_iff step onward).mp leads
    rw [opens.founds.entry?_below tree] at there
    cases there
  · obtain ⟨rfl, same⟩ := List.append_inj' (adds.ends.symm.trans ends) rfl
    obtain rfl := List.singleton_inj.mp same
    obtain rfl : location = here := Except.ok.inj (parent.symm.trans adds.reached)
    exact ⟨_, adds.opens opens.tree missing (opens.founds.put tree)⟩

/-- If nothing is missing on the way, the directory is made at once. -/
theorem ensureDirectory_at_once (passed : (v.makeDirectory path).1 ≠ .missing) :
    v.answer (ensureDirectory path (parent :: higher)) = v.answer (mkdir path) ∧
      v.after (ensureDirectory path (parent :: higher)) = v.after (mkdir path) := by
  have made : v.answer (Files.makeDirectory path) = (v.makeDirectory path).1 := rfl
  rw [ensureDirectory_cons, answer_bind_after, after_bind, made, if_neg passed]
  exact ⟨rfl, rfl⟩

/-- Otherwise it is made after those above it. -/
theorem ensureDirectory_above (missing : v.makeDirectory path = (.missing, v))
    (ensured : v.answer (ensureDirectory path (parent :: higher)) = true) :
    v.answer (ensureDirectory parent higher) = true ∧
      (v.after (ensureDirectory parent higher)).answer (mkdir path) = true ∧
      v.after (ensureDirectory path (parent :: higher)) =
        (v.after (ensureDirectory parent higher)).after (mkdir path) := by
  have made : v.answer (Files.makeDirectory path) = .missing := congrArg Prod.fst missing
  have left : v.after (Files.makeDirectory path) = v := congrArg Prod.snd missing
  rw [ensureDirectory_cons, answer_bind_after, made, left, if_pos rfl, answer_bind_after] at ensured
  rw [ensureDirectory_cons, after_bind, made, left, if_pos rfl, after_bind]
  cases first : v.answer (ensureDirectory parent higher) with
  | false =>
    rw [first] at ensured
    cases ensured
  | true =>
    rw [first, if_pos rfl] at ensured
    exact ⟨rfl, ensured, by rw [if_pos rfl]⟩

/-- The parent of a path that leads to nothing goes on in the same way. -/
theorem Volume.LeadsOnward.above (onward : v.LeadsOnward path)
    (missing : v.follow (v.start path) (steps path) = .error .missing)
    (ends : steps path = first ++ [last]) :
    last ≠ ".." ∧ v.LeadsOnward (along (Path.isAbsolute path) first) := by
  obtain ⟨front, rest, there, parted, reached, forward⟩ := onward
  rcases List.eq_nil_or_concat rest with rfl | ⟨rest, last', rfl⟩
  · rw [parted, List.append_nil, reached] at missing
    cases missing
  · rw [List.concat_eq_append] at parted forward
    rw [ends, ← List.append_assoc] at parted
    obtain ⟨rfl, same⟩ := List.append_inj' parted rfl
    obtain rfl := List.singleton_inj.mp same
    have areSteps : Path.AreSteps (front ++ rest) := Path.areSteps_of_append ends
    refine ⟨fun up => forward (up ▸ List.mem_append_right _ List.mem_cons_self), front, rest, there,
      Path.steps_along _ areSteps, ?_, fun up => forward (List.mem_append_left _ up)⟩
    rw [Volume.start, Path.isAbsolute_along _ areSteps]
    exact reached

/-- A directory is there in the end if it was there before, or else it is new: the path leads on
from where it first led to nothing, and all that was made is on that way. -/
theorem ensureDirectory_cases (tree : v.IsTree) (onward : v.LeadsOnward path)
    (ensured : v.answer (ensureDirectory path (Path.above path)) = true) :
    Finds v (v.after (ensureDirectory path (Path.above path))) path ∨
    ∃ location, Opens v (v.after (ensureDirectory path (Path.above path))) path location := by
  induction ends : steps path using List.reverseRecOn generalizing path with
  | nil =>
    rw [Path.above_of_steps_nil ends, ensureDirectory_nil] at ensured ⊢
    exact mkdir_opens tree ensured
  | append_singleton first last ih =>
    have named : path ≠ "" := by
      rintro rfl
      exact List.append_ne_nil_of_right_ne_nil first (List.cons_ne_nil last []) ends.symm
    rw [Path.above_of_steps ends] at ensured ⊢
    by_cases passed : (v.makeDirectory path).1 = .missing
    · obtain ⟨made, missing⟩ := Volume.of_makeDirectory_missing named passed
      obtain ⟨forward, above⟩ := Volume.LeadsOnward.above onward missing ends
      obtain ⟨topped, settled, after⟩ := ensureDirectory_above made ensured
      rw [after]
      rcases ih above topped (Path.steps_along _ (Path.areSteps_of_append ends)) with
        finds | ⟨location, opens⟩
      · -- Nothing has changed, so that it cannot be made now either.
        rw [finds.same, answer_mkdir, made] at settled
        cases settled
      · exact .inr (opens.mkdir tree missing ends forward settled)
    · obtain ⟨answered, after⟩ := ensureDirectory_at_once (v := v) passed
      rw [answered] at ensured
      rw [after]
      exact mkdir_opens tree ensured

end Running

end Estate.Storage
