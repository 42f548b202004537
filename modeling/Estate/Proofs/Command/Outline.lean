import Mathlib.Data.List.Forall2
import Estate.Proofs.Command.Session
import Estate.Proofs.Compartment.Preorder

/-! The hierarchy of a topology as it is shown. Both the document and the lines follow the branches
in preorder, so both show every compartment once, at its depth and below its parent. -/
namespace Estate.Command
open Document Storage Project

/-- An object in a document of compartments: the id in it, how many objects are around it, and the
id in the innermost of those. -/
structure Heading where
  id : Option String
  level : Nat
  above : Option String
deriving DecidableEq

/-- The id that an object has. -/
def idIn (entries : List (Node × Node)) : Option String :=
  (entries.find? fun e => e.1 = .text "id").bind (·.2.text?)

mutual

/-- The objects of a document in preorder, where those inside an object are its children. -/
def outline (level : Nat) (above : Option String) : Node → List Heading
  | .object entries =>
    ⟨idIn entries, level, above⟩ :: outlineWithin (level + 1) (idIn entries) entries
  | _ => []
termination_by structural n => n

/-- The objects among the children that an object has. -/
def outlineWithin (level : Nat) (above : Option String) : List (Node × Node) → List Heading
  | [] => []
  | (.text key, .list items) :: rest =>
    if key = "children" then outlines level above items else outlineWithin level above rest
  | _ :: rest => outlineWithin level above rest
termination_by structural es => es

/-- The objects of documents that stand beside each other. -/
def outlines (level : Nat) (above : Option String) : List Node → List Heading
  | [] => []
  | n :: ns => outline level above n ++ outlines level above ns
termination_by structural ns => ns

end

/-- What a document says of a compartment and its place. -/
def heading (spot : Spot) : Heading :=
  ⟨some spot.compartment.id, spot.level, spot.above.map (·.id)⟩

theorem outlines_eq_flatMap (level : Nat) (above : Option String) (nodes : List Node) :
    outlines level above nodes = nodes.flatMap (outline level above) := by
  induction nodes with
  | nil => rfl
  | cons node rest ih => rw [outlines, ih, List.flatMap_cons]

variable {f : Forest} {c : Compartment} {t : Topology}

theorem treeNode_eq (f : Forest) (c : Compartment) : treeNode f c = .record
    [("id", .text c.id), ("label", .text c.label), ("policies", countNode c.policies.length),
     ("suppressed", countNode c.suppressed.size),
     ("children", .list ((f.children c.id).map (treeNode f)))] := by
  rw [treeNode, List.map_subtype fun _ _ => rfl, List.unattach_attach]

/-- The object of a compartment has its id, and in it are the objects of its children. -/
theorem outline_treeNode_eq (f : Forest) (level : Nat) (above : Option String) (c : Compartment) :
    outline level above (treeNode f c) =
      ⟨some c.id, level, above⟩ ::
        ((f.children c.id).map (treeNode f)).flatMap (outline (level + 1) (some c.id)) := by
  rw [treeNode_eq, ← outlines_eq_flatMap]
  rfl

theorem outline_treeNode (f : Forest) (level : Nat) (above : Option Compartment)
    (c : Compartment) :
    outline level (above.map (·.id)) (treeNode f c) = (f.preorder level above c).map heading := by
  induction c using f.wellFounded_below.induction generalizing level above with
  | _ c ih =>
    rw [outline_treeNode_eq, Forest.preorder_eq, List.map_cons, List.map_flatMap,
      List.flatMap_map]
    congr 1
    exact List.flatMap_congr fun child below => ih child below (level + 1) (some c)

/-- The documents of the roots have all compartments in preorder. -/
theorem outlines_treeNode (f : Forest) :
    outlines 0 none (f.roots.map (treeNode f)) = f.spots.map heading := by
  rw [outlines_eq_flatMap, List.flatMap_map, Forest.spots, List.map_flatMap]
  exact List.flatMap_congr fun root _ => outline_treeNode f 0 none root

/-- The line of a compartment at its place. -/
def spotLine (spot : Spot) : String := compartmentLine spot.level spot.compartment

theorem nodeLines_eq (member : c ∈ f.compartments) (level : Nat) :
    nodeLines f c.id level = compartmentLine level c ::
      (f.children c.id).flatMap fun child => nodeLines f child.id (level + 1) := by
  rw [nodeLines, Forest.get?_of_mem member]
  dsimp only
  rw [List.flatMap_subtype (g := fun child => nodeLines f child.id (level + 1)) fun _ _ => rfl,
    List.unattach_attach]

theorem nodeLines_eq_map_preorder (member : c ∈ f.compartments) (level : Nat)
    (above : Option Compartment) :
    nodeLines f c.id level = (f.preorder level above c).map spotLine := by
  induction c using f.wellFounded_below.induction generalizing level above with
  | _ c ih =>
    rw [nodeLines_eq member, Forest.preorder_eq, List.map_cons, List.map_flatMap]
    congr 1
    exact List.flatMap_congr fun child below =>
      ih child below (Forest.mem_children_iff.mp below).1 (level + 1) (some c)

/-- Two spaces for every level. -/
def indentation (level : Nat) : String := String.ofList (List.replicate (2 * level) ' ')

/-- What a compartment is called: its label, or its id if the label is empty. -/
def shownName (c : Compartment) : String := if c.label = "" then c.id else c.label

/-- How much is attached to a compartment and suppressed in it, if anything is. -/
def noteTexts (c : Compartment) : List String :=
  (if c.policies.isEmpty then [] else [s!"{c.policies.length} policies"])
    ++ if c.suppressed.isEmpty then [] else [s!"{c.suppressed.size} suppressed"]

/-- The end of a line, where the notes stand in parentheses. -/
def noteSuffix (c : Compartment) : String :=
  if (noteTexts c).isEmpty then "" else "  (" ++ ", ".intercalate (noteTexts c) ++ ")"

theorem compartmentLine_eq (level : Nat) (c : Compartment) :
    compartmentLine level c =
      indentation level ++ (shownName c ++ " [" ++ c.id ++ "]") ++ noteSuffix c := rfl

theorem noteSuffix_cases (c : Compartment) :
    noteSuffix c = "" ∨ ∃ notes, noteSuffix c = "  (" ++ notes ++ ")" := by
  unfold noteSuffix
  split
  · exact .inl rfl
  · exact .inr ⟨_, rfl⟩

theorem break_not_mem_toString (n : Nat) : '\n' ∉ (toString n).toList := by
  intro inside
  have digits : (toString n).toList = Nat.toDigits 10 n := String.toList_ofList
  rw [digits] at inside
  exact absurd (Nat.isDigit_of_mem_toDigits (by decide) (by decide) inside) (by decide)

theorem break_not_mem_noteTexts {c : Compartment} {note : String} (member : note ∈ noteTexts c) :
    '\n' ∉ note.toList := by
  have counted (n : Nat) (what : String) (plain : '\n' ∉ what.toList) :
      '\n' ∉ (toString n ++ what).toList := by
    rw [String.toList_append, List.mem_append]
    exact not_or.mpr ⟨break_not_mem_toString n, plain⟩
  rcases List.mem_append.mp member with inside | inside
  · split at inside
    · contradiction
    · obtain rfl := List.mem_singleton.mp inside
      exact counted _ " policies" (by decide)
  · split at inside
    · contradiction
    · obtain rfl := List.mem_singleton.mp inside
      exact counted _ " suppressed" (by decide)

theorem mem_of_mem_intercalate {α : Type} {a : α} {sep : List α} {parts : List (List α)}
    (member : a ∈ sep.intercalate parts) : a ∈ sep ∨ ∃ part ∈ parts, a ∈ part := by
  induction parts with
  | nil => contradiction
  | cons first rest ih =>
    cases rest with
    | nil => exact .inr ⟨first, List.mem_cons_self, by simpa using member⟩
    | cons second rest =>
      rw [List.intercalate_cons_cons, List.mem_append, List.mem_append] at member
      rcases member with (inside | inside) | inside
      · exact .inr ⟨first, List.mem_cons_self, inside⟩
      · exact .inl inside
      · exact (ih inside).imp_right fun ⟨part, listed, inside⟩ =>
          ⟨part, List.mem_cons_of_mem _ listed, inside⟩

theorem break_not_mem_noteSuffix (c : Compartment) : '\n' ∉ (noteSuffix c).toList := by
  unfold noteSuffix
  split
  · exact List.not_mem_nil
  · intro broken
    simp only [String.toList_append, List.mem_append, String.toList_intercalate] at broken
    rcases broken with (outside | inside) | outside
    · exact absurd outside (by decide)
    · rcases mem_of_mem_intercalate inside with comma | ⟨_, listed, inside⟩
      · exact absurd comma (by decide)
      · obtain ⟨note, member, rfl⟩ := List.mem_map.mp listed
        exact break_not_mem_noteTexts member inside
    · exact absurd outside (by decide)

/-- The line is that of a compartment at its level: what it is called and its id, and perhaps more
in parentheses. Only its own label and id can break the line. -/
structure Shows (spot : Spot) (line : String) : Prop where
  text : ∃ notes, (notes = "" ∨ ∃ inner, notes = "  (" ++ inner ++ ")") ∧
    line = indentation spot.level ++
      (shownName spot.compartment ++ " [" ++ spot.compartment.id ++ "]") ++ notes
  unbroken : '\n' ∈ line.toList →
    '\n' ∈ spot.compartment.label.toList ∨ '\n' ∈ spot.compartment.id.toList

theorem shows_spotLine (spot : Spot) : Shows spot (spotLine spot) := by
  rw [spotLine, compartmentLine_eq]
  refine ⟨⟨_, noteSuffix_cases _, rfl⟩, fun broken => ?_⟩
  simp only [String.toList_append, List.mem_append] at broken
  rcases broken with (spaces | ((name | opening) | id) | closing) | notes
  · rw [indentation, String.toList_ofList] at spaces
    exact absurd (List.eq_of_mem_replicate spaces) (by decide)
  · unfold shownName at name
    split at name
    · exact .inr name
    · exact .inl name
  · exact absurd opening (by decide)
  · exact .inr id
  · exact absurd closing (by decide)
  · exact absurd notes (break_not_mem_noteSuffix _)

theorem treeLines_eq_of_nil (empty : t.forest.compartments = []) :
    treeLines t = [s!"Topology '{t.id}' has no compartments."] := by
  rw [treeLines, Forest.size, empty]
  rfl

/-- The lines of the roots have all compartments in preorder. -/
theorem treeLines_eq_of_ne_nil (some : t.forest.compartments ≠ []) :
    treeLines t = t.forest.spots.map spotLine := by
  have sized : t.forest.size ≠ 0 := fun none => some (List.length_eq_zero_iff.mp none)
  rw [treeLines, if_neg sized, Forest.spots, List.map_flatMap]
  refine List.flatMap_congr fun root member => nodeLines_eq_map_preorder ?_ 0 none
  rw [Forest.roots_eq_filter] at member
  exact (List.mem_filter.mp member).1

/-- The number of line breaks. -/
def lineCount (text : String) : Nat := text.toList.count '\n'

theorem lineCount_unlines {lines : List String} (unbroken : ∀ line ∈ lines, '\n' ∉ line.toList) :
    lineCount (unlines lines) = lines.length := by
  induction lines with
  | nil => rfl
  | cons line rest ih =>
    have single : lineCount (line ++ "\n") = 1 := by
      rw [lineCount, String.toList_append, List.count_append,
        List.count_eq_zero.mpr (unbroken line List.mem_cons_self)]
      decide
    have rest := ih fun line member => unbroken line (List.mem_cons_of_mem _ member)
    rw [lineCount] at single rest ⊢
    rw [unlines, List.map_cons, String.join_cons, String.toList_append, List.count_append, single,
      ← unlines, rest, List.length_cons, Nat.add_comm]

/-- A text that shows every compartment of a topology at its place: as JSON, the objects are nested
as the compartments are, and as a table there is a line for each of them. -/
inductive Presents (t : Topology) : OutputFormat → String → Prop where
  | document {nodes : List Node} : outlines 0 none nodes = t.forest.spots.map heading →
      Presents t .json (Json.pretty (.list nodes) ++ "\n")
  | lines {lines : List String} : t.forest.compartments ≠ [] →
      List.Forall₂ Shows t.forest.spots lines → Presents t .table (unlines lines)
  | message : t.forest.compartments = [] →
      Presents t .table (unlines [s!"Topology '{t.id}' has no compartments."])

theorem presents_tree (t : Topology) (config : Config) :
    Presents t config.format
      (present config (.list (t.forest.roots.map (treeNode t.forest))) (treeLines t)) := by
  unfold present
  cases config.format with
  | json => exact .document (outlines_treeNode t.forest)
  | table =>
    by_cases empty : t.forest.compartments = []
    · rw [treeLines_eq_of_nil empty]
      exact .message empty
    · rw [treeLines_eq_of_ne_nil empty]
      refine .lines empty (List.forall₂_map_right_iff.mpr ?_)
      exact List.forall₂_same.mpr fun spot _ => shows_spotLine spot

/-- The indices of a forest that is built of a list: the parent of a compartment is the one that it
names, what is below a compartment is what has it as its parent, and the roots are what has no
parent, each once and in the order of the list. -/
structure Dual (f : Forest) (cs : List Compartment) : Prop where
  compartments : f.compartments = cs
  once : cs.Nodup
  parentless : ∀ c ∈ cs, f.parent? c.id = none ↔ c.parentId = none
  parent : ∀ c ∈ cs, ∀ p, f.parent? c.id = some p ↔ p ∈ cs ∧ c.parentId = some p.id
  roots : f.roots = cs.filter fun c => f.parent? c.id = none
  children : ∀ p ∈ cs, f.children p.id = cs.filter fun c => f.parent? c.id = some p
  childless : ∀ id ∉ cs.map (·.id), f.children id = []

theorem dual_compartments (f : Forest) : Dual f f.compartments where
  compartments := rfl
  once := f.nodup_compartments
  parentless _ member := Forest.parent?_eq_none_iff (Forest.get?_of_mem member)
  parent _ member _ := Forest.parent?_eq_some_iff member
  roots := f.roots_eq_siblings
  children _ := Forest.children_eq_siblings
  childless _ := Forest.children_eq_nil

theorem Asks.answer_tree {v : Volume} {arguments : List String} {invocation : Invocation}
    {id : String} {config : Config} (asks : Asks v arguments invocation .tree id config t) :
    v.answer (run arguments) = success (present (formatted invocation config)
      (.list (t.forest.roots.map (treeNode t.forest))) (treeLines t)) := by
  rw [asks.answer_run, perform, asks.answer_readTopology]
  rfl

/-- Neither the label nor the id of a compartment goes over more than one line. -/
def Unbroken (c : Compartment) : Prop := '\n' ∉ c.label.toList ∧ '\n' ∉ c.id.toList

instance : DecidablePred Unbroken := fun _ => inferInstanceAs (Decidable (_ ∧ _))

theorem break_not_mem_of_shown {spots : List Spot} {lines : List String}
    (shown : List.Forall₂ Shows spots lines)
    (unbroken : ∀ spot ∈ spots, Unbroken spot.compartment) :
    ∀ line ∈ lines, '\n' ∉ line.toList := by
  induction shown with
  | nil => exact nofun
  | cons shows _ ih =>
    intro line member broken
    rcases List.mem_cons.mp member with rfl | member
    · have ⟨label, id⟩ := unbroken _ List.mem_cons_self
      exact (shows.unbroken broken).elim label id
    · exact ih (fun spot later => unbroken spot (List.mem_cons_of_mem _ later)) line member broken

theorem Presents.lineCount_eq {format : OutputFormat} {text : String}
    (presents : Presents t format text) (table : format = .table)
    (some : t.forest.compartments ≠ []) (unbroken : ∀ c ∈ t.forest.compartments, Unbroken c) :
    lineCount text = t.forest.compartments.length := by
  cases presents with
  | document _ => contradiction
  | message empty => exact absurd empty some
  | @lines lines _ shown =>
    have whole := t.forest.spots_perm.length_eq
    rw [List.length_map] at whole
    rw [lineCount_unlines, ← shown.length_eq, whole]
    refine break_not_mem_of_shown shown fun spot inside => unbroken _ ?_
    exact (Forest.placed_of_mem_spots inside).member

end Estate.Command
