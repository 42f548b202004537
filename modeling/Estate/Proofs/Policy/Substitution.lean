import Estate.Proofs.Policy.Scanning

/-! Substitution as an operation on texts. It replaces a placeholder wherever one is written, and
what stands before and after it is substituted on its own; so a text is parted by its placeholders
in one way, and nothing but they gives way to values. -/
namespace Estate.Policy
open Document

/-- The placeholder of a name, as it is written. -/
def slot (name : String) : String := "$\x7b" ++ name ++ "\x7d"

/-- A placeholder of the name is somewhere in the text. -/
def Holds (text name : String) : Prop :=
  IsName name.toList ∧ ∃ before after, text = before ++ slot name ++ after

def SlotFree (text : String) : Prop := ∀ name, ¬ Holds text name

/-- What is put in the place of a placeholder: text verbatim, and any other value in JSON. Where
there is no value the placeholder stays. -/
def standIn (values : StringMap Value) (name : String) : String :=
  match values.get? name with
  | none => slot name
  | some v =>
    match v.node with
    | .text s => s
    | n => Json.compact n

/-- Free texts with something in between for every name. -/
def woven (put : String → String) : List (String × String) → String → String
  | [], rest => rest
  | (free, name) :: parts, rest => free ++ put name ++ woven put parts rest

/-- A text as its placeholders part it: each part is free text with the name of the placeholder that
follows it, and the rest is free as well. -/
structure Parted (text : String) (parts : List (String × String)) (rest : String) : Prop where
  written : text = woven slot parts rest
  parts : ∀ part ∈ parts, SlotFree part.1 ∧ IsName part.2.toList
  rest : SlotFree rest

variable {values values' : StringMap Value} {text name rest rest' : String}
  {parts parts' : List (String × String)}

theorem toList_slot (name : String) : (slot name).toList = Piece.written name.toList := by
  simp [slot, Piece.written]

theorem toList_substitute (values : StringMap Value) (text : String) :
    (substitute values text).toList = (pieces text.toList).flatMap (Piece.fill values) :=
  String.toList_ofList

theorem fill_placeholder (values : StringMap Value) (name : String) :
    (Piece.placeholder name.toList).fill values = (standIn values name).toList := by
  rw [Piece.fill, String.ofList_toList, standIn]
  cases values.get? name with
  | none => exact (toList_slot name).symm
  | some v => cases held : v.node <;> simp only [insertion, held]

theorem pieces_append_slot (named : IsName name.toList) (before after : String) :
    pieces (before ++ slot name ++ after).toList =
      pieces before.toList ++ .placeholder name.toList :: pieces after.toList := by
  rw [String.toList_append, String.toList_append, toList_slot, pieces_append_written named]

theorem map_char_ne_append (whole name : List Char) (front after : List Piece) :
    whole.map .char ≠ front ++ .placeholder name :: after := by
  intro same
  have inside : Piece.placeholder name ∈ whole.map .char := by
    rw [same]
    exact List.mem_append_right _ List.mem_cons_self
  simp at inside

theorem slotFree_iff : SlotFree text ↔ pieces text.toList = text.toList.map .char := by
  constructor
  · intro free
    apply pieces_eq_map_char
    rintro name named ⟨before, after, whole⟩
    refine free (String.ofList name) ⟨by rwa [String.toList_ofList], String.ofList before,
      String.ofList after, ?_⟩
    rw [← String.toList_inj]
    simp [toList_slot, whole]
  · rintro chars name ⟨named, before, after, rfl⟩
    rw [pieces_append_slot named] at chars
    exact map_char_ne_append _ _ _ _ chars.symm

instance : DecidablePred SlotFree := fun _ => decidable_of_iff _ slotFree_iff.symm

/-- What was put in the place of a placeholder is not looked at again, nor is any placeholder made
of it together with its surroundings. -/
theorem substitute_append_slot (named : IsName name.toList) (before after : String) :
    substitute values (before ++ slot name ++ after) =
      substitute values before ++ standIn values name ++ substitute values after := by
  apply String.toList_inj.mp
  rw [toList_substitute, pieces_append_slot named, List.flatMap_append, List.flatMap_cons,
    fill_placeholder]
  simp [toList_substitute]

theorem substitute_of_slotFree (free : SlotFree text) : substitute values text = text := by
  apply String.toList_inj.mp
  rw [toList_substitute, slotFree_iff.mp free, List.flatMap_map]
  exact List.flatMap_singleton' text.toList

theorem substitute_woven (parted : Parted text parts rest) :
    substitute values text = woven (standIn values) parts rest := by
  obtain ⟨rfl, parted, clear⟩ := parted
  induction parts with
  | nil => exact substitute_of_slotFree clear
  | cons part parts ih =>
    obtain ⟨⟨free, named⟩, later⟩ := List.forall_mem_cons.mp parted
    rw [woven, substitute_append_slot named, substitute_of_slotFree free, ih later, woven]

theorem woven_append (put : String → String) (parts parts' : List (String × String))
    (rest rest' name : String) :
    woven put (parts ++ (rest, name) :: parts') rest' =
      woven put parts rest ++ put name ++ woven put parts' rest' := by
  induction parts with
  | nil => rfl
  | cons part parts ih => simp only [List.cons_append, woven, ih, String.append_assoc]

theorem exists_parted (text : String) : ∃ parts rest, Parted text parts rest := by
  induction length : text.length using Nat.strongRecOn generalizing text with
  | ind n ih =>
    subst length
    by_cases free : SlotFree text
    · exact ⟨[], text, rfl, nofun, free⟩
    · -- Any placeholder will do: what is before it and what is after it are both shorter.
      obtain ⟨name, named, before, after, rfl⟩ := Classical.not_forall_not.mp free
      have marked : 0 < (slot name).length := by
        rw [← String.length_toList, toList_slot]
        exact Nat.succ_pos _
      obtain ⟨parts, rest, first⟩ := ih before.length (by simp; omega) before rfl
      obtain ⟨parts', rest', second⟩ := ih after.length (by simp; omega) after rfl
      refine ⟨parts ++ (rest, name) :: parts', rest', ?_, ?_, second.rest⟩
      · rw [woven_append, ← first.written, ← second.written]
      · intro part member
        rcases List.mem_append.mp member with earlier | later
        · exact first.parts part earlier
        · rcases List.mem_cons.mp later with rfl | later
          · exact ⟨first.rest, named⟩
          · exact second.parts part later

/-- The parts that the scanner finds in a woven text. -/
def strands : List (String × String) → String → List Piece
  | [], rest => rest.toList.map .char
  | (free, name) :: parts, rest =>
    free.toList.map .char ++ .placeholder name.toList :: strands parts rest

theorem Parted.pieces_eq (parted : Parted text parts rest) :
    pieces text.toList = strands parts rest := by
  obtain ⟨rfl, parted, clear⟩ := parted
  induction parts with
  | nil => exact slotFree_iff.mp clear
  | cons part parts ih =>
    obtain ⟨⟨free, named⟩, later⟩ := List.forall_mem_cons.mp parted
    rw [woven, pieces_append_slot named, slotFree_iff.mp free, ih later, strands]

theorem map_char_append_inj {front front' name name' : List Char} {after after' : List Piece}
    (same : front.map .char ++ .placeholder name :: after =
      front'.map .char ++ .placeholder name' :: after') :
    front = front' ∧ name = name' ∧ after = after' := by
  induction front generalizing front' with
  | nil => cases front' <;> simp_all
  | cons c front ih =>
    cases front' with
    | nil => simp at same
    | cons d front' =>
      simp only [List.map_cons, List.cons_append, List.cons.injEq, Piece.char.injEq] at same
      obtain ⟨rfl, later⟩ := same
      obtain ⟨rfl, others⟩ := ih later
      exact ⟨rfl, others⟩

theorem strands_inj (same : strands parts rest = strands parts' rest') :
    parts = parts' ∧ rest = rest' := by
  induction parts generalizing parts' with
  | nil =>
    cases parts' with
    | nil =>
      have chars : rest.toList = rest'.toList :=
        (List.map_inj_right fun _ _ => Piece.char.inj).mp same
      exact ⟨rfl, String.toList_inj.mp chars⟩
    | cons part parts' => exact absurd same (map_char_ne_append _ _ _ _)
  | cons part parts ih =>
    cases parts' with
    | nil => exact absurd same.symm (map_char_ne_append _ _ _ _)
    | cons part' parts' =>
      obtain ⟨free, named, later⟩ := map_char_append_inj same
      obtain ⟨rfl, rfl⟩ := ih later
      obtain rfl : part = part' := Prod.ext (String.toList_inj.mp free) (String.toList_inj.mp named)
      exact ⟨rfl, rfl⟩

/-- Placeholders are replaced one by one, whatever surrounds them, and a text without any is left as
it is. So every text is parted by its placeholders in one way, and substitution puts a value or the
placeholder itself in the place of each of them and keeps all else. -/
theorem substitute_compositional (values : StringMap Value) :
    (∀ before name after, IsName name.toList →
      substitute values (before ++ slot name ++ after) =
        substitute values before ++ standIn values name ++ substitute values after) ∧
    (∀ text, SlotFree text → substitute values text = text) ∧
    ∀ text, ∃ parts rest, Parted text parts rest ∧
      substitute values text = woven (standIn values) parts rest ∧
      ∀ parts' rest', Parted text parts' rest' → parts' = parts ∧ rest' = rest := by
  refine ⟨?replaced, ?kept, ?parted⟩
  case replaced =>
    intro before name after named
    exact substitute_append_slot named before after
  case kept =>
    intro text free
    exact substitute_of_slotFree free
  case parted =>
    intro text
    obtain ⟨parts, rest, parted⟩ := exists_parted text
    refine ⟨parts, rest, parted, substitute_woven parted, ?_⟩
    intro parts' rest' other
    exact strands_inj (other.pieces_eq.symm.trans parted.pieces_eq)

/-- Openings that come to no placeholder are kept, also on either side of one; and the value is put
in as it is although it has the form of a placeholder itself. -/
theorem substitute_compositional_half_open :
    let values : StringMap Value :=
      .ofList [("days", ⟨.text "$\x7bother\x7d", rfl⟩), ("other", ⟨.flag true, rfl⟩)]
    IsName "days".toList ∧
      (∀ text ∈ ["$\x7b", "$\x7b\x7d", "$\x7b1a\x7d", "$\x7ba$\x7b", "\x7d"],
        SlotFree text ∧ substitute values text = text) ∧
      substitute values ("$\x7ba$\x7b" ++ slot "days" ++ "\x7d") =
        "$\x7ba$\x7b" ++ "$\x7bother\x7d" ++ "\x7d" ∧
      substitute values "$\x7bother\x7d" = "true" := by
  intro values
  obtain ⟨replaced, kept, parted⟩ := substitute_compositional values
  have named : IsName "days".toList := by decide
  have free : ∀ text ∈ ["$\x7b", "$\x7b\x7d", "$\x7b1a\x7d", "$\x7ba$\x7b", "\x7d"],
      SlotFree text := by decide +kernel
  refine ⟨named, fun text member => ⟨free text member, kept text (free text member)⟩, ?_,
    by decide +kernel⟩
  rw [replaced _ _ _ named, kept _ (free "$\x7ba$\x7b" (by decide)),
    kept _ (free "\x7d" (by decide))]
  rfl

end Estate.Policy
