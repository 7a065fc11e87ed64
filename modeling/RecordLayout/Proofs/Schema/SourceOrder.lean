import RecordLayout.Proofs.Schema.Resolution

/-! Source order. A reference stands in a declaration, there in an item, where the item has cases in one of them, where
the cases are groups at a member of the group, and in the first or the second alternative of a choice. The numbers of
these, the outermost first, are its position, and of two positions the one that is lexicographically less comes first.
What the checks go through is ordered like this. -/

namespace RecordLayout

open Outcome (first_cons first_flatMap first_iff_getElem?)

/-! Positions. -/

/-- What stands at which positions. -/
abbrev Placing (α : Type) := List Nat → α → Prop

namespace Placing

/-- The item stands before all others of which the same holds. -/
def First (placing : Placing α) (holds : α → Prop) (item : α) : Prop :=
  ∃ position, placing position item ∧ holds item ∧
    ∀ earlier other, earlier < position → placing earlier other → ¬ holds other

/-- Items in lists, each behind the number of its list. -/
def Within (parts : β → Placing α) (wholes : List β) : Placing α
  | [], _ => False
  | index :: position, item => ∃ whole, wholes[index]? = some whole ∧ parts whole position item

/-- The list has what stands at positions, in their order. -/
structure Lists (placing : Placing α) (items : List α) : Prop where
  mem {item} : item ∈ items ↔ ∃ position, placing position item
  first {holds item} : Outcome.First holds items item ↔ placing.First holds item

variable {placing other : Placing α} {parts : β → Placing α} {items : List α} {list : β → List α} {wholes : List β}

theorem Lists.congr (lists : placing.Lists items) (same : ∀ position item, other position item ↔ placing position item) :
    other.Lists items := by
  obtain rfl : other = placing := by
    funext position item
    exact propext (same position item)
  exact lists

theorem lists_nil (nowhere : ∀ position item, ¬ placing position item) : placing.Lists [] where
  mem := by simp [nowhere]
  first := by simp [Outcome.First, First, nowhere]

theorem lists_singleton (item : α) : Placing.Lists (fun position other => position = [] ∧ other = item) [item] where
  mem := by simp
  first := by
    intro holds other
    rw [first_cons]
    constructor
    · rintro (⟨there, rfl⟩ | ⟨_, later⟩)
      · exact ⟨[], ⟨rfl, rfl⟩, there, fun earlier _ less ⟨same, _⟩ => absurd (same ▸ less) (List.lt_irrefl [])⟩
      · cases later.mem
    · rintro ⟨_, ⟨rfl, rfl⟩, there, _⟩
      exact .inl ⟨there, rfl⟩

theorem mem_within (each : ∀ whole, (parts whole).Lists (list whole)) {item : α} :
    item ∈ wholes.flatMap list ↔ ∃ position, Within parts wholes position item := by
  rw [List.mem_flatMap]
  constructor
  · rintro ⟨whole, member, inside⟩
    obtain ⟨index, stands⟩ := List.mem_iff_getElem?.mp member
    obtain ⟨position, placed⟩ := (each whole).mem.mp inside
    exact ⟨index :: position, whole, stands, placed⟩
  · rintro ⟨position, placed⟩
    cases position with
    | nil => exact placed.elim
    | cons index position =>
      obtain ⟨whole, stands, placed⟩ := placed
      exact ⟨whole, List.mem_of_getElem? stands, (each whole).mem.mpr ⟨position, placed⟩⟩

/-- The first item is in the first list that has one. -/
theorem first_within {holds : α → Prop} {item : α} : (Within parts wholes).First holds item ↔
    ∃ whole, Outcome.First (fun whole => ∃ position part, parts whole position part ∧ holds part) wholes whole ∧
      (parts whole).First holds item := by
  constructor
  · rintro ⟨position, placed, there, before⟩
    cases position with
    | nil => exact placed.elim
    | cons index position =>
      obtain ⟨whole, stands, placed⟩ := placed
      refine ⟨whole, first_iff_getElem?.mpr ⟨index, stands, ⟨position, item, placed, there⟩, ?_⟩, position, placed,
        there, fun earlier item less placed => ?_⟩
      · rintro earlier less other stands ⟨position, part, placed, there⟩
        exact before (earlier :: position) part (List.cons_lt_cons_iff.mpr (.inl less)) ⟨other, stands, placed⟩ there
      · exact before (index :: earlier) item (List.cons_lt_cons_iff.mpr (.inr ⟨rfl, less⟩)) ⟨whole, stands, placed⟩
  · rintro ⟨whole, first, position, placed, there, inside⟩
    obtain ⟨index, stands, _, before⟩ := first_iff_getElem?.mp first
    refine ⟨index :: position, ⟨whole, stands, placed⟩, there, fun earlier item less placed => ?_⟩
    cases earlier with
    | nil => exact placed.elim
    | cons earlier rest =>
      obtain ⟨other, stood, placed⟩ := placed
      rcases List.cons_lt_cons_iff.mp less with outside | ⟨rfl, behind⟩
      · exact fun there => before earlier outside other stood ⟨rest, item, placed, there⟩
      · cases stands.symm.trans stood
        exact inside rest item behind placed

theorem lists_within (each : ∀ whole, (parts whole).Lists (list whole)) :
    (Within parts wholes).Lists (wholes.flatMap list) where
  mem := mem_within each
  first := by
    intro holds item
    have some (whole : β) :
        (∃ part ∈ list whole, holds part) ↔ ∃ position part, parts whole position part ∧ holds part := by
      simp only [(each whole).mem]
      grind
    rw [first_flatMap, first_within]
    simp only [some, (each _).first]

theorem first_image {f : α → γ} {holds : γ → Prop} {result : γ} :
    First (fun position result => ∃ item, placing position item ∧ result = f item) holds result ↔
      ∃ item, placing.First (fun item => holds (f item)) item ∧ result = f item := by
  simp only [First]
  grind

theorem Lists.map {f : α → γ} (lists : placing.Lists items) :
    Placing.Lists (fun position result => ∃ item, placing position item ∧ result = f item) (items.map f) where
  mem := by
    intro result
    simp only [List.mem_map, lists.mem]
    grind
  first := by
    intro holds result
    rw [Outcome.first_map, first_image]
    simp only [lists.first]

end Placing

/-! References. -/

open Placing

namespace TypeRef

inductive RefersAt : TypeRef → Placing Path where
  | named {path} : RefersAt (.named path) [] path

theorem lists_path? (type : TypeRef) : type.RefersAt.Lists type.path?.toList := by
  cases type with
  | data type => exact lists_nil nofun
  | named path =>
    refine (lists_singleton path).congr fun position other => ⟨?_, ?_⟩
    · rintro ⟨⟩
      exact ⟨rfl, rfl⟩
    · rintro ⟨rfl, rfl⟩
      exact .named

end TypeRef

namespace MemberType

/-- The first alternative of a choice stands before the second one. -/
def RefersAt : MemberType → Placing Path
  | plain type => type.RefersAt
  | chosen choice => Within TypeRef.RefersAt [choice.ifTrue, choice.ifFalse]

theorem lists_mentioned (type : MemberType) : type.RefersAt.Lists type.mentioned := by
  cases type with
  | plain type => exact type.lists_path?
  | chosen choice =>
    have lists := @lists_within _ _ _ _ [choice.ifTrue, choice.ifFalse] TypeRef.lists_path?
    rwa [List.flatMap_cons, List.flatMap_singleton] at lists

end MemberType

namespace StructItem

/-- Cases stand in the order in which they are written, and so do the members of one that is a group. -/
def RefersAt : StructItem → Placing Path
  | .member plain => plain.info.type.RefersAt
  | .selection choices =>
    match choices.selected with
    | .single _ cases => Within (fun case => case.body.type.RefersAt) cases
    | .groups cases => Within (fun case => Within (fun inner => inner.info.type.RefersAt) case.body) cases

theorem lists_mentioned (item : StructItem) : item.RefersAt.Lists (item.infos.flatMap (·.type.mentioned)) := by
  cases item with
  | member plain => simpa [RefersAt, infos] using plain.info.type.lists_mentioned
  | selection choices =>
    cases shape : choices.selected with
    | single name cases =>
      simp only [RefersAt, infos, shape, List.flatMap_map]
      exact lists_within fun case : Case MemberInfo => case.body.type.lists_mentioned
    | groups cases =>
      simp only [RefersAt, infos, shape, List.flatMap_assoc, List.flatMap_map]
      exact lists_within fun _ => lists_within fun inner : Member => inner.info.type.lists_mentioned

end StructItem

namespace Declaration

/-- References come with the struct that they stand in. -/
inductive RefersAt : Declaration → Placing (StructDef × Path) where
  | mk {struct : StructDef} {position path} (there : Within StructItem.RefersAt struct.items position path) :
      RefersAt (.struct struct) position (struct, path)

theorem lists_references (declaration : Declaration) :
    declaration.RefersAt.Lists (declaration.struct?.toList.flatMap StructDef.references) := by
  cases declaration with
  | struct struct =>
    have same : struct.references =
        (struct.items.flatMap fun item => item.infos.flatMap (·.type.mentioned)).map (struct, ·) := by
      simp [StructDef.references, StructDef.infos, List.flatMap_assoc, List.map_flatMap]
    simp only [struct?, Option.toList_some, List.flatMap_singleton, same]
    refine (lists_within StructItem.lists_mentioned).map.congr fun position reference => ⟨?_, ?_⟩
    · rintro ⟨there⟩
      exact ⟨_, there, rfl⟩
    · rintro ⟨_, there, rfl⟩
      exact .mk there
  | bitfield bitfield =>
    refine lists_nil fun position reference there => ?_
    cases there

end Declaration

namespace Schema

/-- Declarations stand in the order in which they are written, and so do the items of a struct. -/
def RefersAt (schema : Schema) : Placing (StructDef × Path) :=
  Within Declaration.RefersAt schema.declarations

/-- The checks go through the references in source order. -/
theorem lists_references (schema : Schema) : schema.RefersAt.Lists schema.references := by
  rw [references, structs, List.filterMap_eq_flatMap_toList, List.flatMap_assoc]
  exact lists_within Declaration.lists_references

end Schema

/-! Names. -/

namespace StructItem

/-- Groups stand in the order in which the cases are written. -/
def GroupAt : StructItem → Placing (List Member)
  | .member _ => fun _ _ => False
  | .selection choices =>
    match choices.selected with
    | .single _ _ => fun _ _ => False
    | .groups cases => Within (fun case position group => position = [] ∧ group = case.body) cases

/-- The groups of the item, one for each case. -/
def groups : StructItem → List (List Member)
  | .member _ => []
  | .selection choices =>
    match choices.selected with
    | .single _ _ => []
    | .groups cases => cases.map Case.body

theorem groupNames_eq (item : StructItem) : item.groupNames = item.groups.map (·.map Member.name) := by
  cases item with
  | member plain => rfl
  | selection choices => cases shape : choices.selected <;> simp [groupNames, groups, shape]

theorem lists_groups (item : StructItem) : item.GroupAt.Lists item.groups := by
  cases item with
  | member plain => exact lists_nil nofun
  | selection choices =>
    cases shape : choices.selected with
    | single name cases =>
      simp only [GroupAt, groups, shape]
      exact lists_nil nofun
    | groups cases =>
      simp only [GroupAt, groups, shape, ← List.flatMap_pure_eq_map]
      exact lists_within fun case => lists_singleton case.body

end StructItem

namespace StructDef

/-- Items stand in the order in which they are written. -/
def GroupAt (struct : StructDef) : Placing (List Member) :=
  Within StructItem.GroupAt struct.items

theorem lists_groups (struct : StructDef) : struct.GroupAt.Lists (struct.items.flatMap StructItem.groups) :=
  lists_within StructItem.lists_groups

theorem flatMap_groupNames (struct : StructDef) : struct.items.flatMap StructItem.groupNames =
    (struct.items.flatMap StructItem.groups).map (·.map Member.name) := by
  rw [List.map_flatMap]
  exact congrArg (struct.items.flatMap ·) (funext StructItem.groupNames_eq)

/-- The names of plain members and those that selections bind, as they are written. -/
def outerNames (struct : StructDef) : List Name :=
  struct.items.filterMap fun
    | .member member => some member.name
    | .selection selection => selection.boundName?

theorem flatMap_sharedNames (struct : StructDef) :
    struct.items.flatMap StructItem.sharedNames = struct.outerNames := by
  rw [outerNames, List.filterMap_eq_flatMap_toList]
  congr
  funext item
  cases item with
  | member plain => rfl
  | selection choices => cases shape : choices.selected <;> simp [StructItem.sharedNames, Selection.boundName?, shape]

end StructDef

end RecordLayout
