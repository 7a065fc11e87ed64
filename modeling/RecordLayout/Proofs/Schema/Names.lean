import Mathlib.Data.List.Nodup
import RecordLayout.Proofs.Outcome
import RecordLayout.Schema.Names

/-! The checks of names accept exactly the lists without repetition. The scopes that are checked mix
members and selections in source order; the rule they stand for does not depend on that order. -/

namespace RecordLayout

namespace Selection

/-- The name of the one member that a selection of types binds. -/
def boundName? (selection : Selection) : Option Name :=
  match selection.selected with
  | .single name _ => some name
  | .groups _ => none

end Selection

namespace StructDef

/-- The names of plain members, then those that selections bind. -/
def topNames (struct : StructDef) : List Name :=
  struct.plainMembers.map Member.name ++ struct.items.filterMap fun
    | .member _ => none
    | .selection selection => selection.boundName?

/-- No name is used twice outside groups, nor outside groups and in one group together. -/
structure DistinctNames (struct : StructDef) : Prop where
  top : (struct.topNames.map Name.text).Nodup
  group : ∀ selection cases case, .selection selection ∈ struct.items →
    selection.selected = .groups cases → case ∈ cases →
    ((struct.topNames ++ case.body.map Member.name).map Name.text).Nodup

end StructDef

namespace Name

theorem firstRepeated?_eq_none {names : List Name} :
    firstRepeated? names = none ↔ (names.map Name.text).Nodup := by
  induction names with
  | nil => simp [firstRepeated?]
  | cons name rest ih =>
    rw [firstRepeated?, List.map_cons, List.nodup_cons, ← ih]
    have repeated : rest.any (·.text == name.text) = true ↔ name.text ∈ rest.map Name.text := by
      simp [List.any_eq_true]
    by_cases again : name.text ∈ rest.map Name.text
    · rw [if_pos (repeated.mpr again)]
      simp [again]
    · rw [if_neg (fun found => again (repeated.mp found))]
      simp [again]

theorem checkDistinct_eq_ok {names : List Name} {error : List Span → String → CompileError} :
    checkDistinct names error = .ok () ↔ (names.map Name.text).Nodup := by
  rw [← firstRepeated?_eq_none, checkDistinct]
  cases firstRepeated? names with
  | none => simp
  | some name => simp

theorem checkDistinct_eq_error {names : List Name} {error : List Span → String → CompileError}
    {failure : CompileError} (failed : checkDistinct names error = .error failure) :
    ∃ spans text, failure = error spans text := by
  unfold checkDistinct at failed
  split at failed
  · cases failed
    exact ⟨_, _, rfl⟩
  · cases failed

end Name

namespace StructDef

variable {struct : StructDef}

theorem sharedNames_perm : (struct.items.flatMap StructItem.sharedNames).Perm struct.topNames := by
  unfold topNames plainMembers
  induction struct.items with
  | nil => exact .nil
  | cons item items ih =>
    cases item with
    | member member => simpa [StructItem.sharedNames] using ih.cons member.name
    | selection selection =>
      cases shape : selection.selected with
      | single name cases =>
        simp only [List.flatMap_cons, StructItem.sharedNames, shape, List.filterMap_cons,
          Selection.boundName?, List.singleton_append]
        exact (ih.cons name).trans List.perm_middle.symm
      | groups cases =>
        simpa [StructItem.sharedNames, shape, Selection.boundName?] using ih

theorem mem_groupNames {names : List Name} :
    names ∈ struct.items.flatMap StructItem.groupNames ↔
      ∃ selection cases case, .selection selection ∈ struct.items ∧
        selection.selected = .groups cases ∧ case ∈ cases ∧ case.body.map Member.name = names := by
  simp only [List.mem_flatMap]
  constructor
  · intro ⟨item, present, member⟩
    cases item with
    | member _ => cases member
    | selection selection =>
      cases shape : selection.selected with
      | single _ _ => simp [StructItem.groupNames, shape] at member
      | groups cases =>
        simp only [StructItem.groupNames, shape, List.mem_map] at member
        obtain ⟨case, chosen, same⟩ := member
        exact ⟨selection, cases, case, present, shape, chosen, same⟩
  · intro ⟨selection, cases, case, present, shape, chosen, same⟩
    subst same
    refine ⟨_, present, ?_⟩
    simp only [StructItem.groupNames, shape, List.mem_map]
    exact ⟨case, chosen, rfl⟩

/-- The scopes of a struct are free of repetition exactly when its names are distinct. -/
theorem scopes_nodup_iff :
    (∀ scope ∈ struct.scopes, (scope.map Name.text).Nodup) ↔ struct.DistinctNames := by
  have shared : ((struct.items.flatMap StructItem.sharedNames).map Name.text).Nodup ↔
      (struct.topNames.map Name.text).Nodup := (sharedNames_perm.map Name.text).nodup_iff
  have grouped (names : List Name) :
      ((struct.items.flatMap StructItem.sharedNames ++ names).map Name.text).Nodup ↔
        ((struct.topNames ++ names).map Name.text).Nodup :=
    ((sharedNames_perm.append_right names).map Name.text).nodup_iff
  simp only [scopes, List.forall_mem_cons, List.forall_mem_map, shared, grouped]
  constructor
  · intro ⟨top, groups⟩
    refine ⟨top, ?_⟩
    intro selection cases case present shape chosen
    exact groups _ (mem_groupNames.mpr ⟨selection, cases, case, present, shape, chosen, rfl⟩)
  · intro ⟨top, group⟩
    refine ⟨top, ?_⟩
    intro names member
    obtain ⟨selection, cases, case, present, shape, chosen, rfl⟩ := mem_groupNames.mp member
    exact group selection cases case present shape chosen

end StructDef

namespace Schema

variable {schema : Schema} {struct : StructDef} {failure : CompileError}

theorem checkDeclarationNames_eq_ok :
    schema.checkDeclarationNames = .ok () ↔ (schema.declarations.map (·.name.text)).Nodup := by
  rw [checkDeclarationNames, Name.checkDistinct_eq_ok, List.map_map]
  rfl

theorem checkDeclarationNames_eq_error (failed : schema.checkDeclarationNames = .error failure) :
    ∃ spans name, failure = .duplicateDeclaration spans name :=
  Name.checkDistinct_eq_error failed

theorem checkMemberNames_eq_ok : checkMemberNames struct = .ok () ↔ struct.DistinctNames := by
  rw [checkMemberNames, Outcome.forM_eq_ok, ← StructDef.scopes_nodup_iff]
  exact forall₂_congr fun _ _ => Name.checkDistinct_eq_ok

theorem checkMemberNames_eq_error (failed : checkMemberNames struct = .error failure) :
    ∃ spans name, failure = .duplicateMember spans name struct.name.text := by
  obtain ⟨scope, _, found⟩ := Outcome.forM_eq_error failed
  exact Name.checkDistinct_eq_error found

end Schema

end RecordLayout
