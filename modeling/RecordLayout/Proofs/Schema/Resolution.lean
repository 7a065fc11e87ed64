import RecordLayout.Proofs.Schema.Coverage
import RecordLayout.Proofs.Schema.Names
import RecordLayout.Schema.Check

/-! Which declarations are a schema: those whose names are distinct in every scope, that mention only
declared types, and among which no struct contains itself. Where the last fails, the error shows it:
the names and spans reported are a cycle of the declarations. -/

namespace RecordLayout

open Outcome (First)

namespace StructDef

/-- The references to declared types, each with the struct that it stands in: member by member and case by case, and
the first alternative of a choice before the second one. -/
def references (struct : StructDef) : List (StructDef × Path) :=
  struct.infos.flatMap fun info => info.type.mentioned.map (struct, ·)

end StructDef

namespace Schema

/-- No name is used twice, every type that is mentioned is declared, and no struct contains itself. -/
structure WellFormed (schema : Schema) : Prop where
  declarations : (schema.declarations.map (·.name.text)).Nodup
  members : ∀ struct, .struct struct ∈ schema.declarations → struct.DistinctNames
  known : ∀ struct path, .struct struct ∈ schema.declarations → struct.Mentions path →
    schema.Declares path.name
  acyclic : ∀ struct, ¬ Relation.TransGen schema.Encloses struct struct

variable {schema : Schema}

/-! Edges between structs and steps between their names. -/

theorem Encloses.leads (distinct : (schema.declarations.map (·.name.text)).Nodup)
    {outer inner : StructDef} (encloses : schema.Encloses outer inner) :
    schema.Leads outer.name.text inner.name.text := by
  obtain ⟨outside, inside, path, contains, named⟩ := encloses
  have found := findStruct?_of_mem distinct inside
  refine ⟨outer, findStruct?_of_mem distinct outside, path, ?_, named, by simp [found]⟩
  exact StructDef.mem_contained.mpr contains

/-- No way leads from a name back to it if no endless walk begins there. -/
theorem no_return {name : String} (acc : Acc (fun inner outer => schema.Leads outer inner) name) :
    ¬ Relation.TransGen schema.Leads name name := by
  have endless := acc.transGen
  clear acc
  induction endless with
  | intro name _ ih => exact fun cycle => ih name (Relation.transGen_swap.mpr cycle) cycle

theorem acyclic_of_acc (distinct : (schema.declarations.map (·.name.text)).Nodup)
    (acc : ∀ struct, .struct struct ∈ schema.declarations →
      Acc (fun inner outer => schema.Leads outer inner) struct.name.text) (struct : StructDef) :
    ¬ Relation.TransGen schema.Encloses struct struct := by
  intro cycle
  obtain ⟨_, ⟨present, _⟩, _⟩ := Relation.TransGen.head'_iff.mp cycle
  exact no_return (acc struct present)
    (cycle.lift (·.name.text) fun _ _ encloses => encloses.leads distinct)

theorem encloses_of_contained {outer inner : StructDef} {name : String} {path : Path}
    (declared : schema.findStruct? name = some outer) (held : path ∈ outer.contained)
    (found : schema.findStruct? path.name = some inner) : schema.Encloses outer inner :=
  ⟨mem_structs.mp (mem_structs_of_findStruct? declared), mem_structs.mp (mem_structs_of_findStruct? found),
    path, StructDef.mem_contained.mp held, (name_of_findStruct? found).symm⟩

/-- A trail with an edge is a chain of containments from its first struct to its last. -/
theorem Trail.encloses {names : List String} {spans : List Span} (trail : schema.Trail names spans)
    (proper : spans ≠ []) {name : String} {inner : StructDef} (last : names.getLast? = some name)
    (found : schema.findStruct? name = some inner) :
    ∃ first outer, names.head? = some first ∧ schema.findStruct? first = some outer ∧
      Relation.TransGen schema.Encloses outer inner := by
  induction trail with
  | last => exact absurd rfl proper
  | @step struct path first names spans declared held rest ih =>
    refine ⟨first, struct, rfl, declared, ?_⟩
    rw [List.getLast?_cons_cons] at last
    by_cases more : spans = []
    · have single : names = [] := by simpa [more] using rest.length
      simp only [single, List.getLast?_singleton, Option.some.injEq] at last
      exact .single (encloses_of_contained declared held (last ▸ found))
    · obtain ⟨second, target, next, present, onward⟩ := ih more last
      cases next
      exact .head (encloses_of_contained declared held present) onward

theorem Cycle.encloses {spans : List Span} {cycle : List String} (found : schema.Cycle spans cycle) :
    ∃ struct, Relation.TransGen schema.Encloses struct struct := by
  obtain ⟨trail, proper, closed, _⟩ := found
  cases trail with
  | last => exact absurd rfl proper
  | @step struct path name names spans declared held rest =>
    obtain ⟨first, outer, same, present, around⟩ :=
      Trail.encloses (.step declared held rest) proper closed.symm declared
    cases same
    rw [declared] at present
    cases present
    exact ⟨struct, around⟩

/-! The checks of types and cycles, member by member and struct by struct. -/

/-- All references to declared types with the structs that they stand in, in source order. -/
def references (schema : Schema) : List (StructDef × Path) :=
  schema.structs.flatMap StructDef.references

/-- The first reference that names no declaration. -/
def FirstUndeclared (schema : Schema) (struct : StructDef) (path : Path) : Prop :=
  First (fun reference => ¬ schema.Declares reference.2.name) schema.references (struct, path)

/-- What is known of a part of a struct once it has been checked. -/
structure Checked (schema : Schema) (info : MemberInfo) (finished : List String) : Prop where
  known : ∀ path, info.type.Mentions path → schema.Declares path.name
  done : ∀ path, info.type = .plain (.named path) → schema.Done finished path

variable {struct : StructDef} {info : MemberInfo} {before after : List String} {failure : CompileError}

theorem mentioned_known_iff :
    info.type.mentioned.find? (fun path => !schema.declares path.name) = none ↔
      ∀ path, info.type.Mentions path → schema.Declares path.name := by
  simp only [List.find?_eq_none, MemberType.mem_mentioned, Bool.not_eq_true', Bool.not_eq_false,
    declares_eq_true]

theorem checkInfo_eq_ok (declared : schema.findStruct? struct.name.text = some struct)
    (used : struct.Uses info) (settled : schema.Settled before)
    (ran : schema.checkInfo struct before info = .ok after) :
    schema.Settled after ∧ before ⊆ after ∧ schema.Checked info after := by
  unfold checkInfo at ran
  split at ran
  next => cases ran
  next known =>
    have known := mentioned_known_iff.mp known
    split at ran
    next path contained =>
      rw [MemberType.contained?_eq_some] at contained
      have held : path ∈ struct.contained := StructDef.mem_contained.mpr ⟨info, used, contained⟩
      obtain ⟨settled, grown, done⟩ := Walk.settled_of_run_ok (Walk.tracked_start struct path settled)
        (Walk.straight_start before declared held) ran
      refine ⟨settled, grown, known, ?_⟩
      intro other same
      rw [contained] at same
      cases same
      exact done
    next absent =>
      cases ran
      refine ⟨settled, List.Subset.refl _, known, ?_⟩
      intro path contained
      rw [MemberType.contained?_eq_some.mpr contained] at absent
      cases absent

theorem checkInfo_eq_error (declared : schema.findStruct? struct.name.text = some struct)
    (used : struct.Uses info) (failed : schema.checkInfo struct before info = .error failure) :
    (∃ path, First (fun path => ¬ schema.Declares path.name) info.type.mentioned path ∧
      failure = .unknownType path.span path.name struct.name.text) ∨
    ∃ spans cycle, failure = .recursiveStruct spans cycle ∧ schema.Cycle spans cycle := by
  unfold checkInfo at failed
  split at failed
  next path found =>
    cases failed
    refine .inl ⟨path, (Outcome.first_congr fun other _ => ?_).mp (Outcome.find?_eq_some_iff_first.mp found), rfl⟩
    rw [Bool.not_eq_true', ← Bool.not_eq_true, declares_eq_true]
  next =>
    split at failed
    next path contained =>
      rw [MemberType.contained?_eq_some] at contained
      have held : path ∈ struct.contained := StructDef.mem_contained.mpr ⟨info, used, contained⟩
      exact .inr (Walk.cycle_of_run_error (Walk.straight_start before declared held) failed)
    next => cases failed

/-- Checking the structs settles what they contain and knows what they mention. -/
theorem checkStructs_eq_ok (distinct : (schema.declarations.map (·.name.text)).Nodup)
    {finished : List String} (ran : schema.structs.foldlM schema.checkStruct [] = .ok finished) :
    schema.Settled finished ∧
      ∀ struct ∈ schema.structs, ∀ info ∈ struct.infos, schema.Checked info finished := by
  have kept {info : MemberInfo} {first second : List String} (checked : schema.Checked info first)
      (grows : first ⊆ second) : schema.Checked info second :=
    ⟨checked.known, fun path same => (checked.done path same).mono grows⟩
  have each : ∀ struct ∈ schema.structs, ∀ {before after : List String}, schema.Settled before →
      schema.checkStruct before struct = .ok after →
      schema.Settled after ∧ before ⊆ after ∧ ∀ info ∈ struct.infos, schema.Checked info after := by
    intro struct present before after settled ran
    have declared := findStruct?_of_mem distinct (mem_structs.mp present)
    refine Outcome.foldlM_eq_ok schema.Settled (· ⊆ ·) schema.Checked List.Subset.refl
      List.Subset.trans kept ?_ settled ran
    exact fun info used _ _ => checkInfo_eq_ok declared (StructDef.mem_infos.mp used)
  obtain ⟨settled, _, checked⟩ := Outcome.foldlM_eq_ok schema.Settled (· ⊆ ·)
    (fun (struct : StructDef) (finished : List String) =>
      ∀ info ∈ struct.infos, schema.Checked info finished) List.Subset.refl List.Subset.trans
    (fun checked grows info used => kept (checked info used) grows) each
    (show schema.Settled [] from trivial) ran
  exact ⟨settled, checked⟩

theorem checkInfo_passed (passed : schema.checkInfo struct before info = .ok after) :
    ∀ path ∈ info.type.mentioned, schema.Declares path.name := by
  unfold checkInfo at passed
  split at passed
  next => cases passed
  next known => exact fun path member => mentioned_known_iff.mp known path (MemberType.mem_mentioned.mp member)

/-- A struct that passes mentions declared types only. -/
theorem checkStruct_passed (passed : schema.checkStruct before struct = .ok after) :
    ∀ reference ∈ struct.references, schema.Declares reference.2.name := by
  intro reference stands
  obtain ⟨info, used, stands⟩ := List.mem_flatMap.mp stands
  obtain ⟨path, mentioned, rfl⟩ := List.mem_map.mp stands
  obtain ⟨_, _, passed⟩ := Outcome.foldlM_passed passed info used
  exact checkInfo_passed passed path mentioned

/-- A loop over the structs that fails has met the first type that is not declared, or a cycle. -/
theorem checkStructs_failed (distinct : (schema.declarations.map (·.name.text)).Nodup)
    (failed : schema.structs.foldlM schema.checkStruct [] = .error failure) :
    (∃ struct path, schema.FirstUndeclared struct path ∧
      failure = .unknownType path.span path.name struct.name.text) ∨
    ∃ spans cycle, failure = .recursiveStruct spans cycle ∧ schema.Cycle spans cycle := by
  obtain ⟨front, struct, back, reached, split, earlier, failed⟩ := Outcome.foldlM_failed failed
  obtain ⟨infos, info, others, reached, parts, before, failed⟩ := Outcome.foldlM_failed failed
  have declared := findStruct?_of_mem distinct (mem_structs.mp (by simp [split] : struct ∈ schema.structs))
  have used := StructDef.mem_infos.mp (by simp [parts] : info ∈ struct.infos)
  refine (checkInfo_eq_error declared used failed).imp_left fun ⟨path, first, same⟩ => ⟨struct, path, ?_, same⟩
  have here : First (fun reference => ¬ schema.Declares reference.2.name) struct.references (struct, path) := by
    refine Outcome.first_flatMap.mpr ⟨info, ⟨infos, others, parts, ?_, ?_⟩, Outcome.first_map.mpr ⟨path, first, rfl⟩⟩
    · exact ⟨(struct, path), List.mem_map_of_mem first.mem, first.there⟩
    · rintro other member ⟨reference, stands, unknown⟩
      obtain ⟨path, mentioned, rfl⟩ := List.mem_map.mp stands
      obtain ⟨_, _, passed⟩ := before other member
      exact unknown (checkInfo_passed passed path mentioned)
  refine Outcome.first_flatMap.mpr ⟨struct, ⟨front, back, split, ⟨_, here.mem, here.there⟩, ?_⟩, here⟩
  rintro other member ⟨reference, stands, unknown⟩
  obtain ⟨_, _, passed⟩ := earlier other member
  exact unknown (checkStruct_passed passed reference stands)

theorem FirstUndeclared.mentions {path : Path} (first : schema.FirstUndeclared struct path) :
    .struct struct ∈ schema.declarations ∧ struct.Mentions path := by
  obtain ⟨other, present, stands⟩ := List.mem_flatMap.mp first.mem
  obtain ⟨info, used, stands⟩ := List.mem_flatMap.mp stands
  obtain ⟨_, mentioned, same⟩ := List.mem_map.mp stands
  cases same
  exact ⟨mem_structs.mp present, info, StructDef.mem_infos.mp used, MemberType.mem_mentioned.mp mentioned⟩

theorem checkStructs_eq_error (distinct : (schema.declarations.map (·.name.text)).Nodup)
    (failed : schema.structs.foldlM schema.checkStruct [] = .error failure) :
    (∃ struct path, .struct struct ∈ schema.declarations ∧ struct.Mentions path ∧
      ¬ schema.Declares path.name ∧ failure = .unknownType path.span path.name struct.name.text) ∨
    ∃ spans cycle, failure = .recursiveStruct spans cycle ∧ schema.Cycle spans cycle := by
  refine (checkStructs_failed distinct failed).imp_left fun ⟨struct, path, first, same⟩ => ?_
  exact ⟨struct, path, first.mentions.1, first.mentions.2, first.there, same⟩

/-- After all structs have been checked no endless walk begins at any of them. -/
theorem acc_of_checked {finished : List String} (settled : schema.Settled finished)
    (distinct : (schema.declarations.map (·.name.text)).Nodup)
    (checked : ∀ struct ∈ schema.structs, ∀ info ∈ struct.infos, schema.Checked info finished)
    (struct : StructDef) (present : .struct struct ∈ schema.declarations) :
    Acc (fun inner outer => schema.Leads outer inner) struct.name.text := by
  refine .intro _ fun inner leads => settled.acc inner ?_
  refine mem_of_leads (findStruct?_of_mem distinct present) ?_ leads
  intro path held
  obtain ⟨info, used, same⟩ := StructDef.mem_contained.mp held
  exact (checked struct (mem_structs.mpr present) info (StructDef.mem_infos.mpr used)).done path same

variable {declarations : List Declaration}

theorem checkMembers_eq_ok :
    (Schema.mk declarations).structs.forM checkMemberNames = .ok ⟨⟩ ↔
      ∀ struct, .struct struct ∈ declarations → struct.DistinctNames := by
  rw [Outcome.forM_eq_ok]
  exact forall_congr' fun struct => by rw [mem_structs, checkMemberNames_eq_ok]

theorem ofDeclarations_eq_ok :
    (∃ schema, ofDeclarations declarations = .ok schema) ↔
      (declarations.map (·.name.text)).Nodup ∧
      (∀ struct, .struct struct ∈ declarations → struct.DistinctNames) ∧
      ∃ finished, (Schema.mk declarations).structs.foldlM (Schema.mk declarations).checkStruct [] =
        .ok finished := by
  simp only [ofDeclarations, Outcome.bind_eq_ok]
  constructor
  · intro ⟨_, ⟨⟩, first, ⟨⟩, second, finished, third, _⟩
    exact ⟨checkDeclarationNames_eq_ok.mp first, checkMembers_eq_ok.mp second, finished, third⟩
  · intro ⟨first, second, finished, third⟩
    exact ⟨_, ⟨⟩, checkDeclarationNames_eq_ok.mpr first, ⟨⟩, checkMembers_eq_ok.mpr second, finished, third, rfl⟩

/-- Each check comes after the others have passed. -/
theorem ofDeclarations_eq_error_iff :
    ofDeclarations declarations = .error failure ↔
      (Schema.mk declarations).checkDeclarationNames = .error failure ∨
      (declarations.map (·.name.text)).Nodup ∧
        ((Schema.mk declarations).structs.forM checkMemberNames = .error failure ∨
        (∀ struct, .struct struct ∈ declarations → struct.DistinctNames) ∧
          (Schema.mk declarations).structs.foldlM (Schema.mk declarations).checkStruct [] = .error failure) := by
  simp only [ofDeclarations, Outcome.bind_eq_error]
  constructor
  · rintro (names | ⟨⟨⟩, names, others | ⟨⟨⟩, distinct, types | ⟨_, _, impossible⟩⟩⟩)
    · exact .inl names
    · exact .inr ⟨checkDeclarationNames_eq_ok.mp names, .inl others⟩
    · exact .inr ⟨checkDeclarationNames_eq_ok.mp names, .inr ⟨checkMembers_eq_ok.mp distinct, types⟩⟩
    · cases impossible
  · rintro (names | ⟨names, others | ⟨distinct, types⟩⟩)
    · exact .inl names
    · exact .inr ⟨⟨⟩, checkDeclarationNames_eq_ok.mpr names, .inl others⟩
    · exact .inr ⟨⟨⟩, checkDeclarationNames_eq_ok.mpr names, .inr ⟨⟨⟩, checkMembers_eq_ok.mpr distinct, .inl types⟩⟩

/-- A cycle is reported only by the last of the checks, so the others have passed. -/
theorem ofDeclarations_eq_recursive {spans : List Span} {cycle : List String}
    (failed : ofDeclarations declarations = .error (.recursiveStruct spans cycle)) :
    (declarations.map (·.name.text)).Nodup ∧
      (Schema.mk declarations).structs.foldlM (Schema.mk declarations).checkStruct [] =
        .error (.recursiveStruct spans cycle) := by
  rcases ofDeclarations_eq_error_iff.mp failed with names | ⟨names, members | ⟨_, structs⟩⟩
  · obtain ⟨_, _, impossible⟩ := checkDeclarationNames_eq_error names
    cases impossible
  · obtain ⟨_, _, member⟩ := Outcome.forM_eq_error members
    obtain ⟨_, _, impossible⟩ := checkMemberNames_eq_error member
    cases impossible
  · exact ⟨names, structs⟩

/-- Declarations make up a schema exactly when they are well formed. -/
theorem accepts_iff_wellFormed :
    (∃ schema, ofDeclarations declarations = .ok schema) ↔ (Schema.mk declarations).WellFormed := by
  rw [ofDeclarations_eq_ok]
  constructor
  · intro ⟨distinct, members, finished, ran⟩
    obtain ⟨settled, checked⟩ := checkStructs_eq_ok distinct ran
    refine ⟨distinct, members, ?_, acyclic_of_acc distinct (acc_of_checked settled distinct checked)⟩
    intro struct path present ⟨info, used, mentioned⟩
    exact (checked struct (mem_structs.mpr present) info (StructDef.mem_infos.mpr used)).known path mentioned
  · intro ⟨distinct, members, known, acyclic⟩
    refine ⟨distinct, members, ?_⟩
    cases ran : (Schema.mk declarations).structs.foldlM (Schema.mk declarations).checkStruct [] with
    | ok finished => exact ⟨finished, rfl⟩
    | error failure =>
      rcases checkStructs_eq_error distinct ran with ⟨struct, path, present, mentioned, unknown, _⟩ |
        ⟨_, _, _, cycle⟩
      · exact absurd (known struct path present mentioned) unknown
      · obtain ⟨struct, around⟩ := cycle.encloses
        exact absurd around (acyclic struct)

/-- The spans of a reported cycle are those of the references between its names, each in the one
declared struct of the name before it. -/
theorem recursiveStruct_closes {spans : List Span} {cycle : List String}
    (failed : ofDeclarations declarations = .error (.recursiveStruct spans cycle)) :
    (declarations.map (·.name.text)).Nodup ∧
    ∃ k, 1 ≤ k ∧ cycle.length = k + 1 ∧ cycle.head? = cycle.getLast? ∧ (cycle.take k).Nodup ∧
      spans.length = k ∧
      ∀ i < k, ∃ struct path, .struct struct ∈ declarations ∧ cycle[i]? = some struct.name.text ∧
        struct.Contains path ∧ cycle[i + 1]? = some path.name ∧ spans[i]? = some path.span := by
  obtain ⟨distinct, ran⟩ := ofDeclarations_eq_recursive failed
  have found : (Schema.mk declarations).Cycle spans cycle := by
    rcases checkStructs_eq_error distinct ran with ⟨_, _, _, _, _, impossible⟩ | ⟨_, _, same, found⟩
    · cases impossible
    · cases same
      exact found
  have length := found.trail.length
  refine ⟨distinct, spans.length, List.length_pos_iff.mpr found.proper, length, found.closed, ?_, rfl, ?_⟩
  · have first := found.distinct
    rw [List.dropLast_eq_take, length, Nat.add_sub_cancel] at first
    exact first
  · intro i inside
    obtain ⟨name, struct, path, at_i, declared, held, next, span⟩ := found.trail.edge i inside
    have named := name_of_findStruct? declared
    exact ⟨struct, path, mem_structs.mp (mem_structs_of_findStruct? declared), named ▸ at_i,
      StructDef.mem_contained.mp held, next, span⟩

/-- A reference of one segment at an offset of an unnamed source. -/
def referenceAt (name : String) (offset : Nat) : Path :=
  ⟨[name], .empty ⟨offset, 0, offset, ⟨"", ""⟩⟩⟩

/-- A struct whose members are the references. -/
def structOf (name : String) (references : List Path) : Declaration :=
  .struct ⟨⟨name, .empty (.start ⟨"", ""⟩)⟩, .fixed .big, references.map fun path =>
    .member ⟨⟨path.name, path.span⟩, ⟨.plain (.named path), .fixed .big, none⟩⟩⟩

/-- Four structs, of which the second and the third contain each other. -/
def ringBelowRoot : List Declaration :=
  [structOf "root" [referenceAt "a" 1], structOf "a" [referenceAt "b" 2],
   structOf "b" [referenceAt "c" 3, referenceAt "a" 4], structOf "c" []]

theorem recursiveStruct_closes_ring :
    ofDeclarations ringBelowRoot =
      .error (.recursiveStruct [(referenceAt "b" 2).span, (referenceAt "a" 4).span] ["a", "b", "a"]) ∧
    ∃ struct path, .struct struct ∈ ringBelowRoot ∧ struct.name.text = "b" ∧ struct.Contains path ∧
      path.name = "a" ∧ path.span = (referenceAt "a" 4).span := by
  have failed : ofDeclarations ringBelowRoot = .error
      (.recursiveStruct [(referenceAt "b" 2).span, (referenceAt "a" 4).span] ["a", "b", "a"]) := by
    cbv
  obtain ⟨_, k, _, length, _, _, _, edges⟩ := recursiveStruct_closes failed
  have two : k = 2 := by simpa using length.symm
  obtain ⟨struct, path, present, name, contains, next, span⟩ := edges 1 (by omega)
  simp only [List.getElem?_cons_succ, List.getElem?_cons_zero, Option.some.injEq] at name next span
  exact ⟨failed, struct, path, present, name.symm, contains, next.symm, span.symm⟩

end Schema

end RecordLayout
