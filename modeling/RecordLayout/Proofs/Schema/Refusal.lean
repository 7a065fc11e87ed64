import RecordLayout.Proofs.Schema.SourceOrder

/-! Which mistake is reported. The checks of a schema come one after another and stop at the first failure, so a name
that two declarations share goes before one that is used twice in a struct, and this before a type that is not declared.
Of several mistakes of one kind the first in source order is reported. Only a cycle can come before an undeclared type,
since types and cycles are checked in one loop. -/

namespace RecordLayout

open Outcome (First)

/-! Names. -/

namespace Name

/-- Several of the names have the text. -/
def Repeated (names : List Name) (text : String) : Prop :=
  1 < (names.map Name.text).count text

instance (names : List Name) (text : String) : Decidable (Repeated names text) :=
  inferInstanceAs (Decidable (1 < _))

/-- Of the texts that several names have it is the one that occurs first, and the spans are those of all names that
have it. -/
def FirstRepeated (names : List Name) (spans : List Span) (text : String) : Prop :=
  (∃ name, First (fun name => Repeated names name.text) names name ∧ text = name.text) ∧
    spans = (names.filter (·.text = text)).map Name.span

variable {names : List Name}

theorem repeated_cons {name : Name} {text : String} :
    Repeated (name :: names) text ↔ if name.text = text then text ∈ names.map Name.text else Repeated names text := by
  rw [Repeated, List.map_cons, List.count_cons]
  by_cases same : name.text = text
  · simp [same, List.count_pos_iff]
  · simp [same, Repeated]

theorem firstRepeated?_eq_some {name : Name} :
    firstRepeated? names = some name ↔ First (fun name => Repeated names name.text) names name := by
  induction names with
  | nil => simp [firstRepeated?, First]
  | cons head rest ih =>
    have again : Repeated (head :: rest) head.text ↔ rest.any (·.text == head.text) = true := by
      simp [repeated_cons]
    rw [firstRepeated?, Outcome.first_cons, again]
    split
    next => simp [*, eq_comm]
    next fresh =>
      -- No later name has the text of the first one, so the first one adds to none of their counts.
      have same : ∀ other ∈ rest, Repeated (head :: rest) other.text ↔ Repeated rest other.text := by
        intro other member
        have apart : head.text ≠ other.text := by
          intro same
          exact fresh (by simpa using ⟨other, member, same.symm⟩)
        rw [repeated_cons, if_neg apart]
      rw [ih, Outcome.first_congr same]
      simp [fresh]

theorem checkDistinct_eq_error_iff {error : List Span → String → CompileError} {failure : CompileError} :
    checkDistinct names error = .error failure ↔
      ∃ spans text, FirstRepeated names spans text ∧ failure = error spans text := by
  have same (text : String) : spansOf text names = (names.filter (·.text = text)).map Name.span := by
    simp [spansOf, beq_eq_decide]
  unfold checkDistinct FirstRepeated
  split
  next name found =>
    have first := firstRepeated?_eq_some.mp found
    rw [Except.error.injEq]
    constructor
    · rintro rfl
      exact ⟨_, _, ⟨⟨name, first, rfl⟩, same _⟩, rfl⟩
    · rintro ⟨_, _, ⟨⟨other, also, rfl⟩, rfl⟩, rfl⟩
      rw [first.unique also, same]
  next none =>
    constructor
    · intro failed
      cases failed
    · rintro ⟨_, _, ⟨⟨name, first, _⟩, _⟩, _⟩
      rw [firstRepeated?_eq_some.mpr first] at none
      cases none

theorem exists_firstRepeated : (∃ spans text, FirstRepeated names spans text) ↔ ¬ (names.map Name.text).Nodup := by
  rw [← firstRepeated?_eq_none, ← ne_eq, Option.ne_none_iff_exists']
  simp only [firstRepeated?_eq_some, FirstRepeated]
  constructor
  · rintro ⟨_, _, ⟨name, first, _⟩, _⟩
    exact ⟨name, first⟩
  · rintro ⟨name, first⟩
    exact ⟨_, _, ⟨name, first, rfl⟩, rfl⟩

end Name

/-! Members. -/

namespace StructDef

/-- The names that are there together when a group is. -/
def namesWith (struct : StructDef) (group : List Member) : List Name :=
  struct.outerNames ++ group.map Member.name

/-- The name that is reported of a struct, and where it is used: one that is used twice outside groups, or else one
that is used twice outside groups and in one group together, the first such group. -/
inductive Repeats (struct : StructDef) (spans : List Span) (text : String) : Prop where
  | outer (repeated : Name.FirstRepeated struct.outerNames spans text) : Repeats struct spans text
  | group {group} (distinct : (struct.outerNames.map Name.text).Nodup)
      (first : struct.GroupAt.First (fun group => ¬ ((struct.namesWith group).map Name.text).Nodup) group)
      (repeated : Name.FirstRepeated (struct.namesWith group) spans text) : Repeats struct spans text

end StructDef

namespace Schema

variable {struct : StructDef} {failure : CompileError}

theorem checkMemberNames_eq_error_iff :
    checkMemberNames struct = .error failure ↔
      ∃ spans text, struct.Repeats spans text ∧ failure = .duplicateMember spans text struct.name.text := by
  have scopes : struct.scopes =
      struct.outerNames :: (struct.items.flatMap StructItem.groups).map struct.namesWith := by
    simp only [StructDef.scopes, struct.flatMap_sharedNames, struct.flatMap_groupNames, List.map_map]
    rfl
  rw [checkMemberNames, Outcome.forM_eq_error_iff, scopes]
  simp only [Outcome.first_cons, Outcome.first_map, struct.lists_groups.first, ne_eq, Name.checkDistinct_eq_ok,
    Name.checkDistinct_eq_error_iff]
  constructor
  · rintro ⟨_, ⟨_, rfl⟩ | ⟨distinct, group, first, rfl⟩, spans, text, repeated, rfl⟩
    · exact ⟨spans, text, .outer repeated, rfl⟩
    · exact ⟨spans, text, .group (Classical.not_not.mp distinct) first repeated, rfl⟩
  · rintro ⟨spans, text, repeats, rfl⟩
    cases repeats with
    | outer repeated =>
      exact ⟨_, .inl ⟨Name.exists_firstRepeated.mp ⟨_, _, repeated⟩, rfl⟩, spans, text, repeated, rfl⟩
    | group distinct first repeated =>
      exact ⟨_, .inr ⟨Classical.not_not.mpr distinct, _, first, rfl⟩, spans, text, repeated, rfl⟩

theorem exists_repeats : (∃ spans text, struct.Repeats spans text) ↔ ¬ struct.DistinctNames := by
  rw [← checkMemberNames_eq_ok]
  cases checked : checkMemberNames struct with
  | ok checks =>
    refine iff_of_false ?_ (not_not_intro rfl)
    rintro ⟨spans, text, repeats⟩
    cases checked.symm.trans (checkMemberNames_eq_error_iff.mpr ⟨spans, text, repeats, rfl⟩)
  | error failure =>
    obtain ⟨spans, text, repeats, _⟩ := checkMemberNames_eq_error_iff.mp checked
    exact iff_of_true ⟨spans, text, repeats⟩ nofun

/-- The declaration is a struct in which a name is used twice. -/
inductive Crowded : Declaration → Prop where
  | mk {struct : StructDef} (repeated : ¬ struct.DistinctNames) : Crowded (.struct struct)

theorem first_structs_iff {declarations : List Declaration} :
    First (fun struct => ¬ struct.DistinctNames) (Schema.mk declarations).structs struct ↔
      First Crowded declarations (.struct struct) := by
  induction declarations with
  | nil => simp [structs, First]
  | cons declaration declarations ih =>
    simp only [structs] at ih ⊢
    cases declaration with
    | struct other =>
      have crowded : Crowded (.struct other) ↔ ¬ other.DistinctNames := by
        constructor
        · rintro ⟨repeated⟩
          exact repeated
        · exact .mk
      rw [List.filterMap_cons_some (f := Declaration.struct?) rfl, Outcome.first_cons, ih, Outcome.first_cons, crowded,
        Declaration.struct.injEq]
    | bitfield bitfield =>
      have calm : ¬ Crowded (.bitfield bitfield) := by
        intro crowded
        cases crowded
      rw [List.filterMap_cons_none (f := Declaration.struct?) rfl, ih, Outcome.first_cons]
      simp [calm]

theorem checkMembers_eq_error_iff {declarations : List Declaration} :
    (Schema.mk declarations).structs.forM checkMemberNames = .error failure ↔
      ∃ struct, First Crowded declarations (.struct struct) ∧
        ∃ spans text, struct.Repeats spans text ∧ failure = .duplicateMember spans text struct.name.text := by
  rw [Outcome.forM_eq_error_iff]
  refine exists_congr fun struct => and_congr ?_ checkMemberNames_eq_error_iff
  rw [← first_structs_iff]
  exact Outcome.first_congr fun struct _ => not_congr checkMemberNames_eq_ok

/-! All checks. -/

variable {declarations : List Declaration}

/-- The first reference that names no declaration, and the struct that it stands in. -/
def Misses (declarations : List Declaration) (struct : StructDef) (path : Path) : Prop :=
  (Schema.mk declarations).RefersAt.First (fun reference => ¬ (Schema.mk declarations).Declares reference.2.name)
    (struct, path)

theorem firstUndeclared_iff {path : Path} :
    (Schema.mk declarations).FirstUndeclared struct path ↔ Misses declarations struct path :=
  (Schema.mk declarations).lists_references.first

/-- What is reported of declarations where it is no cycle. -/
structure Reports (declarations : List Declaration) (result : Except CompileError Schema) : Prop where
  /-- A shared name of declarations goes before all else. -/
  shared : (∃ spans name, result = .error (.duplicateDeclaration spans name)) ↔
    ¬ (declarations.map (·.name.text)).Nodup
  declaration : ∀ spans name, result = .error (.duplicateDeclaration spans name) ↔
    Name.FirstRepeated (declarations.map Declaration.name) spans name
  /-- Next is a name that is used twice in a struct. -/
  crowded : (∃ spans name owner, result = .error (.duplicateMember spans name owner)) ↔
    (declarations.map (·.name.text)).Nodup ∧ ∃ struct, .struct struct ∈ declarations ∧ ¬ struct.DistinctNames
  member : ∀ spans name owner, result = .error (.duplicateMember spans name owner) ↔
    (declarations.map (·.name.text)).Nodup ∧
    ∃ struct, First Crowded declarations (.struct struct) ∧ struct.Repeats spans name ∧ owner = struct.name.text
  /-- Last is a type that is not declared, unless a cycle is found before it. -/
  type : ∀ span name owner, result = .error (.unknownType span name owner) ↔
    (declarations.map (·.name.text)).Nodup ∧
    (∀ struct, .struct struct ∈ declarations → struct.DistinctNames) ∧
    (∃ struct path, Misses declarations struct path ∧
      span = path.span ∧ name = path.name ∧ owner = struct.name.text) ∧
    ∀ spans cycle, result ≠ .error (.recursiveStruct spans cycle)

theorem duplicateDeclaration_iff {spans : List Span} {name : String} :
    ofDeclarations declarations = .error (.duplicateDeclaration spans name) ↔
      Name.FirstRepeated (declarations.map Declaration.name) spans name := by
  rw [ofDeclarations_eq_error_iff, checkDeclarationNames, Name.checkDistinct_eq_error_iff, checkMembers_eq_error_iff]
  constructor
  · rintro (⟨_, _, repeated, same⟩ | ⟨names, ⟨_, _, _, _, _, same⟩ | ⟨_, failed⟩⟩)
    · cases same
      exact repeated
    · cases same
    · rcases checkStructs_failed names failed with ⟨_, _, _, same⟩ | ⟨_, _, same, _⟩ <;> cases same
  · exact fun repeated => .inl ⟨spans, name, repeated, rfl⟩

theorem duplicateMember_iff {spans : List Span} {name owner : String} :
    ofDeclarations declarations = .error (.duplicateMember spans name owner) ↔
      (declarations.map (·.name.text)).Nodup ∧
      ∃ struct, First Crowded declarations (.struct struct) ∧ struct.Repeats spans name ∧
        owner = struct.name.text := by
  rw [ofDeclarations_eq_error_iff, checkDeclarationNames, Name.checkDistinct_eq_error_iff, checkMembers_eq_error_iff]
  constructor
  · rintro (⟨_, _, _, same⟩ | ⟨names, ⟨struct, first, _, _, repeats, same⟩ | ⟨_, failed⟩⟩)
    · cases same
    · cases same
      exact ⟨names, struct, first, repeats, rfl⟩
    · rcases checkStructs_failed names failed with ⟨_, _, _, same⟩ | ⟨_, _, same, _⟩ <;> cases same
  · rintro ⟨names, struct, first, repeats, rfl⟩
    exact .inr ⟨names, .inl ⟨struct, first, spans, name, repeats, rfl⟩⟩

/-- Where a type is not declared, the loop over the structs meets the first such type, or a cycle before it. -/
theorem checkStructs_of_undeclared {path : Path} (names : (declarations.map (·.name.text)).Nodup)
    (first : (Schema.mk declarations).FirstUndeclared struct path) :
    (Schema.mk declarations).structs.foldlM (Schema.mk declarations).checkStruct [] =
        .error (.unknownType path.span path.name struct.name.text) ∨
      ∃ spans cycle, (Schema.mk declarations).structs.foldlM (Schema.mk declarations).checkStruct [] =
        .error (.recursiveStruct spans cycle) := by
  cases ran : (Schema.mk declarations).structs.foldlM (Schema.mk declarations).checkStruct [] with
  | ok finished =>
    obtain ⟨other, present, stands⟩ := List.mem_flatMap.mp first.mem
    obtain ⟨_, _, passed⟩ := Outcome.foldlM_passed ran other present
    exact absurd (checkStruct_passed passed _ stands) first.there
  | error failure =>
    rcases checkStructs_failed names ran with ⟨other, reference, also, rfl⟩ | ⟨spans, cycle, rfl, _⟩
    · cases first.unique also
      exact .inl rfl
    · exact .inr ⟨spans, cycle, rfl⟩

theorem unknownType_iff {span : Span} {name owner : String} :
    ofDeclarations declarations = .error (.unknownType span name owner) ↔
      (declarations.map (·.name.text)).Nodup ∧
      (∀ struct, .struct struct ∈ declarations → struct.DistinctNames) ∧
      (∃ struct path, Misses declarations struct path ∧
        span = path.span ∧ name = path.name ∧ owner = struct.name.text) ∧
      ∀ spans cycle, ofDeclarations declarations ≠ .error (.recursiveStruct spans cycle) := by
  simp only [← firstUndeclared_iff]
  constructor
  · intro reported
    refine (ofDeclarations_eq_error_iff.mp reported).elim (fun failed => ?_) fun ⟨names, others⟩ => ?_
    · obtain ⟨_, _, same⟩ := checkDeclarationNames_eq_error failed
      cases same
    · rcases others with failed | ⟨members, failed⟩
      · obtain ⟨_, _, _, _, _, same⟩ := checkMembers_eq_error_iff.mp failed
        cases same
      · rcases checkStructs_failed names failed with ⟨struct, path, first, same⟩ | ⟨_, _, same, _⟩
        · cases same
          exact ⟨names, members, ⟨struct, path, first, rfl, rfl, rfl⟩, by simp [reported]⟩
        · cases same
  · rintro ⟨names, members, ⟨struct, path, first, rfl, rfl, rfl⟩, acyclic⟩
    have reported {failure : CompileError}
        (failed : (Schema.mk declarations).structs.foldlM (Schema.mk declarations).checkStruct [] = .error failure) :
        ofDeclarations declarations = .error failure :=
      ofDeclarations_eq_error_iff.mpr (.inr ⟨names, .inr ⟨members, failed⟩⟩)
    rcases checkStructs_of_undeclared names first with unknown | ⟨spans, cycle, closed⟩
    · exact reported unknown
    · exact absurd (reported closed) (acyclic spans cycle)

theorem reports_ofDeclarations (declarations : List Declaration) : Reports declarations (ofDeclarations declarations) := by
  refine ⟨?_, fun _ _ => duplicateDeclaration_iff, ?_, fun _ _ _ => duplicateMember_iff, fun _ _ _ => unknownType_iff⟩
  · simp only [duplicateDeclaration_iff, Name.exists_firstRepeated, List.map_map]
    rfl
  · simp only [duplicateMember_iff]
    constructor
    · rintro ⟨_, _, _, names, struct, first, _⟩
      obtain ⟨repeated⟩ := first.there
      exact ⟨names, struct, first.mem, repeated⟩
    · rintro ⟨names, struct, present, repeated⟩
      obtain ⟨declaration, first⟩ := Outcome.exists_first.mpr ⟨_, present, Crowded.mk repeated⟩
      obtain ⟨repeated⟩ := first.there
      obtain ⟨spans, name, repeats⟩ := exists_repeats.mpr repeated
      exact ⟨spans, name, _, names, _, first, repeats, rfl⟩

/-! Declarations with several mistakes of one kind. The one that comes first is reported. -/

/-- A name at an offset of an unnamed source. -/
def nameAt (text : String) (offset : Nat) : Name :=
  ⟨text, .empty ⟨offset, 0, offset, ⟨"", ""⟩⟩⟩

def memberAt (text : String) (offset : Nat) (type : MemberType) : Member :=
  ⟨nameAt text offset, type, .fixed .big, none⟩

def byteAt (text : String) (offset : Nat) : Member :=
  memberAt text offset (.plain (.data ⟨.unsigned .w8, none, (nameAt text offset).span⟩))

/-- A selection of groups. -/
def selectionOf (groups : List (List Member)) : StructItem :=
  let one : Expr := .int 1 (nameAt "" 0).span
  .selection ⟨one, .groups (groups.map (⟨one, ·⟩)), one.span⟩

/-- Both `b` and `a` are shared. -/
def sharedNames : List Declaration :=
  [.bitfield ⟨nameAt "c" 1, none, []⟩, .bitfield ⟨nameAt "b" 2, none, []⟩, .bitfield ⟨nameAt "a" 3, none, []⟩,
    .bitfield ⟨nameAt "a" 4, none, []⟩, .bitfield ⟨nameAt "b" 5, none, []⟩]

/-- Two groups use names twice, and the first of them two names. -/
def crowdedStruct : StructDef :=
  ⟨nameAt "crowded" 1, .fixed .big,
    [selectionOf [[byteAt "a" 2]], .member (byteAt "b" 3),
      selectionOf [[byteAt "c" 4], [byteAt "d" 5, byteAt "b" 6, byteAt "d" 7], [byteAt "e" 8, byteAt "e" 9]]]⟩

def crowdedStructs : List Declaration :=
  [structOf "leaf" [], .struct crowdedStruct,
    .struct ⟨nameAt "double" 10, .fixed .big, [.member (byteAt "a" 11), .member (byteAt "a" 12)]⟩]

/-- Of the types that are mentioned only the first one is declared. -/
def undeclaredTypes : List Declaration :=
  let one : Expr := .int 1 (nameAt "" 0).span
  let either : MemberType :=
    .chosen ⟨.relation one .equal one, .named (referenceAt "q" 2), .named (referenceAt "r" 3), one.span⟩
  let referrer : StructDef := ⟨nameAt "referrer" 0, .fixed .big,
    [.member (memberAt "a" 0 (.plain (.named (referenceAt "leaf" 1)))),
      selectionOf [[memberAt "b" 0 either], [memberAt "c" 0 (.plain (.named (referenceAt "s" 4)))]]]⟩
  [structOf "leaf" [], .struct referrer, structOf "last" [referenceAt "t" 5]]

theorem reports_ofSeveral :
    ofDeclarations sharedNames = .error (.duplicateDeclaration [(nameAt "b" 2).span, (nameAt "b" 5).span] "b") ∧
    ofDeclarations crowdedStructs =
      .error (.duplicateMember [(nameAt "b" 3).span, (nameAt "b" 6).span] "b" "crowded") ∧
    ofDeclarations undeclaredTypes = .error (.unknownType (referenceAt "q" 2).span "q" "referrer") ∧
    ∃ struct path, Misses undeclaredTypes struct path ∧ path.name = "q" ∧ struct.name.text = "referrer" := by
  have shared : Name.FirstRepeated (sharedNames.map Declaration.name) [(nameAt "b" 2).span, (nameAt "b" 5).span] "b" :=
    ⟨⟨_, ⟨[_], _, rfl, by decide, by decide⟩, rfl⟩, by decide⟩
  have repeats : crowdedStruct.Repeats [(nameAt "b" 3).span, (nameAt "b" 6).span] "b" := by
    refine .group (by decide) (crowdedStruct.lists_groups.first.mp ⟨[_, _], [_], rfl, by decide, by decide⟩) ?_
    exact ⟨⟨_, ⟨[], _, rfl, by decide, by decide⟩, rfl⟩, by decide⟩
  have crowded : First Crowded crowdedStructs (.struct crowdedStruct) := by
    refine ⟨[_], [_], rfl, .mk (exists_repeats.mp ⟨_, _, repeats⟩), List.forall_mem_singleton.mpr ?_⟩
    rintro ⟨repeated⟩
    exact repeated (checkMemberNames_eq_ok.mp rfl)
  have unknown : ofDeclarations undeclaredTypes = .error (.unknownType (referenceAt "q" 2).span "q" "referrer") := by
    cbv
  obtain ⟨_, _, ⟨struct, path, misses, _, name, owner⟩, _⟩ :=
    ((reports_ofDeclarations undeclaredTypes).type _ _ _).mp unknown
  exact ⟨((reports_ofDeclarations sharedNames).declaration _ _).mpr shared,
    ((reports_ofDeclarations crowdedStructs).member _ _ _).mpr ⟨by decide, crowdedStruct, crowded, repeats, rfl⟩,
    unknown, struct, path, misses, name.symm, owner.symm⟩

end Schema

end RecordLayout
