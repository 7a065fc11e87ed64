import Mathlib
import RecordLayout.Compile
import RecordLayout.Proofs.Schema.Resolution

/-! Which members are present together. A group is compared with all that is always present, but never with
a group of another selection, although one group of each is there at the same time. Names of members are
thus distinct in a record just when the groups that are present have no name in common. The members of
bitfields are compared with nothing. -/

namespace RecordLayout

/-- The groups that are present when one case of each selection is chosen. -/
inductive StructItem.Picks : List StructItem → List (List Member) → Prop where
  | none : Picks [] []
  | member {member items picked} (others : Picks items picked) : Picks (.member member :: items) picked
  | single {selection name cases items picked} (shape : selection.selected = .single name cases)
      (others : Picks items picked) : Picks (.selection selection :: items) picked
  | group {selection cases case items picked} (shape : selection.selected = .groups cases)
      (chosen : case ∈ cases) (others : Picks items picked) :
      Picks (.selection selection :: items) (case.body :: picked)

/-- What the members of a group are called. -/
def Member.texts (group : List Member) : List String :=
  group.map (·.name.text)

namespace StructDef

variable {struct : StructDef} {picked : List (List Member)}

/-- What the members are called that are present together. -/
def presentTexts (struct : StructDef) (picked : List (List Member)) : List String :=
  struct.topNames.map Name.text ++ picked.flatMap Member.texts

theorem mem_groups_of_picks {items : List StructItem} (picks : StructItem.Picks items picked) :
    ∀ group ∈ picked, ∃ selection cases case, .selection selection ∈ items ∧
      selection.selected = .groups cases ∧ case ∈ cases ∧ case.body = group := by
  induction picks with
  | none => simp
  | member _ ih | single _ _ ih =>
    intro group member
    obtain ⟨selection, cases, case, present, found⟩ := ih group member
    exact ⟨selection, cases, case, List.mem_cons_of_mem _ present, found⟩
  | @group selection cases case _ _ shape chosen _ ih =>
    intro group member
    rcases List.mem_cons.mp member with rfl | member
    · exact ⟨selection, cases, case, List.mem_cons_self, shape, chosen, rfl⟩
    · obtain ⟨selection, cases, case, present, found⟩ := ih group member
      exact ⟨selection, cases, case, List.mem_cons_of_mem _ present, found⟩

/-- Each of the groups has distinct names and none of those always present. -/
theorem DistinctNames.of_picks (distinct : struct.DistinctNames) (picks : StructItem.Picks struct.items picked) :
    ∀ group ∈ picked, (Member.texts group).Nodup ∧
      (struct.topNames.map Name.text).Disjoint (Member.texts group) := by
  intro group member
  obtain ⟨selection, cases, case, present, shape, chosen, rfl⟩ := mem_groups_of_picks picks group member
  have whole := distinct.group selection cases case present shape chosen
  rw [List.map_append, List.map_map] at whole
  obtain ⟨_, inside, apart⟩ := List.nodup_append'.mp whole
  exact ⟨inside, apart⟩

/-- Only groups that are present together can still have a name in common. -/
theorem presentTexts_nodup_iff (distinct : struct.DistinctNames) (picks : StructItem.Picks struct.items picked) :
    (struct.presentTexts picked).Nodup ↔
      picked.Pairwise fun first second => (Member.texts first).Disjoint (Member.texts second) := by
  have groups := distinct.of_picks picks
  have apart : (struct.topNames.map Name.text).Disjoint (picked.flatMap Member.texts) := by
    intro text top member
    obtain ⟨group, present, inside⟩ := List.mem_flatMap.mp member
    exact (groups group present).2 top inside
  rw [presentTexts, List.nodup_append', List.nodup_flatMap]
  constructor
  · exact fun ⟨_, ⟨_, disjoint⟩, _⟩ => disjoint
  · exact fun disjoint => ⟨distinct.top, ⟨fun group member => (groups group member).1, disjoint⟩, apart⟩

end StructDef

/-! Members of bitfields. -/

/-- The declaration with other members, if it is a bitfield. -/
def Declaration.withMembers (members : BitfieldDef → List BitfieldMember) : Declaration → Declaration
  | .struct declared => .struct declared
  | .bitfield declared => .bitfield { declared with members := members declared }

/-- A walk looks at the structs alone. -/
theorem Walk.run_of_structs {schema other : Schema} (same : schema.structs = other.structs) (walk : Walk) :
    walk.run schema = walk.run other := by
  have steps (walk : Walk) : walk.step schema = walk.step other := by
    simp only [step, Schema.findStruct?, same]
  fun_induction run schema walk with
  | case1 walk failure stepped => rw [run_eq, ← steps, stepped]
  | case2 walk stepped => rw [run_eq, ← steps, stepped]
  | case3 walk next stepped ih => rw [run_eq other, ← steps, stepped, ih]

namespace Schema

/-- The checks of types and cycles look at the structs and at what is declared. -/
theorem checkStruct_of_structs {schema other : Schema} (same : schema.structs = other.structs)
    (declared : ∀ name, schema.declares name = other.declares name) : schema.checkStruct = other.checkStruct := by
  funext finished struct
  have infos : schema.checkInfo struct = other.checkInfo struct := by
    funext finished info
    simp only [checkInfo, declared, Walk.run_of_structs same]
  rw [checkStruct, checkStruct, infos]

variable {declarations : List Declaration} {members : BitfieldDef → List BitfieldMember}

theorem structs_withMembers :
    (Schema.mk (declarations.map (·.withMembers members))).structs = (Schema.mk declarations).structs := by
  rw [structs, structs, List.filterMap_map]
  congr 1
  funext declared
  cases declared <;> rfl

theorem names_withMembers :
    (declarations.map (·.withMembers members)).map (·.name.text) = declarations.map (·.name.text) := by
  rw [List.map_map]
  congr 1
  funext declared
  cases declared <;> rfl

theorem declares_withMembers (name : String) :
    (Schema.mk (declarations.map (·.withMembers members))).declares name = (Schema.mk declarations).declares name := by
  have declares (schema : Schema) : schema.Declares name ↔ name ∈ schema.declarations.map (·.name.text) := by
    simp [Declares]
  rw [Bool.eq_iff_iff, declares_eq_true, declares_eq_true, declares, declares, names_withMembers]

/-- Whatever the members of bitfields, their declarations are accepted all the same. -/
theorem accepts_withMembers :
    (∃ schema, ofDeclarations (declarations.map (·.withMembers members)) = .ok schema) ↔
      ∃ schema, ofDeclarations declarations = .ok schema := by
  have present (struct : StructDef) :
      .struct struct ∈ declarations.map (·.withMembers members) ↔ .struct struct ∈ declarations := by
    have same := @mem_structs ⟨declarations.map (·.withMembers members)⟩ struct
    rw [structs_withMembers, mem_structs] at same
    exact same.symm
  simp only [ofDeclarations_eq_ok, names_withMembers, structs_withMembers, present,
    checkStruct_of_structs structs_withMembers declares_withMembers]

end Schema

theorem accepted_of_compile {nesting : Nat} {source : Source} {schema : Schema}
    (compiled : compile nesting source = .ok schema) : Schema.ofDeclarations schema.declarations = .ok schema := by
  obtain ⟨declarations, _, checked⟩ := Outcome.bind_eq_ok.mp compiled
  obtain ⟨_, _, rest⟩ := Outcome.bind_eq_ok.mp checked
  obtain ⟨_, _, rest⟩ := Outcome.bind_eq_ok.mp rest
  obtain ⟨_, _, rest⟩ := Outcome.bind_eq_ok.mp rest
  cases rest
  exact checked

/-- What is distinct in a schema that has been compiled: the names of declarations, and in a struct the names
of members that are present together, unless groups of several selections share one. Bitfields might have
any other members. -/
theorem distinct_of_compile {nesting : Nat} {source : Source} {schema : Schema}
    (compiled : compile nesting source = .ok schema) :
    (schema.declarations.map (·.name.text)).Nodup ∧
      (∀ struct picked, .struct struct ∈ schema.declarations → StructItem.Picks struct.items picked →
        ((struct.presentTexts picked).Nodup ↔
          picked.Pairwise fun first second => (Member.texts first).Disjoint (Member.texts second))) ∧
      ∀ members, ∃ other, Schema.ofDeclarations (schema.declarations.map (·.withMembers members)) = .ok other := by
  have accepted := accepted_of_compile compiled
  obtain ⟨distinct, structs, _⟩ := Schema.ofDeclarations_eq_ok.mp ⟨schema, accepted⟩
  refine ⟨distinct, ?_, fun members => Schema.accepts_withMembers.mpr ⟨schema, accepted⟩⟩
  exact fun struct picked present picks => StructDef.presentTexts_nodup_iff (structs struct present) picks

/-- A bitfield with two members `x`, and a struct with two selections, each with a group that has an `x`. -/
def repeatedSource : Source :=
  ⟨"", "bitfield b\x7bx,x,\x7dstruct s\x7bmatch(1)\x7b2:\x7buint8 x,\x7d,\x7d,match(1)\x7b2:\x7buint8 x,\x7d,\x7d,\x7d"⟩

def repeatedSpan (start stop : Nat) : Span :=
  ⟨⟨start, 0, start, repeatedSource⟩, ⟨stop, 0, stop, repeatedSource⟩⟩

def repeatedBits : BitfieldDef :=
  ⟨⟨"b", repeatedSpan 9 10⟩, none, [⟨⟨"x", repeatedSpan 11 12⟩, .int 1 (repeatedSpan 11 12)⟩,
    ⟨⟨"x", repeatedSpan 13 14⟩, .int 1 (repeatedSpan 13 14)⟩]⟩

/-- The group of a selection at an offset. -/
def repeatedGroup (offset : Nat) : List Member :=
  [⟨⟨"x", repeatedSpan (offset + 18) (offset + 19)⟩,
    .plain (.data ⟨.unsigned .w8, none, repeatedSpan (offset + 12) (offset + 17)⟩), .fixed .big, none⟩]

def repeatedCase (offset : Nat) : Case (List Member) :=
  ⟨.int 2 (repeatedSpan (offset + 9) (offset + 10)), repeatedGroup offset⟩

def repeatedSelection (offset : Nat) : Selection :=
  ⟨.int 1 (repeatedSpan (offset + 6) (offset + 7)), .groups [repeatedCase offset], repeatedSpan offset (offset + 5)⟩

def repeatedStruct : StructDef :=
  ⟨⟨"s", repeatedSpan 23 24⟩, .fixed .big, [.selection (repeatedSelection 25), .selection (repeatedSelection 49)]⟩

theorem compile_repeatedSource :
    compile 1 repeatedSource = .ok ⟨[.bitfield repeatedBits, .struct repeatedStruct]⟩ := by
  cbv

theorem picks_repeatedStruct : StructItem.Picks repeatedStruct.items [repeatedGroup 25, repeatedGroup 49] := by
  have only (offset : Nat) : repeatedCase offset ∈ [repeatedCase offset] := List.mem_singleton_self _
  exact .group rfl (only 25) (.group rfl (only 49) .none)

theorem distinct_of_repeatedSource :
    compile 1 repeatedSource = .ok ⟨[.bitfield repeatedBits, .struct repeatedStruct]⟩ ∧
      ([repeatedBits.name.text, repeatedStruct.name.text]).Nodup ∧
      ((repeatedStruct.presentTexts [repeatedGroup 25, repeatedGroup 49]).Nodup ↔
        [repeatedGroup 25, repeatedGroup 49].Pairwise fun first second =>
          (Member.texts first).Disjoint (Member.texts second)) := by
  obtain ⟨names, structs, _⟩ := distinct_of_compile compile_repeatedSource
  exact ⟨compile_repeatedSource, names, structs _ _ (by simp) picks_repeatedStruct⟩

/-- Neither the members that are present together nor those of a bitfield always have distinct names. -/
theorem repeated_of_compile :
    (¬ ∀ (nesting : Nat) (source : Source) (schema : Schema), compile nesting source = .ok schema →
      ∀ struct picked, .struct struct ∈ schema.declarations → StructItem.Picks struct.items picked →
        (struct.presentTexts picked).Nodup) ∧
    ¬ ∀ (nesting : Nat) (source : Source) (schema : Schema), compile nesting source = .ok schema →
      ∀ bitfield, .bitfield bitfield ∈ schema.declarations → (bitfield.members.map (·.name.text)).Nodup := by
  constructor
  · intro always
    have present := always _ _ _ compile_repeatedSource repeatedStruct _ (by simp) picks_repeatedStruct
    exact absurd present (by decide)
  · intro always
    have members := always _ _ _ compile_repeatedSource repeatedBits (by simp)
    exact absurd members (by decide)

end RecordLayout
