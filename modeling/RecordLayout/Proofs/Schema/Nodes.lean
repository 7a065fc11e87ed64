import RecordLayout.Outline
import RecordLayout.Proofs.Writer.Rows

/-! The outline of a schema as a list. Declarations, members, selections and cases are nodes of a tree; what is
written is their texts, each on a line of its own, as deep as the node stands, in the order of the tree. -/

namespace RecordLayout

open Text (Unbroken)
open Writer (Writes)

/-- A line of the outline, and where in the source that begins which it shows: the name of what is declared, the word
before a selection, or the value of a case. -/
structure Node extends Writer.Row where
  start : Position
deriving DecidableEq

/-! Nodes of a tree, each before the nodes below it. -/

def Member.node (depth : Nat) (member : Member) : Node :=
  ⟨⟨depth, member.name.text ++ ": " ++ member.info.text⟩, member.name.span.start⟩

def Selection.nodes (depth : Nat) (selection : Selection) : List Node :=
  match selection.selected with
  | .single name cases =>
    ⟨⟨depth, "match " ++ selection.condition.text ++ " -> " ++ name.text⟩, selection.span.start⟩ ::
      cases.map fun type => ⟨⟨depth + 1, type.value.text ++ " => " ++ type.body.text⟩, type.value.span.start⟩
  | .groups cases =>
    ⟨⟨depth, "match " ++ selection.condition.text⟩, selection.span.start⟩ :: cases.flatMap fun group =>
      ⟨⟨depth + 1, group.value.text ++ " =>"⟩, group.value.span.start⟩ :: group.body.map (Member.node (depth + 2))

def StructItem.nodes (depth : Nat) : StructItem → List Node
  | .member plain => [plain.node depth]
  | .selection cases => cases.nodes depth

def BitfieldMember.node (depth : Nat) (member : BitfieldMember) : Node :=
  ⟨⟨depth, member.name.text ++ ": " ++ member.size.foldedText⟩, member.name.span.start⟩

def Declaration.nodes : Declaration → List Node
  | .struct declared =>
    ⟨⟨0, "struct " ++ declared.name.text ++ " " ++ declared.order.text⟩, declared.name.span.start⟩ ::
      declared.items.flatMap (StructItem.nodes 1)
  | .bitfield declared =>
    ⟨⟨0, "bitfield " ++ declared.name.text ++ " (" ++ declared.size.text ++ ")"⟩, declared.name.span.start⟩ ::
      declared.members.map (BitfieldMember.node 1)

def Schema.nodes (schema : Schema) : List Node :=
  schema.declarations.flatMap Declaration.nodes

/-! What one line shows. -/

theorem Member.writes {member : Member} (meets : member.Meets .wellFormed) (unbroken : member.info.Unbroken) :
    Writes [member.outline] [(member.node 0).toRow] := by
  refine .line ?_ (by simp)
  simp only [Text.unbroken_append]
  exact ⟨⟨meets.name.unbroken, by decide⟩, unbroken.text meets.info⟩

theorem BitfieldMember.writes {member : BitfieldMember} (meets : member.Meets .wellFormed) :
    Writes [member.outline] [(member.node 0).toRow] := by
  refine .line ?_ (by simp)
  simp only [Text.unbroken_append]
  exact ⟨⟨meets.name.unbroken, by decide⟩, meets.size.unbroken_folded⟩

theorem Expr.readable_sumOr {none : Expr} {summands : List Expr} (last : none.Readable)
    (each : ∀ summand ∈ summands, summand.Readable) : (Expr.sumOr none summands).Readable := by
  induction summands with
  | nil => exact last
  | cons summand rest ih =>
    rw [List.forall_mem_cons] at each
    cases rest with
    | nil => exact each.1
    | cons => exact ⟨each.1, ih each.2⟩

theorem BitfieldDef.unbroken_size {bitfield : BitfieldDef} (meets : bitfield.Meets .wellFormed) :
    Unbroken bitfield.size.text := by
  have sizes : ∀ size ∈ bitfield.members.map BitfieldMember.size, size.Readable :=
    List.forall_mem_map.mpr fun member present => (meets.members member present).size
  rw [BitfieldDef.size]
  split
  next amount shape => exact Text.unbroken_append.mpr ⟨(meets.byteSize amount shape).unbroken_folded, by decide⟩
  next =>
    have total : bitfield.derivedBits.Readable := Expr.readable_sumOr trivial sizes
    exact Text.unbroken_append.mpr ⟨total.unbroken_folded, by decide⟩

/-! What trees show. -/

theorem Selection.nodes_deeper (selection : Selection) (depth : Nat) :
    (selection.nodes (depth + 1)).map Node.toRow = ((selection.nodes depth).map Node.toRow).map Writer.Row.deeper := by
  unfold Selection.nodes
  split
  · simp [Writer.Row.deeper]
  · simp [Writer.Row.deeper, Member.node, List.map_flatMap, Function.comp_def]

theorem StructItem.nodes_deeper (item : StructItem) (depth : Nat) :
    (item.nodes (depth + 1)).map Node.toRow = ((item.nodes depth).map Node.toRow).map Writer.Row.deeper := by
  cases item with
  | member plain => rfl
  | selection cases => exact cases.nodes_deeper depth

theorem Selection.writes {selection : Selection} (meets : selection.Meets .wellFormed)
    (single : ∀ name cases, selection.selected = .single name cases → ∀ type ∈ cases, type.body.Unbroken)
    (groups : ∀ cases, selection.selected = .groups cases → ∀ group ∈ cases, ∀ member ∈ group.body,
      member.info.Unbroken) :
    Writes selection.outline ((selection.nodes 0).map Node.toRow) := by
  have selected := meets.selected
  have head : Unbroken ("match " ++ selection.condition.text) :=
    Text.unbroken_append.mpr ⟨by decide, meets.condition.unbroken⟩
  rw [Selection.outline, Selection.nodes]
  cases shape : selection.selected with
  | single name cases =>
    rw [shape] at selected
    have types : Writes (cases.map fun type => .line (type.value.text ++ " => " ++ type.body.text))
        (cases.map fun type => ⟨0, type.value.text ++ " => " ++ type.body.text⟩) := by
      refine .map fun type present => .line ?_ (by simp)
      have line := selected.2.all type present
      simp only [Text.unbroken_append]
      exact ⟨⟨line.value.unbroken, by decide⟩, (single name cases shape type present).text line.body⟩
    have titled : Unbroken ("match " ++ selection.condition.text ++ " -> " ++ name.text) := by
      simp only [Text.unbroken_append] at head ⊢
      exact ⟨⟨head, by decide⟩, selected.1.unbroken⟩
    have all := types.below titled (by simp)
    simpa [Writer.Row.deeper, Function.comp_def] using all
  | groups cases =>
    rw [shape] at selected
    have parts : Writes
        (cases.flatMap fun group => [.line (group.value.text ++ " =>"), .indented (group.body.map Member.outline)])
        (cases.flatMap fun group =>
          ⟨0, group.value.text ++ " =>"⟩ :: (group.body.map fun member => (member.node 0).toRow).map Writer.Row.deeper) := by
      refine .flatMap fun group present => .below ?_ (by simp) (.map fun member inside => ?_)
      · exact Text.unbroken_append.mpr ⟨(selected.all group present).value.unbroken, by decide⟩
      · exact Member.writes ((selected.all group present).body.all member inside)
          (groups cases shape group present member inside)
    have all := parts.below head (by simp)
    simpa [Writer.Row.deeper, Function.comp_def, Member.node, List.map_flatMap] using all

theorem StructDef.writes {struct : StructDef} (meets : struct.Meets .wellFormed)
    (unbroken : ∀ info, struct.Uses info → info.Unbroken) :
    Writes struct.outline ((Declaration.nodes (.struct struct)).map Node.toRow) := by
  have items : Writes (struct.items.flatMap StructItem.outline)
      (struct.items.flatMap fun item => (item.nodes 0).map Node.toRow) := by
    refine .flatMap fun item present => ?_
    have asked := meets.items item present
    cases item with
    | member plain => exact Member.writes asked (unbroken _ (.plain present))
    | selection cases =>
      exact Selection.writes asked (fun _ _ shape _ chosen => unbroken _ (.single present shape chosen))
        fun _ shape _ chosen _ inside => unbroken _ (.group present shape chosen inside)
  have head : Unbroken ("struct " ++ struct.name.text ++ " " ++ struct.order.text) := by
    simp only [Text.unbroken_append]
    exact ⟨⟨⟨by decide, meets.name.unbroken⟩, by decide⟩, meets.order.unbroken⟩
  have all := items.below head (by simp)
  rw [List.map_flatMap] at all
  simpa only [StructDef.outline, Declaration.nodes, List.map_cons, List.map_flatMap, StructItem.nodes_deeper] using all

theorem BitfieldDef.writes {bitfield : BitfieldDef} (meets : bitfield.Meets .wellFormed) :
    Writes bitfield.outline ((Declaration.nodes (.bitfield bitfield)).map Node.toRow) := by
  have members : Writes (bitfield.members.map BitfieldMember.outline)
      (bitfield.members.map fun member => (member.node 0).toRow) :=
    .map fun member present => BitfieldMember.writes (meets.members member present)
  have head : Unbroken ("bitfield " ++ bitfield.name.text ++ " (" ++ bitfield.size.text ++ ")") := by
    simp only [Text.unbroken_append]
    exact ⟨⟨⟨⟨by decide, meets.name.unbroken⟩, by decide⟩, unbroken_size meets⟩, by decide⟩
  have all := members.below head (by simp)
  simpa [BitfieldDef.outline, Declaration.nodes, BitfieldMember.node, Writer.Row.deeper, Function.comp_def] using all

/-- The delimiters that members of the schema show are on one line each. -/
def Schema.DelimitersUnbroken (schema : Schema) : Prop :=
  ∀ struct ∈ schema.structs, ∀ info ∈ struct.infos, info.Unbroken

instance (schema : Schema) : Decidable schema.DelimitersUnbroken :=
  inferInstanceAs (Decidable (∀ struct ∈ schema.structs, ∀ info ∈ struct.infos, info.Unbroken))

theorem Schema.writes {schema : Schema} (meets : ∀ declaration ∈ schema.declarations, declaration.Meets .wellFormed)
    (unbroken : schema.DelimitersUnbroken) : Writes schema.outline (schema.nodes.map Node.toRow) := by
  rw [Schema.nodes, List.map_flatMap]
  refine .flatMap fun declaration present => ?_
  have asked := meets declaration present
  cases declaration with
  | struct declared =>
    exact declared.writes asked fun info used =>
      unbroken declared (mem_structs.mpr present) info (StructDef.mem_infos.mpr used)
  | bitfield declared => exact declared.writes asked

end RecordLayout
