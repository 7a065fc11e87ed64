import RecordLayout.Proofs.Schema.Resolution
import RecordLayout.Proofs.Span.Located

/-! The checks of a schema report spans of the declarations: of names, of types that are mentioned, and of the
references that close a cycle. -/

namespace RecordLayout

open Located

theorem Located.subset_of_mem {α : Type} [Located α] {value : α} {values : List α} (member : value ∈ values) :
    spans value ⊆ spans values :=
  fun _ inside => List.mem_flatMap.mpr ⟨value, member, inside⟩

/-! Names. -/

theorem Name.spansOf_subset (text : String) (names : List Name) : spansOf text names ⊆ spans names := by
  intro span member
  obtain ⟨name, kept, rfl⟩ := List.mem_map.mp member
  exact subset_of_mem (List.mem_filter.mp kept).1 List.mem_cons_self

theorem Name.spans_of_checkDistinct {names : List Name} {error : List Span → String → CompileError}
    {failure : CompileError} (failed : checkDistinct names error = .error failure) :
    ∃ text, failure = error (spansOf text names) text := by
  unfold checkDistinct at failed
  split at failed
  · cases failed
    exact ⟨_, rfl⟩
  · cases failed

theorem Declaration.name_subset (declared : Declaration) : spans declared.name ⊆ spans declared := by
  cases declared <;> simp [Declaration.name, spans]

theorem Declaration.names_subset (declared : List Declaration) : spans (declared.map name) ⊆ spans declared := by
  intro span member
  obtain ⟨_, named, inside⟩ := List.mem_flatMap.mp member
  obtain ⟨one, present, rfl⟩ := List.mem_map.mp named
  exact subset_of_mem present (one.name_subset inside)

theorem Member.names_subset (members : List Member) : spans (members.map name) ⊆ spans members := by
  intro span inside
  obtain ⟨_, named, inside⟩ := List.mem_flatMap.mp inside
  obtain ⟨member, present, rfl⟩ := List.mem_map.mp named
  exact subset_of_mem present (List.mem_append_left _ inside)

namespace StructItem

theorem sharedNames_subset (item : StructItem) : spans item.sharedNames ⊆ spans item := by
  rcases item with member | ⟨condition, selected, span⟩
  · simp [sharedNames, spans]
  · cases selected <;> simp [sharedNames, spans]

theorem groupNames_subset {item : StructItem} {names : List Name} (group : names ∈ item.groupNames) :
    spans names ⊆ spans item := by
  rcases item with member | ⟨condition, selected, span⟩
  · cases group
  · cases selected with
    | single name cases => cases group
    | groups cases =>
      obtain ⟨chosen, present, rfl⟩ := List.mem_map.mp group
      intro other inside
      have body : spans chosen.body ⊆ spans cases :=
        fun _ member => subset_of_mem present (List.mem_append_right _ member)
      exact List.mem_cons_of_mem _ (List.mem_append_right _ (body (Member.names_subset _ inside)))

end StructItem

/-- The names of a scope are names of the struct. -/
theorem StructDef.scopes_subset {struct : StructDef} {scope : List Name} (known : scope ∈ struct.scopes) :
    spans scope ⊆ spans struct := by
  have items : spans struct.items ⊆ spans struct := fun _ member => List.mem_append_right _ member
  have shared : spans (struct.items.flatMap StructItem.sharedNames) ⊆ spans struct := by
    intro span member
    obtain ⟨name, named, inside⟩ := List.mem_flatMap.mp member
    obtain ⟨item, present, shared⟩ := List.mem_flatMap.mp named
    exact items (subset_of_mem present (item.sharedNames_subset (subset_of_mem shared inside)))
  rcases List.mem_cons.mp known with rfl | known
  · exact shared
  · obtain ⟨group, grouped, rfl⟩ := List.mem_map.mp known
    obtain ⟨item, present, named⟩ := List.mem_flatMap.mp grouped
    intro span member
    obtain ⟨name, named', inside⟩ := List.mem_flatMap.mp member
    rcases List.mem_append.mp named' with first | second
    · exact shared (subset_of_mem first inside)
    · exact items (subset_of_mem present (StructItem.groupNames_subset named (subset_of_mem second inside)))

/-! Types. -/

theorem MemberType.span_of_mentions {type : MemberType} {path : Path} (mentions : type.Mentions path) :
    path.span ∈ spans type := by
  cases mentions with
  | plain => exact List.mem_cons_self
  | ifTrue arm | ifFalse arm => simp [spans, arm]

theorem StructDef.info_subset {struct : StructDef} {info : MemberInfo} (used : struct.Uses info) :
    spans info ⊆ spans struct := by
  have items : spans struct.items ⊆ spans struct := fun _ member => List.mem_append_right _ member
  intro span inside
  cases used with
  | plain present => exact items (subset_of_mem present (List.mem_append_right _ inside))
  | @single selection name cases chosen present shape member =>
    have body : span ∈ spans cases := subset_of_mem member (List.mem_append_right _ inside)
    refine items (subset_of_mem present (List.mem_cons_of_mem _ (List.mem_append_right _ ?_)))
    rw [shape]
    exact List.mem_cons_of_mem _ body
  | @group selection cases chosen plain present shape member within =>
    have body : span ∈ spans cases :=
      subset_of_mem member (List.mem_append_right _ (subset_of_mem within (List.mem_append_right _ inside)))
    refine items (subset_of_mem present (List.mem_cons_of_mem _ (List.mem_append_right _ ?_)))
    rw [shape]
    exact body

namespace Schema

variable {declarations : List Declaration} {schema : Schema}

theorem span_of_mentions {struct : StructDef} {path : Path} (present : .struct struct ∈ declarations)
    (mentions : struct.Mentions path) : path.span ∈ spans declarations := by
  obtain ⟨info, used, named⟩ := mentions
  have type : path.span ∈ spans info := List.mem_append_left _ (List.mem_append_left _ (MemberType.span_of_mentions named))
  exact subset_of_mem present (StructDef.info_subset used type)

/-- The references along a trail are references of the declarations. -/
theorem Trail.subset {names : List String} {edges : List Span} (trail : schema.Trail names edges) :
    edges ⊆ spans schema.declarations := by
  induction trail with
  | last => exact List.nil_subset _
  | @step struct path name names edges declared held rest ih =>
    obtain ⟨info, used, contained⟩ := StructDef.mem_contained.mp held
    have present := mem_structs.mp (mem_structs_of_findStruct? declared)
    have mentions : struct.Mentions path := ⟨info, used, contained ▸ .plain⟩
    exact List.cons_subset.mpr ⟨span_of_mentions present mentions, ih⟩

theorem spans_of_ofDeclarations_error {error : CompileError} (failed : ofDeclarations declarations = .error error) :
    error.spans ⊆ spans declarations := by
  rcases ofDeclarations_eq_error_iff.mp failed with names | ⟨names, members | ⟨_, structs⟩⟩
  · obtain ⟨text, rfl⟩ := Name.spans_of_checkDistinct names
    exact List.Subset.trans (Name.spansOf_subset _ _) (Declaration.names_subset declarations)
  · obtain ⟨struct, present, member⟩ := Outcome.forM_eq_error members
    obtain ⟨scope, known, found⟩ := Outcome.forM_eq_error member
    obtain ⟨text, rfl⟩ := Name.spans_of_checkDistinct found
    exact List.Subset.trans (List.Subset.trans (Name.spansOf_subset _ _) (StructDef.scopes_subset known))
      (subset_of_mem (mem_structs.mp present))
  · rcases checkStructs_eq_error names structs with
      ⟨struct, path, present, mentions, _, rfl⟩ | ⟨edges, cycle, rfl, closed⟩
    · exact List.cons_subset.mpr ⟨span_of_mentions present mentions, List.nil_subset _⟩
    · exact closed.trail.subset

end Schema

end RecordLayout
