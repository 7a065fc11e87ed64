import RecordLayout.Proofs.Outcome
import RecordLayout.Proofs.Schema.Walk
import RecordLayout.Proofs.Span.Located
import RecordLayout.Schema.Check

/-! Whether declarations are a schema does not depend on where they are. The checks compare names and follow
references by name, so declarations that are elsewhere are wrong in the same way, elsewhere. -/

namespace RecordLayout

open Located

variable {place : Position → Position}

namespace Located

variable {α β : Type} [Located α] [Located β]

theorem map_move (f : α → β) {other : α → β} (each : ∀ value, other (move place value) = move place (f value))
    (values : List α) : (move place values).map other = move place (values.map f) := by
  have same : other ∘ move place = move place ∘ f := funext each
  exact (List.map_map ..).trans (same ▸ (List.map_map ..).symm)

theorem filterMap_move (f : α → Option β) (each : ∀ value, f (move place value) = move place (f value))
    (values : List α) : (move place values).filterMap f = move place (values.filterMap f) := by
  have same : f ∘ move place = fun value => (f value).map (move place) := funext each
  exact (List.filterMap_map ..).trans (same ▸ (List.map_filterMap ..).symm)

theorem flatMap_move (f : α → List β) (each : ∀ value, f (move place value) = move place (f value))
    (values : List α) : (move place values).flatMap f = move place (values.flatMap f) := by
  have same : (fun value => f (move place value)) = fun value => (f value).map (move place) := funext each
  exact (List.flatMap_map ..).trans (same ▸ (List.map_flatMap ..).symm)

end Located

/-! Names. -/

namespace Name

theorem firstRepeated?_move (names : List Name) :
    firstRepeated? (move place names) = move place (firstRepeated? names) := by
  induction names with
  | nil => rfl
  | cons name names ih =>
    have again : (move place names).any (·.text == name.text) = names.any (·.text == name.text) := List.any_map
    change (if (move place names).any (·.text == name.text) then _ else firstRepeated? (move place names)) = _
    rw [again, firstRepeated?, ih]
    split <;> rfl

theorem spansOf_move (text : String) (names : List Name) :
    spansOf text (move place names) = move place (spansOf text names) := by
  have kept : (move place names).filter (·.text == text) = move place (names.filter (·.text == text)) := List.filter_map
  rw [spansOf, kept]
  exact map_move Name.span (fun _ => rfl) _

theorem checkDistinct_move {error other : List Span → String → CompileError}
    (moved : ∀ spans text, other (move place spans) text = move place (error spans text)) (names : List Name) :
    checkDistinct (move place names) other = (checkDistinct names error).mapError (move place) := by
  rw [checkDistinct, checkDistinct, firstRepeated?_move]
  cases firstRepeated? names with
  | none => rfl
  | some name =>
    have report := moved (spansOf name.text names) name.text
    rw [← spansOf_move] at report
    exact congrArg Except.error report

end Name

theorem Declaration.name_move (declared : Declaration) : (move place declared).name = move place declared.name := by
  cases declared <;> rfl

theorem Member.names_move (members : List Member) : (move place members).map name = move place (members.map name) :=
  map_move name (fun _ => rfl) members

namespace StructItem

theorem sharedNames_move (item : StructItem) : (move place item).sharedNames = move place item.sharedNames := by
  rcases item with member | ⟨condition, selected, span⟩
  · rfl
  · cases selected <;> rfl

theorem groupNames_move (item : StructItem) : (move place item).groupNames = move place item.groupNames := by
  rcases item with member | ⟨condition, selected, span⟩
  · rfl
  · cases selected with
    | single name cases => rfl
    | groups cases => exact map_move _ (fun chosen => Member.names_move chosen.body) cases

end StructItem

theorem StructDef.scopes_move (struct : StructDef) : (move place struct).scopes = move place struct.scopes := by
  have shared := @flatMap_move place _ _ _ _ _ StructItem.sharedNames_move struct.items
  have groups := @flatMap_move place _ _ _ _ _ StructItem.groupNames_move struct.items
  have scopes (names : List Name) (others : List (List Name)) :
      (move place others).map (move place names ++ ·) = move place (others.map (names ++ ·)) :=
    map_move (names ++ ·) (fun _ => List.map_append.symm) others
  have items : (move place struct).items = move place struct.items := rfl
  rw [StructDef.scopes, items, shared, groups, scopes]
  rfl

/-! References. -/

theorem TypeRef.path?_move (type : TypeRef) : (move place type).path? = move place type.path? := by
  cases type <;> rfl

namespace MemberType

theorem mentioned_move (type : MemberType) : (move place type).mentioned = move place type.mentioned := by
  have listed (type : TypeRef) : (move place type).path?.toList = move place type.path?.toList := by
    rw [type.path?_move]
    cases type.path? <;> rfl
  cases type with
  | plain type => exact listed type
  | chosen choice =>
    change (move place choice.ifTrue).path?.toList ++ (move place choice.ifFalse).path?.toList = _
    rw [listed, listed]
    exact List.map_append.symm

theorem contained?_move (type : MemberType) : (move place type).contained? = move place type.contained? := by
  cases type with
  | plain type => exact type.path?_move
  | chosen => rfl

end MemberType

theorem StructItem.infos_move (item : StructItem) : (move place item).infos = move place item.infos := by
  rcases item with member | ⟨condition, selected, span⟩
  · rfl
  · cases selected with
    | single name cases => exact map_move Case.body (fun _ => rfl) cases
    | groups cases => exact flatMap_move _ (fun chosen => map_move Member.info (fun _ => rfl) chosen.body) cases

namespace StructDef

theorem infos_move (struct : StructDef) : (move place struct).infos = move place struct.infos :=
  flatMap_move _ StructItem.infos_move struct.items

theorem contained_move (struct : StructDef) : (move place struct).contained = move place struct.contained := by
  rw [contained, infos_move]
  exact filterMap_move _ (fun info => info.type.contained?_move) struct.infos

end StructDef

namespace Schema

variable (schema : Schema) (name : String)

theorem structs_move : (move place schema).structs = move place schema.structs :=
  filterMap_move _ (fun declared => by cases declared <;> rfl) schema.declarations

theorem bitfields_move : (move place schema).bitfields = move place schema.bitfields :=
  filterMap_move _ (fun declared => by cases declared <;> rfl) schema.declarations

theorem findStruct?_move : (move place schema).findStruct? name = move place (schema.findStruct? name) := by
  rw [findStruct?, structs_move]
  exact List.find?_map ..

theorem findBitfield?_move : (move place schema).findBitfield? name = move place (schema.findBitfield? name) := by
  rw [findBitfield?, bitfields_move]
  exact List.find?_map ..

theorem declares_move : (move place schema).declares name = schema.declares name := by
  have some {α : Type} [Located α] (value : Option α) : (move place value).isSome = value.isSome := Option.isSome_map
  rw [declares, findStruct?_move, findBitfield?_move, some, some, declares]

end Schema

/-! Walks. -/

def Frame.move (place : Position → Position) (frame : Frame) : Frame :=
  ⟨Located.move place frame.struct, Located.move place frame.via, Located.move place frame.pending⟩

theorem Frame.enter_move (struct : StructDef) (via : Path) :
    enter (Located.move place struct) (Located.move place via) = (enter struct via).move place := by
  rw [enter, struct.contained_move]
  rfl

def Walk.move (place : Position → Position) (walk : Walk) : Walk :=
  ⟨walk.stack.map (Frame.move place), walk.finished⟩

namespace Walk

theorem names_move (walk : Walk) : (walk.move place).names = walk.names :=
  List.map_map

theorem cycleError_move (stack : List Frame) (reference : Path) :
    cycleError (stack.map (Frame.move place)) (Located.move place reference) =
      Located.move place (cycleError stack reference) := by
  have inner : (stack.map (Frame.move place)).takeWhile (·.name ≠ reference.name) =
      (stack.takeWhile (·.name ≠ reference.name)).map (Frame.move place) := List.takeWhile_map
  have name : (Located.move place reference).name = reference.name := rfl
  simp only [cycleError, name, inner, ← List.map_reverse]
  generalize (stack.takeWhile (·.name ≠ reference.name)).reverse = path
  have names : (path.map (Frame.move place)).map Frame.name = path.map Frame.name := List.map_map
  have spans : (path.map (Frame.move place)).filterMap (·.via.map Path.span) =
      (path.filterMap (·.via.map Path.span)).map (Span.move place) := by
    rw [List.filterMap_map, List.map_filterMap]
    congr 1
    funext frame
    cases via : frame.via <;> simp [Frame.move, via, Located.move]
  have last : [(Located.move place reference).span] = [reference.span].map (Span.move place) := rfl
  rw [names, spans, last, ← List.map_append]
  rfl

/-- What a step does with a reference. -/
theorem step_reference {schema : Schema} {frame : Frame} {reference : Path} {rest : List Path} {below : List Frame}
    {finished : List String} (pending : frame.pending = reference :: rest) :
    step schema ⟨frame :: below, finished⟩ =
      match schema.findStruct? reference.name with
      | none => .ok (some ⟨{ frame with pending := rest } :: below, finished⟩)
      | some struct =>
        if reference.name ∈ finished then
          .ok (some ⟨{ frame with pending := rest } :: below, finished⟩)
        else if reference.name ∈ (frame :: below).map Frame.name then
          .error (cycleError ({ frame with pending := rest } :: below) reference)
        else
          .ok (some ⟨.enter struct reference :: { frame with pending := rest } :: below, finished⟩) := by
  simp only [step, pending]
  rfl

theorem step_move (schema : Schema) (walk : Walk) :
    (walk.move place).step (Located.move place schema) =
      ((walk.step schema).map (Option.map (move place))).mapError (Located.move place) := by
  obtain ⟨stack, finished⟩ := walk
  cases stack with
  | nil => rfl
  | cons frame below =>
    cases pending : frame.pending with
    | nil =>
      obtain ⟨struct, via, _⟩ := frame
      cases pending
      cases below <;> rfl
    | cons reference rest =>
      have moved : (frame.move place).pending = Located.move place reference :: Located.move place rest :=
        congrArg (List.map (Located.move place)) pending
      have left := @step_reference (Located.move place schema) _ _ _ (below.map (Frame.move place)) finished moved
      have name : (Located.move place reference).name = reference.name := rfl
      have names : (frame.move place :: below.map (Frame.move place)).map Frame.name = (frame :: below).map Frame.name :=
        @names_move place ⟨frame :: below, finished⟩
      rw [step_reference pending]
      refine left.trans ?_
      rw [name, schema.findStruct?_move, names]
      cases schema.findStruct? reference.name with
      | none => rfl
      | some target =>
        change (if reference.name ∈ finished then _ else if _ then _ else _) = _
        by_cases known : reference.name ∈ finished
        · simp only [if_pos known]
          rfl
        · by_cases cyclic : reference.name ∈ (frame :: below).map Frame.name
          · have error := @cycleError_move place ({ frame with pending := rest } :: below) reference
            simp only [if_neg known, if_pos cyclic]
            exact congrArg Except.error error
          · simp only [if_neg known, if_neg cyclic, Frame.enter_move]
            rfl

theorem run_move (schema : Schema) (walk : Walk) :
    (walk.move place).run (Located.move place schema) = (walk.run schema).mapError (Located.move place) := by
  fun_induction run schema walk with
  | case1 walk error stepped =>
    rw [run_eq, step_move, stepped]
    rfl
  | case2 walk stepped =>
    rw [run_eq, step_move, stepped]
    rfl
  | case3 walk next stepped ih =>
    rw [run_eq, step_move, stepped]
    exact ih

end Walk

namespace Schema

theorem checkDeclarationNames_move (schema : Schema) :
    (move place schema).checkDeclarationNames = schema.checkDeclarationNames.mapError (move place) := by
  have names : (move place schema).declarations.map Declaration.name =
      move place (schema.declarations.map Declaration.name) := map_move _ Declaration.name_move _
  rw [checkDeclarationNames, names]
  exact Name.checkDistinct_move (fun _ _ => rfl) _

theorem checkMemberNames_move (struct : StructDef) :
    checkMemberNames (move place struct) = (checkMemberNames struct).mapError (move place) := by
  rw [checkMemberNames, struct.scopes_move]
  exact Outcome.forM_map (fun scope => Name.checkDistinct_move (fun _ _ => rfl) scope) _

theorem checkInfo_move (schema : Schema) (struct : StructDef) (finished : List String) (info : MemberInfo) :
    (move place schema).checkInfo (move place struct) finished (move place info) =
      (schema.checkInfo struct finished info).mapError (move place) := by
  have unknown : (move place info.type.mentioned).find? (fun path => !(move place schema).declares path.name) =
      move place (info.type.mentioned.find? fun path => !schema.declares path.name) := by
    simp only [schema.declares_move]
    exact List.find?_map ..
  have type : (move place info).type = move place info.type := rfl
  rw [checkInfo, checkInfo, type, info.type.mentioned_move, info.type.contained?_move, unknown]
  cases info.type.mentioned.find? fun path => !schema.declares path.name with
  | some path => rfl
  | none =>
    cases info.type.contained? with
    | none => rfl
    | some path => exact Walk.run_move schema (.start struct path finished)

theorem checkStruct_move (schema : Schema) (finished : List String) (struct : StructDef) :
    (move place schema).checkStruct finished (move place struct) =
      (schema.checkStruct finished struct).mapError (move place) := by
  rw [checkStruct, StructDef.infos_move]
  exact Outcome.foldlM_map (schema.checkInfo_move struct) struct.infos finished

theorem ofDeclarations_move (declarations : List Declaration) :
    ofDeclarations (move place declarations) = move place (ofDeclarations declarations) := by
  have unfolded (schema : Schema) : ofDeclarations schema.declarations = (do
      schema.checkDeclarationNames
      schema.structs.forM checkMemberNames
      let _ ← schema.structs.foldlM schema.checkStruct []
      return schema) := rfl
  change ofDeclarations (move place (Schema.mk declarations)).declarations =
    move place (ofDeclarations (Schema.mk declarations).declarations)
  generalize Schema.mk declarations = schema
  have members : (move place schema.structs).forM checkMemberNames = _ :=
    Outcome.forM_map checkMemberNames_move schema.structs
  have types : (move place schema.structs).foldlM (move place schema).checkStruct [] = _ :=
    Outcome.foldlM_map schema.checkStruct_move schema.structs []
  rw [unfolded, unfolded, checkDeclarationNames_move, structs_move, members, types]
  cases schema.checkDeclarationNames with
  | error failure => rfl
  | ok =>
    cases schema.structs.forM checkMemberNames with
    | error failure => rfl
    | ok => cases schema.structs.foldlM schema.checkStruct [] <;> rfl

end Schema

end RecordLayout
