import RecordLayout.Proofs.Schema.Walk

/-! The stack of a walk is a path without repetition: every struct on it contains the one above. What
is cut out of the stack when a reference leads back into it is therefore a cycle, and the references
kept with the structs are its edges. -/

namespace RecordLayout

namespace Walk

variable {schema : Schema}

/-- Each struct under way is contained in the one below it, through the reference that led to it, and
is the declared struct of its name. -/
inductive Linked (schema : Schema) : List Frame → Prop where
  | root {root pending} (declared : schema.findStruct? root.name.text = some root)
      (own : ∀ path ∈ pending, path ∈ root.contained) : Linked schema [⟨root, none, pending⟩]
  | entered {struct via pending lower below} (rest : Linked schema (lower :: below))
      (held : via ∈ lower.struct.contained) (found : schema.findStruct? via.name = some struct)
      (own : ∀ path ∈ pending, path ∈ struct.contained) :
      Linked schema (⟨struct, some via, pending⟩ :: lower :: below)

namespace Linked

variable {frame lower : Frame} {below : List Frame}

theorem tail (linked : Linked schema (frame :: lower :: below)) : Linked schema (lower :: below) := by
  cases linked with
  | entered rest _ _ _ => exact rest

theorem own (linked : Linked schema (frame :: below)) :
    ∀ path ∈ frame.pending, path ∈ frame.struct.contained := by
  cases linked with
  | root _ own => exact own
  | entered _ _ _ own => exact own

theorem declared (linked : Linked schema (frame :: below)) :
    schema.findStruct? frame.name = some frame.struct := by
  cases linked with
  | root declared _ => exact declared
  | entered _ _ found _ =>
    have named := Schema.name_of_findStruct? found
    simpa only [Frame.name, named] using found

/-- Pending references may be dropped. -/
theorem narrow (linked : Linked schema (frame :: below)) {pending : List Path}
    (fewer : ∀ path ∈ pending, path ∈ frame.pending) :
    Linked schema ({ frame with pending } :: below) := by
  cases linked with
  | root declared own => exact .root declared fun path member => own path (fewer path member)
  | entered rest held found own =>
    exact .entered rest held found fun path member => own path (fewer path member)

end Linked

/-- The structs under way lead one to the next, none of them twice. -/
structure Straight (schema : Schema) (walk : Walk) : Prop where
  linked : Linked schema walk.stack
  distinct : walk.names.Nodup

theorem straight_start {struct : StructDef} {reference : Path} (finished : List String)
    (declared : schema.findStruct? struct.name.text = some struct)
    (held : reference ∈ struct.contained) : (start struct reference finished).Straight schema := by
  refine ⟨.root declared ?_, by simp [names, start]⟩
  intro path member
  rw [List.mem_singleton.mp member]
  exact held

theorem Straight.move {walk next : Walk} (straight : walk.Straight schema)
    (moved : Move schema walk next) : next.Straight schema := by
  obtain ⟨linked, distinct⟩ := straight
  cases moved with
  | leave followed => exact ⟨linked.tail, (List.nodup_cons.mp distinct).2⟩
  | pass pending done => exact ⟨linked.narrow (by simp +contextual [pending]), distinct⟩
  | @enter frame reference rest below finished struct pending found absent =>
    have kept : Linked schema ({ frame with pending := rest } :: below) :=
      linked.narrow (by simp +contextual [pending])
    have held : reference ∈ frame.struct.contained := linked.own reference (by simp [pending])
    refine ⟨.entered kept held found (fun path member => member), ?_⟩
    have named : (Frame.enter struct reference).name = reference.name :=
      Schema.name_of_findStruct? found
    rw [names, List.map_cons, named]
    exact List.nodup_cons.mpr ⟨absent, distinct⟩

theorem Straight.moves {walk last : Walk} (straight : walk.Straight schema)
    (moves : Relation.ReflTransGen (Move schema) walk last) : last.Straight schema := by
  induction moves with
  | refl => exact straight
  | tail _ moved ih => exact ih.move moved

end Walk

/-- Names of declared structs, each containing the next through a reference of the span between. -/
inductive Schema.Trail (schema : Schema) : List String → List Span → Prop where
  | last (name : String) : Trail schema [name] []
  | step {struct path name names spans} (declared : schema.findStruct? name = some struct)
      (held : path ∈ struct.contained) (rest : Trail schema (path.name :: names) spans) :
      Trail schema (name :: path.name :: names) (path.span :: spans)

namespace Schema.Trail

variable {schema : Schema} {names : List String} {spans : List Span}

theorem length (trail : schema.Trail names spans) : names.length = spans.length + 1 := by
  induction trail with
  | last => rfl
  | step _ _ _ ih => simpa using ih

/-- The references between neighbours. -/
theorem edge (trail : schema.Trail names spans) (i : Nat) (inside : i < spans.length) :
    ∃ name struct path, names[i]? = some name ∧ schema.findStruct? name = some struct ∧
      path ∈ struct.contained ∧ names[i + 1]? = some path.name ∧ spans[i]? = some path.span := by
  induction trail generalizing i with
  | last => simp at inside
  | @step struct path name names spans declared held rest ih =>
    cases i with
    | zero => exact ⟨name, struct, path, rfl, declared, held, rfl, rfl⟩
    | succ i => simpa using ih i (by simpa using inside)

/-- Going up a stack lengthens a trail that begins at its last struct. -/
theorem climb {front back : List Frame} {target : Frame}
    (linked : Walk.Linked schema (front ++ target :: back))
    (trail : schema.Trail (((front ++ [target]).head (by simp)).name :: names) spans) :
    schema.Trail (target.name :: (front.reverse.map Frame.name ++ names))
      (front.reverse.filterMap (·.via.map Path.span) ++ spans) := by
  induction front generalizing names spans with
  | nil => simpa using trail
  | cons frame front ih =>
    obtain ⟨lower, below, same⟩ : ∃ lower below, front ++ target :: back = lower :: below := by
      cases front <;> exact ⟨_, _, rfl⟩
    have first : (front ++ [target]).head (by simp) = lower := by
      cases front <;> simp_all
    rw [List.cons_append, same] at linked
    cases linked with
    | @entered struct via pending lower below rest held found own =>
      have named : via.name = struct.name.text := (Schema.name_of_findStruct? found).symm
      have longer : schema.Trail (lower.name :: via.name :: names) (via.span :: spans) :=
        .step rest.declared held (by simpa [named, Frame.name] using trail)
      have climbed := ih (by rw [same]; exact rest) (by rw [first]; exact longer)
      simpa [named, Frame.name] using climbed

end Schema.Trail

/-- A trail that comes back to where it begins and visits no struct twice before. -/
structure Schema.Cycle (schema : Schema) (spans : List Span) (cycle : List String) : Prop where
  trail : schema.Trail cycle spans
  proper : spans ≠ []
  closed : cycle.head? = cycle.getLast?
  distinct : cycle.dropLast.Nodup

namespace Walk

variable {schema : Schema}

theorem cycleError_spec {frame : Frame} {below : List Frame} {reference : Path}
    (linked : Linked schema (frame :: below)) (distinct : ((frame :: below).map Frame.name).Nodup)
    (held : reference ∈ frame.struct.contained)
    (underWay : reference.name ∈ (frame :: below).map Frame.name) :
    ∃ spans cycle, cycleError (frame :: below) reference = .recursiveStruct spans cycle ∧
      schema.Cycle spans cycle := by
  obtain ⟨above, under, split, absent⟩ := List.eq_append_cons_of_mem underWay
  obtain ⟨front, rest, stack, rfl, shape⟩ := List.map_eq_append_iff.mp split
  obtain ⟨target, back, rfl, named, rfl⟩ := List.map_eq_cons_iff.mp shape
  have inner : (frame :: below).takeWhile (·.name ≠ reference.name) = front := by
    rw [stack, List.takeWhile_append_of_pos, List.takeWhile_cons_of_neg, List.append_nil]
    · simp [named]
    · intro passed member
      have other : passed.name ≠ reference.name :=
        fun same => absent (same ▸ List.mem_map_of_mem member)
      simpa using other
  have first : (front ++ [target]).head (by simp) = frame := by
    cases front <;> simp_all
  have last : schema.Trail [((front ++ [target]).head (by simp)).name, reference.name]
      [reference.span] := by
    rw [first]
    exact .step linked.declared held (.last _)
  have trail := Schema.Trail.climb (stack ▸ linked) last
  refine ⟨_, _, rfl, ?_⟩
  rw [inner]
  refine ⟨by simpa [named] using trail, by simp, by simp [List.getLast?_cons], ?_⟩
  rw [stack, List.map_append, List.map_cons, named] at distinct
  have around := (List.perm_middle.nodup_iff.mp distinct).sublist
    ((List.sublist_append_left _ _).cons_cons reference.name)
  rw [List.dropLast_concat, List.map_reverse]
  exact ((List.reverse_perm _).cons reference.name).nodup_iff.mpr around

/-- A run that fails from a straight walk has found a cycle of the declarations. -/
theorem cycle_of_run_error {walk : Walk} {error : CompileError} (straight : walk.Straight schema)
    (failed : walk.run schema = .error error) :
    ∃ spans cycle, error = .recursiveStruct spans cycle ∧ schema.Cycle spans cycle := by
  obtain ⟨last, moves, ⟨_, ended⟩ | ⟨found, stepped, ran⟩⟩ := run_moves schema walk
  · rw [failed] at ended
    cases ended
  · rw [failed] at ran
    cases ran
    obtain ⟨frame, reference, rest, below, stack, pending, underWay, rfl⟩ :=
      cycle_of_step_error stepped
    obtain ⟨linked, distinct⟩ := straight.moves moves
    rw [stack] at linked
    rw [names, stack] at distinct underWay
    exact cycleError_spec (linked.narrow (by simp +contextual [pending])) distinct
      (linked.own reference (by simp [pending])) underWay

end Walk

end RecordLayout
