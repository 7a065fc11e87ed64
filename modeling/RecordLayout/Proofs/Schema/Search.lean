import RecordLayout.Proofs.Schema.Resolution

/-! The search for structs that contain themselves, from the first member of the first struct to the last of the last
one. It goes in steps, as its walks do: a walk that has come to its end makes way for the check of the next member, and
what it has finished stays finished. So the walks share what is finished, and what is true in every walk is true
throughout. A struct that is entered is on the stack until it is finished, and nothing on the stack or finished is
entered, so no struct is entered twice. -/

namespace RecordLayout

/-- The walk under way, and the members of structs that are still to be checked. -/
structure Search where
  walk : Walk
  ahead : List (StructDef × MemberInfo)

namespace Search

/-- Before the first check: nothing is finished, and all members are ahead. -/
def start (schema : Schema) : Search :=
  ⟨⟨[], []⟩, schema.structs.flatMap fun struct => struct.infos.map (struct, ·)⟩

/-- One step of the search; none when it has come to its end. -/
def step (schema : Schema) (search : Search) : Except CompileError (Option Search) :=
  match search.walk.step schema with
  | .error error => .error error
  | .ok (some next) => .ok (some ⟨next, search.ahead⟩)
  | .ok none =>
    match search.ahead with
    | [] => .ok none
    | (struct, info) :: rest =>
      match info.type.mentioned.find? (fun path => !schema.declares path.name) with
      | some path => .error (.unknownType path.span path.name struct.name.text)
      | none =>
        match info.type.contained? with
        | some path => .ok (some ⟨.start struct path search.walk.finished, rest⟩)
        | none => .ok (some ⟨⟨[], search.walk.finished⟩, rest⟩)

/-- What comes of the search: what the checks ahead make of what the walk finishes. -/
def outcome (schema : Schema) (search : Search) : Except CompileError (List String) := do
  let finished ← search.walk.run schema
  search.ahead.foldlM (fun finished member => schema.checkInfo member.1 finished member.2) finished

/-- The struct on top of a stack that has grown above its root. -/
def entered? (before after : Search) : Option String :=
  match after.walk.names with
  | name :: _ :: _ => if before.walk.names.length < after.walk.names.length then some name else none
  | _ => none

/-- From one search to another in steps, with the structs that are entered on the way, in this order. -/
inductive Run (schema : Schema) (first : Search) : List String → Search → Prop where
  | refl : Run schema first [] first
  | tail {entered search next} (before : Run schema first entered search)
      (stepped : search.step schema = .ok (some next)) :
      Run schema first (entered ++ (entered? search next).toList) next

variable {schema : Schema} {search next : Search}

/-! ### The search ends -/

/-- A step of the walk, or the start of the check of the next member. -/
theorem cases_of_step (stepped : search.step schema = .ok (some next)) :
    (search.walk.step schema = .ok (some next.walk) ∧ next.ahead = search.ahead) ∨
    ∃ struct info, search.walk.step schema = .ok none ∧ search.ahead = (struct, info) :: next.ahead ∧
      (next.walk = ⟨[], search.walk.finished⟩ ∨
        ∃ path, info.type.contained? = some path ∧ next.walk = .start struct path search.walk.finished) := by
  unfold step at stepped
  split at stepped
  next => cases stepped
  next walk moved =>
    cases stepped
    exact .inl ⟨moved, rfl⟩
  next ended =>
    split at stepped
    next => cases stepped
    next struct info rest more =>
      refine .inr ⟨struct, info, ended, ?_⟩
      split at stepped
      next => cases stepped
      next =>
        split at stepped
        next path contained =>
          cases stepped
          exact ⟨more, .inr ⟨path, contained, rfl⟩⟩
        next =>
          cases stepped
          exact ⟨more, .inl rfl⟩

/-- Every step leaves fewer members ahead, or a walk that is nearer to its end. -/
theorem step_wellFounded (schema : Schema) :
    WellFounded fun after before : Search => before.step schema = .ok (some after) := by
  refine Subrelation.wf (fun {after before} stepped => ?_) (InvImage.wf
    (fun search : Search => (search.ahead.length, search.walk.unseen schema, search.walk.remaining))
    (Prod.lex Nat.lt_wfRel (Prod.lex Nat.lt_wfRel Nat.lt_wfRel)).wf)
  rcases cases_of_step stepped with ⟨moved, same⟩ | ⟨struct, info, _, more, _⟩
  · change Prod.Lex _ _ (_, _) (_, _)
    rw [same]
    exact .right _ (Walk.step_decreases moved)
  · refine .left _ _ ?_
    rw [more]
    exact Nat.lt_succ_self _

/-- A search goes on as long as there is a step. -/
theorem outcome_eq (schema : Schema) (search : Search) :
    search.outcome schema =
      match search.step schema with
      | .error error => .error error
      | .ok none => .ok search.walk.finished
      | .ok (some next) => next.outcome schema := by
  obtain ⟨walk, ahead⟩ := search
  rw [outcome, step, Walk.run_eq]
  cases walk.step schema with
  | error error => rfl
  | ok moved =>
    cases moved with
    | some next => rfl
    | none =>
      cases ahead with
      | nil => rfl
      | cons member rest =>
        obtain ⟨struct, info⟩ := member
        change (schema.checkInfo struct walk.finished info >>= _) = _
        rw [Schema.checkInfo]
        dsimp only
        cases info.type.mentioned.find? fun path => !schema.declares path.name with
        | some path => rfl
        | none =>
          cases info.type.contained? with
          | some path => rfl
          | none =>
            change _ = Search.outcome schema ⟨⟨[], walk.finished⟩, rest⟩
            rw [outcome, Walk.run_eq]
            rfl

theorem outcome_start (schema : Schema) :
    (start schema).outcome schema = schema.structs.foldlM schema.checkStruct [] := by
  have none : Walk.run schema ⟨[], []⟩ = .ok [] := Walk.run_eq schema ⟨[], []⟩
  rw [outcome, start, none]
  change List.foldlM _ [] _ = _
  generalize [] = finished, schema.structs = structs
  induction structs generalizing finished with
  | nil => rfl
  | cons struct rest ih =>
    rw [List.flatMap_cons, List.foldlM_append, List.foldlM_cons, List.foldlM_map, Schema.checkStruct]
    exact congrArg _ (funext ih)

theorem Run.head {entered : List String} {last : Search} (stepped : search.step schema = .ok (some next))
    (run : Run schema next entered last) :
    Run schema search ((entered? search next).toList ++ entered) last := by
  induction run with
  | refl => simpa using Run.tail .refl stepped
  | tail _ more ih =>
    rw [← List.append_assoc]
    exact .tail ih more

/-- From every search there is a way to where it ends or fails. -/
theorem exists_run (schema : Schema) (search : Search) :
    ∃ entered last, Run schema search entered last ∧
      (last.step schema = .ok none ∧ search.outcome schema = .ok last.walk.finished ∨
        ∃ error, last.step schema = .error error ∧ search.outcome schema = .error error) := by
  induction search using (step_wellFounded schema).induction with
  | h search ih =>
    have outcome := outcome_eq schema search
    cases stepped : search.step schema with
    | error error => exact ⟨[], search, .refl, .inr ⟨error, stepped, by rw [outcome, stepped]⟩⟩
    | ok moved =>
      cases moved with
      | none => exact ⟨[], search, .refl, .inl ⟨stepped, by rw [outcome, stepped]⟩⟩
      | some next =>
        obtain ⟨entered, last, run, ending⟩ := ih next stepped
        rw [stepped] at outcome
        exact ⟨_, last, run.head stepped, by rw [outcome]; exact ending⟩

/-! ### Nothing is entered twice -/

/-- What a step of a walk does to the names on the stack and those that are finished. What it enters is neither. -/
theorem names_of_step {walk moved : Walk} (stepped : walk.step schema = .ok (some moved)) :
    (moved.names = walk.names ∧ moved.finished = walk.finished) ∨
    (∃ name lower below, walk.names = name :: lower :: below ∧ moved.names = lower :: below ∧
      moved.finished = name :: walk.finished) ∨
    ∃ name, moved.names = name :: walk.names ∧ moved.finished = walk.finished ∧ walk.names ≠ [] ∧
      name ∉ walk.finished ∧ name ∉ walk.names := by
  obtain ⟨stack, finished⟩ := walk
  cases stack with
  | nil => cases stepped
  | cons frame below =>
    cases pending : frame.pending with
    | nil =>
      cases below with
      | nil => simp [Walk.step, pending] at stepped
      | cons lower below =>
        simp only [Walk.step, pending, List.isEmpty_cons, Bool.false_eq_true, if_false] at stepped
        cases stepped
        exact .inr (.inl ⟨_, _, _, rfl, rfl, rfl⟩)
    | cons reference rest =>
      simp only [Walk.step, pending] at stepped
      split at stepped
      next =>
        cases stepped
        exact .inl ⟨rfl, rfl⟩
      next struct found =>
        split at stepped
        next =>
          cases stepped
          exact .inl ⟨rfl, rfl⟩
        next fresh =>
          split at stepped
          next => cases stepped
          next absent =>
            cases stepped
            have named : struct.name.text = reference.name := Schema.name_of_findStruct? found
            rw [← named] at fresh absent
            exact .inr (.inr ⟨_, rfl, rfl, List.cons_ne_nil _ _, fresh, absent⟩)

theorem names_of_end {walk : Walk} (ended : walk.step schema = .ok none) : walk.names.dropLast = [] := by
  rcases Walk.stack_of_step_end ended with empty | ⟨frame, single, _⟩
  · simp [Walk.names, empty]
  · simp [Walk.names, single]

/-- What is true throughout the search, given the structs that have been entered. -/
structure Kept (schema : Schema) (entered : List String) (search : Search) : Prop where
  settled : schema.Settled search.walk.finished
  walking : search.walk.stack = [] ∨
    search.walk.Straight schema ∧ ∃ reference, search.walk.Tracked schema reference
  ahead : ∀ member ∈ search.ahead,
    schema.findStruct? member.1.name.text = some member.1 ∧ member.2 ∈ member.1.infos
  /-- What has been entered is finished, or on the stack above the root. -/
  seen : ∀ name ∈ entered, name ∈ search.walk.finished ∨ name ∈ search.walk.names.dropLast
  distinct : entered.Nodup

theorem kept_start (distinct : (schema.declarations.map (·.name.text)).Nodup) : Kept schema [] (start schema) where
  settled := trivial
  walking := .inl rfl
  ahead := by
    rintro ⟨struct, info⟩ member
    obtain ⟨_, present, inside⟩ := List.mem_flatMap.mp member
    obtain ⟨_, used, same⟩ := List.mem_map.mp inside
    cases same
    exact ⟨Schema.findStruct?_of_mem distinct (Schema.mem_structs.mp present), used⟩
  seen := by simp
  distinct := .nil

variable {entered : List String}

/-- A step of the walk under way. -/
theorem Kept.move {moved : Walk} (kept : Kept schema entered search)
    (stepped : search.walk.step schema = .ok (some moved)) :
    Kept schema (entered ++ (entered? search ⟨moved, search.ahead⟩).toList) ⟨moved, search.ahead⟩ := by
  have move := Walk.move_of_step stepped
  have walking : search.walk.Straight schema ∧ ∃ reference, search.walk.Tracked schema reference := by
    refine kept.walking.resolve_left fun empty => ?_
    rw [Walk.step, empty] at stepped
    cases stepped
  obtain ⟨straight, reference, tracked⟩ := walking
  have after := tracked.move straight move
  have both : moved.stack = [] ∨ moved.Straight schema ∧ ∃ reference, moved.Tracked schema reference :=
    .inr ⟨straight.move move, reference, after⟩
  rcases names_of_step stepped with ⟨names, finished⟩ | ⟨name, lower, below, names, left, finished⟩ |
    ⟨name, names, finished, proper, fresh, absent⟩
  · have nothing : entered? search ⟨moved, search.ahead⟩ = none := by
      unfold entered?
      rw [names]
      split <;> simp
    rw [nothing, Option.toList_none, List.append_nil]
    exact ⟨after.settled, both, kept.ahead, by rw [names, finished]; exact kept.seen, kept.distinct⟩
  · have nothing : entered? search ⟨moved, search.ahead⟩ = none := by
      unfold entered?
      rw [left, names]
      split <;> simp_all
    rw [nothing, Option.toList_none, List.append_nil]
    refine ⟨after.settled, both, kept.ahead, fun other member => ?_, kept.distinct⟩
    have before := kept.seen other member
    rw [names, List.dropLast_cons_cons, List.mem_cons] at before
    rw [finished, left, List.mem_cons]
    tauto
  · have grown : entered? search ⟨moved, search.ahead⟩ = some name := by
      obtain ⟨root, others, shape⟩ := List.exists_cons_of_ne_nil proper
      simp [entered?, names, shape]
    have new : name ∉ entered := by
      intro member
      rcases kept.seen name member with done | under
      · exact fresh done
      · exact absent (List.dropLast_subset _ under)
    rw [grown, Option.toList_some]
    refine ⟨after.settled, both, kept.ahead, fun other member => ?_, ?_⟩
    · rw [finished, names, List.dropLast_cons_of_ne_nil proper, List.mem_cons]
      rcases List.mem_append.mp member with earlier | last
      · exact (kept.seen other earlier).imp_right .inr
      · exact .inr (.inl (List.mem_singleton.mp last))
    · refine List.nodup_append.mpr ⟨kept.distinct, List.nodup_singleton _, fun other earlier last here same => new ?_⟩
      rwa [← List.mem_singleton.mp here, ← same]

/-- The check of the next member, which may start a walk. -/
theorem Kept.turn {struct : StructDef} {info : MemberInfo} (kept : Kept schema entered search)
    (ended : search.walk.step schema = .ok none) (more : search.ahead = (struct, info) :: next.ahead)
    (begun : next.walk = ⟨[], search.walk.finished⟩ ∨
      ∃ path, info.type.contained? = some path ∧ next.walk = .start struct path search.walk.finished) :
    Kept schema (entered ++ (entered? search next).toList) next := by
  have finished : next.walk.finished = search.walk.finished := by
    rcases begun with empty | ⟨path, _, started⟩
    · rw [empty]
    · rw [started, Walk.start]
  have nothing : entered? search next = none := by
    rcases begun with empty | ⟨path, _, started⟩
    · simp [entered?, empty, Walk.names]
    · simp [entered?, started, Walk.names, Walk.start]
  have declared := kept.ahead (struct, info) (by simp [more])
  rw [nothing, Option.toList_none, List.append_nil]
  refine ⟨finished ▸ kept.settled, ?_, fun member later => kept.ahead member (by simp [more, later]),
    fun name member => .inl ?_, kept.distinct⟩
  · rcases begun with empty | ⟨path, contained, started⟩
    · exact .inl (by rw [empty])
    · have held : path ∈ struct.contained := List.mem_filterMap.mpr ⟨info, declared.2, contained⟩
      rw [started]
      exact .inr ⟨Walk.straight_start _ declared.1 held, path, Walk.tracked_start struct path kept.settled⟩
  · have before := kept.seen name member
    rw [names_of_end ended] at before
    rw [finished]
    simpa using before

theorem Kept.step (kept : Kept schema entered search) (stepped : search.step schema = .ok (some next)) :
    Kept schema (entered ++ (entered? search next).toList) next := by
  rcases cases_of_step stepped with ⟨moved, same⟩ | ⟨struct, info, ended, more, begun⟩
  · obtain ⟨walk, ahead⟩ := next
    cases same
    exact kept.move moved
  · exact kept.turn ended more begun

theorem Kept.run {first : Search} (kept : Kept schema [] first) (run : Run schema first entered search) :
    Kept schema entered search := by
  induction run with
  | refl => exact kept
  | tail _ stepped ih => exact ih.step stepped

end Search

/-- What a settled struct leads to is settled with it. -/
theorem Schema.Settled.closed {schema : Schema} {finished : List String} (settled : schema.Settled finished)
    {outer inner : String} (member : outer ∈ finished) (leads : schema.Leads outer inner) : inner ∈ finished := by
  induction finished with
  | nil => cases member
  | cons last earlier ih =>
    rcases List.mem_cons.mp member with rfl | member
    · exact List.mem_cons_of_mem _ (settled.1 inner leads)
    · exact List.mem_cons_of_mem _ (ih settled.2 member)

namespace Schema

variable {declarations : List Declaration}

/-- No search goes on for ever, and that of a schema ends where the checks of its structs do. On the way the names on
the stack are distinct, a finished struct contains finished structs only, and no struct is entered a second time,
whichever walk enters it. -/
theorem search_of_distinct (distinct : (declarations.map (·.name.text)).Nodup) :
    let schema : Schema := ⟨declarations⟩
    WellFounded (fun after before : Search => before.step schema = .ok (some after)) ∧
    (∃ entered last, Search.Run schema (.start schema) entered last ∧
      (last.step schema = .ok none ∧ schema.structs.foldlM schema.checkStruct [] = .ok last.walk.finished ∨
        ∃ error, last.step schema = .error error ∧ schema.structs.foldlM schema.checkStruct [] = .error error)) ∧
    ∀ entered search, Search.Run schema (.start schema) entered search →
      search.walk.names.Nodup ∧
      (∀ outer inner, schema.Encloses outer inner → outer.name.text ∈ search.walk.finished →
        inner.name.text ∈ search.walk.finished) ∧
      entered.Nodup := by
  intro schema
  refine ⟨Search.step_wellFounded schema, ?_, fun entered search run => ?_⟩
  · rw [← Search.outcome_start]
    exact Search.exists_run schema (.start schema)
  · have begun : Search.Kept schema [] (.start schema) := Search.kept_start distinct
    have kept := begun.run run
    refine ⟨?_, fun outer inner encloses done => kept.settled.closed done (encloses.leads distinct), kept.distinct⟩
    rcases kept.walking with empty | ⟨straight, _⟩
    · simp [Walk.names, empty]
    · exact straight.distinct

/-- Two structs that the first one contains have the last one in common, and one of them is in the other. -/
def sharedBelowRoot : List Declaration :=
  [structOf "root" [referenceAt "a" 1, referenceAt "b" 2], structOf "a" [referenceAt "shared" 3],
   structOf "b" [referenceAt "shared" 4, referenceAt "a" 5], structOf "shared" []]

theorem search_of_sharedBelowRoot :
    (sharedBelowRoot.map (·.name.text)).Nodup ∧
    ∃ entered last, Search.Run ⟨sharedBelowRoot⟩ (.start ⟨sharedBelowRoot⟩) entered last ∧
      last.step ⟨sharedBelowRoot⟩ = .ok none ∧ last.walk.finished = ["b", "a", "shared"] ∧ entered.Nodup := by
  have distinct : (sharedBelowRoot.map (·.name.text)).Nodup := by decide
  have passed : (Schema.mk sharedBelowRoot).structs.foldlM (Schema.mk sharedBelowRoot).checkStruct [] =
      .ok ["b", "a", "shared"] := by
    cbv
  obtain ⟨_, ⟨entered, last, run, ⟨ended, finished⟩ | ⟨_, _, failed⟩⟩, throughout⟩ := search_of_distinct distinct
  · rw [passed] at finished
    exact ⟨distinct, entered, last, run, ended, (Except.ok.inj finished).symm, (throughout entered last run).2.2⟩
  · rw [passed] at failed
    cases failed

end Schema

end RecordLayout
