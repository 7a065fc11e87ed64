import RecordLayout.Proofs.Schema.Cycle

/-! What a walk that ends has followed. A struct is finished when all it leads to is finished, so no
endless walk begins at a finished struct, whichever walk finished it. The struct at the root is not
among them: a walk answers for one of its references only. -/

namespace RecordLayout

namespace Schema

/-- A struct of one name refers to a struct of another. -/
def Leads (schema : Schema) (outer inner : String) : Prop :=
  ∃ struct, schema.findStruct? outer = some struct ∧
    ∃ path ∈ struct.contained, path.name = inner ∧ (schema.findStruct? inner).isSome

/-- Finished names, the last one first: what a struct leads to was finished before it. -/
def Settled (schema : Schema) : List String → Prop
  | [] => True
  | name :: earlier => (∀ inner, schema.Leads name inner → inner ∈ earlier) ∧ schema.Settled earlier

variable {schema : Schema}

/-- A struct whose references are all done leads to finished structs only. -/
theorem mem_of_leads {finished : List String} {struct : StructDef} {outer inner : String}
    (declared : schema.findStruct? outer = some struct)
    (done : ∀ path ∈ struct.contained, schema.Done finished path) (leads : schema.Leads outer inner) :
    inner ∈ finished := by
  obtain ⟨other, found, path, held, rfl, present⟩ := leads
  rw [declared] at found
  cases found
  rcases done path held with missing | member
  · simp [missing] at present
  · exact member

/-- No endless walk begins at a settled name. -/
theorem Settled.acc {finished : List String} (settled : schema.Settled finished) :
    ∀ name ∈ finished, Acc (fun inner outer => schema.Leads outer inner) name := by
  induction finished with
  | nil => simp
  | cons last earlier ih =>
    have before := ih settled.2
    intro name member
    rcases List.mem_cons.mp member with rfl | member
    · exact .intro _ fun inner leads => before inner (settled.1 inner leads)
    · exact before name member

end Schema

namespace Walk

variable {schema : Schema}

/-- Every reference of a struct under way is pending, led to the struct above, or is done. The struct
at the root answers for the one reference that the walk started with. -/
inductive Covered (schema : Schema) (finished : List String) (reference : Path) :
    Option Path → List Frame → Prop where
  | root {root pending above}
      (covered : reference ∈ pending ∨ above = some reference ∨ schema.Done finished reference) :
      Covered schema finished reference above [⟨root, none, pending⟩]
  | entered {struct via pending above lower below}
      (rest : Covered schema finished reference (some via) (lower :: below))
      (covered : ∀ path ∈ struct.contained,
        path ∈ pending ∨ above = some path ∨ schema.Done finished path) :
      Covered schema finished reference above (⟨struct, some via, pending⟩ :: lower :: below)

namespace Covered

variable {finished : List String} {reference : Path} {frame lower : Frame} {below : List Frame}

/-- The reference that led upward may become done, and done references stay so. -/
theorem mono {above after : Option Path} {stack : List Frame} {more : List String}
    (covered : Covered schema finished reference above stack) (grows : finished ⊆ more)
    (returned : ∀ path, above = some path → after = some path ∨ schema.Done more path) :
    Covered schema more reference after stack := by
  induction covered generalizing after with
  | root covered =>
    refine .root (covered.imp_right fun either => ?_)
    exact either.elim (returned reference) fun done => .inr (done.mono grows)
  | entered rest covered ih =>
    refine .entered (ih fun path same => .inl same) fun path held => ?_
    refine (covered path held).imp_right fun either => ?_
    exact either.elim (returned path) fun done => .inr (done.mono grows)

/-- A reference at the front of those pending is passed over or followed. -/
theorem narrow {next : Path} {rest : List Path} {above : Option Path}
    (covered : Covered schema finished reference none (frame :: below))
    (pending : frame.pending = next :: rest) (handled : above = some next ∨ schema.Done finished next) :
    Covered schema finished reference above ({ frame with pending := rest } :: below) := by
  have still : ∀ path, path ∈ frame.pending ∨ none = some path ∨ schema.Done finished path →
      path ∈ rest ∨ above = some path ∨ schema.Done finished path := by
    intro path either
    rcases either with member | impossible | done
    · rw [pending] at member
      rcases List.mem_cons.mp member with rfl | member
      · exact .inr handled
      · exact .inl member
    · cases impossible
    · exact .inr (.inr done)
  cases covered with
  | root covered => exact .root (still reference covered)
  | entered rest covered => exact .entered rest fun path held => still path (covered path held)

/-- A struct with nothing pending has all its references done. -/
theorem done (covered : Covered schema finished reference none (frame :: lower :: below))
    (followed : frame.pending = []) : ∀ path ∈ frame.struct.contained, schema.Done finished path := by
  cases covered with
  | @entered struct via pending _ _ _ rest covered =>
    have nothing : pending = [] := followed
    intro path held
    rcases covered path held with member | impossible | done
    · simp [nothing] at member
    · cases impossible
    · exact done

/-- Leaving a struct finishes the reference that led to it. -/
theorem leave (linked : Linked schema (frame :: lower :: below))
    (covered : Covered schema finished reference none (frame :: lower :: below)) :
    Covered schema (frame.name :: finished) reference none (lower :: below) := by
  cases covered with
  | @entered struct via pending _ _ _ rest _ =>
    have named : struct.name.text = via.name := by
      cases linked with
      | entered _ _ found _ => exact Schema.name_of_findStruct? found
    refine rest.mono (List.subset_cons_self _ _) fun path same => .inr (.inr ?_)
    cases same
    exact List.mem_cons.mpr (.inl named.symm)

end Covered

/-- What is finished is settled, and nothing that was to be followed has been lost. -/
structure Tracked (schema : Schema) (reference : Path) (walk : Walk) : Prop where
  settled : schema.Settled walk.finished
  covered : Covered schema walk.finished reference none walk.stack

variable {walk next : Walk} {reference : Path}

theorem tracked_start (struct : StructDef) (reference : Path) {finished : List String}
    (settled : schema.Settled finished) : (start struct reference finished).Tracked schema reference :=
  ⟨settled, .root (.inl (by simp))⟩

theorem Tracked.move (tracked : walk.Tracked schema reference) (straight : walk.Straight schema)
    (moved : Move schema walk next) : next.Tracked schema reference := by
  obtain ⟨settled, covered⟩ := tracked
  cases moved with
  | leave followed =>
    have last := straight.linked.declared
    refine ⟨⟨?_, settled⟩, covered.leave straight.linked⟩
    exact fun inner leads => Schema.mem_of_leads last (covered.done followed) leads
  | pass pending done => exact ⟨settled, covered.narrow pending (.inr done)⟩
  | enter pending found absent =>
    exact ⟨settled, .entered (covered.narrow pending (.inl rfl)) fun path held => .inl held⟩

theorem Move.finished_subset (moved : Move schema walk next) : walk.finished ⊆ next.finished := by
  cases moved with
  | leave => exact List.subset_cons_self _ _
  | pass => exact List.Subset.refl _
  | enter => exact List.Subset.refl _

theorem Tracked.moves {last : Walk} (tracked : walk.Tracked schema reference)
    (straight : walk.Straight schema) (moves : Relation.ReflTransGen (Move schema) walk last) :
    last.Tracked schema reference ∧ walk.finished ⊆ last.finished := by
  induction moves with
  | refl => exact ⟨tracked, List.Subset.refl _⟩
  | tail before moved ih =>
    exact ⟨ih.1.move (straight.moves before) moved, List.Subset.trans ih.2 moved.finished_subset⟩

/-- Where the root has nothing pending, the reference it started with is done. -/
theorem Tracked.done_of_end (tracked : walk.Tracked schema reference)
    (ended : walk.step schema = .ok none) : schema.Done walk.finished reference := by
  have covered := tracked.covered
  rcases stack_of_step_end ended with empty | ⟨frame, single, followed⟩
  · rw [empty] at covered
    cases covered
  · rw [single] at covered
    cases covered with
    | @root root pending _ covered =>
      have nothing : pending = [] := followed
      rcases covered with member | impossible | done
      · simp [nothing] at member
      · cases impossible
      · exact done

/-- A walk that ends has settled all that it finished, forgotten nothing that was finished before, and
done the reference it started with. -/
theorem settled_of_run_ok {finished : List String} (tracked : walk.Tracked schema reference)
    (straight : walk.Straight schema) (ran : walk.run schema = .ok finished) :
    schema.Settled finished ∧ walk.finished ⊆ finished ∧ schema.Done finished reference := by
  obtain ⟨last, moves, ⟨stepped, ended⟩ | ⟨_, _, failed⟩⟩ := run_moves schema walk
  · rw [ran] at ended
    cases ended
    obtain ⟨reached, kept⟩ := tracked.moves straight moves
    exact ⟨reached.settled, kept, reached.done_of_end stepped⟩
  · rw [ran] at failed
    cases failed

end Walk

end RecordLayout
