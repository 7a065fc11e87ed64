import Mathlib.Data.List.Nodup
import Mathlib.Logic.Relation
import RecordLayout.Proofs.Schema.References
import RecordLayout.Schema.Walk

/-! The steps of the search for structs that contain themselves. What a step can do is said once, as
moves, and a run is a sequence of moves up to a walk that ends or fails; invariants of the search are
invariants of moves. -/

namespace RecordLayout

namespace Schema

/-- A reference that need not be followed: it names no struct, or a finished one. -/
def Done (schema : Schema) (finished : List String) (reference : Path) : Prop :=
  schema.findStruct? reference.name = none ∨ reference.name ∈ finished

variable {schema : Schema}

theorem Done.mono {before after : List String} {reference : Path}
    (done : schema.Done before reference) (grows : before ⊆ after) : schema.Done after reference :=
  done.imp_right fun member => grows member

end Schema

namespace Walk

variable {schema : Schema} {walk next : Walk}

/-- What one step of a walk can do: leave a struct whose references have been followed, pass over a
reference that need not be followed, or enter the struct that a reference names. -/
inductive Move (schema : Schema) : Walk → Walk → Prop where
  | leave {frame lower below finished} (followed : frame.pending = []) :
      Move schema ⟨frame :: lower :: below, finished⟩ ⟨lower :: below, frame.name :: finished⟩
  | pass {frame reference rest below finished} (pending : frame.pending = reference :: rest)
      (done : schema.Done finished reference) :
      Move schema ⟨frame :: below, finished⟩ ⟨{ frame with pending := rest } :: below, finished⟩
  | enter {frame reference rest below finished struct} (pending : frame.pending = reference :: rest)
      (found : schema.findStruct? reference.name = some struct)
      (absent : reference.name ∉ (frame :: below).map Frame.name) :
      Move schema ⟨frame :: below, finished⟩
        ⟨.enter struct reference :: { frame with pending := rest } :: below, finished⟩

theorem move_of_step (stepped : walk.step schema = .ok (some next)) : Move schema walk next := by
  obtain ⟨stack, finished⟩ := walk
  cases stack with
  | nil => cases stepped
  | cons frame below =>
    cases pending : frame.pending with
    | nil =>
      cases below with
      | nil => simp [step, pending] at stepped
      | cons lower below =>
        simp only [step, pending, List.isEmpty_cons, Bool.false_eq_true, if_false] at stepped
        cases stepped
        exact .leave pending
    | cons reference rest =>
      simp only [step, pending] at stepped
      split at stepped
      next missing =>
        cases stepped
        exact .pass pending (.inl missing)
      next struct found =>
        split at stepped
        next member =>
          cases stepped
          exact .pass pending (.inr member)
        next =>
          split at stepped
          next => cases stepped
          next absent =>
            cases stepped
            exact .enter pending found absent

/-- A walk ends at its root, with nothing left to follow. -/
theorem stack_of_step_end (stepped : walk.step schema = .ok none) :
    walk.stack = [] ∨ ∃ frame, walk.stack = [frame] ∧ frame.pending = [] := by
  obtain ⟨stack, finished⟩ := walk
  cases stack with
  | nil => exact .inl rfl
  | cons frame below =>
    cases pending : frame.pending with
    | nil =>
      cases below with
      | nil => exact .inr ⟨frame, rfl, pending⟩
      | cons lower below => simp [step, pending] at stepped
    | cons reference rest =>
      simp only [step, pending] at stepped
      split at stepped
      next => cases stepped
      next =>
        split at stepped
        next => cases stepped
        next => split at stepped <;> cases stepped

/-- A walk fails at a reference to a struct under way. -/
theorem cycle_of_step_error {error : CompileError} (stepped : walk.step schema = .error error) :
    ∃ frame reference rest below, walk.stack = frame :: below ∧ frame.pending = reference :: rest ∧
      reference.name ∈ walk.names ∧
      error = cycleError ({ frame with pending := rest } :: below) reference := by
  obtain ⟨stack, finished⟩ := walk
  cases stack with
  | nil => cases stepped
  | cons frame below =>
    cases pending : frame.pending with
    | nil => cases below <;> simp [step, pending] at stepped
    | cons reference rest =>
      simp only [step, pending] at stepped
      split at stepped
      next => cases stepped
      next =>
        split at stepped
        next => cases stepped
        next =>
          split at stepped
          next underWay =>
            cases stepped
            exact ⟨frame, reference, rest, below, rfl, pending, underWay, rfl⟩
          next => cases stepped

/-- A run goes on as long as there is a step. -/
theorem run_eq (schema : Schema) (walk : Walk) :
    walk.run schema =
      match walk.step schema with
      | .error error => .error error
      | .ok none => .ok walk.finished
      | .ok (some next) => next.run schema := by
  rw [run]
  split <;> simp_all

/-- A run makes moves up to the walk at which it ends or fails. -/
theorem run_moves (schema : Schema) (walk : Walk) :
    ∃ last, Relation.ReflTransGen (Move schema) walk last ∧
      (last.step schema = .ok none ∧ walk.run schema = .ok last.finished ∨
        ∃ error, last.step schema = .error error ∧ walk.run schema = .error error) := by
  fun_induction run schema walk with
  | case1 walk error stepped => exact ⟨walk, .refl, .inr ⟨error, stepped, rfl⟩⟩
  | case2 walk stepped => exact ⟨walk, .refl, .inl ⟨stepped, rfl⟩⟩
  | case3 walk next stepped ih =>
    obtain ⟨last, moves, ending⟩ := ih
    exact ⟨last, .head (move_of_step stepped) moves, ending⟩

end Walk

end RecordLayout
