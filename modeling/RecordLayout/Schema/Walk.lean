import RecordLayout.Diagnostic
import RecordLayout.Schema
import RecordLayout.Schema.References

/-!
The search for structs that contain themselves. A walk goes from struct to contained struct, depth
first, with the structs under way on a stack; a reference back to one of them is a cycle. Structs
whose references have all been followed are remembered, also from one walk to the next, and are
never entered again. So every step enters a struct not seen before or leaves less to follow.
-/

namespace RecordLayout

/-- A struct under way, the reference that led to it, and the references still to be followed. -/
structure Frame where
  struct : StructDef
  via : Option Path
  pending : List Path

namespace Frame

def name (frame : Frame) : String :=
  frame.struct.name.text

/-- A struct just entered through a reference. -/
def enter (struct : StructDef) (via : Path) : Frame :=
  ⟨struct, some via, struct.contained⟩

end Frame

/-- The structs under way, the last one entered first, and the names of finished structs. -/
structure Walk where
  stack : List Frame
  finished : List String

namespace Walk

/-- A walk that is to follow one reference of a struct. -/
def start (struct : StructDef) (reference : Path) (finished : List String) : Walk :=
  ⟨[⟨struct, none, [reference]⟩], finished⟩

def names (walk : Walk) : List String :=
  walk.stack.map Frame.name

/-- The cycle that a reference closes when its struct is on the stack: the names from that struct
to the last one entered and back, each with the reference to the next. -/
def cycleError (stack : List Frame) (reference : Path) : CompileError :=
  let inner := (stack.takeWhile (·.name ≠ reference.name)).reverse
  .recursiveStruct
    (inner.filterMap (·.via.map Path.span) ++ [reference.span])
    (reference.name :: inner.map Frame.name ++ [reference.name])

/-- One step of a walk; none when it has come to its end. -/
def step (schema : Schema) (walk : Walk) : Except CompileError (Option Walk) :=
  match walk.stack with
  | [] => .ok none
  | frame :: below =>
    match frame.pending with
    | [] =>
      if below.isEmpty then .ok none else .ok (some ⟨below, frame.name :: walk.finished⟩)
    | reference :: rest =>
      let stack := { frame with pending := rest } :: below
      match schema.findStruct? reference.name with
      | none => .ok (some ⟨stack, walk.finished⟩)
      | some struct =>
        if reference.name ∈ walk.finished then
          .ok (some ⟨stack, walk.finished⟩)
        else if reference.name ∈ walk.names then
          .error (cycleError stack reference)
        else
          .ok (some ⟨.enter struct reference :: stack, walk.finished⟩)

/-- How many structs the walk has not seen yet. -/
def unseen (schema : Schema) (walk : Walk) : Nat :=
  (schema.structs.filter fun struct =>
    decide (struct.name.text ∉ walk.finished ∧ struct.name.text ∉ walk.names)).length

/-- How much is left to follow on the stack, and how many structs are to be left. -/
def remaining (walk : Walk) : Nat :=
  walk.stack.foldr (fun frame others => frame.pending.length + 1 + others) 0

private theorem length_filter_lt {p q : α → Bool} {items : List α} {item : α}
    (narrower : ∀ x, q x = true → p x = true) (member : item ∈ items)
    (before : p item = true) (after : q item = false) :
    (items.filter q).length < (items.filter p).length := by
  obtain ⟨front, back, rfl⟩ := List.append_of_mem member
  have first : front.countP q ≤ front.countP p := List.countP_mono_left fun x _ => narrower x
  have last : back.countP q ≤ back.countP p := List.countP_mono_left fun x _ => narrower x
  simp only [← List.countP_eq_length_filter, List.countP_append, List.countP_cons, before, after]
  simp
  omega

/-- A step lowers the number of unseen structs, or keeps it and leaves less to follow. -/
theorem step_decreases {schema : Schema} {walk next : Walk}
    (stepped : walk.step schema = .ok (some next)) :
    Prod.Lex (· < ·) (· < ·) (next.unseen schema, next.remaining)
      (walk.unseen schema, walk.remaining) := by
  obtain ⟨stack, finished⟩ := walk
  cases stack with
  | nil => simp [step] at stepped
  | cons frame below =>
    obtain ⟨struct, via, pending⟩ := frame
    cases pending with
    | nil =>
      cases below with
      | nil => simp [step] at stepped
      | cons lower others =>
        simp only [step, List.isEmpty_cons, Bool.false_eq_true, if_false, Except.ok.injEq,
          Option.some.injEq] at stepped
        subst stepped
        have same : unseen schema ⟨lower :: others, Frame.name ⟨struct, via, []⟩ :: finished⟩ =
            unseen schema ⟨⟨struct, via, []⟩ :: lower :: others, finished⟩ := by
          unfold unseen
          congr 2
          funext candidate
          simp only [names, List.map_cons, List.mem_cons]
          grind
        rw [same]
        exact .right _ (by simp [remaining])
    | cons reference rest =>
      have fewer : remaining ⟨⟨struct, via, rest⟩ :: below, finished⟩ <
          remaining ⟨⟨struct, via, reference :: rest⟩ :: below, finished⟩ := by
        simp [remaining]
      simp only [step] at stepped
      split at stepped
      next => cases stepped; exact .right _ fewer
      next target found =>
        split at stepped
        next => cases stepped; exact .right _ fewer
        next fresh =>
          split at stepped
          next => cases stepped
          next absent =>
            cases stepped
            have named := Schema.name_of_findStruct? found
            refine .left _ _ (length_filter_lt ?_
              (Schema.mem_structs_of_findStruct? found) ?_ ?_)
            · intro candidate
              simp only [names, List.map_cons, List.mem_cons, decide_eq_true_eq]
              grind [Frame.name]
            · simp only [named, decide_eq_true_eq]
              exact ⟨fresh, absent⟩
            · simp [names, Frame.enter, Frame.name]

/-- Follows a walk to its end: the names of all structs finished by then, or the first cycle. -/
def run (schema : Schema) (walk : Walk) : Except CompileError (List String) :=
  match _ : walk.step schema with
  | .error error => .error error
  | .ok none => .ok walk.finished
  | .ok (some next) => run schema next
termination_by (walk.unseen schema, walk.remaining)
decreasing_by exact step_decreases ‹_›

end Walk

end RecordLayout
