import RecordLayout.Writer

/-!
What a program writes, apart from how it writes it. A program comes down to strokes: characters one
by one, with the changes of the level between them. Texts that are written in parts leave the same
strokes as their concatenation, so what a writer holds is settled by the strokes alone, and the lines
that are drawn from them say what that is.
-/

namespace RecordLayout.Writer

inductive Stroke where
  | char (c : Char)
  | indent
  | dedent
deriving DecidableEq

/-- The level after a stroke. -/
def Stroke.shift : Stroke → Nat → Nat
  | .char _, level => level
  | .indent, level => level + 1
  | .dedent, level => level - 1

/-- A stroke made alone, as if nothing came with it. -/
def draw (writer : Writer) : Stroke → Writer
  | .char c => writer.putPiece [c]
  | .indent => writer.indent
  | .dedent => writer.dedent

def characters (text : String) : List Stroke :=
  text.toList.map .char

mutual

/-- Whether a program reaches its end. -/
def Op.succeeds : Op → Bool
  | .indented body => succeedsAll body
  | .fail => false
  | .indent | .dedent | .line _ | .write _ | .blankLine => true

def succeedsAll : List Op → Bool
  | [] => true
  | op :: rest => op.succeeds && succeedsAll rest

end

mutual

/-- The strokes of a program, up to the first operation that fails. -/
def Op.strokes : Op → List Stroke
  | .indent => [.indent]
  | .dedent => [.dedent]
  | .line text => characters text ++ [.char '\n']
  | .write text => characters text
  | .blankLine => [.char '\n']
  | .indented body => .indent :: strokesAll body ++ [.dedent]
  | .fail => []

def strokesAll : List Op → List Stroke
  | [] => []
  | op :: rest => op.strokes ++ if op.succeeds then strokesAll rest else []

end

/-- The characters that are written, each with the level in force when it is. -/
def levelled : Nat → List Stroke → List (Nat × Char)
  | _, [] => []
  | level, .char c :: rest => (level, c) :: levelled level rest
  | level, .indent :: rest => levelled (level + 1) rest
  | level, .dedent :: rest => levelled (level - 1) rest

/-- The lines of a text without their line breaks. What follows the last line break is a line too. -/
def linesOf (text : List (Nat × Char)) : List (List (Nat × Char)) :=
  text.splitOnP fun written => written.2 = '\n'

def plain (line : List (Nat × Char)) : String :=
  String.ofList (line.map Prod.snd)

/-- A line behind as many copies of the unit as the level at its first character. -/
def laidOut (unit : String) : List (Nat × Char) → String
  | [] => ""
  | (level, c) :: rest => String.join (List.replicate level unit) ++ plain ((level, c) :: rest)

/-- What a new writer holds after some strokes. -/
def drawn (unit : String) (strokes : List Stroke) : Writer where
  text := "\n".intercalate ((linesOf (levelled 0 strokes)).map (laidOut unit))
  level := strokes.foldl (fun level stroke => stroke.shift level) 0
  unit := unit
  atLineStart := (levelled 0 strokes).getLast?.all fun written => written.2 = '\n'

/-! ### Texts in parts -/

theorem ne_nil_of_mem_pieces {text piece : List Char} (member : piece ∈ pieces text) : piece ≠ [] := by
  induction text generalizing piece with
  | nil => cases member
  | cons c rest ih =>
    rw [pieces] at member
    split at member
    · obtain rfl | member := List.mem_cons.mp member
      · exact List.cons_ne_nil c []
      · exact ih member
    · split at member
      next => exact List.mem_singleton.mp member ▸ List.cons_ne_nil c []
      next first others found =>
        obtain rfl | member := List.mem_cons.mp member
        · exact List.cons_ne_nil c first
        · exact ih (found ▸ List.mem_cons_of_mem first member)

theorem putPiece_break (writer : Writer) :
    writer.putPiece ['\n'] = { writer with text := writer.text ++ "\n", atLineStart := true } := by
  have alone : ¬(writer.atLineStart ∧ ['\n'] ≠ ['\n']) := fun both => both.2 rfl
  simp only [putPiece, if_neg alone, String.append_empty, List.getLast?_singleton, decide_true]

/-- The first piece of a line that has a character before its line break. -/
theorem putPiece_unbroken (writer : Writer) {c : Char} (unbroken : c ≠ '\n') (piece : List Char) :
    writer.putPiece (c :: piece) =
      { writer with
        text := writer.text ++
          (if writer.atLineStart then String.join (List.replicate writer.level writer.unit) else "") ++
          String.ofList (c :: piece)
        atLineStart := (c :: piece).getLast? = some '\n' } := by
  have longer : c :: piece ≠ ['\n'] := fun same => unbroken (List.cons.inj same).1
  simp only [putPiece, indentation, longer, ne_eq, not_false_eq_true, and_true]

/-- A character that does not end a line may be written before the rest of its piece. -/
theorem putPiece_cons (writer : Writer) {c : Char} {piece : List Char} (unbroken : c ≠ '\n') (more : piece ≠ []) :
    writer.putPiece (c :: piece) = (writer.putPiece [c]).putPiece piece := by
  have last : (c :: piece).getLast? = piece.getLast? := by
    rw [List.getLast?_cons, List.getLast?_eq_some_getLast more, Option.getD_some]
  have opened : decide ([c].getLast? = some '\n') = false := by simpa using unbroken
  have cut : String.ofList (c :: piece) = String.ofList [c] ++ String.ofList piece := by
    rw [← String.ofList_append, List.singleton_append]
  rw [putPiece_unbroken writer unbroken, putPiece_unbroken writer unbroken, putPiece, last, opened, cut]
  simp only [Bool.false_eq_true, false_and, if_false, String.append_empty, String.append_assoc]

theorem write_eq_foldl (writer : Writer) (text : String) :
    writer.write text = (characters text).foldl draw writer := by
  have charwise : ∀ (text : List Char) (writer : Writer),
      (pieces text).foldl putPiece writer = (text.map Stroke.char).foldl draw writer := by
    intro text
    induction text with
    | nil => intro writer; rfl
    | cons c rest ih =>
      intro writer
      rw [List.map_cons, List.foldl_cons, draw, ← ih, pieces]
      split
      next ends => rw [List.foldl_cons]
      next unbroken =>
        cases found : pieces rest with
        | nil => rfl
        | cons piece others =>
          have more : piece ≠ [] := ne_nil_of_mem_pieces (found ▸ List.mem_cons_self)
          rw [List.foldl_cons, List.foldl_cons, putPiece_cons writer unbroken more]
  exact charwise text.toList writer

theorem blankLine_eq_draw (writer : Writer) : writer.blankLine = writer.draw (.char '\n') :=
  write_eq_foldl writer "\n"

/-! ### Programs and their strokes -/

mutual

theorem Op.run_eq (op : Op) (writer : Writer) : op.run writer = ⟨op.strokes.foldl draw writer, op.succeeds⟩ := by
  cases op with
  | indent => rfl
  | dedent => rfl
  | fail => rfl
  | blankLine => rw [Op.run, Op.strokes, Op.succeeds, blankLine_eq_draw]; rfl
  | write text => rw [Op.run, Op.strokes, Op.succeeds, write_eq_foldl]
  | line text =>
    rw [Op.run, Op.strokes, Op.succeeds, line, write_eq_foldl, blankLine_eq_draw, List.foldl_append]
    rfl
  | indented body =>
    rw [Op.run, Op.strokes, Op.succeeds, runAll_eq body, List.cons_append, List.foldl_cons, List.foldl_append]
    rfl

theorem runAll_eq (ops : List Op) (writer : Writer) :
    runAll ops writer = ⟨(strokesAll ops).foldl draw writer, succeedsAll ops⟩ := by
  cases ops with
  | nil => rfl
  | cons op rest =>
    rw [runAll, Op.run_eq op, strokesAll, succeedsAll, List.foldl_append]
    cases op.succeeds with
    | false => rfl
    | true => exact runAll_eq rest _

end

/-! ### The lines that strokes draw -/

theorem level_draw (writer : Writer) (stroke : Stroke) : (writer.draw stroke).level = stroke.shift writer.level := by
  cases stroke <;> rfl

theorem level_foldl_draw (strokes : List Stroke) (writer : Writer) :
    (strokes.foldl draw writer).level = strokes.foldl (fun level stroke => stroke.shift level) writer.level := by
  induction strokes generalizing writer with
  | nil => rfl
  | cons stroke rest ih => rw [List.foldl_cons, List.foldl_cons, ih, level_draw]

theorem unit_foldl_draw (strokes : List Stroke) (writer : Writer) : (strokes.foldl draw writer).unit = writer.unit := by
  induction strokes generalizing writer with
  | nil => rfl
  | cons stroke rest ih =>
    rw [List.foldl_cons, ih]
    cases stroke <;> rfl

/-- The last character settles whether the next one begins a line. -/
theorem atLineStart_foldl_draw (strokes : List Stroke) (writer : Writer) :
    (strokes.foldl draw writer).atLineStart =
      ((levelled writer.level strokes).getLast?.map fun written => decide (written.2 = '\n')).getD
        writer.atLineStart := by
  induction strokes generalizing writer with
  | nil => rfl
  | cons stroke rest ih =>
    rw [List.foldl_cons, ih]
    cases stroke with
    | indent => rfl
    | dedent => rfl
    | char c =>
      have flag : (writer.draw (.char c)).atLineStart = decide (c = '\n') := by
        rw [draw, putPiece, List.getLast?_singleton]
        exact decide_eq_decide.mpr Option.some_inj
      rw [flag, level_draw, levelled, List.getLast?_cons, Stroke.shift]
      cases (levelled writer.level rest).getLast? <;> rfl

/-- The text goes on from the line that is open: its first characters are indented if none of it has been
written. -/
theorem text_foldl_draw (strokes : List Stroke) (writer : Writer) {first : List (Nat × Char)}
    {others : List (List (Nat × Char))} (lines : linesOf (levelled writer.level strokes) = first :: others) :
    (strokes.foldl draw writer).text = writer.text ++ "\n".intercalate
      ((if writer.atLineStart then laidOut writer.unit first else plain first) :: others.map (laidOut writer.unit)) := by
  induction strokes generalizing writer first others with
  | nil =>
    obtain ⟨rfl, rfl⟩ : [] = first ∧ [] = others := by simpa [linesOf, levelled] using lines
    have nothing : (if writer.atLineStart then laidOut writer.unit [] else plain []) = "" := by split <;> rfl
    rw [nothing]
    exact String.append_empty.symm
  | cons stroke rest ih =>
    rw [List.foldl_cons]
    cases stroke with
    | indent => exact ih writer.indent lines
    | dedent => exact ih writer.dedent lines
    | char c =>
      obtain ⟨open', others', lines'⟩ := List.exists_cons_of_ne_nil
        (List.splitOnP_ne_nil (fun written => decide (written.2 = '\n')) (levelled writer.level rest))
      rw [linesOf, levelled, List.splitOnP_cons_eq_if_modifyHead, lines'] at lines
      rw [ih (writer.draw (.char c)) lines', draw]
      by_cases ends : c = '\n'
      · subst ends
        obtain ⟨rfl, rfl⟩ : [] = first ∧ open' :: others' = others := by simpa using lines
        have nothing : (if writer.atLineStart then laidOut writer.unit [] else plain []) = "" := by split <;> rfl
        rw [putPiece_break, nothing, List.map_cons, String.intercalate_cons_cons]
        simp only [if_true, String.append_assoc, String.empty_append]
      · obtain ⟨rfl, rfl⟩ : (writer.level, c) :: open' = first ∧ others' = others := by simpa [ends] using lines
        have opened : decide ([c].getLast? = some '\n') = false := by simpa using ends
        have longer : plain ((writer.level, c) :: open') = String.ofList [c] ++ plain open' := by
          rw [plain, List.map_cons, ← List.singleton_append, String.ofList_append]
          rfl
        have first : (if writer.atLineStart then laidOut writer.unit ((writer.level, c) :: open')
              else plain ((writer.level, c) :: open')) =
            ((if writer.atLineStart then String.join (List.replicate writer.level writer.unit) else "") ++
              String.ofList [c]) ++ plain open' := by
          split
          · rw [laidOut, longer, String.append_assoc]
          · rw [longer, String.empty_append]
        rw [putPiece_unbroken writer ends, opened, first, String.intercalate_cons_append]
        simp only [Bool.false_eq_true, if_false, String.append_assoc]

/-- However the characters are cut into texts, a program leaves a writer where its strokes do, one by one. On a new
writer that is a text of lines, each indented by the level at its first character and not at all without one. -/
theorem runAll_eq_drawn (unit : String) (ops : List Op) :
    (∀ before : Writer, (runAll ops before).writer = (strokesAll ops).foldl draw before) ∧
      (runAll ops (withUnit unit)).writer = drawn unit (strokesAll ops) := by
  refine ⟨fun before => by rw [runAll_eq], ?_⟩
  rw [runAll_eq]
  obtain ⟨first, others, lines⟩ := List.exists_cons_of_ne_nil
    (List.splitOnP_ne_nil (fun written => decide (written.2 = '\n')) (levelled 0 (strokesAll ops)))
  have text : ((strokesAll ops).foldl draw (withUnit unit)).text = (drawn unit (strokesAll ops)).text := by
    rw [text_foldl_draw (strokesAll ops) (withUnit unit) lines, drawn, linesOf, lines]
    exact String.empty_append
  have flag : ((strokesAll ops).foldl draw (withUnit unit)).atLineStart =
      (drawn unit (strokesAll ops)).atLineStart := by
    rw [atLineStart_foldl_draw, withUnit, drawn]
    cases (levelled 0 (strokesAll ops)).getLast? <;> rfl
  exact Writer.ext text (level_foldl_draw _ _) (unit_foldl_draw _ _) flag

/-- The level changes inside the first line, inside the second one, and inside that which follows the empty line. -/
def staggered : List Op :=
  [.write "a", .indent, .line "b", .write "", .write "c", .indent, .write "d\n", .blankLine, .write "e", .dedent,
    .dedent, .dedent, .write "f\ng"]

/-- The same characters at the same levels, cut elsewhere. -/
def staggeredAnew : List Op :=
  [.write "a", .indent, .write "b\nc", .indent, .write "d", .write "\n\ne", .dedent, .dedent, .dedent, .write "",
    .line "f", .write "g"]

theorem runAll_staggered :
    (runAll staggered (withUnit "> ")).writer = ⟨"ab\n> cd\n\n> > ef\ng", 0, "> ", false⟩ ∧
      (runAll staggeredAnew (withUnit "> ")).writer = ⟨"ab\n> cd\n\n> > ef\ng", 0, "> ", false⟩ := by
  have same : strokesAll staggeredAnew = strokesAll staggered := by decide
  have shown : drawn "> " (strokesAll staggered) = ⟨"ab\n> cd\n\n> > ef\ng", 0, "> ", false⟩ := by decide
  exact ⟨(runAll_eq_drawn "> " staggered).2.trans shown,
    (runAll_eq_drawn "> " staggeredAnew).2.trans (same ▸ shown)⟩

end RecordLayout.Writer
