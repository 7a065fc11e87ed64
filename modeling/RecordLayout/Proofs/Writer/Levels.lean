import RecordLayout.Proofs.Writer.Rows

/-! Programs that change the level only for a body of theirs. Every level that such a program enters is left again, also
where an operation fails inside. A failure ends all the bodies it stands in, and what a program has done by then is a
program too: the operations before the failure, with each of these bodies cut off where it stands. -/

namespace RecordLayout.Writer

mutual

/-- No level is entered or left but around a body. -/
def Op.Balanced : Op → Prop
  | .indented body => BalancedAll body
  | .indent | .dedent => False
  | .line _ | .write _ | .blankLine | .fail => True

def BalancedAll : List Op → Prop
  | [] => True
  | op :: rest => op.Balanced ∧ BalancedAll rest

end

/-- The first program fails, and the second one is what it has done before. -/
inductive CutShort : List Op → List Op → Prop where
  | here {rest} : CutShort (.fail :: rest) []
  | inside {body performed rest} (cut : CutShort body performed) :
      CutShort (.indented body :: rest) [.indented performed]
  | later {op rest performed} (first : op.succeeds = true) (cut : CutShort rest performed) :
      CutShort (op :: rest) (op :: performed)

/-! ### Levels -/

theorem level_write (writer : Writer) (text : String) : (writer.write text).level = writer.level := by
  rw [write_eq_foldl, level_foldl_draw, characters]
  induction text.toList with
  | nil => rfl
  | cons c rest ih => exact ih

theorem level_line (writer : Writer) (text : String) : (writer.line text).level = writer.level := by
  rw [line, blankLine, level_write, level_write]

mutual

theorem Op.level_run {op : Op} (balanced : op.Balanced) (writer : Writer) :
    (op.run writer).writer.level = writer.level := by
  cases op with
  | indent => exact balanced.elim
  | dedent => exact balanced.elim
  | fail => rfl
  | line text => exact level_line writer text
  | write text => exact level_write writer text
  | blankLine => exact level_write writer "\n"
  | indented body =>
    have inner := level_runAll (show BalancedAll body from balanced) writer.indent
    calc (runAll body writer.indent).writer.level - 1
      _ = (writer.level + 1) - 1 := by rw [inner]; rfl
      _ = writer.level := Nat.add_sub_cancel ..

theorem level_runAll {ops : List Op} (balanced : BalancedAll ops) (writer : Writer) :
    (runAll ops writer).writer.level = writer.level := by
  cases ops with
  | nil => rfl
  | cons op rest =>
    have first := Op.level_run balanced.1 writer
    rw [runAll]
    cases (op.run writer).ok with
    | true => exact (level_runAll balanced.2 _).trans first
    | false => exact first

end

/-! ### Texts -/

theorem exists_text_draw (writer : Writer) (stroke : Stroke) :
    ∃ added, (writer.draw stroke).text = writer.text ++ added := by
  cases stroke with
  | char c => exact ⟨_, String.append_assoc ..⟩
  | indent => exact ⟨"", String.append_empty.symm⟩
  | dedent => exact ⟨"", String.append_empty.symm⟩

/-- What has been written stays. -/
theorem exists_text_runAll (ops : List Op) (writer : Writer) :
    ∃ added, (runAll ops writer).writer.text = writer.text ++ added := by
  rw [runAll_eq]
  induction strokesAll ops generalizing writer with
  | nil => exact ⟨"", String.append_empty.symm⟩
  | cons stroke rest ih =>
    obtain ⟨first, here⟩ := exists_text_draw writer stroke
    obtain ⟨others, there⟩ := ih (writer.draw stroke)
    exact ⟨first ++ others, by rw [List.foldl_cons, there, here, String.append_assoc]⟩

/-! ### Failures -/

theorem ok_run (op : Op) (writer : Writer) : (op.run writer).ok = op.succeeds := by
  rw [Op.run_eq]

theorem CutShort.succeedsAll_eq {ops performed : List Op} (cut : CutShort ops performed) :
    succeedsAll ops = false ∧ succeedsAll performed = true := by
  induction cut with
  | here => exact ⟨rfl, rfl⟩
  | inside cut ih => simp [succeedsAll, Op.succeeds, ih]
  | later first cut ih => simp [succeedsAll, first, ih]

theorem exists_cutShort : ∀ ops, succeedsAll ops = false → ∃ performed, CutShort ops performed
  | [], impossible => by cases impossible
  | .fail :: _, _ => ⟨[], .here⟩
  | .indented body :: rest, fails => by
    cases first : succeedsAll body with
    | false =>
      obtain ⟨performed, cut⟩ := exists_cutShort body first
      exact ⟨_, .inside cut⟩
    | true =>
      obtain ⟨performed, cut⟩ := exists_cutShort rest (by simpa [succeedsAll, Op.succeeds, first] using fails)
      exact ⟨_, .later first cut⟩
  | .indent :: rest, fails | .dedent :: rest, fails | .line _ :: rest, fails | .write _ :: rest, fails
  | .blankLine :: rest, fails => by
    obtain ⟨performed, cut⟩ := exists_cutShort rest fails
    exact ⟨_, .later rfl cut⟩

/-- A program that fails leaves the writer where what it has done before leaves it. -/
theorem CutShort.runAll_eq {ops performed : List Op} (cut : CutShort ops performed) (writer : Writer) :
    (runAll ops writer).writer = (runAll performed writer).writer := by
  induction cut generalizing writer with
  | here => rfl
  | @inside body performed rest cut ih =>
    have fails : (runAll body writer.indent).ok = false := by rw [Writer.runAll_eq, cut.succeedsAll_eq.1]
    have passes : (runAll performed writer.indent).ok = true := by rw [Writer.runAll_eq, cut.succeedsAll_eq.2]
    simp only [runAll, Op.run, fails, passes, ih writer.indent, Bool.false_eq_true, if_false, if_true]
  | @later op rest performed first cut ih =>
    simp only [runAll, ok_run, first, if_true]
    exact ih _

/-- Where levels are entered only for bodies, a program ends at the level at which it began, however it ends. It fails
exactly if it is cut short, and then the writer is that of the operations before, all of which succeed. Nothing that has
been written is lost by what comes after. -/
theorem level_of_balanced {ops : List Op} (balanced : BalancedAll ops) (writer : Writer) :
    (runAll ops writer).writer.level = writer.level ∧
    ((runAll ops writer).ok = false ↔ ∃ performed, CutShort ops performed) ∧
    (∀ performed, CutShort ops performed →
      runAll performed writer = ⟨(runAll ops writer).writer, true⟩) ∧
    ∀ before after, ops = before ++ after →
      ∃ added, (runAll ops writer).writer.text = (runAll before writer).writer.text ++ added := by
  refine ⟨level_runAll balanced writer, ⟨fun failed => ?_, fun ⟨performed, cut⟩ => ?_⟩, fun performed cut => ?_, ?_⟩
  · rw [runAll_eq] at failed
    exact exists_cutShort ops failed
  · rw [runAll_eq]
    exact cut.succeedsAll_eq.1
  · rw [cut.runAll_eq writer, runAll_eq performed, cut.succeedsAll_eq.2]
  · rintro before after rfl
    rw [runAll_append]
    cases (runAll before writer).ok with
    | true => exact exists_text_runAll after _
    | false => exact ⟨"", String.append_empty.symm⟩

/-- A program that fails two levels down, in the middle of a line. -/
def brokenOff : List Op :=
  [.line "a", .indented [.line "b", .indented [.write "c\nd", .fail, .line "e"], .line "f"], .line "g"]

theorem level_of_brokenOff :
    BalancedAll brokenOff ∧ (runAll brokenOff new.indent).writer.level = 1 ∧
      runAll [.line "a", .indented [.line "b", .indented [.write "c\nd"]]] new.indent =
        ⟨⟨"  a\n    b\n      c\n      d", 1, "  ", false⟩, true⟩ ∧
      (runAll brokenOff new.indent).writer = ⟨"  a\n    b\n      c\n      d", 1, "  ", false⟩ := by
  have balanced : BalancedAll brokenOff := by simp [brokenOff, BalancedAll, Op.Balanced]
  obtain ⟨level, _, performed, _⟩ := level_of_balanced balanced new.indent
  have cut := performed _ (.later rfl (.inside (.later rfl (.inside (.later rfl .here)))))
  have done : runAll [.line "a", .indented [.line "b", .indented [.write "c\nd"]]] new.indent =
      ⟨⟨"  a\n    b\n      c\n      d", 1, "  ", false⟩, true⟩ := by
    rfl
  exact ⟨balanced, level, done, (congrArg Outcome.writer (cut.symm.trans done))⟩

end RecordLayout.Writer
