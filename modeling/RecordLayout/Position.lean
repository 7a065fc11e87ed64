import RecordLayout.Text.Blank
import RecordLayout.Text.Offset

/-!
Places in a source text. A position counts bytes for slicing, and lines and columns for readers;
reading a character moves all three together, so positions that are reached by reading agree
whenever their byte offsets do. Positions of different sources cannot be ordered.
-/

namespace RecordLayout

/-- One input of the compiler: what it is called and what it says. -/
structure Source where
  id : String
  text : String
deriving DecidableEq

/-- A place between two characters. Lines and columns count from 0, columns in characters. -/
structure Position where
  index : Nat
  line : Nat
  column : Nat
  source : Source
deriving DecidableEq

/-- Two positions that were to be ordered lie in sources with these names. -/
structure SourceMismatch where
  first : String
  second : String
deriving DecidableEq

def SourceMismatch.message (mismatch : SourceMismatch) : String :=
  s!"cannot compare positions of `{mismatch.first}` and `{mismatch.second}`"

namespace Position

def start (source : Source) : Position :=
  ⟨0, 0, 0, source⟩

/-- The place after one more character. -/
def step (here : Position) (c : Char) : Position :=
  if c = '\n' then
    { here with index := here.index + c.utf8Size, line := here.line + 1, column := 0 }
  else
    { here with index := here.index + c.utf8Size, column := here.column + 1 }

/-- The place after some more characters. -/
def past (here : Position) (chars : List Char) : Position :=
  chars.foldl step here

@[simp] theorem past_nil (here : Position) : here.past [] = here := rfl

@[simp] theorem past_cons (here : Position) (c : Char) (cs : List Char) :
    here.past (c :: cs) = (here.step c).past cs := rfl

theorem past_append (here : Position) (front back : List Char) :
    here.past (front ++ back) = (here.past front).past back :=
  List.foldl_append

@[simp] theorem source_step (here : Position) (c : Char) : (here.step c).source = here.source := by
  unfold step
  split <;> rfl

@[simp] theorem source_past (here : Position) (chars : List Char) :
    (here.past chars).source = here.source := by
  induction chars generalizing here with
  | nil => rfl
  | cons c cs ih => simp [ih]

@[simp] theorem index_step (here : Position) (c : Char) :
    (here.step c).index = here.index + c.utf8Size := by
  unfold step
  split <;> rfl

theorem index_past (here : Position) (chars : List Char) :
    (here.past chars).index = here.index + Text.utf8Length chars := by
  induction chars generalizing here with
  | nil => rfl
  | cons c cs ih => simp [ih, Text.utf8Length, Nat.add_assoc]

/-- The text up to the position. -/
def before (here : Position) : List Char :=
  Text.takeBytes here.index here.source.text.toList

/-- The text from the position on. -/
def after (here : Position) : List Char :=
  Text.dropBytes here.index here.source.text.toList

def current? (here : Position) : Option Char :=
  here.after.head?

def isAtEnd (here : Position) : Bool :=
  here.source.text.utf8ByteSize ≤ here.index

/-- The place after the next characters, as many as asked for or as there are. -/
def advanceBy (count : Nat) (here : Position) : Position :=
  here.past (here.after.take count)

/-- The place after the next character; the end of the text stays where it is. -/
def advance (here : Position) : Position :=
  here.advanceBy 1

/-- The whole line that the position is on, without its newline. -/
def lineText (here : Position) : List Char :=
  Text.line here.line here.source.text.toList

/-- The first place of the line that the position is on. -/
def lineStart (here : Position) : Position :=
  let gone := here.before.reverse.takeWhile (· ≠ '\n')
  { here with index := here.index - Text.utf8Length gone, column := 0 }

/-- Where only blank characters follow, the place after the last character before the position
that is not blank; any other position itself. -/
def beforeTrailingBlanks (here : Position) : Position :=
  let kept := Text.trimRight here.before
  if kept = here.before ∨ ¬ here.after.all Text.isBlank then here else (start here.source).past kept

/-- Whether two positions are the same place of the same source. -/
def Coincides (left right : Position) : Prop :=
  left.index = right.index ∧ left.source = right.source

instance (left right : Position) : Decidable (left.Coincides right) :=
  inferInstanceAs (Decidable (_ ∧ _))

/-- The order of two places of one source. -/
def compare (left right : Position) : Except SourceMismatch Ordering :=
  if left.source = right.source then
    .ok (Ord.compare left.index right.index)
  else
    .error ⟨left.source.id, right.source.id⟩

/-- Source, line and column for readers, who count from 1, then the byte offset. -/
def describe (here : Position) : String :=
  s!"{here.source.id}:{here.line + 1}:{here.column + 1}@{here.index}"

end Position

/-- The text from one position to another, the second not included. -/
structure Span where
  start : Position
  stop : Position
deriving DecidableEq

namespace Span

/-- The span of no characters at a position. -/
def empty (here : Position) : Span :=
  ⟨here, here⟩

/-- From where one span starts to where another stops. -/
def through (first last : Span) : Span :=
  ⟨first.start, last.stop⟩

/-- The text that the span covers. There is none when its ends are out of order or cut the text
inside a character. -/
def text? (span : Span) : Option String :=
  (Text.slice? span.start.index span.stop.index span.start.source.text.toList).map String.ofList

end Span

end RecordLayout
