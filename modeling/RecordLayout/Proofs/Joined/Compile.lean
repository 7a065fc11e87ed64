import RecordLayout.Proofs.Joined.Parse
import RecordLayout.Proofs.Span.Checks

/-! Layout descriptions in parts. A text behind one that can be parsed is parsed, compiled or refused as if it stood
alone, except that its places are those behind the first text. -/

namespace RecordLayout

open Located

/-- The value with all places the same, so that only they are lost. -/
def Located.unplaced {α : Type} [Located α] (value : α) : α :=
  move (fun _ => .start ⟨"", ""⟩) value

theorem Located.unplaced_move {α : Type} [Located α] (place : Position → Position) (value : α) :
    unplaced (move place value) = unplaced value :=
  move_move ..

theorem Located.unplaced_append {α : Type} [Located α] (front back : List α) :
    unplaced (front ++ back) = unplaced front ++ unplaced back :=
  List.map_append

theorem Schema.ofDeclarations_unplaced (declarations : List Declaration) :
    ofDeclarations (unplaced declarations) = unplaced (ofDeclarations declarations) :=
  ofDeclarations_move declarations

/-- Both texts have the declarations of the first one, and then those of the second one, which is refused as it is
alone. The schema is that of all these declarations. -/
theorem joined_of_parse {nesting : Nat} {first : Source} {declared : List Declaration}
    (accepted : parse nesting first = .ok declared) (second : Source) :
    (∀ all, parse nesting (first.joined second) = .ok all ↔
      ∃ more, parse nesting second = .ok more ∧
        all = move (first.inFirst second) declared ++ move (first.inSecond second) more) ∧
    (∀ error, parse nesting (first.joined second) = .error error ↔
      ∃ cause, parse nesting second = .error cause ∧ error = move (first.inSecond second) cause) ∧
    ∀ more, parse nesting second = .ok more →
      unplaced (compile nesting (first.joined second)) = unplaced (Schema.ofDeclarations (declared ++ more)) := by
  have joined := @parse_joined nesting first second declared accepted
  cases alone : parse nesting second with
  | error cause =>
    have refused : parse nesting (first.joined second) = .error (move (first.inSecond second) cause) := by
      rw [joined, alone]
      rfl
    refine ⟨?_, ?_, ?_⟩
    · simp [refused]
    · simp [refused, eq_comm]
    · simp
  | ok more =>
    have read : parse nesting (first.joined second) =
        .ok (move (first.inFirst second) declared ++ move (first.inSecond second) more) := by
      rw [joined, alone]
      rfl
    refine ⟨?_, ?_, ?_⟩
    · simp [read, eq_comm]
    · simp [read]
    · intro found same
      cases same
      have same : unplaced (move (first.inFirst second) declared ++ move (first.inSecond second) more) =
          unplaced (declared ++ more) := by
        rw [unplaced_append, unplaced_move, unplaced_move, unplaced_append]
      calc unplaced (compile nesting (first.joined second))
        _ = unplaced (Schema.ofDeclarations
              (move (first.inFirst second) declared ++ move (first.inSecond second) more)) := by
          rw [compile, read]
          rfl
        _ = Schema.ofDeclarations (unplaced (declared ++ more)) := by rw [← Schema.ofDeclarations_unplaced, same]
        _ = unplaced (Schema.ofDeclarations (declared ++ more)) := Schema.ofDeclarations_unplaced _

/-- A bitfield before a comment that its text does not end. -/
def commentedSource : Source :=
  ⟨"", "bitfield b\x7by,\x7d// é"⟩

/-- A struct of a bitfield that is declared elsewhere. -/
def referringSource : Source :=
  ⟨"", "struct s\x7bb x,\x7d"⟩

/-- A struct that ends before its name. -/
def namelessSource : Source :=
  ⟨"", "struct"⟩

/-- A piece of a line that begins behind so many bytes. -/
def lineSpan (source : Source) (before line start stop : Nat) : Span :=
  ⟨⟨before + start, line, start, source⟩, ⟨before + stop, line, stop, source⟩⟩

def commentedBitfield (source : Source) : Declaration :=
  .bitfield ⟨⟨"b", lineSpan source 0 0 9 10⟩, none,
    [⟨⟨"y", lineSpan source 0 0 11 12⟩, .int 1 (lineSpan source 0 0 11 12)⟩]⟩

def referringStruct (source : Source) (before line : Nat) : Declaration :=
  .struct ⟨⟨"s", lineSpan source before line 7 8⟩, .fixed .big,
    [.member ⟨⟨"x", lineSpan source before line 11 12⟩, .plain (.named ⟨["b"], lineSpan source before line 9 10⟩),
      .fixed .big, none⟩]⟩

theorem joined_of_parse_commentedSource :
    let both := commentedSource.joined referringSource
    let other := commentedSource.joined namelessSource
    parse 16 commentedSource = .ok [commentedBitfield commentedSource] ∧
    parse 16 both = .ok [commentedBitfield both, referringStruct both 20 1] ∧
    unplaced (compile 16 both) =
      unplaced (.ok ⟨[commentedBitfield commentedSource, referringStruct referringSource 0 0]⟩) ∧
    parse 16 other = .error (.expectedMore (lineSpan other 20 1 6 6) ["struct name"]) := by
  have accepted : parse 16 commentedSource = .ok [commentedBitfield commentedSource] := by cbv
  have referring : parse 16 referringSource = .ok [referringStruct referringSource 0 0] := by cbv
  have refused : parse 16 namelessSource = .error (.expectedMore (lineSpan namelessSource 0 0 6 6) ["struct name"]) := by
    cbv
  have resolved : Schema.ofDeclarations [commentedBitfield commentedSource, referringStruct referringSource 0 0] =
      .ok ⟨[commentedBitfield commentedSource, referringStruct referringSource 0 0]⟩ := by cbv
  have behind (second : Source) :
      commentedSource.inSecond second = Position.shift (commentedSource.joined second) 20 1 := by
    have bytes : commentedSource.text.utf8ByteSize = 19 := by cbv
    have lines : commentedSource.text.toList.count '\n' = 0 := by cbv
    rw [Source.inSecond, bytes, lines]
  obtain ⟨passing, _, compiled⟩ := joined_of_parse accepted referringSource
  obtain ⟨_, failing, _⟩ := joined_of_parse accepted namelessSource
  rw [behind] at passing failing
  exact ⟨accepted, (passing _).mpr ⟨_, referring, rfl⟩, (compiled _ referring).trans (congrArg unplaced resolved),
    (failing _).mpr ⟨_, refused, rfl⟩⟩

end RecordLayout
