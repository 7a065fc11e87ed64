import RecordLayout.Proofs.Expr.Reparse

/-! How high expressions and conditions grow. The limit on nesting counts parentheses, operators before operands and
conditions in conditions. Operators between operands are read one after another, and as they are grouped to the left,
each makes the tree one higher without nesting. What the limit bounds is how often the way down a tree goes anywhere
else than to a left operand; together with the longest chain of left operands that bounds the height. -/

namespace RecordLayout

open Grammar Phrase RecordLayout.Parser Token

/-- What two operands allow their operation: the step to the right one is a turn. -/
theorem height_joined {leftHeight leftSteps leftTurns rightHeight rightSteps rightTurns chain : Nat}
    (left : leftHeight ≤ leftSteps + 1 + leftTurns * (chain + 1))
    (right : rightHeight ≤ rightSteps + 1 + rightTurns * (chain + 1)) (along : rightSteps ≤ chain) :
    max leftHeight rightHeight + 1 ≤ leftSteps + 1 + 1 + max leftTurns (rightTurns + 1) * (chain + 1) := by
  have leftMost := Nat.mul_le_mul_right (chain + 1) (Nat.le_max_left leftTurns (rightTurns + 1))
  have rightMost := Nat.mul_le_mul_right (chain + 1) (Nat.le_max_right leftTurns (rightTurns + 1))
  rw [Nat.succ_mul] at rightMost
  omega

namespace Expr

/-- The number of nodes on the longest way down. -/
def height : Expr → Nat
  | int _ _ | float _ _ | ref _ => 1
  | unary _ operand _ => operand.height + 1
  | binary left _ right => max left.height right.height + 1

/-- The most steps on a way down that do not go to a left operand. -/
def turns : Expr → Nat
  | int _ _ | float _ _ | ref _ => 0
  | unary _ operand _ => operand.turns + 1
  | binary left _ right => max left.turns (right.turns + 1)

/-- How often one can go to the left operand, from the top on. -/
def leftSteps : Expr → Nat
  | int _ _ | float _ _ | ref _ | unary _ _ _ => 0
  | binary left _ _ => left.leftSteps + 1

/-- The most steps to a left operand one after another, from wherever in the tree. -/
def longestChain : Expr → Nat
  | int _ _ | float _ _ | ref _ => 0
  | unary _ operand _ => operand.longestChain
  | binary left op right => max (binary left op right).leftSteps (max left.longestChain right.longestChain)

theorem leftSteps_le (expr : Expr) : expr.leftSteps ≤ expr.longestChain := by
  cases expr with
  | binary => exact Nat.le_max_left _ _
  | _ => exact Nat.zero_le _

/-- Between two turns the way goes along one chain. -/
theorem height_le_of_longestChain {expr : Expr} {chain : Nat} (longest : expr.longestChain ≤ chain) :
    expr.height ≤ expr.leftSteps + 1 + expr.turns * (chain + 1) := by
  induction expr with
  | int | float | ref =>
    rw [height]
    omega
  | unary op operand span ih =>
    have below := ih longest
    have along := operand.leftSteps_le
    rw [longestChain] at longest
    rw [height, turns, leftSteps, Nat.succ_mul]
    omega
  | binary left op right leftIH rightIH =>
    simp only [longestChain, Nat.max_le] at longest
    exact height_joined (leftIH longest.2.1) (rightIH longest.2.2) (right.leftSteps_le.trans longest.2.2)

/-- Each turn is followed by a chain at most, and so is the top. -/
theorem height_le (expr : Expr) : expr.height ≤ (expr.turns + 1) * (expr.longestChain + 1) := by
  have below := height_le_of_longestChain (Nat.le_refl expr.longestChain)
  have along := expr.leftSteps_le
  rw [Nat.succ_mul]
  omega

end Expr

namespace Condition

def height : Condition → Nat
  | relation left _ right => max left.height right.height + 1
  | junction left _ right => max left.height right.height + 1

/-- A step to either side of a relation is none to a left operand: it leaves the conditions. -/
def turns : Condition → Nat
  | relation left _ right => max left.turns right.turns + 1
  | junction left _ right => max left.turns (right.turns + 1)

def leftSteps : Condition → Nat
  | relation _ _ _ => 0
  | junction left _ _ => left.leftSteps + 1

def longestChain : Condition → Nat
  | relation left _ right => max left.longestChain right.longestChain
  | junction left op right => max (junction left op right).leftSteps (max left.longestChain right.longestChain)

theorem leftSteps_le (condition : Condition) : condition.leftSteps ≤ condition.longestChain := by
  cases condition with
  | relation => exact Nat.zero_le _
  | junction => exact Nat.le_max_left _ _

theorem height_le_of_longestChain {condition : Condition} {chain : Nat} (longest : condition.longestChain ≤ chain) :
    condition.height ≤ condition.leftSteps + 1 + condition.turns * (chain + 1) := by
  induction condition with
  | relation left op right =>
    rw [longestChain, Nat.max_le] at longest
    have leftBelow := Expr.height_le_of_longestChain longest.1
    have rightBelow := Expr.height_le_of_longestChain longest.2
    have leftAlong := left.leftSteps_le
    have rightAlong := right.leftSteps_le
    have leftTurns := Nat.mul_le_mul_right (chain + 1) (Nat.le_max_left left.turns right.turns)
    have rightTurns := Nat.mul_le_mul_right (chain + 1) (Nat.le_max_right left.turns right.turns)
    rw [height, turns, leftSteps, Nat.succ_mul]
    omega
  | junction left op right leftIH rightIH =>
    simp only [longestChain, Nat.max_le] at longest
    exact height_joined (leftIH longest.2.1) (rightIH longest.2.2) (right.leftSteps_le.trans longest.2.2)

theorem height_le (condition : Condition) :
    condition.height ≤ (condition.turns + 1) * (condition.longestChain + 1) := by
  have below := height_le_of_longestChain (Nat.le_refl condition.longestChain)
  have along := condition.leftSteps_le
  rw [Nat.succ_mul]
  omega

end Condition

/-! Turns that a description of some depth can make. -/

variable {good : Token → Prop} {bound : Nat}

theorem turns_operations {among : Operator → Prop} {operand : Phrase Expr}
    (within : Yields good operand (·.turns ≤ bound)) :
    Yields good (Operations among operand) (·.turns ≤ bound + 1) :=
  .operations within (fun _ => Nat.le_succ_of_le) fun _ _ _ before after =>
    Nat.max_le.mpr ⟨before, Nat.succ_le_succ after⟩

theorem turns_factorOf {signed grouped : Phrase Expr} (signedWithin : Yields good signed (·.turns ≤ bound))
    (groupedWithin : Yields good grouped (·.turns ≤ bound)) :
    Yields good (FactorOf signed grouped) (·.turns ≤ bound) := by
  intro tokens value all there
  cases there with
  | int | float | ref => exact Nat.zero_le _
  | signed there => exact signedWithin _ _ all there
  | grouped there => exact groupedWithin _ _ all there

theorem turns_factor (depth : Nat) : Yields good (Factor depth) (·.turns ≤ 2 * depth) := by
  induction depth with
  | zero => exact turns_factorOf .nothing .nothing
  | succ depth ih =>
    have signed : Yields good (Signed (Factor depth)) (·.turns ≤ 2 * depth + 2) := by
      intro tokens value all there
      cases there with
      | mk _ _ before =>
        have inside := ih _ _ (List.forall_mem_cons.mp all).2 before
        exact Nat.succ_le_succ (Nat.le_succ_of_le inside)
    exact turns_factorOf signed (turns_operations (turns_operations ih)).inParens

theorem turns_arithmetic (depth : Nat) : Yields good (Arithmetic depth) (·.turns ≤ 2 * depth + 2) :=
  turns_operations (turns_operations (turns_factor depth))

theorem turns_junction {op : Connective} {kind : Token.Kind} {item : Phrase Condition}
    (within : Yields good item (·.turns ≤ bound)) :
    Yields good (Junction op kind item) (·.turns ≤ bound + 1) :=
  .junction within (fun _ => Nat.le_succ_of_le) fun _ _ _ before after =>
    Nat.max_le.mpr ⟨before, Nat.succ_le_succ after⟩

theorem turns_logic (depth : Nat) : Yields good (Logic depth) (·.turns ≤ 2 * depth + 3) := by
  induction depth with
  | zero => exact .nothing
  | succ depth ih =>
    have relation : Yields good (RelationOf (Arithmetic depth) (Logic depth)) (·.turns ≤ 2 * depth + 3) := by
      intro tokens value all there
      cases there with
      | compared leftSide _ rightSide =>
        rw [List.forall_mem_append, List.forall_mem_cons] at all
        have left := turns_arithmetic depth _ _ all.1 leftSide
        have right := turns_arithmetic depth _ _ all.2.2 rightSide
        exact Nat.succ_le_succ (Nat.max_le.mpr ⟨left, right⟩)
      | grouped inside => exact ih.inParens _ _ all inside
    -- One turn more for the right side of each of the two connectives.
    exact turns_junction (turns_junction relation)

/-- Few turns, whatever is written otherwise. -/
def Demands.fewTurns (depth : Nat) : Demands where
  name _ := True
  path _ := True
  expr expr := expr.turns ≤ 2 * depth + 3
  condition condition := condition.turns ≤ 2 * depth + 3
  type _ := True

theorem hereditary_fewTurns (depth : Nat) : (Demands.fewTurns depth).Hereditary where
  operand few := Nat.le_of_succ_le few
  binary few := (Nat.max_le.mp few).imp_right Nat.le_of_succ_le
  junction few := (Nat.max_le.mp few).imp_right Nat.le_of_succ_le
  relation few := Nat.max_le.mp (Nat.le_of_succ_le few)

theorem supplies_fewTurns (depth : Nat) : Supplies good depth (.fewTurns depth) where
  name _ _ _ := trivial
  path _ _ _ _ := trivial
  expr := (turns_arithmetic depth).mono fun _ => Nat.le_succ_of_le
  oneBit _ := Nat.zero_le _
  condition inner within := (turns_logic inner).mono fun _ few =>
    Nat.le_trans few (Nat.add_le_add_right (Nat.mul_le_mul_left 2 within) 3)
  type _ _ _ _ _ _ := trivial

theorem bounded_of_parse {limit : Nat} {source : Source} {declared : List Declaration}
    (accepted : parse limit source = .ok declared) :
    (∀ expr : Expr, expr.Occurs declared →
      expr.turns ≤ 2 * limit + 3 ∧ expr.height ≤ (2 * limit + 4) * (expr.longestChain + 1)) ∧
    ∀ condition : Condition, condition.Occurs declared →
      condition.turns ≤ 2 * limit + 3 ∧ condition.height ≤ (2 * limit + 4) * (condition.longestChain + 1) := by
  obtain ⟨tokens, named, there⟩ := description_of_parse accepted
  have meets := yields_description (supplies_fewTurns limit) _ _ named there
  constructor
  · intro expr occurs
    have few : expr.turns ≤ 2 * limit + 3 := occurs.meets (hereditary_fewTurns limit) meets
    exact ⟨few, expr.height_le.trans (Nat.mul_le_mul_right _ (Nat.succ_le_succ few))⟩
  · intro condition occurs
    have few : condition.turns ≤ 2 * limit + 3 := occurs.meets (hereditary_fewTurns limit) meets
    exact ⟨few, condition.height_le.trans (Nat.mul_le_mul_right _ (Nat.succ_le_succ few))⟩

/-! Chains as long as one likes, without nesting. -/

/-- One, and one added so many times. -/
def sumText : Nat → List Char
  | 0 => ['1']
  | count + 1 => sumText count ++ ['+', '1']

/-- A bitfield without members whose size is a sum of ones. -/
def sumSource (count : Nat) : Source :=
  ⟨"", "bitfield b(" ++ String.ofList (sumText count) ++ ")\x7b\x7d"⟩

theorem finds_one {rest : List Char} (stop : ∀ d ∈ rest.head?, d = '+' ∨ d = ')') :
    Finds ['1'] rest (Spells (fun _ => Factor 0) fun value => value = .int 1 value.span) := by
  have apart : ∀ d ∈ rest.head?, (d.isDigit = false ∧ d ≠ '.') ∧ d ≠ '-' := by
    intro d first
    rcases stop d first with rfl | rfl <;> decide
  have shape : front false '1' ([] ++ rest) = .token .integer [].length :=
    front_digits (by decide) (by simp) fun d first => (apart d first).1
  have one : Finds ['1'] rest (IsOne .integer ['1']) := finds_token shape fun _ d first => (apart d first).2
  apply one.mono
  rintro _ ⟨token, rfl, kind, text⟩
  have read : Decimal.int64? token.content.toList = some 1 := by
    rw [Token.content, text]
    decide
  exact ⟨by simp [Solid, kind], 0, .int 1 token.span, .int kind (Decimal.int64?_eq_some.mp read), rfl⟩

/-- Each operator of the sum puts one more node above all that is before it. -/
theorem finds_sumText (count : Nat) {rest : List Char} (stop : ∀ d ∈ rest.head?, d = '+' ∨ d = ')') :
    Finds (sumText count) rest (Spells (fun _ => Arithmetic 0) fun value => value.height = count + 1) := by
  induction count generalizing rest with
  | zero =>
    apply (finds_one stop).mono
    rintro tokens ⟨solid, _, value, there, one⟩
    exact ⟨solid, 0, value, .single (.single there), by rw [one]; rfl⟩
  | succ count ih =>
    have plus : Finds ['+'] (['1'] ++ rest) (IsOne .plus ['+']) := finds_mark rfl (by decide)
    have before := @ih (['+', '1'] ++ rest) (by simp)
    apply (before.append (plus.append (finds_one stop))).mono
    rintro _ ⟨front, _, rfl, ⟨solid, _, left, there, high⟩, _, back, rfl, ⟨sign, rfl, isPlus, text⟩, last⟩
    obtain ⟨lastSolid, _, right, one, leaf⟩ := last
    have signSolid : Solid [sign] := Token.IsOne.solid ⟨sign, rfl, isPlus, text⟩ (by decide)
    have next : Operation (·.IsPrefix) (Term (Factor 0)) (sign :: back) (.add, right) :=
      .mk ⟨by decide, by decide⟩ isPlus (.single one)
    have sum : Arithmetic 0 (front ++ sign :: back) (.binary left .add right) := .more there next
    refine ⟨solid.append (signSolid.append lastSolid), 0, _, sum, ?_⟩
    simp only [Expr.height, high]
    rw [leaf, Expr.height]
    omega

/-- The tokens before the size. -/
def IsBitfieldStart (tokens : List Token) : Prop :=
  Solid tokens ∧ ∃ word name opening, tokens = [word, name, opening] ∧ word.IsWord "bitfield" ∧
    name.kind = .identifier ∧ opening.kind = .leftParen

/-- The tokens after the size. -/
def IsBitfieldEnd (tokens : List Token) : Prop :=
  Solid tokens ∧ ∃ closing brace last, tokens = [closing, brace, last] ∧ closing.kind = .rightParen ∧
    brace.kind = .leftBrace ∧ last.kind = .rightBrace

def bitfieldStart : List Char :=
  ['b', 'i', 't', 'f', 'i', 'e', 'l', 'd'] ++ ' ' :: (['b'] ++ ['('])

def bitfieldEnd : List Char :=
  [')'] ++ (['\x7b'] ++ ['\x7d'])

theorem finds_bitfieldStart {rest : List Char} : Finds bitfieldStart rest IsBitfieldStart := by
  have word (rest) : Finds ['b', 'i', 't', 'f', 'i', 'e', 'l', 'd'] (' ' :: rest) (IsOne .keyword _) :=
    finds_lexeme (by decide) (by decide) (by decide) fun d first => by cases first; decide
  have name (rest) : Finds ['b'] ('(' :: rest) (IsOne .identifier _) :=
    finds_lexeme (by decide) (by decide) (by decide) fun d first => by cases first; decide
  have opening : Finds ['('] rest (IsOne .leftParen _) := finds_mark rfl (by decide)
  apply ((word _).append ((name _).append opening).space).mono
  rintro _ ⟨_, _, rfl, ⟨word, rfl, isWord, text⟩, _, _, rfl, ⟨name, rfl, isName, _⟩, opening, rfl, opens, _⟩
  have keyword : word.IsWord "bitfield" := by
    simp [IsWord, content, isWord, text, textOf]
  exact ⟨by simp [Solid, isWord, isName, opens], word, name, opening, rfl, keyword, isName, opens⟩

theorem finds_bitfieldEnd : Finds bitfieldEnd [] IsBitfieldEnd := by
  have closing : Finds [')'] ['\x7b', '\x7d'] (IsOne .rightParen [')']) :=
    finds_closing rfl (by decide) (by simp)
  have brace : Finds ['\x7b'] ['\x7d'] (IsOne .leftBrace _) := finds_mark rfl (by decide)
  have last : Finds ['\x7d'] [] (IsOne .rightBrace _) := finds_mark rfl (by decide)
  apply (closing.append (brace.append last)).mono
  rintro _ ⟨_, _, rfl, ⟨closing, rfl, closes, _⟩, _, _, rfl, ⟨brace, rfl, opens, _⟩, last, rfl, ends, _⟩
  exact ⟨by simp [Solid, closes, opens, ends], closing, brace, last, rfl, closes, opens, ends⟩

theorem description_of_size {depth : Nat} {front tokens back : List Token} {size : Expr}
    (start : IsBitfieldStart front) (there : Arithmetic depth tokens size) (ending : IsBitfieldEnd back) :
    ∃ name, Description depth (front ++ (tokens ++ back)) [.bitfield ⟨name, some size, []⟩] := by
  obtain ⟨_, word, name, opening, rfl, keyword, isName, opens⟩ := start
  obtain ⟨_, closing, brace, last, rfl, closes, braceOpens, braceCloses⟩ := ending
  have block := BitfieldBlock.mk keyword isName (.present (.mk opens there closes)) braceOpens .nil braceCloses
  have description : Description depth _ _ := .cons (.bitfield block) .nil
  refine ⟨⟨name.content, name.span⟩, ?_⟩
  simpa using description

/-- Sums of any length are accepted, whatever the limit is. -/
theorem parse_sumSource (nesting count : Nat) :
    ∃ declared, parse nesting (sumSource count) = .ok declared ∧
      ∃ expr : Expr, expr.Occurs declared ∧ expr.height = count + 1 := by
  have spelled : (sumSource count).text.toList = bitfieldStart ++ (sumText count ++ bitfieldEnd) := by
    simp [sumSource, bitfieldStart, bitfieldEnd]
  have sum : Finds (sumText count) (bitfieldEnd ++ []) _ := finds_sumText count (by simp [bitfieldEnd])
  have line := finds_bitfieldStart.append (sum.append finds_bitfieldEnd)
  rw [← spelled] at line
  obtain ⟨_, last, scanned, ⟨_, _, rfl, start, _, _, rfl, ⟨solid, _, size, there, high⟩, ending⟩, ends⟩ :=
    tokenize_of_finds line
  obtain ⟨name, description⟩ := description_of_size start there ending
  have whole := start.1.append (solid.append ending.1)
  exact ⟨_, parse_of_solid scanned ends whole description (Nat.zero_le nesting), size,
    .bitfield (List.mem_singleton_self _) (.byteSize rfl), high⟩

/-! What the limit bounds, and what it does not. -/

/-- The limit bounds how often a way down turns, and with the longest chain of left operands it bounds the height. The
chains it does not bound: at every limit there are sums of any length, one higher with each addition. -/
theorem height_of_parse (limit : Nat) :
    (∀ (source : Source) (declared : List Declaration), parse limit source = .ok declared →
      (∀ expr : Expr, expr.Occurs declared →
        expr.turns ≤ 2 * limit + 3 ∧ expr.height ≤ (2 * limit + 4) * (expr.longestChain + 1)) ∧
      ∀ condition : Condition, condition.Occurs declared →
        condition.turns ≤ 2 * limit + 3 ∧ condition.height ≤ (2 * limit + 4) * (condition.longestChain + 1)) ∧
    ∀ count : Nat, ∃ declared, parse limit (sumSource count) = .ok declared ∧
      ∃ expr : Expr, expr.Occurs declared ∧ expr.height = count + 1 :=
  ⟨fun _ _ => bounded_of_parse, parse_sumSource limit⟩

/-- A chain of two operators, and a minus that nests. -/
def chainSource : Source :=
  ⟨"", "bitfield b(1+2+-x)\x7b\x7d"⟩

def chainSpan (start stop : Nat) : Span :=
  ⟨⟨start, 0, start, chainSource⟩, ⟨stop, 0, stop, chainSource⟩⟩

def chainSize : Expr :=
  .binary (.binary (.int 1 (chainSpan 11 12)) .add (.int 2 (chainSpan 13 14))) .add
    (.unary .sub (.ref ⟨["x"], chainSpan 16 17⟩) (chainSpan 15 17))

theorem height_of_chainSource :
    parse 1 chainSource = .ok [.bitfield ⟨⟨"b", chainSpan 9 10⟩, some chainSize, []⟩] ∧
      chainSize.turns ≤ 2 * 1 + 3 ∧ chainSize.height ≤ (2 * 1 + 4) * (chainSize.longestChain + 1) := by
  have accepted : parse 1 chainSource = .ok [.bitfield ⟨⟨"b", chainSpan 9 10⟩, some chainSize, []⟩] := by cbv
  exact ⟨accepted, ((height_of_parse 1).1 _ _ accepted).1 chainSize (.bitfield (List.mem_singleton_self _) (.byteSize rfl))⟩

/-- No limit on nesting bounds the height by itself. -/
theorem unbounded_of_parse :
    ¬ ∀ limit : Nat, ∃ bound : Nat, ∀ (source : Source) (declared : List Declaration),
      parse limit source = .ok declared →
        (∀ expr : Expr, expr.Occurs declared → expr.height ≤ bound) ∧
          ∀ condition : Condition, condition.Occurs declared → condition.height ≤ bound := by
  intro always
  obtain ⟨bound, bounded⟩ := always 0
  obtain ⟨declared, accepted, expr, occurs, high⟩ := parse_sumSource 0 bound
  have low := (bounded _ _ accepted).1 expr occurs
  omega

end RecordLayout
