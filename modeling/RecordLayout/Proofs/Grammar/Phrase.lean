import RecordLayout.Proofs.Grammar.Terminals

/-! Phrases and the parsers that read them. A phrase says which tokens make up which value. A parser
reads a phrase when all it takes from the front of tokens is that phrase, and when it takes every such
front after which no token follows that would go on with it. -/

namespace RecordLayout

/-- Which tokens make up which value. -/
abbrev Phrase (α : Type) := List Token → α → Prop

namespace Phrase

/-- What no tokens make up. -/
def nothing : Phrase α := fun _ _ => False

/-- The first token of the phrase is always of the given sort. -/
def Begins (phrase : Phrase α) (sort : Token → Prop) : Prop :=
  ∀ tokens value, phrase tokens value → ∃ token others, tokens = token :: others ∧ sort token

inductive Optional (phrase : Phrase α) : Phrase (Option α) where
  | absent : Optional phrase [] none
  | present {tokens value} (there : phrase tokens value) : Optional phrase tokens (some value)

/-- Phrases one after another. -/
inductive Many (item : Phrase α) : Phrase (List α) where
  | nil : Many item [] []
  | cons {front back value values} (first : item front value) (others : Many item back values) :
      Many item (front ++ back) (value :: values)

/-- A phrase and links after it, each of which is joined to all before it. -/
inductive Chain (first : Phrase α) (link : Phrase β) (join : α → β → α) : Phrase α where
  | single {tokens value} (only : first tokens value) : Chain first link join tokens value
  | more {front back left right} (before : Chain first link join front left)
      (next : link back right) : Chain first link join (front ++ back) (join left right)

inductive InParens (inner : Phrase α) : Phrase α where
  | mk {opening tokens value closing} (opens : opening.kind = .leftParen)
      (inside : inner tokens value) (closes : closing.kind = .rightParen) :
      InParens inner (opening :: (tokens ++ [closing])) value

/-- An operator of a sort and its right operand. -/
inductive Operation (among : Operator → Prop) (operand : Phrase Expr) : Phrase (Operator × Expr) where
  | mk {token op tokens value} (sorted : among op) (sign : token.kind = op.kind)
      (right : operand tokens value) : Operation among operand (token :: tokens) (op, value)

/-- A phrase behind a token of a kind. -/
inductive After (kind : Token.Kind) (phrase : Phrase α) : Phrase α where
  | mk {token tokens value} (mark : token.kind = kind) (there : phrase tokens value) :
      After kind phrase (token :: tokens) value

/-- Links are joined in the order in which they follow the first phrase. -/
theorem Chain.of_many {first : Phrase α} {link : Phrase β} {join : α → β → α} {front back : List Token}
    {value : α} {values : List β} (before : Chain first link join front value)
    (links : Many link back values) :
    Chain first link join (front ++ back) (values.foldl join value) := by
  induction links generalizing front value with
  | nil => simpa using before
  | cons next _ ih =>
    rw [← List.append_assoc]
    exact ih (before.more next)

theorem Many.snoc {item : Phrase α} {front back : List Token} {values : List α} {value : α}
    (before : Many item front values) (last : item back value) :
    Many item (front ++ back) (values ++ [value]) := by
  induction before with
  | nil => simpa using Many.cons last .nil
  | cons first _ ih =>
    rw [List.append_assoc]
    exact .cons first ih

theorem Chain.exists_many {first : Phrase α} {link : Phrase β} {join : α → β → α} {tokens : List Token}
    {value : α} (chain : Chain first link join tokens value) :
    ∃ front back start values, tokens = front ++ back ∧ first front start ∧ Many link back values ∧
      value = values.foldl join start := by
  induction chain with
  | @single tokens value only => exact ⟨tokens, [], value, [], by simp, only, .nil, rfl⟩
  | more before next ih =>
    obtain ⟨front, back, start, values, rfl, only, links, rfl⟩ := ih
    exact ⟨front, back ++ _, start, values ++ [_], by simp, only, links.snoc next, by simp⟩

namespace Begins

variable {phrase : Phrase α} {sort : Token → Prop}

theorem nonempty (begins : Begins phrase sort) {tokens : List Token} {value : α}
    (there : phrase tokens value) : tokens ≠ [] := by
  obtain ⟨_, _, same, _⟩ := begins _ _ there
  simp [same]

theorem mono {other : Token → Prop} (begins : Begins phrase sort) (wider : ∀ token, sort token → other token) :
    Begins phrase other := by
  intro tokens value there
  obtain ⟨token, others, same, sorted⟩ := begins _ _ there
  exact ⟨token, others, same, wider token sorted⟩

theorem chain {link : Phrase β} {join : α → β → α} (begins : Begins phrase sort) :
    Begins (Chain phrase link join) sort := by
  intro tokens value chain
  induction chain with
  | single only => exact begins _ _ only
  | more _ _ ih =>
    obtain ⟨token, others, rfl, sorted⟩ := ih
    exact ⟨token, _, rfl, sorted⟩

end Begins

theorem begins_nothing {sort : Token → Prop} : Begins (nothing : Phrase α) sort :=
  fun _ _ impossible => impossible.elim

theorem begins_inParens {inner : Phrase α} : Begins (InParens inner) (·.kind = .leftParen) := by
  intro tokens value there
  cases there with
  | mk opens _ _ => exact ⟨_, _, rfl, opens⟩

theorem begins_operation {among : Operator → Prop} {operand : Phrase Expr} :
    Begins (Operation among operand) fun token => ∃ op : Operator, among op ∧ token.kind = op.kind := by
  intro tokens value there
  cases there with
  | mk sorted sign _ => exact ⟨_, _, rfl, _, sorted, sign⟩

theorem begins_after {kind : Token.Kind} {phrase : Phrase α} :
    Begins (After kind phrase) (·.kind = kind) := by
  intro tokens value there
  cases there with
  | mk mark _ => exact ⟨_, _, rfl, mark⟩

end Phrase

namespace Parser

/-- No token follows that the test picks out. -/
def Clear (blocks : Token → Bool) (rest : List Token) : Prop :=
  ∀ token ∈ rest.head?, blocks token = false

@[simp] theorem clear_nil {blocks : Token → Bool} : Clear blocks [] := by
  simp [Clear]

@[simp] theorem clear_cons {blocks : Token → Bool} {token : Token} {rest : List Token} :
    Clear blocks (token :: rest) ↔ blocks token = false := by
  simp [Clear]

theorem clear_or {first second : Token → Bool} {rest : List Token} :
    Clear (fun token => first token || second token) rest ↔ Clear first rest ∧ Clear second rest := by
  cases rest <;> simp

theorem Clear.any_eq_false {blocks : Token → Bool} {rest : List Token} (clear : Clear blocks rest) :
    rest.head?.any blocks = false := by
  cases rest with
  | nil => rfl
  | cons next others => exact clear next rfl

/-- Nothing that follows matters. -/
def never : Token → Bool := fun _ => false

@[simp] theorem clear_never (rest : List Token) : Clear never rest :=
  fun _ _ => rfl

/-- The parser takes the phrase and nothing else, unless a blocking token follows. -/
structure Reads (parser : Parser α) (phrase : Phrase α) (blocks : Token → Bool) : Prop where
  sound : ∀ {tokens value rest}, parser tokens = .ok (value, rest) →
    ∃ front, tokens = front ++ rest ∧ phrase front value
  complete : ∀ {front value rest}, phrase front value → Clear blocks rest →
    parser (front ++ rest) = .ok (value, rest)

/-- The parser takes the phrase where it is, and nothing where it is absent. -/
structure ReadsOptional (parser : Parser (Option α)) (phrase : Phrase α) (blocks : Token → Bool) :
    Prop where
  sound : ∀ {tokens value rest}, parser tokens = .ok (some value, rest) →
    ∃ front, tokens = front ++ rest ∧ phrase front value
  absent : ∀ {tokens rest}, parser tokens = .ok (none, rest) → rest = tokens
  complete : ∀ {front value rest}, phrase front value → Clear blocks rest →
    parser (front ++ rest) = .ok (some value, rest)

end Parser

end RecordLayout
