import Mathlib.Data.List.Basic
import RecordLayout.Proofs.Grammar.Language
import RecordLayout.Proofs.Span.Located

/-! Spans in what tokens make up. Each goes from the start of a token to the end of that token or of a later one:
where two spans are joined, the tokens of the first come before those of the second. Only the byte order of a member
may be older than its tokens. -/

namespace RecordLayout

open Grammar Located Phrase RecordLayout.Parser

/-- The span goes from the start of one of the tokens to the end of that one or of a later one. -/
inductive Spanned : List Token → Span → Prop where
  | mk {before first more last} (later : last ∈ first :: more) :
      Spanned (before ++ first :: more) (first.span.through last.span)

/-- All spans that are not among the old ones are between the tokens. -/
def Enclose (old : List Span) (tokens : List Token) (spans : List Span) : Prop :=
  ∀ span ∈ spans, span ∈ old ∨ Spanned tokens span

section

variable {tokens front back : List Token}

theorem spanned_token {token : Token} (member : token ∈ tokens) : Spanned tokens token.span := by
  obtain ⟨before, more, rfl⟩ := List.append_of_mem member
  exact .mk List.mem_cons_self

theorem spanned_ends {first last : Token} (later : last ∈ first :: tokens) :
    Spanned (first :: tokens) (first.span.through last.span) :=
  @Spanned.mk [] _ _ _ later

theorem Spanned.mono {span : Span} (spanned : Spanned tokens span) {all : List Token} (some : tokens.Sublist all) :
    Spanned all span := by
  cases spanned with
  | @mk before first more last later =>
    obtain ⟨ahead, others, rfl, _, kept⟩ := List.append_sublist_iff.mp some
    obtain ⟨front, back, rfl, here, behind⟩ := List.cons_sublist_iff.mp kept
    obtain ⟨start, middle, rfl⟩ := List.append_of_mem here
    have later : last ∈ first :: (middle ++ back) := by
      rcases List.mem_cons.mp later with rfl | later
      · exact List.mem_cons_self
      · exact List.mem_cons_of_mem _ (List.mem_append_right _ (behind.subset later))
    simpa using @Spanned.mk (ahead ++ start) _ _ _ later

theorem Spanned.through {first second : Span} (left : Spanned front first) (right : Spanned back second) :
    Spanned (front ++ back) (first.through second) := by
  cases left with
  | @mk before opening more =>
    cases right with
    | @mk between start others closing later =>
      have behind : closing ∈ opening :: (more ++ (between ++ start :: others)) :=
        List.mem_cons_of_mem _ (List.mem_append_right _ (List.mem_append_right _ later))
      simpa [Span.through] using @Spanned.mk before _ _ _ behind

namespace Enclose

variable {old spans others : List Span}

theorem nil : Enclose old tokens [] := by
  simp [Enclose]

theorem cons {span : Span} (first : Spanned tokens span) (rest : Enclose old tokens spans) :
    Enclose old tokens (span :: spans) :=
  List.forall_mem_cons.mpr ⟨.inr first, rest⟩

theorem one {span : Span} (only : Spanned tokens span) : Enclose old tokens [span] :=
  cons only nil

theorem append (first : Enclose old tokens spans) (second : Enclose old tokens others) :
    Enclose old tokens (spans ++ others) :=
  List.forall_mem_append.mpr ⟨first, second⟩

theorem both (enclose : Enclose old tokens (spans ++ others)) :
    Enclose old tokens spans ∧ Enclose old tokens others :=
  List.forall_mem_append.mp enclose

theorem mono {all : List Token} (enclose : Enclose old tokens spans) (some : tokens.Sublist all) :
    Enclose old all spans :=
  fun span member => (enclose span member).imp_right (·.mono some)

theorem left (enclose : Enclose old front spans) : Enclose old (front ++ back) spans :=
  enclose.mono (List.sublist_append_left ..)

theorem right (enclose : Enclose old back spans) : Enclose old (front ++ back) spans :=
  enclose.mono (List.sublist_append_right ..)

theorem behind {token : Token} (enclose : Enclose old tokens spans) : Enclose old (token :: tokens) spans :=
  show Enclose old ([token] ++ tokens) spans from right enclose

theorem subset (enclose : Enclose old tokens spans) (fewer : others ⊆ spans) : Enclose old tokens others :=
  fun span member => enclose span (fewer member)

theorem old_subset {older : List Span} (enclose : Enclose older tokens spans) (fewer : older ⊆ old) :
    Enclose old tokens spans :=
  fun span member => (enclose span member).imp_left (@fewer span)

/-- The old spans turn out to be between the tokens as well. -/
theorem settle {older : List Span} (enclose : Enclose old tokens spans) (settled : Enclose older tokens old) :
    Enclose older tokens spans :=
  fun span member => (enclose span member).elim (settled span) .inr

theorem spanned (enclose : Enclose [] tokens spans) {span : Span} (member : span ∈ spans) : Spanned tokens span :=
  (enclose span member).resolve_left List.not_mem_nil

end Enclose

end

namespace Phrase

variable {α β : Type} [Located α] [Located β]

/-- All spans in the value that are not old are between the tokens of the phrase. -/
def Places (old : List Span) (phrase : Phrase α) : Prop :=
  ∀ tokens value, phrase tokens value → Enclose old tokens (spans value)

namespace Places

variable {old : List Span} {phrase : Phrase α}

theorem enclose (places : Places [] phrase) {tokens : List Token} {value : α} (there : phrase tokens value) :
    Enclose old tokens (spans value) :=
  (places _ _ there).old_subset (List.nil_subset old)

theorem nothing : Places old (nothing : Phrase α) :=
  fun _ _ impossible => impossible.elim

theorem optional (places : Places old phrase) : Places old (Optional phrase) := by
  intro tokens value there
  cases there with
  | absent => exact .nil
  | present there => exact places _ _ there

theorem many (places : Places old phrase) : Places old (Many phrase) := by
  intro tokens values there
  induction there with
  | nil => exact .nil
  | cons first _ ih => exact (places _ _ first).left.append ih.right

theorem inParens (places : Places old phrase) : Places old (InParens phrase) := by
  intro tokens value there
  cases there with
  | mk _ inside _ => exact (places _ _ inside).left.behind

theorem after {kind : Token.Kind} (places : Places old phrase) : Places old (After kind phrase) := by
  intro tokens value there
  cases there with
  | mk _ there => exact (places _ _ there).behind

theorem braced (places : Places old phrase) : Places old (Braced phrase) := by
  intro tokens values there
  cases there with
  | mk _ items _ _ => exact (places.many _ _ items).left.behind

/-- The spans of a chain, where joining puts a span around those of the parts. -/
theorem chain {link : Phrase β} {join : α → β → α} (first : Places old phrase) (links : Places old link)
    (joins : ∀ {front back left right}, Enclose old front (spans left) → Enclose old back (spans right) →
      Enclose old (front ++ back) (spans (join left right))) :
    Places old (Chain phrase link join) := by
  intro tokens value chain
  induction chain with
  | single only => exact first _ _ only
  | more _ next ih => exact joins ih (links _ _ next)

end Places

end Phrase

namespace Grammar

/-! Expressions. -/

theorem enclose_binary {front back : List Token} {left right : Expr} {op : Operator}
    (first : Enclose [] front (spans left)) (second : Enclose [] back (spans right)) :
    Enclose [] (front ++ back) (spans (Expr.binary left op right)) := by
  have outer := (first.spanned left.span_mem_spans).through (second.spanned right.span_mem_spans)
  exact .cons outer (first.left.append second.right)

/-- Segments are among the tokens that they are read from. -/
theorem subset_of_segments {back others : List Token}
    (more : Many (After .dot fun tokens segment => tokens = [segment] ∧ segment.kind = .identifier) back others) :
    others ⊆ back := by
  induction more with
  | nil => exact List.Subset.refl _
  | cons first _ ih =>
    cases first with
    | mk _ there =>
      obtain ⟨rfl, _⟩ := there
      refine List.cons_subset.mpr ⟨by simp, fun token member => ?_⟩
      exact List.mem_append_right _ (ih member)

theorem places_dotted : Places [] Dotted := by
  intro tokens path there
  cases there with
  | @mk first back others _ more =>
    have last : others.getLastD first ∈ first :: back :=
      List.cons_subset_cons first (subset_of_segments more) List.getLastD_mem_cons
    exact .one (spanned_ends last)

theorem places_signed {operand : Phrase Expr} (places : Places [] operand) : Places [] (Signed operand) := by
  intro tokens value there
  cases there with
  | @mk token op tokens value _ _ before =>
    have inside := places _ _ before
    have sign : Spanned [token] token.span := spanned_token List.mem_cons_self
    exact .cons (sign.through (inside.spanned value.span_mem_spans)) inside.behind

theorem places_factorOf {signed grouped : Phrase Expr} (signs : Places [] signed) (groups : Places [] grouped) :
    Places [] (FactorOf signed grouped) := by
  intro tokens value there
  cases there with
  | int | float => exact .one (spanned_token List.mem_cons_self)
  | ref dotted => exact places_dotted _ _ dotted
  | signed there => exact signs _ _ there
  | grouped there => exact groups _ _ there

theorem places_operation {among : Operator → Prop} {operand : Phrase Expr} (places : Places [] operand) :
    Places [] (Operation among operand) := by
  intro tokens value there
  cases there with
  | mk _ _ right => exact (places _ _ right).behind

theorem places_operations {among : Operator → Prop} {operand : Phrase Expr} (places : Places [] operand) :
    Places [] (Operations among operand) :=
  places.chain (places_operation places) enclose_binary

theorem places_sum {factor : Phrase Expr} (places : Places [] factor) : Places [] (Sum factor) :=
  places_operations (places_operations places)

theorem places_factor (depth : Nat) : Places [] (Factor depth) := by
  induction depth with
  | zero => exact places_factorOf .nothing .nothing
  | succ depth ih => exact places_factorOf (places_signed ih) (places_sum ih).inParens

theorem places_arithmetic (depth : Nat) : Places [] (Arithmetic depth) :=
  places_sum (places_factor depth)

/-! Conditions. -/

theorem places_relationOf {operand : Phrase Expr} {condition : Phrase Condition} (operands : Places [] operand)
    (conditions : Places [] condition) : Places [] (RelationOf operand condition) := by
  intro tokens value there
  cases there with
  | @compared front token op back left right leftSide _ rightSide =>
    have first := operands _ _ leftSide
    have second : Enclose [] (token :: back) (spans right) := (operands _ _ rightSide).behind
    have outer := (first.spanned left.span_mem_spans).through (second.spanned right.span_mem_spans)
    exact .cons outer (first.left.append second.right)
  | grouped inside => exact conditions.inParens _ _ inside

theorem enclose_junction {front back : List Token} {left right : Condition} {op : Connective}
    (first : Enclose [] front (spans left)) (second : Enclose [] back (spans right)) :
    Enclose [] (front ++ back) (spans (Condition.junction left op right)) := by
  have outer := (first.spanned left.span_mem_spans).through (second.spanned right.span_mem_spans)
  exact .cons outer (first.left.append second.right)

theorem places_junction {op : Connective} {kind : Token.Kind} {item : Phrase Condition} (places : Places [] item) :
    Places [] (Junction op kind item) :=
  places.chain places.after enclose_junction

theorem places_logic (depth : Nat) : Places [] (Logic depth) := by
  induction depth with
  | zero => exact .nothing
  | succ depth ih => exact places_junction (places_junction (places_relationOf (places_arithmetic depth) ih))

/-! Choices and byte orders. -/

theorem places_chosen {α : Type} [Located α] {arm : Phrase α} (arms : Places [] arm) (depth : Nat) :
    Places [] (Chosen arm depth) := by
  cases depth with
  | zero => exact .nothing
  | succ depth =>
    intro tokens choice there
    cases there with
    | mk _ test _ first _ second _ =>
      have asked := (places_logic depth) _ _ test
      have yes := arms _ _ first
      have no := arms _ _ second
      exact .cons (spanned_ends (by simp)) ((asked.left.behind.append yes.left.behind.right.behind).append
        no.left.behind.right.behind.right.behind)

theorem places_orderWord : Places [] OrderWord :=
  fun _ _ _ => .nil

theorem places_order (depth : Nat) : Places [] (Order depth) := by
  intro tokens order there
  cases there with
  | fixed _ => exact .nil
  | chosen choosing => exact places_chosen places_orderWord depth _ _ choosing

/-! Types. -/

theorem places_ending : Places [] Ending := by
  intro tokens delimiter there
  cases there with
  | string | char | int => exact .one (spanned_token List.mem_cons_self)
  | hex => exact .one (spanned_ends (by simp))
  | member dotted => exact places_dotted _ _ dotted

theorem places_primary : Places [] Primary := by
  intro tokens type there
  cases there with
  | bare => exact .one (spanned_token List.mem_cons_self)
  | delimited _ _ _ ending => exact .cons (spanned_token List.mem_cons_self) (places_ending.inParens _ _ ending).behind

/-- A default delimiter is where its type is. -/
theorem subset_of_completed {type whole : DataType} (completed : Completed type whole) :
    spans whole ⊆ spans type := by
  cases completed with
  | fixedSize _ | written _ => exact List.Subset.refl _
  | zeroByte => simp [spans, Delimiter.span]

theorem places_arm : Places [] Arm := by
  intro tokens type there
  cases there with
  | data primary completed => exact (places_primary _ _ primary).subset (subset_of_completed completed)
  | named dotted => exact places_dotted _ _ dotted

/-! Members. -/

theorem places_repeated (depth : Nat) : Places [] (Repeated depth) := by
  intro tokens repetition there
  cases there with
  | untilEnd => exact .nil
  | count _ inside _ => exact (places_arithmetic depth _ _ inside).left.behind
  | whileTrue _ inside _ => exact (places_logic depth _ _ inside).left.behind

theorem places_typed (depth : Nat) : Places [] (Typed depth) := by
  have repetitions := (places_repeated depth).optional
  intro tokens typed there
  cases there with
  | data primary repeated completed =>
    have type := (places_primary _ _ primary).subset (subset_of_completed completed)
    exact type.left.append (repetitions _ _ repeated).right
  | late _ _ _ repeated ending =>
    have delimiter := places_ending.inParens _ _ ending
    exact Enclose.append (.cons (spanned_token List.mem_cons_self) delimiter.right.behind)
      (repetitions _ _ repeated).left.behind
  | named dotted repeated => exact (places_dotted _ _ dotted).left.append (repetitions _ _ repeated).right
  | chosen choosing repeated =>
    exact (places_chosen places_arm depth _ _ choosing).left.append (repetitions _ _ repeated).right

variable {inherited : OrderRule}

theorem places_info (depth : Nat) : Places (spans inherited) (Info depth inherited) := by
  intro tokens info there
  cases there with
  | @mk front order back type repetition ordered typed =>
    have parts : Enclose (spans inherited) back (spans type ++ spans repetition) := (places_typed depth).enclose typed
    obtain ⟨types, repetitions⟩ := parts.both
    refine (types.right.append ?_).append repetitions.right
    cases ordered with
    | absent => exact fun span member => .inl member
    | present there => exact ((places_order depth).enclose there).left

theorem places_memberLine (depth : Nat) : Places (spans inherited) (MemberLine depth inherited) := by
  intro tokens member there
  cases there with
  | mk body _ _ => exact .cons (spanned_token (by simp)) (places_info depth _ _ body).left

/-! Selections. -/

theorem places_caseLine {α : Type} [Located α] {old : List Span} {body : Phrase α} (places : Places old body)
    (depth : Nat) : Places old (CaseLine depth body) := by
  intro tokens chosen there
  cases there with
  | mk found _ there _ =>
    have value : Enclose old _ _ := (places_arithmetic depth).enclose found
    exact value.left.append (places _ _ there).left.behind.right

theorem places_selecting (depth : Nat) : Places (spans inherited) (Selecting depth inherited) := by
  intro tokens selected there
  cases there with
  | single body _ =>
    have cases := (places_caseLine (places_info depth) depth).braced _ _ body
    exact .cons (spanned_token (by simp)) cases.left
  | groups body => exact (places_caseLine (places_memberLine depth).braced depth).braced _ _ body

theorem places_selectionLine (depth : Nat) : Places (spans inherited) (SelectionLine depth inherited) := by
  intro tokens selection there
  cases there with
  | mk _ asked body _ =>
    have condition : Enclose (spans inherited) _ _ := (places_arithmetic depth).inParens.enclose asked
    have selected := places_selecting depth _ _ body
    exact .cons (spanned_token List.mem_cons_self) (condition.left.behind.append selected.left.right.behind)

theorem places_item (depth : Nat) : Places (spans inherited) (Item depth inherited) := by
  intro tokens item there
  cases there with
  | member line => exact places_memberLine depth _ _ line
  | selection line => exact places_selectionLine depth _ _ line

/-! Declarations. -/

/-- The byte order that members may have from their struct is before them. -/
theorem places_structBlock (depth : Nat) : Places [] (StructBlock depth) := by
  intro tokens struct there
  cases there with
  | @mk front order word name opening tokens items closing ordered _ _ _ body _ =>
    have orders : Enclose [] front (spans (order.getD (.fixed .big))) := by
      cases ordered with
      | absent => exact .nil
      | present there => exact places_order depth _ _ there
    have inside := (places_item depth).many _ _ body
    exact .cons (spanned_token (by simp))
      (orders.left.append (inside.left.behind.behind.behind.right.settle orders.left))

theorem places_size (depth : Nat) : Places [] (Optional (InParens (Arithmetic depth))) :=
  (places_arithmetic depth).inParens.optional

theorem places_bitfieldLine (depth : Nat) : Places [] (BitfieldLine depth) := by
  intro tokens member there
  cases there with
  | mk _ sized _ =>
    refine .cons (spanned_token List.mem_cons_self) ?_
    cases sized with
    | absent => exact .one (spanned_token List.mem_cons_self)
    | present there => exact ((places_arithmetic depth).inParens _ _ there).left.behind

theorem places_bitfieldBlock (depth : Nat) : Places [] (BitfieldBlock depth) := by
  intro tokens bitfield there
  cases there with
  | mk _ _ sized _ body _ =>
    have size := places_size depth _ _ sized
    have members := (places_bitfieldLine depth).many _ _ body
    exact .cons (spanned_token (by simp)) (size.left.behind.behind.append members.left.behind.right.behind.behind)

theorem places_description (depth : Nat) : Places [] (Description depth) := by
  apply Places.many
  intro tokens declared there
  cases there with
  | struct block => exact places_structBlock depth _ _ block
  | bitfield block => exact places_bitfieldBlock depth _ _ block

end Grammar

end RecordLayout
