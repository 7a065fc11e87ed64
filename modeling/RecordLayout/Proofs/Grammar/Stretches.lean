import RecordLayout.Proofs.Declaration.Demands
import RecordLayout.Proofs.Grammar.Language

/-! What is true of everything that a stretch of tokens makes up, where it matters which tokens stand next to each
other. What is asked of stretches goes over to their parts, and parts of a phrase are parts of its stretch. With one
rule for each way to build a phrase from others the language is walked once: declarations are as demanded if names,
references, expressions, conditions and primitive types are. -/

namespace RecordLayout

/-! Sizes that are not written. -/

section

variable (demands : Demands)

/-- A size is as demanded, or it is the one bit that stands, where the name is, for a size that is not written. -/
structure BitfieldMember.MeetsWritten (member : BitfieldMember) : Prop where
  name : demands.name member.name
  size : member.size = .int 1 member.name.span ∨ demands.expr member.size

structure BitfieldDef.MeetsWritten (bitfield : BitfieldDef) : Prop where
  name : demands.name bitfield.name
  byteSize : ∀ amount ∈ bitfield.byteSize, demands.expr amount
  members : ∀ member ∈ bitfield.members, member.MeetsWritten demands

def Declaration.MeetsWritten : Declaration → Prop
  | struct declared => declared.Meets demands
  | bitfield declared => declared.MeetsWritten demands

end

theorem Declaration.MeetsWritten.meets {demands : Demands} {declared : Declaration}
    (meets : declared.MeetsWritten demands) (oneBit : ∀ span, demands.expr (.int 1 span)) : declared.Meets demands := by
  cases declared with
  | struct => exact meets
  | bitfield bitfield =>
    refine ⟨meets.name, meets.byteSize, fun member present => ?_⟩
    have asked := meets.members member present
    exact ⟨asked.name, asked.size.elim (fun bit => bit ▸ oneBit _) id⟩

namespace Grammar

open Phrase RecordLayout.Parser

/-- What is asked of a stretch of tokens is asked of its parts. -/
structure Divides (good : List Token → Prop) : Prop where
  left : ∀ {front back}, good (front ++ back) → good front
  right : ∀ {front back}, good (front ++ back) → good back

theorem Divides.head {good : List Token → Prop} (divides : Divides good) {token : Token} {tokens : List Token}
    (whole : good (token :: tokens)) : good [token] :=
  divides.left (show good ([token] ++ tokens) from whole)

theorem Divides.tail {good : List Token → Prop} (divides : Divides good) {token : Token} {tokens : List Token}
    (whole : good (token :: tokens)) : good tokens :=
  divides.right (show good ([token] ++ tokens) from whole)

/-- All that a good stretch of tokens makes up has the property. -/
def YieldsIn (good : List Token → Prop) (phrase : Phrase α) (property : α → Prop) : Prop :=
  ∀ tokens value, good tokens → phrase tokens value → property value

variable {good : List Token → Prop} {property : α → Prop} {phrase : Phrase α}

namespace YieldsIn

theorem nothing : YieldsIn good (Phrase.nothing : Phrase α) property :=
  fun _ _ _ impossible => impossible.elim

theorem mono {weaker : α → Prop} (yields : YieldsIn good phrase property)
    (implies : ∀ value, property value → weaker value) : YieldsIn good phrase weaker :=
  fun tokens value whole there => implies value (yields tokens value whole there)

theorem optional (yields : YieldsIn good phrase property) :
    YieldsIn good (Optional phrase) fun found => ∀ value ∈ found, property value := by
  intro tokens found whole there
  cases there with
  | absent => simp
  | present there => simpa using yields _ _ whole there

variable (divides : Divides good)

include divides

theorem many (yields : YieldsIn good phrase property) :
    YieldsIn good (Many phrase) fun values => ∀ value ∈ values, property value := by
  intro tokens values whole there
  induction there with
  | nil => simp
  | cons first _ ih =>
    exact List.forall_mem_cons.mpr ⟨yields _ _ (divides.left whole) first, ih (divides.right whole)⟩

theorem inParens (yields : YieldsIn good phrase property) : YieldsIn good (InParens phrase) property := by
  intro tokens value whole there
  cases there with
  | mk _ inside _ => exact yields _ _ (divides.left (divides.tail whole)) inside

theorem braced (yields : YieldsIn good phrase property) : YieldsIn good (Braced phrase) (Filled property) := by
  intro tokens values whole there
  cases there with
  | mk _ inside some _ => exact ⟨some, many divides yields _ _ (divides.left (divides.tail whole)) inside⟩

end YieldsIn

/-- The parts of a description of the depth, each made up of a good stretch, are as demanded. A primitive type and its
delimiter need not stand next to each other. -/
structure SuppliesIn (good : List Token → Prop) (depth : Nat) (demands : Demands) : Prop where
  divides : Divides good
  name : ∀ token, good [token] → token.kind = .identifier → demands.name ⟨token.content, token.span⟩
  path : YieldsIn good Dotted demands.path
  expr : YieldsIn good (Arithmetic depth) demands.expr
  condition : ∀ inner ≤ depth, YieldsIn good (Logic inner) demands.condition
  bare : ∀ token primitive, good [token] → token.kind = .dataType → token.content = primitive.name →
    ¬ primitive.IsDelimited → demands.type ⟨primitive, none, token.span⟩
  zeroByte : ∀ token, good [token] → token.kind = .dataType → token.content = Primitive.string.name →
    demands.type ⟨.string, some (.int 0 token.span), token.span⟩
  delimited : ∀ token primitive tokens delimiter, good [token] → token.kind = .dataType →
    token.content = primitive.name → primitive.IsDelimited → good tokens →
    InParens Ending tokens delimiter → demands.type ⟨primitive, some delimiter, token.span⟩

section

variable {depth : Nat} {demands : Demands} {inherited : OrderRule} (supplies : SuppliesIn good depth demands)

include supplies

theorem yieldsIn_primary (whole : DataType) :
    YieldsIn good Primary fun type => Completed type whole → demands.type whole := by
  intro tokens type stretch there completed
  cases there with
  | bare word spelled =>
    cases completed with
    | fixedSize sized => exact supplies.bare _ _ stretch word spelled sized
    | zeroByte => exact supplies.zeroByte _ stretch word spelled
    | written given => cases given
  | delimited word spelled takes ending =>
    have head := supplies.divides.head stretch
    have given := supplies.delimited _ _ _ _ head word spelled takes (supplies.divides.tail stretch) ending
    cases completed with
    | fixedSize | written => exact given

theorem yieldsIn_chosen (arms : YieldsIn good phrase property) :
    YieldsIn good (Chosen phrase depth) (Choice.Meets demands property) := by
  cases depth with
  | zero => exact .nothing
  | succ depth =>
    intro tokens choice stretch there
    cases there with
    | mk _ test _ first _ second _ =>
      have behind := supplies.divides.tail stretch
      have alternatives := supplies.divides.tail (supplies.divides.right behind)
      have last := supplies.divides.tail (supplies.divides.right alternatives)
      exact ⟨supplies.condition depth (Nat.le_succ depth) _ _ (supplies.divides.left behind) test,
        arms _ _ (supplies.divides.left alternatives) first, arms _ _ (supplies.divides.left last) second⟩

theorem yieldsIn_order : YieldsIn good (Order depth) (OrderRule.Meets demands) := by
  intro tokens order stretch there
  cases there with
  | fixed _ => trivial
  | chosen choosing =>
    have word : YieldsIn good OrderWord fun _ => True := fun _ _ _ _ => trivial
    exact yieldsIn_chosen supplies word _ _ stretch choosing

/-- A byte order in front, or else the one that is inherited. -/
theorem yieldsIn_orderOr (given : inherited.Meets demands) :
    YieldsIn good (Optional (Order depth)) fun order => (order.getD inherited).Meets demands := by
  refine (yieldsIn_order supplies).optional.mono fun order meets => ?_
  cases order with
  | none => exact given
  | some order => exact meets order rfl

theorem yieldsIn_arm : YieldsIn good Arm (TypeRef.Meets demands) := by
  intro tokens type stretch there
  cases there with
  | data primary completed => exact yieldsIn_primary supplies _ _ _ stretch primary completed
  | named dotted => exact supplies.path _ _ stretch dotted

theorem yieldsIn_repeated : YieldsIn good (Repeated depth) (Repetition.Meets demands) := by
  intro tokens repetition stretch there
  cases there with
  | untilEnd _ _ => trivial
  | count _ inside _ => exact supplies.expr _ _ (supplies.divides.left (supplies.divides.tail stretch)) inside
  | whileTrue _ inside _ =>
    exact supplies.condition depth (Nat.le_refl depth) _ _ (supplies.divides.left (supplies.divides.tail stretch)) inside

theorem yieldsIn_typed : YieldsIn good (Typed depth) fun typed =>
    typed.1.Meets demands ∧ ∀ repetition ∈ typed.2, repetition.Meets demands := by
  have repetition := (yieldsIn_repeated supplies).optional
  intro tokens typed stretch there
  cases there with
  | data primary repeated completed =>
    exact ⟨yieldsIn_primary supplies _ _ _ (supplies.divides.left stretch) primary completed,
      repetition _ _ (supplies.divides.right stretch) repeated⟩
  | late word spelled takes repeated ending =>
    have behind := supplies.divides.tail stretch
    exact ⟨supplies.delimited _ _ _ _ (supplies.divides.head stretch) word spelled takes (supplies.divides.right behind)
      ending, repetition _ _ (supplies.divides.left behind) repeated⟩
  | named dotted repeated =>
    exact ⟨supplies.path _ _ (supplies.divides.left stretch) dotted,
      repetition _ _ (supplies.divides.right stretch) repeated⟩
  | chosen choosing repeated =>
    exact ⟨yieldsIn_chosen supplies (yieldsIn_arm supplies) _ _ (supplies.divides.left stretch) choosing,
      repetition _ _ (supplies.divides.right stretch) repeated⟩

theorem yieldsIn_info (given : inherited.Meets demands) :
    YieldsIn good (Info depth inherited) (MemberInfo.Meets demands) := by
  intro tokens info stretch there
  cases there with
  | mk ordered typed =>
    obtain ⟨type, repetition⟩ := yieldsIn_typed supplies _ _ (supplies.divides.right stretch) typed
    exact ⟨type, yieldsIn_orderOr supplies given _ _ (supplies.divides.left stretch) ordered, repetition⟩

theorem yieldsIn_memberLine (given : inherited.Meets demands) :
    YieldsIn good (MemberLine depth inherited) (Member.Meets demands) := by
  intro tokens member stretch there
  cases there with
  | mk body named _ =>
    exact ⟨supplies.name _ (supplies.divides.head (supplies.divides.right stretch)) named,
      yieldsIn_info supplies given _ _ (supplies.divides.left stretch) body⟩

theorem yieldsIn_caseLine (bodies : YieldsIn good phrase property) :
    YieldsIn good (CaseLine depth phrase) (Case.Meets demands property) := by
  intro tokens line stretch there
  cases there with
  | mk chosen _ there _ =>
    have behind := supplies.divides.tail (supplies.divides.right stretch)
    exact ⟨supplies.expr _ _ (supplies.divides.left stretch) chosen, bodies _ _ (supplies.divides.left behind) there⟩

theorem yieldsIn_selecting (given : inherited.Meets demands) :
    YieldsIn good (Selecting depth inherited) (Selected.Meets demands) := by
  intro tokens selected stretch there
  cases there with
  | single body named =>
    have cases := (yieldsIn_caseLine supplies (yieldsIn_info supplies given)).braced supplies.divides
    exact ⟨supplies.name _ (supplies.divides.right stretch) named, cases _ _ (supplies.divides.left stretch) body⟩
  | groups body =>
    have members := (yieldsIn_memberLine supplies given).braced supplies.divides
    exact (yieldsIn_caseLine supplies members).braced supplies.divides _ _ stretch body

theorem yieldsIn_selectionLine (given : inherited.Meets demands) :
    YieldsIn good (SelectionLine depth inherited) (Selection.Meets demands) := by
  intro tokens selection stretch there
  cases there with
  | mk _ asked body _ =>
    have behind := supplies.divides.tail stretch
    exact ⟨supplies.expr.inParens supplies.divides _ _ (supplies.divides.left behind) asked,
      yieldsIn_selecting supplies given _ _ (supplies.divides.left (supplies.divides.right behind)) body⟩

theorem yieldsIn_item (given : inherited.Meets demands) :
    YieldsIn good (Item depth inherited) (StructItem.Meets demands) := by
  intro tokens item stretch there
  cases there with
  | member line => exact yieldsIn_memberLine supplies given _ _ stretch line
  | selection line => exact yieldsIn_selectionLine supplies given _ _ stretch line

theorem yieldsIn_structBlock : YieldsIn good (StructBlock depth) (StructDef.Meets demands) := by
  intro tokens struct stretch there
  cases there with
  | mk ordered _ named _ body _ =>
    have bigFirst : OrderRule.Meets demands (.fixed .big) := trivial
    have order := yieldsIn_orderOr supplies bigFirst _ _ (supplies.divides.left stretch) ordered
    have behind := supplies.divides.tail (supplies.divides.right stretch)
    have inside := supplies.divides.left (supplies.divides.tail (supplies.divides.tail behind))
    exact ⟨supplies.name _ (supplies.divides.head behind) named, order,
      (yieldsIn_item supplies order).many supplies.divides _ _ inside body⟩

theorem yieldsIn_bitfieldLine : YieldsIn good (BitfieldLine depth) (BitfieldMember.MeetsWritten demands) := by
  intro tokens member stretch there
  cases there with
  | mk named sized _ =>
    refine ⟨supplies.name _ (supplies.divides.head stretch) named, ?_⟩
    cases sized with
    | absent => exact .inl rfl
    | present there =>
      have inside := supplies.divides.left (supplies.divides.tail stretch)
      exact .inr (supplies.expr.inParens supplies.divides _ _ inside there)

theorem yieldsIn_bitfieldBlock : YieldsIn good (BitfieldBlock depth) (BitfieldDef.MeetsWritten demands) := by
  intro tokens bitfield stretch there
  cases there with
  | mk _ named sized _ body _ =>
    have behind := supplies.divides.tail stretch
    have rest := supplies.divides.tail behind
    have inside := supplies.divides.left (supplies.divides.tail (supplies.divides.right rest))
    exact ⟨supplies.name _ (supplies.divides.head behind) named,
      (supplies.expr.inParens supplies.divides).optional _ _ (supplies.divides.left rest) sized,
      (yieldsIn_bitfieldLine supplies).many supplies.divides _ _ inside body⟩

theorem yieldsIn_declared : YieldsIn good (Declared depth) (Declaration.MeetsWritten demands) := by
  intro tokens declared stretch there
  cases there with
  | struct block => exact yieldsIn_structBlock supplies _ _ stretch block
  | bitfield block => exact yieldsIn_bitfieldBlock supplies _ _ stretch block

/-- All declarations of a description meet demands that its parts do. -/
theorem yieldsIn_description :
    YieldsIn good (Description depth) fun declared => ∀ declaration ∈ declared, declaration.MeetsWritten demands :=
  (yieldsIn_declared supplies).many supplies.divides

end

end Grammar

end RecordLayout
