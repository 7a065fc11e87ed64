import RecordLayout.Proofs.Schema.Lookup
import RecordLayout.Proofs.Schema.Nodes
import RecordLayout.Proofs.Span.Enclosed
import RecordLayout.Proofs.Token.Stretch

/-! The outline of what is accepted. Nodes of the tree begin at tokens of the source, and each at a later one than the
node before it, so the outline lists what is in a source in the order in which it is there. -/

namespace RecordLayout

open Grammar Located Phrase

/-- The nodes begin where tokens do, in the order of the tokens. -/
def Follow (tokens : List Token) (nodes : List Node) : Prop :=
  (nodes.map Node.start).Sublist (tokens.map (·.span.start))

namespace Follow

variable {front back : List Token} {nodes others : List Node} {row : Writer.Row}

theorem append (first : Follow front nodes) (second : Follow back others) : Follow (front ++ back) (nodes ++ others) := by
  rw [Follow, List.map_append, List.map_append]
  exact List.Sublist.append first second

theorem skip {token : Token} (follow : Follow back nodes) : Follow (token :: back) nodes :=
  List.Sublist.cons _ follow

theorem left (follow : Follow front nodes) : Follow (front ++ back) nodes :=
  follow.trans ((List.sublist_append_left front back).map _)

theorem right (follow : Follow back nodes) : Follow (front ++ back) nodes :=
  follow.trans ((List.sublist_append_right front back).map _)

theorem token {token : Token} (follow : Follow back nodes) : Follow (token :: back) (⟨row, token.span.start⟩ :: nodes) :=
  List.Sublist.cons_cons _ follow

theorem one {token : Token} : Follow [token] [⟨row, token.span.start⟩] :=
  .token (List.Sublist.refl _)

/-- An expression begins at one of its tokens, though not always at the first. -/
theorem value {depth : Nat} {value : Expr} (there : Arithmetic depth front value) :
    Follow front [⟨row, value.span.start⟩] := by
  refine List.singleton_sublist.mpr ?_
  have spanned := (places_arithmetic depth _ _ there).spanned value.span_mem_spans
  generalize value.span = span at spanned
  cases spanned with
  | @mk before first => exact List.mem_map_of_mem (List.mem_append_right before List.mem_cons_self)

theorem many {item : Phrase α} {tokens : List Token} {values : List α} {nodes : α → List Node}
    (each : ∀ tokens value, item tokens value → Follow tokens (nodes value)) (there : Many item tokens values) :
    Follow tokens (values.flatMap nodes) := by
  induction there with
  | nil => exact List.Sublist.refl _
  | cons first _ ih => exact (each _ _ first).append ih

theorem braced {item : Phrase α} {tokens : List Token} {values : List α} {nodes : α → List Node}
    (each : ∀ tokens value, item tokens value → Follow tokens (nodes value)) (there : Braced item tokens values) :
    Follow tokens (values.flatMap nodes) := by
  cases there with
  | mk _ items _ _ => exact (many each items).left.skip

end Follow

section

variable {depth : Nat} {inherited : OrderRule} {tokens : List Token}

theorem follow_memberLine {member : Member} (there : MemberLine depth inherited tokens member) (deep : Nat) :
    Follow tokens [member.node deep] := by
  cases there with
  | mk _ _ _ => exact Follow.right (.token (List.nil_sublist _))

theorem follow_selectionLine {selection : Selection} (there : SelectionLine depth inherited tokens selection)
    (deep : Nat) : Follow tokens (selection.nodes deep) := by
  cases there with
  | @mk word front condition back selected comma _ _ body _ =>
    rw [Selection.nodes]
    cases body with
    | single body _ =>
      refine .token (Follow.right (Follow.left (Follow.left ?_)))
      rw [List.map_eq_flatMap]
      refine .braced (fun tokens type there => ?_) body
      cases there with
      | mk value _ _ _ => exact (Follow.value value).left
    | groups body =>
      refine .token (Follow.right (Follow.left ?_))
      refine .braced (fun tokens group there => ?_) body
      cases there with
      | mk value _ members _ =>
        refine (Follow.value value).append (Follow.left ?_).skip
        rw [List.map_eq_flatMap]
        exact .braced (fun _ _ line => follow_memberLine line (deep + 2)) members

theorem follow_item {item : StructItem} (there : Item depth inherited tokens item) (deep : Nat) :
    Follow tokens (item.nodes deep) := by
  cases there with
  | member line => exact follow_memberLine line deep
  | selection line => exact follow_selectionLine line deep

theorem follow_declared {declared : Declaration} (there : Declared depth tokens declared) :
    Follow tokens declared.nodes := by
  cases there with
  | struct block =>
    cases block with
    | mk _ _ _ _ body _ =>
      have items := Follow.many (fun _ item (there : Item depth _ _ item) => follow_item there 1) body
      exact Follow.right (Follow.token items.left.skip).skip
  | bitfield block =>
    cases block with
    | mk _ _ _ _ body _ =>
      have line : ∀ tokens member, BitfieldLine depth tokens member → Follow tokens [member.node 1] := by
        intro tokens member there
        cases there with
        | mk _ _ _ => exact .token (List.nil_sublist _)
      have members := Follow.many line body
      rw [← List.map_eq_flatMap] at members
      exact (Follow.token (Follow.right members.left.skip)).skip

theorem follow_description {declared : List Declaration} (there : Description depth tokens declared) :
    Follow tokens (declared.flatMap Declaration.nodes) :=
  .many (fun _ _ => follow_declared) there

end

/-- The nodes line by line, each behind as many copies of the unit as its depth. -/
def Schema.laidOut (schema : Schema) (unit : String) : String :=
  String.join (schema.nodes.map fun node => String.join (List.replicate node.depth unit) ++ node.text ++ "\n")

/-- The outline lists the nodes of the tree, one on each line and in the order of the source, whatever a level is
indented by. Writing it does not fail and ends at the outermost level. -/
theorem outline_of_compile {nesting : Nat} {source : Source} {schema : Schema}
    (accepted : compile nesting source = .ok schema) (unbroken : schema.DelimitersUnbroken) :
    (∀ unit, (Writer.runAll schema.outline (.withUnit unit)).ok = true ∧
      (Writer.runAll schema.outline (.withUnit unit)).writer.level = 0 ∧
      (Writer.runAll schema.outline (.withUnit unit)).writer.text = schema.laidOut unit) ∧
    schema.outlineText = schema.laidOut "  " ∧
    (∀ node ∈ schema.nodes, Text.Unbroken node.text ∧ node.text ≠ "") ∧
    schema.nodes.Pairwise fun first second => first.start.index < second.start.index := by
  obtain ⟨declared, parsed, checked⟩ := Outcome.bind_eq_ok.mp accepted
  obtain ⟨tokens, scanned, there⟩ := parse_eq_ok.mp parsed
  obtain rfl := Schema.unchanged_of_ofDeclarations checked
  have meets := yields_description (supplies_wellFormed nesting) _ _ (wellNamed_meaningful scanned) there
  have writes := Schema.writes meets unbroken
  have run (unit : String) : Writer.runAll schema.outline (.withUnit unit) =
      ⟨⟨schema.laidOut unit, 0, unit, true⟩, true⟩ := by
    rw [writes.run _ rfl]
    simp [Writer.added, Writer.withUnit, Writer.Row.line, Schema.laidOut, Function.comp_def]
  have ordered : (schema.nodes.map Node.start).Pairwise fun first second => first.index < second.index :=
    List.Pairwise.sublist (follow_description there) (List.pairwise_map.mpr (Token.starts_meaningful scanned))
  rw [List.pairwise_map] at ordered
  refine ⟨fun unit => ?_, ?_, List.forall_mem_map.mp writes.lines, ordered⟩
  · rw [run unit]
    exact ⟨rfl, rfl, rfl⟩
  · exact congrArg (·.writer.text) (run "  ")

/-- Both shapes of selections, a value in parentheses, and a bitfield. -/
def nestedSource : Source :=
  ⟨"", "struct s\x7bmatch(1)\x7b(2):uint8,\x7da,match(3)\x7b4:\x7bstring(',')b,\x7d,\x7d,\x7dbitfield g\x7bh,\x7d"⟩

def nestedSpan (start stop : Nat) : Span :=
  ⟨⟨start, 0, start, nestedSource⟩, ⟨stop, 0, stop, nestedSource⟩⟩

def nestedByte : MemberInfo :=
  ⟨.plain (.data ⟨.unsigned .w8, none, nestedSpan 22 27⟩), .fixed .big, none⟩

def nestedText : MemberInfo :=
  ⟨.plain (.data ⟨.string, some (.char "," (nestedSpan 50 53)), nestedSpan 43 49⟩), .fixed .big, none⟩

def nestedStruct : StructDef where
  name := ⟨"s", nestedSpan 7 8⟩
  order := .fixed .big
  items :=
    [.selection ⟨.int 1 (nestedSpan 15 16),
        .single ⟨"a", nestedSpan 29 30⟩ [⟨.int 2 (nestedSpan 19 20), nestedByte⟩], nestedSpan 9 14⟩,
     .selection ⟨.int 3 (nestedSpan 37 38),
        .groups [⟨.int 4 (nestedSpan 40 41), [⟨⟨"b", nestedSpan 54 55⟩, nestedText⟩]⟩], nestedSpan 31 36⟩]

def nestedSchema : Schema :=
  ⟨[.struct nestedStruct,
    .bitfield ⟨⟨"g", nestedSpan 70 71⟩, none, [⟨⟨"h", nestedSpan 72 73⟩, .int 1 (nestedSpan 72 73)⟩]⟩]⟩

theorem outline_of_nestedSource :
    compile 16 nestedSource = .ok nestedSchema ∧ nestedSchema.DelimitersUnbroken ∧
      nestedSchema.outlineText =
        "struct s BE\n  match 1 -> a\n    2 => uint8 BE\n  match 3\n    4 =>\n      b: string BE until ','\n" ++
        "bitfield g (1 bits)\n  h: 1\n" ∧
      nestedSchema.nodes.map (·.start.index) = [7, 9, 19, 31, 40, 54, 70, 72] := by
  have accepted : compile 16 nestedSource = .ok nestedSchema := by cbv
  have unbroken : nestedSchema.DelimitersUnbroken := by decide
  obtain ⟨_, written, _, _⟩ := outline_of_compile accepted unbroken
  exact ⟨accepted, unbroken, written.trans (by cbv), by cbv⟩

end RecordLayout
