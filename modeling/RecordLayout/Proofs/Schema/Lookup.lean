import Mathlib.Data.List.Nodup
import RecordLayout.Proofs.Schema.Resolution

/-! Declarations can be looked up in tables of their positions, one table for structs and one for bitfields, in which a
later declaration takes the place of an earlier one of its name. In a schema no name is declared twice, so the tables
find what the search through the list finds, and a type that is referred to is in exactly one of them. -/

namespace RecordLayout.Schema

variable {α : Type} {kind : Declaration → Option α} {declarations front : List Declaration}
  {table : Std.HashMap String Nat}

/-- A declaration of the kind puts its position in the place of one of the same name. -/
def enter (kind : Declaration → Option α) (table : Std.HashMap String Nat) (entry : Declaration × Nat) :
    Std.HashMap String Nat :=
  match kind entry.1 with
  | some _ => table.insert entry.1.name.text entry.2
  | none => table

/-- Where the declarations of the kind are, by their names. -/
def positions (kind : Declaration → Option α) (declarations : List Declaration) : Std.HashMap String Nat :=
  declarations.zipIdx.foldl (enter kind) ∅

/-- The declaration of the kind at the position that the table has for the name. -/
def lookup (kind : Declaration → Option α) (declarations : List Declaration) (name : String) : Option α := do
  let position ← (positions kind declarations)[name]?
  let declared ← declarations[position]?
  kind declared

/-- The table has the declarations of the kind, each under its name. -/
def Tabulates (kind : Declaration → Option α) (declarations : List Declaration)
    (table : Std.HashMap String Nat) : Prop :=
  ∀ name position, table[name]? = some position ↔
    ∃ declared, declarations[position]? = some declared ∧ (kind declared).isSome ∧ declared.name.text = name

theorem getElem?_concat_eq_some {last declared : Declaration} {position : Nat} :
    (front ++ [last])[position]? = some declared ↔
      front[position]? = some declared ∨ position = front.length ∧ last = declared := by
  rcases Nat.lt_trichotomy position front.length with inside | rfl | beyond
  · simp [List.getElem?_append_left inside, Nat.ne_of_lt inside]
  · simp
  · have outside : (front ++ [last]).length ≤ position := by
      rw [List.length_append]
      exact beyond
    rw [List.getElem?_eq_none outside, List.getElem?_eq_none (Nat.le_of_lt beyond)]
    simp [Nat.ne_of_gt beyond]

/-- One declaration with a new name is entered without touching the others. -/
theorem tabulates_enter (tabulates : Tabulates kind front table) {declared : Declaration}
    (fresh : declared.name.text ∉ front.map (·.name.text)) :
    Tabulates kind (front ++ [declared]) (enter kind table (declared, front.length)) := by
  intro name position
  have before := tabulates name position
  simp only [getElem?_concat_eq_some, or_and_right, exists_or, enter]
  cases picked : kind declared with
  | none =>
    rw [before]
    refine ⟨.inl, ?_⟩
    rintro (old | ⟨_, ⟨_, rfl⟩, impossible, _⟩)
    · exact old
    · simp [picked] at impossible
  | some value =>
    rw [Std.HashMap.getElem?_insert]
    by_cases same : declared.name.text = name
    · subst same
      rw [BEq.rfl, if_pos rfl]
      constructor
      · rintro ⟨⟩
        exact .inr ⟨declared, ⟨rfl, rfl⟩, by simp [picked], rfl⟩
      · rintro (⟨other, present, _, named⟩ | ⟨_, ⟨rfl, _⟩, _⟩)
        -- The insertion has taken the place of nothing.
        · exact absurd (List.mem_map.mpr ⟨other, List.mem_of_getElem? present, named⟩) fresh
        · rfl
    · have other : (declared.name.text == name) = false := by simpa using same
      rw [other, if_neg Bool.false_ne_true, before]
      refine ⟨.inl, ?_⟩
      rintro (old | ⟨_, ⟨_, rfl⟩, _, named⟩)
      · exact old
      · exact absurd named same

/-- What has been entered grows at its end while what is left shrinks at its front. -/
theorem tabulates_foldl {rest : List Declaration} (tabulates : Tabulates kind front table)
    (distinct : ((front ++ rest).map (·.name.text)).Nodup) :
    Tabulates kind (front ++ rest) ((rest.zipIdx front.length).foldl (enter kind) table) := by
  induction rest generalizing front table with
  | nil => simpa using tabulates
  | cons declared rest ih =>
    have fresh : declared.name.text ∉ front.map (·.name.text) := by
      rw [List.map_append, List.nodup_append'] at distinct
      exact fun old => distinct.2.2 old (by simp)
    have later := ih (tabulates_enter tabulates fresh) (by simpa using distinct)
    simpa using later

/-- All declarations are entered, if no name comes twice. -/
theorem tabulates_positions (distinct : (declarations.map (·.name.text)).Nodup) :
    Tabulates kind declarations (positions kind declarations) := by
  have none : Tabulates kind [] ∅ := by simp [Tabulates]
  exact tabulates_foldl none distinct

theorem lookup_eq_some (distinct : (declarations.map (·.name.text)).Nodup) {name : String} {value : α} :
    lookup kind declarations name = some value ↔
      ∃ declared ∈ declarations, kind declared = some value ∧ declared.name.text = name := by
  have tabulates := @tabulates_positions _ kind _ distinct name
  simp only [lookup, Option.bind_eq_bind, Option.bind_eq_some_iff, tabulates]
  constructor
  · intro ⟨position, ⟨declared, here, _, named⟩, found, again, picked⟩
    obtain rfl := Option.some.inj (here.symm.trans again)
    exact ⟨declared, List.mem_of_getElem? here, picked, named⟩
  · intro ⟨declared, present, picked, named⟩
    obtain ⟨position, here⟩ := List.mem_iff_getElem?.mp present
    exact ⟨position, ⟨declared, here, by simp [picked], named⟩, declared, here, picked⟩

theorem find?_eq_some (distinct : (declarations.map (·.name.text)).Nodup) {nameOf : α → Name}
    (named : ∀ declared value, kind declared = some value → nameOf value = declared.name) {name : String} {value : α} :
    ((declarations.filterMap kind).find? fun value => (nameOf value).text == name) = some value ↔
      ∃ declared ∈ declarations, kind declared = some value ∧ declared.name.text = name := by
  constructor
  · intro found
    obtain ⟨declared, present, picked⟩ := List.mem_filterMap.mp (List.mem_of_find?_eq_some found)
    have text := List.find?_some found
    rw [named declared value picked, beq_iff_eq] at text
    exact ⟨declared, present, picked, text⟩
  · intro ⟨declared, present, picked, text⟩
    have listed : value ∈ declarations.filterMap kind := List.mem_filterMap.mpr ⟨declared, present, picked⟩
    cases found : (declarations.filterMap kind).find? fun value => (nameOf value).text == name with
    | none =>
      have absent := List.find?_eq_none.mp found value listed
      simp [named declared value picked, text] at absent
    | some other =>
      obtain ⟨again, isThere, isOther⟩ := List.mem_filterMap.mp (List.mem_of_find?_eq_some found)
      have otherText := List.find?_some found
      rw [named again other isOther, beq_iff_eq] at otherText
      obtain rfl := List.inj_on_of_nodup_map distinct isThere present (otherText.trans text.symm)
      exact isOther.symm.trans picked

/-- The search through the list finds what the table has. -/
theorem lookup_eq_find? (distinct : (declarations.map (·.name.text)).Nodup) {nameOf : α → Name}
    (named : ∀ declared value, kind declared = some value → nameOf value = declared.name) (name : String) :
    lookup kind declarations name = (declarations.filterMap kind).find? fun value => (nameOf value).text == name := by
  ext value
  rw [lookup_eq_some distinct, find?_eq_some distinct named]

variable {schema : Schema} {name : String}

theorem lookup_struct? (distinct : (schema.declarations.map (·.name.text)).Nodup) :
    lookup Declaration.struct? schema.declarations name = schema.findStruct? name := by
  refine lookup_eq_find? distinct ?_ name
  rintro (struct | _) _ ⟨⟩
  rfl

theorem lookup_bitfield? (distinct : (schema.declarations.map (·.name.text)).Nodup) :
    lookup Declaration.bitfield? schema.declarations name = schema.findBitfield? name := by
  refine lookup_eq_find? distinct ?_ name
  rintro (_ | bitfield) _ ⟨⟩
  rfl

theorem findStruct?_eq_some (distinct : (schema.declarations.map (·.name.text)).Nodup) {struct : StructDef} :
    schema.findStruct? name = some struct ↔ .struct struct ∈ schema.declarations ∧ struct.name.text = name := by
  rw [← lookup_struct? distinct, lookup_eq_some distinct]
  constructor
  · rintro ⟨struct | _, present, ⟨⟩, named⟩
    exact ⟨present, named⟩
  · exact fun ⟨present, named⟩ => ⟨_, present, rfl, named⟩

theorem findBitfield?_eq_some (distinct : (schema.declarations.map (·.name.text)).Nodup) {bitfield : BitfieldDef} :
    schema.findBitfield? name = some bitfield ↔
      .bitfield bitfield ∈ schema.declarations ∧ bitfield.name.text = name := by
  rw [← lookup_bitfield? distinct, lookup_eq_some distinct]
  constructor
  · rintro ⟨_ | bitfield, present, ⟨⟩, named⟩
    exact ⟨present, named⟩
  · exact fun ⟨present, named⟩ => ⟨_, present, rfl, named⟩

/-- A struct and a bitfield are never found by the same name. -/
theorem findStruct?_or_findBitfield?_eq_none (distinct : (schema.declarations.map (·.name.text)).Nodup) :
    schema.findStruct? name = none ∨ schema.findBitfield? name = none := by
  cases struct : schema.findStruct? name with
  | none => exact .inl rfl
  | some _ =>
    cases bitfield : schema.findBitfield? name with
    | none => exact .inr rfl
    | some _ =>
      obtain ⟨isStruct, structName⟩ := (findStruct?_eq_some distinct).mp struct
      obtain ⟨isBitfield, bitfieldName⟩ := (findBitfield?_eq_some distinct).mp bitfield
      cases List.inj_on_of_nodup_map distinct isStruct isBitfield (structName.trans bitfieldName.symm)

/-- What the schema finds is what the declarations say, in the list and in the tables. -/
structure Resolves (schema : Schema) (declarations : List Declaration) : Prop where
  unchanged : schema.declarations = declarations
  struct : ∀ name struct, schema.findStruct? name = some struct ↔
    .struct struct ∈ declarations ∧ struct.name.text = name
  bitfield : ∀ name bitfield, schema.findBitfield? name = some bitfield ↔
    .bitfield bitfield ∈ declarations ∧ bitfield.name.text = name
  apart : ∀ name, schema.findStruct? name = none ∨ schema.findBitfield? name = none
  structTable : ∀ name, lookup Declaration.struct? declarations name = schema.findStruct? name
  bitfieldTable : ∀ name, lookup Declaration.bitfield? declarations name = schema.findBitfield? name
  reference : ∀ struct path, .struct struct ∈ declarations → struct.Mentions path →
    Xor (schema.findStruct? path.name).isSome (schema.findBitfield? path.name).isSome

theorem unchanged_of_ofDeclarations (accepted : ofDeclarations declarations = .ok schema) :
    schema.declarations = declarations := by
  simp only [ofDeclarations, Outcome.bind_eq_ok] at accepted
  obtain ⟨_, _, _, _, _, _, made⟩ := accepted
  cases made
  rfl

theorem resolves_of_ofDeclarations (accepted : ofDeclarations declarations = .ok schema) :
    schema.Resolves declarations := by
  obtain rfl := unchanged_of_ofDeclarations accepted
  obtain ⟨distinct, _, _, ran⟩ := ofDeclarations_eq_ok.mp ⟨schema, accepted⟩
  obtain ⟨_, checked⟩ := checkStructs_eq_ok distinct ran
  refine ⟨rfl, fun _ _ => findStruct?_eq_some distinct, fun _ _ => findBitfield?_eq_some distinct,
    fun _ => findStruct?_or_findBitfield?_eq_none distinct, fun _ => lookup_struct? distinct,
    fun _ => lookup_bitfield? distinct, ?_⟩
  intro struct path present ⟨info, used, mentioned⟩
  have declared : schema.Declares path.name :=
    (checked struct (mem_structs.mpr present) info (StructDef.mem_infos.mpr used)).known path mentioned
  have known := declares_eq_true.mpr declared
  rw [declares, Bool.or_eq_true] at known
  rcases @findStruct?_or_findBitfield?_eq_none schema path.name distinct with absent | absent
  · exact .inr ⟨by simpa [absent] using known, by simp [absent]⟩
  · exact .inl ⟨by simpa [absent] using known, by simp [absent]⟩

def called (text : String) : Name :=
  ⟨text, .empty (.start ⟨"", ""⟩)⟩

/-- One member of the type. -/
def oneOf (type : MemberType) : MemberInfo :=
  ⟨type, .fixed .big, none⟩

/-- A struct that refers to `leaf` or to `flags` wherever a type can stand. -/
def referrer : StructDef :=
  let blank : Span := (called "").span
  let one : Expr := .int 1 blank
  let leaf : TypeRef := .named (referenceAt "leaf" 1)
  let flags : TypeRef := .named (referenceAt "flags" 2)
  ⟨called "referrer", .fixed .big,
    [.member ⟨called "plain", oneOf (.plain leaf)⟩,
     .member ⟨called "list", .plain flags, .fixed .big, some (.count one)⟩,
     .member ⟨called "choice", oneOf (.chosen ⟨.relation one .equal one, leaf, flags, blank⟩)⟩,
     .selection ⟨one, .single (called "single") [⟨one, oneOf (.plain leaf)⟩], blank⟩,
     .selection ⟨one, .groups [⟨one, [⟨called "grouped", oneOf (.plain flags)⟩]⟩], blank⟩]⟩

def referrerDeclarations : List Declaration :=
  [.bitfield ⟨called "flags", none, []⟩, .struct referrer, structOf "leaf" []]

/-- The reference of a group is among those found. -/
theorem resolves_referrerDeclarations :
    ofDeclarations referrerDeclarations = .ok ⟨referrerDeclarations⟩ ∧
      Resolves ⟨referrerDeclarations⟩ referrerDeclarations ∧
      Xor ((Schema.mk referrerDeclarations).findStruct? "flags").isSome
        ((Schema.mk referrerDeclarations).findBitfield? "flags").isSome := by
  have accepted : ofDeclarations referrerDeclarations = .ok ⟨referrerDeclarations⟩ := by cbv
  have resolves := resolves_of_ofDeclarations accepted
  have mentions : referrer.Mentions (referenceAt "flags" 2) :=
    ⟨_, .group (List.mem_of_getElem? (i := 4) rfl) rfl List.mem_cons_self List.mem_cons_self, .plain⟩
  exact ⟨accepted, resolves, resolves.reference referrer _ (by simp [referrerDeclarations]) mentions⟩

end RecordLayout.Schema
