/-! Checks that stop at their first failure. A sequence of checks succeeds when every one of them does,
and fails with the failure of one of them. -/

namespace RecordLayout.Outcome

theorem bind_eq_ok {first : Except ε α} {rest : α → Except ε β} {value : β} :
    (first >>= rest) = .ok value ↔ ∃ middle, first = .ok middle ∧ rest middle = .ok value := by
  cases first with
  | error failure => simp [bind, Except.bind]
  | ok middle => simp [bind, Except.bind]

theorem bind_eq_error {first : Except ε α} {rest : α → Except ε β} {failure : ε} :
    (first >>= rest) = .error failure ↔
      first = .error failure ∨ ∃ middle, first = .ok middle ∧ rest middle = .error failure := by
  cases first with
  | error failure => simp [bind, Except.bind]
  | ok middle => simp [bind, Except.bind]

theorem forM_eq_ok {check : α → Except ε PUnit} {items : List α} :
    items.forM check = .ok ⟨⟩ ↔ ∀ item ∈ items, check item = .ok ⟨⟩ := by
  induction items with
  | nil => simp [pure, Except.pure]
  | cons item items ih =>
    rw [List.forM_eq_forM] at ih
    rw [List.forM_eq_forM, List.forM_cons, bind_eq_ok, List.forall_mem_cons, ← ih]
    exact ⟨fun ⟨_, first, rest⟩ => ⟨first, rest⟩, fun ⟨first, rest⟩ => ⟨⟨⟩, first, rest⟩⟩

/-- What every step keeps holds in the end, and what a step achieves for its item stays achieved when
the state only grows along a relation. -/
theorem foldlM_eq_ok {step : σ → α → Except ε σ} {items : List α} {state last : σ}
    (valid : σ → Prop) (grows : σ → σ → Prop) (achieved : α → σ → Prop)
    (refl : ∀ state, grows state state)
    (trans : ∀ {first second third}, grows first second → grows second third → grows first third)
    (kept : ∀ {item first second}, achieved item first → grows first second → achieved item second)
    (each : ∀ item ∈ items, ∀ {before after}, valid before → step before item = .ok after →
      valid after ∧ grows before after ∧ achieved item after)
    (start : valid state) (ran : items.foldlM step state = .ok last) :
    valid last ∧ grows state last ∧ ∀ item ∈ items, achieved item last := by
  induction items generalizing state with
  | nil =>
    cases ran
    exact ⟨start, refl _, by simp⟩
  | cons item items ih =>
    rw [List.foldlM_cons, bind_eq_ok] at ran
    obtain ⟨middle, first, rest⟩ := ran
    obtain ⟨middleValid, firstGrows, firstDone⟩ := each item (by simp) start first
    obtain ⟨lastValid, restGrows, restDone⟩ :=
      ih (fun later member => each later (by simp [member])) middleValid rest
    refine ⟨lastValid, trans firstGrows restGrows, ?_⟩
    intro other member
    rcases List.mem_cons.mp member with rfl | later
    · exact kept firstDone restGrows
    · exact restDone other later

/-! Checks that differ in what their failures are called. -/

theorem bind_mapError {first : Except ε α} {rest : α → Except ε β} (rename : ε → δ) :
    (first >>= rest).mapError rename = (first.mapError rename >>= fun value => (rest value).mapError rename) := by
  cases first <;> rfl

theorem forM_map {check : α → Except ε PUnit} {other : β → Except δ PUnit} {rename : ε → δ} {f : α → β}
    (each : ∀ item, other (f item) = (check item).mapError rename) (items : List α) :
    (items.map f).forM other = (items.forM check).mapError rename := by
  induction items with
  | nil => rfl
  | cons item items ih =>
    rw [List.forM_eq_forM, List.forM_eq_forM] at ih
    rw [List.forM_eq_forM, List.forM_eq_forM, List.map_cons, List.forM_cons, List.forM_cons, bind_mapError, each, ih]

theorem foldlM_map {step : σ → α → Except ε σ} {other : σ → β → Except δ σ} {rename : ε → δ} {f : α → β}
    (each : ∀ state item, other state (f item) = (step state item).mapError rename) (items : List α) (state : σ) :
    (items.map f).foldlM other state = (items.foldlM step state).mapError rename := by
  induction items generalizing state with
  | nil => rfl
  | cons item items ih =>
    rw [List.map_cons, List.foldlM_cons, List.foldlM_cons, bind_mapError, each]
    exact congrArg _ (funext ih)

/-! What comes first in a list. Checks that stop at their first failure report that of the first item that fails. -/

/-- The item has the property, and those before it in the list have not. -/
def First (holds : α → Prop) (items : List α) (item : α) : Prop :=
  ∃ front back, items = front ++ item :: back ∧ holds item ∧ ∀ earlier ∈ front, ¬ holds earlier

section

variable {holds : α → Prop} {items front back : List α} {head item : α}

theorem First.mem (first : First holds items item) : item ∈ items := by
  obtain ⟨_, _, rfl, _⟩ := first
  simp

theorem First.there (first : First holds items item) : holds item := by
  obtain ⟨_, _, _, there, _⟩ := first
  exact there

theorem first_cons :
    First holds (head :: items) item ↔ holds head ∧ item = head ∨ ¬ holds head ∧ First holds items item := by
  constructor
  · intro ⟨front, back, split, there, before⟩
    cases front with
    | nil =>
      obtain ⟨rfl, _⟩ := List.cons.inj split
      exact .inl ⟨there, rfl⟩
    | cons earlier front =>
      obtain ⟨rfl, rfl⟩ := List.cons.inj split
      obtain ⟨absent, before⟩ := List.forall_mem_cons.mp before
      exact .inr ⟨absent, front, back, rfl, there, before⟩
  · rintro (⟨there, rfl⟩ | ⟨absent, front, back, rfl, there, before⟩)
    · exact ⟨[], items, rfl, there, by simp⟩
    · exact ⟨head :: front, back, rfl, there, List.forall_mem_cons.mpr ⟨absent, before⟩⟩

theorem exists_first : (∃ item, First holds items item) ↔ ∃ item ∈ items, holds item := by
  refine ⟨fun ⟨item, first⟩ => ⟨item, first.mem, first.there⟩, fun some => ?_⟩
  induction items with
  | nil => simp at some
  | cons head items ih =>
    by_cases there : holds head
    · exact ⟨head, first_cons.mpr (.inl ⟨there, rfl⟩)⟩
    · obtain ⟨item, member, later⟩ := some
      rcases List.mem_cons.mp member with rfl | member
      · exact absurd later there
      · obtain ⟨found, first⟩ := ih ⟨item, member, later⟩
        exact ⟨found, first_cons.mpr (.inr ⟨there, first⟩)⟩

theorem first_congr {other : α → Prop} (same : ∀ item ∈ items, holds item ↔ other item) :
    First holds items item ↔ First other items item := by
  induction items with
  | nil => simp [First]
  | cons head items ih =>
    obtain ⟨here, later⟩ := List.forall_mem_cons.mp same
    rw [first_cons, first_cons, here, ih later]

theorem first_append :
    First holds (front ++ back) item ↔ First holds front item ∨ (∀ earlier ∈ front, ¬ holds earlier) ∧ First holds back item := by
  induction front with
  | nil => simp [First]
  | cons head front ih =>
    rw [List.cons_append, first_cons, first_cons, ih, List.forall_mem_cons]
    grind

theorem first_map {f : β → α} {origins : List β} :
    First holds (origins.map f) item ↔ ∃ origin, First (fun origin => holds (f origin)) origins origin ∧ item = f origin := by
  induction origins with
  | nil => simp [First]
  | cons head origins ih =>
    rw [List.map_cons, first_cons, ih]
    simp only [first_cons]
    grind

/-- The first in lists put together is the first in the first of them that has one. -/
theorem first_flatMap {parts : β → List α} {wholes : List β} :
    First holds (wholes.flatMap parts) item ↔
      ∃ whole, First (fun whole => ∃ part ∈ parts whole, holds part) wholes whole ∧ First holds (parts whole) item := by
  induction wholes with
  | nil => simp [First]
  | cons whole wholes ih =>
    rw [List.flatMap_cons, first_append, ih]
    simp only [first_cons]
    constructor
    · rintro (here | ⟨absent, later, first, found⟩)
      · exact ⟨whole, .inl ⟨⟨item, here.mem, here.there⟩, rfl⟩, here⟩
      · exact ⟨later, .inr ⟨fun ⟨part, member, there⟩ => absent part member there, first⟩, found⟩
    · rintro ⟨later, ⟨_, rfl⟩ | ⟨absent, first⟩, found⟩
      · exact .inl found
      · exact .inr ⟨fun part member there => absent ⟨part, member, there⟩, later, first, found⟩

theorem first_iff_getElem? : First holds items item ↔
    ∃ index : Nat, items[index]? = some item ∧ holds item ∧
      ∀ earlier < index, ∀ other, items[earlier]? = some other → ¬ holds other := by
  constructor
  · rintro ⟨front, back, rfl, there, before⟩
    refine ⟨front.length, by simp, there, fun earlier less other stands => before other ?_⟩
    rw [List.getElem?_append_left less] at stands
    exact List.mem_of_getElem? stands
  · rintro ⟨index, stands, there, before⟩
    obtain ⟨inside, rfl⟩ := List.getElem?_eq_some_iff.mp stands
    refine ⟨items.take index, items.drop (index + 1), by simp, there, fun other member => ?_⟩
    obtain ⟨earlier, less, rfl⟩ := List.mem_take_iff_getElem.mp member
    exact before earlier (by omega) _ (List.getElem?_eq_getElem _)

/-- There is only one first item. -/
theorem First.unique {other : α} (first : First holds items item) (also : First holds items other) : item = other := by
  induction items with
  | nil => exact absurd first.mem (by simp)
  | cons head items ih =>
    rcases first_cons.mp first with ⟨there, rfl⟩ | ⟨absent, later⟩
    · rcases first_cons.mp also with ⟨_, rfl⟩ | ⟨absent, _⟩
      · rfl
      · exact absurd there absent
    · rcases first_cons.mp also with ⟨there, _⟩ | ⟨_, alsoLater⟩
      · exact absurd there absent
      · exact ih later alsoLater

theorem find?_eq_some_iff_first {test : α → Bool} : items.find? test = some item ↔ First (test · = true) items item := by
  rw [List.find?_eq_some_iff_append]
  simp only [First, Bool.not_eq_true]
  grind

end

theorem forM_eq_error_iff {check : α → Except ε PUnit} {items : List α} {failure : ε} :
    items.forM check = .error failure ↔
      ∃ item, First (fun item => check item ≠ .ok ⟨⟩) items item ∧ check item = .error failure := by
  induction items with
  | nil => simp [First, pure, Except.pure]
  | cons item items ih =>
    rw [List.forM_eq_forM] at ih
    rw [List.forM_eq_forM, List.forM_cons, bind_eq_error, ih]
    simp only [first_cons]
    constructor
    · rintro (failed | ⟨_, passed, later, first, failed⟩)
      · exact ⟨item, .inl ⟨by simp [failed], rfl⟩, failed⟩
      · exact ⟨later, .inr ⟨by simp [passed], first⟩, failed⟩
    · rintro ⟨later, ⟨_, rfl⟩ | ⟨passed, first⟩, failed⟩
      · exact .inl failed
      · exact .inr ⟨⟨⟩, Classical.not_not.mp passed, later, first, failed⟩

theorem forM_eq_error {check : α → Except ε PUnit} {items : List α} {failure : ε}
    (failed : items.forM check = .error failure) : ∃ item ∈ items, check item = .error failure := by
  obtain ⟨item, first, failed⟩ := forM_eq_error_iff.mp failed
  exact ⟨item, first.mem, failed⟩

/-- A loop that ends has passed every item. -/
theorem foldlM_passed {step : σ → α → Except ε σ} {items : List α} {state last : σ}
    (ran : items.foldlM step state = .ok last) : ∀ item ∈ items, ∃ before after, step before item = .ok after :=
  (foldlM_eq_ok (fun _ => True) (fun _ _ => True) (fun item _ => ∃ before after, step before item = .ok after)
    (fun _ => trivial) (fun _ _ => trivial) (fun passed _ => passed)
    (fun _ _ before after _ passed => ⟨trivial, trivial, before, after, passed⟩) trivial ran).2.2

/-- A loop that fails has passed all items before one that fails. -/
theorem foldlM_failed {step : σ → α → Except ε σ} {items : List α} {state : σ} {failure : ε}
    (failed : items.foldlM step state = .error failure) :
    ∃ front item back reached, items = front ++ item :: back ∧
      (∀ earlier ∈ front, ∃ before after, step before earlier = .ok after) ∧ step reached item = .error failure := by
  induction items generalizing state with
  | nil => cases failed
  | cons item items ih =>
    rw [List.foldlM_cons, bind_eq_error] at failed
    rcases failed with first | ⟨middle, passed, rest⟩
    · exact ⟨[], item, items, state, rfl, by simp, first⟩
    · obtain ⟨front, later, back, reached, rfl, before, found⟩ := ih rest
      exact ⟨item :: front, later, back, reached, rfl, List.forall_mem_cons.mpr ⟨⟨state, middle, passed⟩, before⟩, found⟩

end RecordLayout.Outcome
