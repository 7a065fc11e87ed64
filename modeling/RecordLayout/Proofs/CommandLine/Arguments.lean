import Mathlib
import RecordLayout.CommandLine

/-! Arguments of the program. What one argument does to the options is a step, and arguments that are accepted are
steps from the first to the last. A lone dash gives up the file that was named before it, so the file that is read is
the one behind which no lone dash stands. -/

namespace RecordLayout.CommandLine

open Request (ofArgs)

/-- The argument names a file. -/
def IsPath (arg : String) : Prop :=
  arg.toList.head? ≠ some '-'

instance (arg : String) : Decidable (IsPath arg) :=
  inferInstanceAs (Decidable (_ ≠ _))

/-- The argument asks for the tokens. -/
def AsksListing (arg : String) : Prop :=
  arg = "--lexer" ∨ arg = "-L"

/-- The argument asks for the outline. -/
def AsksOutline (arg : String) : Prop :=
  arg = "--ast" ∨ arg = "-A"

instance (arg : String) : Decidable (AsksListing arg) :=
  inferInstanceAs (Decidable (_ ∨ _))

instance (arg : String) : Decidable (AsksOutline arg) :=
  inferInstanceAs (Decidable (_ ∨ _))

theorem AsksListing.not_isPath {arg : String} (asks : AsksListing arg) : ¬ IsPath arg := by
  rcases asks with rfl | rfl <;> decide

theorem AsksOutline.not_isPath {arg : String} (asks : AsksOutline arg) : ¬ IsPath arg := by
  rcases asks with rfl | rfl <;> decide

theorem not_isPath_dash : ¬ IsPath "-" := by decide

/-- What one argument makes of the options. -/
inductive Options.Step (options : Options) (arg : String) : Options → Prop where
  | listing (asks : AsksListing arg) : Step options arg { options with listing := true }
  | outline (asks : AsksOutline arg) : Step options arg { options with outline := true }
  | dash (alone : arg = "-") : Step options arg { options with file := none }
  | path (names : IsPath arg) (free : options.file = none) : Step options arg { options with file := some arg }

section

variable {options final : Options} {arg path : String} {args rest : List String}

/-- An argument that makes a step is read, and the others follow. -/
theorem Options.Step.ofArgs_cons {next : Options} (step : options.Step arg next) (rest : List String) :
    ofArgs options (arg :: rest) = ofArgs next rest := by
  rw [ofArgs]
  cases step with
  | listing asks => exact if_pos asks
  | outline asks => rcases asks with rfl | rfl <;> simp
  | dash alone => simp [alone]
  | path names free =>
    have other (word : String) (dashed : ¬ IsPath word) : arg ≠ word := fun same => dashed (same ▸ names)
    have known : ¬ arg.toList.head? = some '-' := names
    simp only [other _ (by decide : ¬ IsPath "--lexer"), other _ (by decide : ¬ IsPath "-L"),
      other _ (by decide : ¬ IsPath "--ast"), other _ (by decide : ¬ IsPath "-A"),
      other _ (by decide : ¬ IsPath "--help"), other _ (by decide : ¬ IsPath "-h"), other _ not_isPath_dash, known,
      free]
    rfl

/-- Arguments that are accepted begin with one that makes a step. -/
theorem exists_step (accepted : ofArgs options (arg :: rest) = .ok (.compile final)) :
    ∃ next, options.Step arg next ∧ ofArgs next rest = .ok (.compile final) := by
  rw [ofArgs] at accepted
  split at accepted
  next asks => exact ⟨_, .listing asks, accepted⟩
  split at accepted
  next asks => exact ⟨_, .outline asks, accepted⟩
  split at accepted
  next => cases accepted
  split at accepted
  next alone => exact ⟨_, .dash alone, accepted⟩
  split at accepted
  next => cases accepted
  next names =>
    split at accepted
    next => cases accepted
    next free => exact ⟨_, .path names free, accepted⟩

/-- The path is among the arguments, and no lone dash stands behind it. -/
def Names (args : List String) (path : String) : Prop :=
  ∃ front back, args = front ++ path :: back ∧ IsPath path ∧ "-" ∉ back

theorem names_cons : Names (arg :: rest) path ↔ arg = path ∧ IsPath path ∧ "-" ∉ rest ∨ Names rest path := by
  constructor
  · rintro ⟨front, back, parts, names, behind⟩
    cases front with
    | nil =>
      cases parts
      exact .inl ⟨rfl, names, behind⟩
    | cons first front =>
      cases parts
      exact .inr ⟨front, back, rfl, names, behind⟩
  · rintro (⟨rfl, names, behind⟩ | ⟨front, back, rfl, names, behind⟩)
    · exact ⟨[], rest, rfl, names, behind⟩
    · exact ⟨arg :: front, back, rfl, names, behind⟩

/-- An argument that is no path names nothing by itself. -/
theorem names_cons_of_not_isPath (other : ¬ IsPath arg) : Names (arg :: rest) path ↔ Names rest path := by
  rw [names_cons, or_iff_right]
  rintro ⟨rfl, names, _⟩
  exact other names

/-- The file that is read is named by the arguments, or it was named before them and no lone dash gives it up. -/
theorem file_eq_some_iff (accepted : ofArgs options args = .ok (.compile final)) :
    final.file = some path ↔ Names args path ∨ options.file = some path ∧ "-" ∉ args := by
  induction args generalizing options with
  | nil =>
    cases accepted
    simp [Names]
  | cons arg rest ih =>
    obtain ⟨next, step, accepted⟩ := exists_step accepted
    rw [ih accepted]
    cases step with
    | listing asks =>
      have other : "-" ≠ arg := fun same => absurd (same ▸ asks) (by decide)
      rw [names_cons_of_not_isPath asks.not_isPath]
      simp [other]
    | outline asks =>
      have other : "-" ≠ arg := fun same => absurd (same ▸ asks) (by decide)
      rw [names_cons_of_not_isPath asks.not_isPath]
      simp [other]
    | dash alone =>
      subst alone
      rw [names_cons_of_not_isPath not_isPath_dash]
      simp
    | path names free =>
      -- Nothing was named before, or this argument would have been refused.
      rw [names_cons, free]
      grind

/-! What is read. -/

/-- What is reported of a source that has been read, or that could not be. -/
def finish (options : Options) : Except ReadFault String → Report
  | .ok text => answer options ⟨options.file.getD "<stdin>", text⟩
  | .error fault => .unreadable options.file fault

variable {m : Type → Type} [Monad m] [LawfulMonad m]

/-- One source is read, and nothing else. -/
theorem run_of_ofArgs (accepted : ofArgs .initial args = .ok (.compile options))
    (read : Option String → m (Except ReadFault String)) : run read args = finish options <$> read options.file := by
  rw [map_eq_pure_bind, run, accepted]
  refine congrArg (read options.file >>= ·) (funext fun found => ?_)
  cases found <;> rfl

end

/-- The one source that is read is the file among the arguments behind which no lone dash stands, and the standard
input where there is no such file. -/
theorem reads_of_ofArgs {args : List String} {options : Options}
    (accepted : ofArgs .initial args = .ok (.compile options)) :
    (∀ path, options.file = some path ↔ Names args path) ∧
    ∀ {m : Type → Type} [Monad m] [LawfulMonad m] (read : Option String → m (Except ReadFault String)),
      run read args = finish options <$> read options.file := by
  refine ⟨fun path => ?_, run_of_ofArgs accepted⟩
  rw [file_eq_some_iff accepted]
  simp [Options.initial]

/-- Files of one text each, where the file that is given up cannot be read. -/
def readSecond : Option String → Id (Except ReadFault String)
  | some "a" => .error .notFound
  | some _ => .ok "struct s\x7b\x7d bitfield f\x7b\x7d"
  | none => .ok ""

theorem reads_of_ofArgs_second :
    ofArgs .initial ["a", "-", "b"] = .ok (.compile ⟨false, false, some "b"⟩) ∧
    Names ["a", "-", "b"] "b" ∧ ¬ Names ["a", "-", "b"] "a" ∧
    run readSecond ["a", "-", "b"] = .success "b: ok, 1 struct(s), 1 bitfield(s)\n" := by
  have accepted : ofArgs .initial ["a", "-", "b"] = .ok (.compile ⟨false, false, some "b"⟩) := rfl
  obtain ⟨file, reads⟩ := reads_of_ofArgs accepted
  have report : finish ⟨false, false, some "b"⟩ (readSecond (some "b")) =
      .success "b: ok, 1 struct(s), 1 bitfield(s)\n" := by cbv
  exact ⟨accepted, (file "b").mp rfl, fun names => absurd ((file "a").mpr names) (by decide), (reads _).trans report⟩

/-- A file before a lone dash is accepted and not read, whether or not another file is named behind the dash. -/
theorem passed_over_of_ofArgs :
    ofArgs .initial ["a", "-", "b"] = .ok (.compile ⟨false, false, some "b"⟩) ∧
    ofArgs .initial ["a", "-"] = .ok (.compile ⟨false, false, none⟩) ∧
    ¬ ∀ args options, ofArgs .initial args = .ok (.compile options) →
      ∀ path ∈ args, IsPath path → options.file = some path := by
  have second : ofArgs .initial ["a", "-", "b"] = .ok (.compile ⟨false, false, some "b"⟩) := rfl
  have standard : ofArgs .initial ["a", "-"] = .ok (.compile ⟨false, false, none⟩) := rfl
  refine ⟨second, standard, fun always => ?_⟩
  exact absurd (always _ _ standard "a" (by decide) (by decide)) (by decide)

end RecordLayout.CommandLine
