import Zar.Logging.ModuleLogger
/-!
# The threshold of a module

What the calls so far say about the threshold of a module, and what a statement then does.
`LOG_W` passes the level below the one it is named after, which shows where the threshold
lies between the two.
-/

namespace Zar
namespace ModuleLogger

variable {σ ρ : Type} {s s' : ModuleLogger σ ρ} {start : ModuleLogger σ ρ} {e : Event σ ρ} {es : List (Event σ ρ)}
  {module : Bytes} {threshold : Level}

/-! ## What the calls ask for -/

/-- The threshold with which a call registers the module. -/
def registration (module : Bytes) : Event σ ρ → Option Level
  | .registerModule registered threshold => if registered = module then some threshold else none
  | _ => none

/-- The threshold that a call sets for the module if it is registered. -/
def setting (module : Bytes) : Event σ ρ → Option Level
  | .setThresholdLevel threshold => some threshold
  | .setThresholdLevelOf set threshold => if set = module then some threshold else none
  | _ => none

/-- The threshold of the last set behind the first registration, or else that of the registration. -/
def asked (module : Bytes) (es : List (Event σ ρ)) : Option Level :=
  match es.dropWhile fun e => (registration module e).isNone with
  | [] => none
  | first :: behind => ((behind.filterMap (setting module)).getLast?).or (registration module first)

theorem asked_concat (module : Bytes) (es : List (Event σ ρ)) (e : Event σ ρ) :
    asked module (es ++ [e]) =
      match asked module es with
      | none => registration module e
      | some threshold => some ((setting module e).getD threshold) := by
  unfold asked
  rw [List.dropWhile_append]
  cases hd : es.dropWhile fun e => (registration module e).isNone with
  | nil =>
    cases hr : registration module e with
    | none => simp [hr]
    | some threshold => simp [hr]
  | cons first behind =>
    have hfirst : (registration module first).isNone = false := by
      have h := List.head_dropWhile_not (fun e => (registration module e).isNone) (l := es) (by simp [hd])
      simpa [hd] using h
    cases hl : registration module first with
    | none => simp [hl] at hfirst
    | some registered =>
      cases hlast : (behind.filterMap (setting module)).getLast? <;> cases hset : setting module e <;>
        simp [hl, hlast, hset]

/-- A step does to a threshold what the call asks for. -/
theorem step_modules (hs : s.step e = some s') (module : Bytes) :
    s'.modules module =
      match s.modules module with
      | none => registration module e
      | some threshold => some ((setting module e).getD threshold) := by
  cases step_cases hs with
  | @registered registered level hm =>
    by_cases hr : registered = module
    · subst hr
      simp [registration, hm]
    · cases h : s.modules module <;> simp [registration, setting, hr, h, Function.update_of_ne (Ne.symm hr)]
  | @known registered old level hm =>
    by_cases hr : registered = module
    · subst hr
      simp [setting, hm]
    · cases h : s.modules module <;> simp [registration, setting, hr]
  | setThresholdLevel level => cases h : s.modules module <;> simp [setThresholdLevel, registration, setting, h]
  | @set set old level hm =>
    by_cases hr : set = module
    · subst hr
      simp [setting, hm]
    · cases h : s.modules module <;> simp [registration, setting, hr, h, Function.update_of_ne (Ne.symm hr)]
  | @threw set level hm =>
    by_cases hr : set = module
    · subst hr
      simp [registration, hm]
    · cases h : s.modules module <;> simp [registration, setting, hr]
  | _ => cases s.modules module <;> simp [registration, setting]

/-- The threshold of a module is the one the calls so far ask for. -/
theorem run_modules (h : (system start).Run es s) (hstart : start.modules = fun _ => none) (module : Bytes) :
    s.modules module = asked module es := by
  apply h.inv_hist (fun es (s : ModuleLogger σ ρ) => s.modules module = asked module es) (congrFun hstart module)
  intro es s e s' _ hi _ hs
  rw [step_modules hs, hi, asked_concat]

/-! ## What is written -/

theorem isActive_iff {level : Level} :
    s.isActive module level = true ↔ ∃ threshold, s.modules module = some threshold ∧ threshold.toInt ≤ level.toInt := by
  unfold isActive
  cases s.modules module <;> simp

/-- The text is given to `do_log`, at once or in an entry, and `do_log` writes it whatever becomes of
the module. -/
def Writes (s s' : ModuleLogger σ ρ) (message : Bytes) : Prop :=
  ∃ entry, s'.base.dispatch.called = s.base.dispatch.called ++ [entry] ∧ entry.message = message ∧
    ∀ module, ∃ ostream, .write ostream message ∈ entry.doLog module

/-- There is a stream for every message. -/
def HasStream (s : ModuleLogger σ ρ) : Prop :=
  ∃ f, s.base.streamFunction = some f ∧ ∀ module level, (f module level).isSome

theorem log_writes (h : HasStream s) (cell : Nat) (module : Bytes) (level : Level) (message : Bytes)
    (ha : s.isActive module level = true) :
    Writes s (s.log cell module level message) (s.base.preProcess (some module) level message) := by
  obtain ⟨f, hf, hsome⟩ := h
  refine ⟨s.base.entry cell (some module) level message, ?_, rfl, ?_⟩
  · simp [log, ha, LogBase.log]
  · intro read
    obtain ⟨ostream, hostream⟩ := Option.isSome_iff_exists.1 (hsome read level)
    exact ⟨ostream, by simp [Entry.doLog, LogBase.entry, hf, hostream]⟩

theorem writes_iff (h : HasStream s) (macroName : LogMacro) (cell : Nat) (module : Bytes) (pack : List Bytes) :
    Writes s (s.statement macroName cell module pack) (s.base.preProcess (some module) macroName.level pack.flatten) ↔
      s.isActive module macroName.level = true := by
  rw [statement_eq]
  constructor
  · rintro ⟨entry, hcalled, -⟩
    by_contra hn
    simp [log, hn] at hcalled
  · exact log_writes h cell module macroName.level pack.flatten

/-- The macros pass the level they are named after, `LOG_W` apart, and only at the threshold
between the two levels does that matter. -/
theorem level_le_iff (macroName : LogMacro) (threshold : Level) :
    (threshold.toInt ≤ macroName.level.toInt ↔ threshold.toInt ≤ macroName.severity.toInt) ↔
      ¬ (macroName = .LOG_W ∧ threshold = .warning) := by
  cases macroName <;> cases threshold <;> decide

end ModuleLogger
end Zar
