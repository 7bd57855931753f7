import Mathlib.Logic.Function.Basic
import Zar.Logging.Logger
/-!
# The module logger

`tmodule_logger` with a threshold for each registered module, and the statements of
`log.hpp`. The string that names the module belongs to the caller, who can change it or let
it go; `log` binds `do_log` to a reference to it.
-/

namespace Zar

structure ModuleLogger (σ ρ : Type) where
  /-- The module an entry refers to is a string of the caller; the functions get what it then is,
  which is nothing once the string is gone. -/
  base : LogBase Nat (Option Bytes) σ ρ
  modules : Bytes → Option Level := fun _ => none
  /-- The strings of the callers. -/
  cells : List (Option Bytes) := []

/-- `LOG_T` to `LOG_F`. -/
inductive LogMacro where
  | LOG_T | LOG_D | LOG_I | LOG_W | LOG_E | LOG_F
  deriving DecidableEq, Repr

namespace LogMacro

/-- What the macro is called for. -/
def severity : LogMacro → Level
  | .LOG_T => .trace
  | .LOG_D => .debug
  | .LOG_I => .information
  | .LOG_W => .warning
  | .LOG_E => .error
  | .LOG_F => .fatal

/-- What it passes. -/
def level : LogMacro → Level
  | .LOG_T => .trace
  | .LOG_D => .debug
  | .LOG_I => .information
  | .LOG_W => .information
  | .LOG_E => .error
  | .LOG_F => .fatal

end LogMacro

def notRegistered (module : Bytes) : Thrown :=
  .texception .invalid_value (text "Logging module '" ++ module ++ text "' is not registered")

namespace ModuleLogger
variable {σ ρ : Type} {s s' : ModuleLogger σ ρ}

/-- `modules_.insert`, which leaves a module that is there. -/
def registerModule (s : ModuleLogger σ ρ) (module : Bytes) (thresholdLevel : Level) : ModuleLogger σ ρ :=
  match s.modules module with
  | none => { s with modules := Function.update s.modules module (some thresholdLevel) }
  | some _ => s

def isActive (s : ModuleLogger σ ρ) (module : Bytes) (level : Level) : Bool :=
  match s.modules module with
  | none => false
  | some threshold => level.toInt ≥ threshold.toInt

/-- `set_threshold_level(threshold_level)`. -/
def setThresholdLevel (s : ModuleLogger σ ρ) (level : Level) : ModuleLogger σ ρ :=
  { s with modules := fun module => (s.modules module).map fun _ => level }

/-- `set_threshold_level(module, threshold_level)`. -/
def setThresholdLevelOf (s : ModuleLogger σ ρ) (module : Bytes) (level : Level) : ModuleLogger σ ρ × Option Thrown :=
  match s.modules module with
  | none => (s, some (notRegistered module))
  | some _ => ({ s with modules := Function.update s.modules module (some level) }, none)

/-- What a reference to the string designates. -/
def read (s : ModuleLogger σ ρ) (cell : Nat) : Option Bytes := s.cells.getD cell none

/-- `log` with a string that holds `module`. -/
def log (s : ModuleLogger σ ρ) (cell : Nat) (module : Bytes) (level : Level) (message : Bytes) : ModuleLogger σ ρ :=
  if s.isActive module level then { s with base := s.base.log cell (some module) level message } else s

/-- `logging::module::log` as a macro calls it. -/
def statement (s : ModuleLogger σ ρ) (macroName : LogMacro) (cell : Nat) (module : Bytes) (pack : List Bytes) :
    ModuleLogger σ ρ :=
  if !s.isActive module macroName.level then s else s.log cell module macroName.level pack.flatten

inductive Event (σ ρ : Type) where
  | registerModule (module : Bytes) (thresholdLevel : Level)
  | setThresholdLevel (level : Level)
  | setThresholdLevelOf (module : Bytes) (level : Level)
  | setPreProcessFunction (f : Option (Option Bytes → Level → Bytes → Bytes))
  | setStreamFunction (f : Option (Option Bytes → Level → Option σ))
  | setPostProcessFunction (f : Option ρ)
  | setAsyncMode
  | setSyncMode
  /-- A caller makes a string, changes it, or lets it go. -/
  | string (value : Bytes)
  | change (cell : Nat) (value : Bytes)
  | letGo (cell : Nat)
  | log (cell : Nat) (level : Level) (message : Bytes)
  /-- The `io_service` runs an entry. -/
  | execute (i : Nat)

def step (s : ModuleLogger σ ρ) : Event σ ρ → Option (ModuleLogger σ ρ)
  | .registerModule module level => some (s.registerModule module level)
  | .setThresholdLevel level => some (s.setThresholdLevel level)
  | .setThresholdLevelOf module level => some (s.setThresholdLevelOf module level).1
  | .setPreProcessFunction f => some { s with base := { s.base with preProcessFunction := f } }
  | .setStreamFunction f => some { s with base := { s.base with streamFunction := f } }
  | .setPostProcessFunction f => some { s with base := { s.base with postProcessFunction := f } }
  | .setAsyncMode => some { s with base := s.base.setAsyncMode }
  | .setSyncMode => some { s with base := s.base.setSyncMode }
  | .string value => some { s with cells := s.cells ++ [some value] }
  | .change cell value =>
    match s.read cell with
    | none => none
    | some _ => some { s with cells := s.cells.set cell (some value) }
  | .letGo cell =>
    match s.read cell with
    | none => none
    | some _ => some { s with cells := s.cells.set cell none }
  | .log cell level message => (s.read cell).map fun module => s.log cell module level message
  | .execute i => (s.base.execute s.read i).map fun base => { s with base := base }

/-- A logger with this stream function. -/
def init (streamFunction : Option (Option Bytes → Level → Option σ)) : ModuleLogger σ ρ :=
  { base := { streamFunction := streamFunction } }

def system (start : ModuleLogger σ ρ) : System (ModuleLogger σ ρ) (Event σ ρ) := ⟨start, step⟩

/-- What an event does to the dispatcher. -/
def action (s : ModuleLogger σ ρ) : Event σ ρ → Option (DispatchEvent (Entry Nat (Option Bytes) σ ρ))
  | .setAsyncMode => some .newQueue
  | .setSyncMode => some .noQueue
  | .log cell level message =>
    match s.read cell with
    | none => none
    | some module =>
      if s.isActive module level then some (.dispatch (s.base.entry cell (some module) level message)) else none
  | .execute i => some (.run i)
  | _ => none

/-- What each event finds, and leaves. -/
inductive Stepped (s : ModuleLogger σ ρ) : Event σ ρ → ModuleLogger σ ρ → Prop
  | registered {module : Bytes} (level : Level) (hm : s.modules module = none) :
      Stepped s (.registerModule module level) { s with modules := Function.update s.modules module (some level) }
  | known {module : Bytes} {old : Level} (level : Level) (hm : s.modules module = some old) :
      Stepped s (.registerModule module level) s
  | setThresholdLevel (level : Level) : Stepped s (.setThresholdLevel level) (s.setThresholdLevel level)
  | set {module : Bytes} {old : Level} (level : Level) (hm : s.modules module = some old) :
      Stepped s (.setThresholdLevelOf module level) { s with modules := Function.update s.modules module (some level) }
  | threw {module : Bytes} (level : Level) (hm : s.modules module = none) : Stepped s (.setThresholdLevelOf module level) s
  | setPreProcessFunction (f : Option (Option Bytes → Level → Bytes → Bytes)) :
      Stepped s (.setPreProcessFunction f) { s with base := { s.base with preProcessFunction := f } }
  | setStreamFunction (f : Option (Option Bytes → Level → Option σ)) :
      Stepped s (.setStreamFunction f) { s with base := { s.base with streamFunction := f } }
  | setPostProcessFunction (f : Option ρ) :
      Stepped s (.setPostProcessFunction f) { s with base := { s.base with postProcessFunction := f } }
  | setAsyncMode : Stepped s .setAsyncMode { s with base := s.base.setAsyncMode }
  | setSyncMode : Stepped s .setSyncMode { s with base := s.base.setSyncMode }
  | string (value : Bytes) : Stepped s (.string value) { s with cells := s.cells ++ [some value] }
  | change {cell : Nat} {old : Bytes} (value : Bytes) (hread : s.read cell = some old) :
      Stepped s (.change cell value) { s with cells := s.cells.set cell (some value) }
  | letGo {cell : Nat} {old : Bytes} (hread : s.read cell = some old) :
      Stepped s (.letGo cell) { s with cells := s.cells.set cell none }
  | active {cell : Nat} {module : Bytes} {level : Level} (message : Bytes) (hread : s.read cell = some module)
      (ha : s.isActive module level = true) :
      Stepped s (.log cell level message) { s with base := s.base.log cell (some module) level message }
  | inactive {cell : Nat} {module : Bytes} {level : Level} (message : Bytes) (hread : s.read cell = some module)
      (ha : s.isActive module level = false) : Stepped s (.log cell level message) s
  | execute {i : Nat} {base : LogBase Nat (Option Bytes) σ ρ} (hb : s.base.execute s.read i = some base) :
      Stepped s (.execute i) { s with base := base }

theorem step_cases {e : Event σ ρ} (hs : s.step e = some s') : Stepped s e s' := by
  cases e with
  | registerModule module level =>
    cases hs
    unfold registerModule
    split
    · rename_i hm
      exact .registered level hm
    · rename_i hm
      exact .known level hm
  | setThresholdLevel level =>
    cases hs
    exact .setThresholdLevel level
  | setThresholdLevelOf module level =>
    cases hs
    unfold setThresholdLevelOf
    split
    · rename_i hm
      exact .threw level hm
    · rename_i hm
      exact .set level hm
  | setPreProcessFunction f =>
    cases hs
    exact .setPreProcessFunction f
  | setStreamFunction f =>
    cases hs
    exact .setStreamFunction f
  | setPostProcessFunction f =>
    cases hs
    exact .setPostProcessFunction f
  | setAsyncMode =>
    cases hs
    exact .setAsyncMode
  | setSyncMode =>
    cases hs
    exact .setSyncMode
  | string value =>
    cases hs
    exact .string value
  | change cell value =>
    simp only [step] at hs
    split at hs
    · cases hs
    · rename_i hread
      cases hs
      exact .change value hread
  | letGo cell =>
    simp only [step] at hs
    split at hs
    · cases hs
    · rename_i hread
      cases hs
      exact .letGo hread
  | log cell level message =>
    obtain ⟨module, hread, rfl⟩ := Option.map_eq_some_iff.1 hs
    unfold log
    split
    · rename_i ha
      exact .active message hread ha
    · rename_i ha
      exact .inactive message hread (by simpa using ha)
  | execute i =>
    obtain ⟨base, hb, rfl⟩ := Option.map_eq_some_iff.1 hs
    exact .execute hb

theorem step_moved {e : Event σ ρ} (hs : s.step e = some s') : s.base.Moved s.read (s.action e) s'.base := by
  cases step_cases hs with
  | setAsyncMode => exact .setAsyncMode
  | setSyncMode => exact .setSyncMode
  | active message hread ha =>
    simp only [action, hread, ha, if_true]
    exact .log _ _ _ message
  | inactive message hread ha =>
    simp only [action, hread, ha, Bool.false_eq_true, if_false]
    exact .other rfl rfl
  | execute hb => exact .execute hb
  | _ => exact .other rfl rfl

def Event.setsStream : Event σ ρ → Bool
  | .setStreamFunction _ => true
  | _ => false

def KeepsStream (_ : ModuleLogger σ ρ) (e : Event σ ρ) : Prop := e.setsStream = false

instance (s : ModuleLogger σ ρ) (e : Event σ ρ) : Decidable (KeepsStream s e) := inferInstanceAs (Decidable (_ = false))

theorem step_streamFunction {e : Event σ ρ} (hk : KeepsStream s e) (hs : s.step e = some s') :
    s'.base.streamFunction = s.base.streamFunction := by
  cases step_cases hs with
  | setStreamFunction f => cases hk
  | execute hb =>
    obtain ⟨w, dispatch, -, rfl⟩ := LogBase.execute_some hb
    rfl
  | _ => rfl

def dispatcher (start : ModuleLogger σ ρ) (hsound : start.base.dispatch.Sound) (horderly : start.base.dispatch.Orderly) :
    Dispatcher (system start) (Entry Nat (Option Bytes) σ ρ) where
  get s := s.base.dispatch
  action := action
  execute := .execute
  init_sound := hsound
  init_orderly := horderly
  step_none hs ha := (ha ▸ step_moved hs).none.1
  step_some hs ha := (ha ▸ step_moved hs).some
  action_execute _ _ := rfl
  runs {s _ _} h := by
    obtain ⟨base, hb⟩ := LogBase.exists_execute s.read h
    exact ⟨_, Option.map_eq_some_iff.2 ⟨base, hb, rfl⟩⟩

/-- Both tests of a statement are the same one. -/
theorem statement_eq (s : ModuleLogger σ ρ) (macroName : LogMacro) (cell : Nat) (module : Bytes) (pack : List Bytes) :
    s.statement macroName cell module pack = s.log cell module macroName.level pack.flatten := by
  unfold statement log
  cases s.isActive module macroName.level <;> rfl

end ModuleLogger

end Zar
