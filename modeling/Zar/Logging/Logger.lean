import Zar.Enumerate
import Zar.Lib.Dispatch
/-!
# The loggers

`tlogger` and `tmodule_logger` have the same code but for what decides whether a level is
active and for the module that the latter passes along. The shared part is `LogBase`. A
strand of the `io_service` is a queue of a dispatcher, and to destroy a strand neither runs
nor drops what was posted through it.
-/

namespace Zar

/-- `tlevel`. -/
inductive Level where
  | trace | debug | information | warning | error | fatal
  deriving DecidableEq, Repr

namespace Level

/-- `static_cast<int>`. -/
def toInt : Level → Int
  | .trace => 0
  | .debug => 1
  | .information => 2
  | .warning => 3
  | .error => 4
  | .fatal => 5

def enumList : EnumList Level where
  list := [(.trace, text "trace"), (.debug, text "debug"), (.information, text "information"),
    (.warning, text "warning"), (.error, text "error"), (.fatal, text "fatal")]
  unsigned level := level.toInt.toNat.toUInt32
  nodup := by decide
  nulFree := by decide

/-- `basic_stream_function`. -/
def basicStreamFunction {σ : Type} (cout cerr : σ) : Level → σ
  | .trace | .debug | .information | .warning => cout
  | .error | .fatal => cerr

end Level

/-- What a log shows: a call of the stream function, a text written to the stream it chose, and a
call of the post-process function. `μ` is what the functions get as the module. -/
inductive Effect (μ σ ρ : Type) where
  | streamFunction (module : μ) (level : Level)
  | write (stream : σ) (message : Bytes)
  | postProcessFunction (function : ρ) (module : μ)
  deriving DecidableEq, Repr

def Effect.written {μ σ ρ : Type} : Effect μ σ ρ → Option (σ × Bytes)
  | .write stream message => some (stream, message)
  | _ => none

/-- What `do_log` is bound to. `κ` is what is kept of the module. -/
structure Entry (κ μ σ ρ : Type) where
  module : κ
  level : Level
  message : Bytes
  streamFunction : Option (μ → Level → Option σ)
  postProcessFunction : Option ρ
  /-- The history: what the module was when `log` was called. -/
  logged : μ

/-- `do_log`, with what it reads as the module. -/
def Entry.doLog {κ μ σ ρ : Type} (entry : Entry κ μ σ ρ) (module : μ) : List (Effect μ σ ρ) :=
  match entry.streamFunction with
  | none => []
  | some streamFunction =>
    .streamFunction module entry.level ::
      match streamFunction module entry.level with
      | none => []
      | some ostream =>
        .write ostream entry.message :: entry.postProcessFunction.toList.map (.postProcessFunction · module)

structure LogBase (κ μ σ ρ : Type) where
  preProcessFunction : Option (μ → Level → Bytes → Bytes) := none
  streamFunction : Option (μ → Level → Option σ) := none
  postProcessFunction : Option ρ := none
  /-- `strand_` as the queue in use, and the entries posted through this and earlier strands. -/
  dispatch : Dispatch (Entry κ μ σ ρ) := {}
  effects : List (Effect μ σ ρ) := []

namespace LogBase
variable {κ μ σ ρ : Type} {b b' : LogBase κ μ σ ρ}

def setSyncMode (b : LogBase κ μ σ ρ) : LogBase κ μ σ ρ := { b with dispatch := b.dispatch.noQueue }

def setAsyncMode (b : LogBase κ μ σ ρ) : LogBase κ μ σ ρ :=
  let b := b.setSyncMode
  { b with dispatch := b.dispatch.newQueue }

/-- The message behind the pre-process function. -/
def preProcess (b : LogBase κ μ σ ρ) (module : μ) (level : Level) (message : Bytes) : Bytes :=
  match b.preProcessFunction with
  | some f => f module level message
  | none => message

/-- The entry of a call of `log` with a module that is kept as `kept`. -/
def entry (b : LogBase κ μ σ ρ) (kept : κ) (module : μ) (level : Level) (message : Bytes) : Entry κ μ σ ρ :=
  ⟨kept, level, b.preProcess module level message, b.streamFunction, b.postProcessFunction, module⟩

/-- `log` of a level that is active: the entry is posted, or `do_log` runs at once. -/
def log (b : LogBase κ μ σ ρ) (kept : κ) (module : μ) (level : Level) (message : Bytes) : LogBase κ μ σ ρ :=
  let entry := b.entry kept module level message
  { b with
    dispatch := b.dispatch.dispatch entry
    effects := if b.dispatch.queue.isSome then b.effects else b.effects ++ entry.doLog module }

/-- The `io_service` runs an entry; `read` is what the kept module is by then. -/
def execute (b : LogBase κ μ σ ρ) (read : κ → μ) (i : Nat) : Option (LogBase κ μ σ ρ) :=
  (b.dispatch.run i).map fun (w, dispatch) =>
    { b with dispatch := dispatch, effects := b.effects ++ w.task.doLog (read w.task.module) }

theorem execute_some {read : κ → μ} {i : Nat} (h : b.execute read i = some b') :
    ∃ w dispatch, b.dispatch.run i = some (w, dispatch) ∧
      b' = { b with dispatch := dispatch, effects := b.effects ++ w.task.doLog (read w.task.module) } := by
  obtain ⟨⟨w, dispatch⟩, hr, rfl⟩ := Option.map_eq_some_iff.1 h
  exact ⟨w, dispatch, hr, rfl⟩

/-- What an event does to the base, and with it to the dispatcher. -/
inductive Moved (read : κ → μ) (b : LogBase κ μ σ ρ) : Option (DispatchEvent (Entry κ μ σ ρ)) → LogBase κ μ σ ρ → Prop
  | other {b' : LogBase κ μ σ ρ} (hd : b'.dispatch = b.dispatch) (he : b'.effects = b.effects) : Moved read b none b'
  | setAsyncMode : Moved read b (some .newQueue) b.setAsyncMode
  | setSyncMode : Moved read b (some .noQueue) b.setSyncMode
  | log (kept : κ) (module : μ) (level : Level) (message : Bytes) :
      Moved read b (some (.dispatch (b.entry kept module level message))) (b.log kept module level message)
  | execute {i : Nat} {b' : LogBase κ μ σ ρ} (h : b.execute read i = some b') : Moved read b (some (.run i)) b'

theorem Moved.none {read : κ → μ} (h : Moved read b none b') : b'.dispatch = b.dispatch ∧ b'.effects = b.effects := by
  cases h with
  | other hd he => exact ⟨hd, he⟩

theorem Moved.some {read : κ → μ} {a : DispatchEvent (Entry κ μ σ ρ)} (h : Moved read b (some a) b') :
    b.dispatch.step a = some b'.dispatch := by
  cases h with
  | setAsyncMode => rfl
  | setSyncMode => rfl
  | log => rfl
  | execute h =>
    obtain ⟨w, dispatch, hr, rfl⟩ := execute_some h
    simp [Dispatch.step, hr]

theorem exists_execute (read : κ → μ) {i : Nat} {d : Dispatch (Entry κ μ σ ρ)} (h : b.dispatch.step (.run i) = some d) :
    ∃ b', b.execute read i = some b' := by
  obtain ⟨⟨w, dispatch⟩, hr, -⟩ := Option.map_eq_some_iff.1 h
  exact ⟨_, Option.map_eq_some_iff.2 ⟨_, hr, rfl⟩⟩

/-- The texts and the streams they were written to. -/
def written (b : LogBase κ μ σ ρ) : List (σ × Bytes) := b.effects.filterMap Effect.written

end LogBase

/-! ## The basic logger -/

structure Logger (σ ρ : Type) where
  base : LogBase Unit Unit σ ρ
  thresholdLevel : Level := .trace

namespace Logger
variable {σ ρ : Type}

def isActive (s : Logger σ ρ) (level : Level) : Bool := level.toInt ≥ s.thresholdLevel.toInt

def log (s : Logger σ ρ) (level : Level) (message : Bytes) : Logger σ ρ :=
  if s.isActive level then { s with base := s.base.log () () level message } else s

inductive Event (σ ρ : Type) where
  | setThresholdLevel (level : Level)
  | setPreProcessFunction (f : Option (Level → Bytes → Bytes))
  | setStreamFunction (f : Option (Level → Option σ))
  | setPostProcessFunction (f : Option ρ)
  | setAsyncMode
  | setSyncMode
  | log (level : Level) (message : Bytes)
  /-- The `io_service` runs an entry. -/
  | execute (i : Nat)

def step (s : Logger σ ρ) : Event σ ρ → Option (Logger σ ρ)
  | .setThresholdLevel level => some { s with thresholdLevel := level }
  | .setPreProcessFunction f => some { s with base := { s.base with preProcessFunction := f.map fun f _ => f } }
  | .setStreamFunction f => some { s with base := { s.base with streamFunction := f.map fun f _ => f } }
  | .setPostProcessFunction f => some { s with base := { s.base with postProcessFunction := f } }
  | .setAsyncMode => some { s with base := s.base.setAsyncMode }
  | .setSyncMode => some { s with base := s.base.setSyncMode }
  | .log level message => some (s.log level message)
  | .execute i => (s.base.execute id i).map fun base => { s with base := base }

/-- A logger with this stream function. -/
def init (streamFunction : Option (Level → Option σ)) : Logger σ ρ :=
  { base := { streamFunction := streamFunction.map fun f _ => f } }

def system (streamFunction : Option (Level → Option σ)) : System (Logger σ ρ) (Event σ ρ) := ⟨init streamFunction, step⟩

/-- What an event does to the dispatcher. -/
def action (s : Logger σ ρ) : Event σ ρ → Option (DispatchEvent (Entry Unit Unit σ ρ))
  | .setAsyncMode => some .newQueue
  | .setSyncMode => some .noQueue
  | .log level message => if s.isActive level then some (.dispatch (s.base.entry () () level message)) else none
  | .execute i => some (.run i)
  | _ => none

theorem step_moved {s s' : Logger σ ρ} {e : Event σ ρ} (hs : s.step e = some s') :
    s.base.Moved id (s.action e) s'.base := by
  cases e with
  | setAsyncMode =>
    cases hs
    exact .setAsyncMode
  | setSyncMode =>
    cases hs
    exact .setSyncMode
  | log level message =>
    cases hs
    unfold action log
    dsimp only
    split
    · exact .log () () level message
    · exact .other rfl rfl
  | execute i =>
    obtain ⟨base, hb, rfl⟩ := Option.map_eq_some_iff.1 hs
    exact .execute hb
  | _ =>
    cases hs
    exact .other rfl rfl

def Event.setsStream : Event σ ρ → Bool
  | .setStreamFunction _ => true
  | _ => false

def KeepsStream (_ : Logger σ ρ) (e : Event σ ρ) : Prop := e.setsStream = false

instance (s : Logger σ ρ) (e : Event σ ρ) : Decidable (KeepsStream s e) := inferInstanceAs (Decidable (_ = false))

theorem step_streamFunction {s s' : Logger σ ρ} {e : Event σ ρ} (hk : KeepsStream s e) (hs : s.step e = some s') :
    s'.base.streamFunction = s.base.streamFunction := by
  cases e with
  | setStreamFunction => cases hk
  | log level message =>
    cases hs
    unfold log
    split <;> rfl
  | execute i =>
    obtain ⟨base, hb, rfl⟩ := Option.map_eq_some_iff.1 hs
    obtain ⟨w, dispatch, -, rfl⟩ := LogBase.execute_some hb
    rfl
  | _ =>
    cases hs
    rfl

def dispatcher (streamFunction : Option (Level → Option σ)) :
    Dispatcher (system streamFunction : System (Logger σ ρ) (Event σ ρ)) (Entry Unit Unit σ ρ) where
  get s := s.base.dispatch
  action := action
  execute := .execute
  init_sound := .init
  init_orderly := .init
  step_none hs ha := (ha ▸ step_moved hs).none.1
  step_some hs ha := (ha ▸ step_moved hs).some
  action_execute _ _ := rfl
  runs h := by
    obtain ⟨base, hb⟩ := LogBase.exists_execute id h
    exact ⟨_, Option.map_eq_some_iff.2 ⟨base, hb, rfl⟩⟩

end Logger

end Zar
