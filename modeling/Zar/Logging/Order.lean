import Zar.Logging.ModuleLogger
/-!
# The order of the texts

A switch of the mode leaves what waits where it is. The texts behind it are written at once
or wait on another strand, and then nothing orders them against those that wait.
-/

namespace Zar

variable {κ μ σ ρ τ ε : Type} {b b' : LogBase κ μ σ ρ} {ostream : σ}

/-! ## What reaches the stream -/

theorem Entry.doLog_written {entry : Entry κ μ σ ρ} (h : entry.streamFunction = some fun _ _ => some ostream) (module : μ) :
    (entry.doLog module).filterMap Effect.written = [(ostream, entry.message)] := by
  unfold doLog
  rw [h]
  cases entry.postProcessFunction <;> rfl

namespace LogBase

/-- All texts go to one stream, which has those whose entries ran. -/
structure ToStream (ostream : σ) (b : LogBase κ μ σ ρ) : Prop where
  streamFunction : b.streamFunction = some fun _ _ => some ostream
  pending : ∀ w ∈ b.dispatch.pending, w.task.streamFunction = some fun _ _ => some ostream
  written : b.written = b.dispatch.done.map fun t => (ostream, t.task.message)

theorem ToStream.log (h : ToStream ostream b) (kept : κ) (module : μ) (level : Level) (message : Bytes) :
    ToStream ostream (b.log kept module level message) := by
  have hentry : (b.entry kept module level message).streamFunction = some fun _ _ => some ostream := h.streamFunction
  have hwritten : b.effects.filterMap Effect.written = b.dispatch.done.map fun t => (ostream, t.task.message) := h.written
  refine ⟨h.streamFunction, ?_, ?_⟩
  · intro w hw
    simp only [LogBase.log, Dispatch.dispatch] at hw
    split at hw
    · rcases List.mem_append.1 hw with hw | hw
      · exact h.pending w hw
      · rw [List.mem_singleton.1 hw]
        exact hentry
    · exact h.pending w hw
  · cases hq : b.dispatch.queue with
    | some queue => simp [LogBase.log, LogBase.written, Dispatch.dispatch, hq, hwritten]
    | none =>
      simp only [LogBase.log, LogBase.written, Dispatch.dispatch, hq, Option.isSome_none, Bool.false_eq_true, if_false,
        List.filterMap_append, List.map_append, List.map_singleton, hwritten, Entry.doLog_written hentry]

theorem ToStream.execute {read : κ → μ} {i : Nat} (h : ToStream ostream b) (hb : b.execute read i = some b') :
    ToStream ostream b' := by
  obtain ⟨w, dispatch, hr, rfl⟩ := execute_some hb
  obtain ⟨before, behind, hp, -, -, rfl⟩ := Dispatch.run_cases hr
  have hpending := h.pending
  rw [hp] at hpending
  have hwritten : b.effects.filterMap Effect.written = b.dispatch.done.map fun t => (ostream, t.task.message) := h.written
  refine ⟨h.streamFunction, ?_, ?_⟩
  · intro v hv
    apply hpending v
    rcases List.mem_append.1 hv with hv | hv
    · exact List.mem_append_left _ hv
    · exact List.mem_append_right _ (List.mem_cons_of_mem w hv)
  · simp only [LogBase.written, List.filterMap_append, List.map_append, List.map_singleton, hwritten,
      Entry.doLog_written (hpending w (by simp))]

theorem ToStream.moved {read : κ → μ} {a : Option (DispatchEvent (Entry κ μ σ ρ))} (h : ToStream ostream b)
    (hm : b.Moved read a b') (hk : b'.streamFunction = b.streamFunction) : ToStream ostream b' := by
  cases hm with
  | other hd he => exact ⟨hk.trans h.streamFunction, by rw [hd]; exact h.pending, by rw [LogBase.written, he, hd]; exact h.written⟩
  | setAsyncMode => exact ⟨h.streamFunction, h.pending, h.written⟩
  | setSyncMode => exact ⟨h.streamFunction, h.pending, h.written⟩
  | log kept module level message => exact h.log kept module level message
  | execute hb => exact h.execute hb

/-- The stream has texts of active messages, none twice, and all of them once no entry waits; where
the entries ran in the order of the calls, the texts are in that order. -/
structure Delivered (ostream : σ) (b : LogBase κ μ σ ρ) : Prop where
  written : b.written = b.dispatch.done.map fun t => (ostream, t.task.message)
  fromCalls : ∀ t ∈ b.dispatch.done, t ∈ Dispatch.tickets b.dispatch.called
  once : (b.dispatch.done.map (·.number)).Nodup
  all : b.dispatch.pending = [] → b.dispatch.done.Perm (Dispatch.tickets b.dispatch.called)
  inOrder : b.dispatch.pending = [] → b.dispatch.InOrder →
    b.written = b.dispatch.called.map fun entry => (ostream, entry.message)

theorem ToStream.delivered (h : ToStream ostream b) (hsound : b.dispatch.Sound) : Delivered ostream b where
  written := h.written
  fromCalls _ ht := hsound.accounted.mem_iff.1 (List.mem_append_right _ ht)
  once := hsound.nodup
  all := hsound.all
  inOrder hp ho := by
    have hdone := hsound.exact hp ho
    have htasks := Dispatch.tickets_task b.dispatch.called
    rw [← hdone] at htasks
    rw [h.written, ← htasks, List.map_map]
    rfl

end LogBase

/-! ## The order -/

/-- All along the run, and whatever of the waiting entries the `io_service` runs next, `do_log` runs
in the order of the calls of `log`. -/
def KeepsOrder (S : System τ ε) (base : τ → LogBase κ μ σ ρ) (execute : Nat → ε) (es : List ε) : Prop :=
  ∀ es' s, es' <+: es → S.Run es' s → ∀ ex t, S.Steps (fun _ e => ∃ i, e = execute i) s ex t → (base t).dispatch.InOrder

namespace Logger

/-- A logger whose stream function gives one stream for all messages. -/
def writing (ostream : σ) : System (Logger σ ρ) (Event σ ρ) := system (some fun _ => some ostream)

/-- An active message finds no entry that waits, other than on the strand in use. -/
def FindsNoOther (s : Logger σ ρ) (e : Event σ ρ) : Prop :=
  ∀ level message, e = .log level message → s.isActive level = true → s.base.dispatch.Fits

theorem fits_iff (f : Option (Level → Option σ)) (s : Logger σ ρ) (e : Event σ ρ) :
    (dispatcher f).Fits s e ↔ FindsNoOther s e := by
  constructor
  · rintro h level message rfl ha
    exact h (s.base.entry () () level message) (by simp [dispatcher, action, ha])
  · intro h task ha
    cases e with
    | log level message =>
      have hactive : s.isActive level = true := by
        by_contra hn
        simp [dispatcher, action, hn] at ha
      exact h level message rfl hactive
    | _ => simp [dispatcher, action] at ha

end Logger

namespace ModuleLogger

/-- A logger whose stream function gives one stream for all messages. -/
def writing (ostream : σ) : System (ModuleLogger σ ρ) (Event σ ρ) := system (.init (some fun _ _ => some ostream))

/-- An active message finds no entry that waits, other than on the strand in use. -/
def FindsNoOther (s : ModuleLogger σ ρ) (e : Event σ ρ) : Prop :=
  ∀ cell level message module, e = .log cell level message → s.read cell = some module →
    s.isActive module level = true → s.base.dispatch.Fits

theorem fits_iff {start : ModuleLogger σ ρ} (hsound : start.base.dispatch.Sound) (horderly : start.base.dispatch.Orderly)
    (s : ModuleLogger σ ρ) (e : Event σ ρ) : (dispatcher start hsound horderly).Fits s e ↔ FindsNoOther s e := by
  constructor
  · rintro h cell level message module rfl hread ha
    exact h (s.base.entry cell (some module) level message) (by simp [dispatcher, action, hread, ha])
  · intro h task ha
    cases e with
    | log cell level message =>
      cases hread : s.read cell with
      | none => simp [dispatcher, action, hread] at ha
      | some module =>
        have hactive : s.isActive module level = true := by
          by_contra hn
          simp [dispatcher, action, hread, hn] at ha
        exact h cell level message module rfl hread hactive
    | _ => simp [dispatcher, action] at ha

end ModuleLogger

/-- Of both loggers: whatever the switches of the mode and whenever the entries run, the stream has
the text of each active message once in the end. The texts are in the order of the calls, also whatever
runs next, exactly if no active message of the run finds an entry that waits on another strand than the
one in use. -/
theorem delivered_in_order_iff (ostream : σ) :
    (∀ es (s : Logger σ ρ), (Logger.writing ostream).RunIf Logger.KeepsStream es s →
      LogBase.Delivered ostream s.base ∧
      (KeepsOrder (Logger.writing ostream) (·.base : Logger σ ρ → _) .execute es ↔
        (Logger.writing ostream).RunIf Logger.FindsNoOther es s)) ∧
    (∀ es (s : ModuleLogger σ ρ), (ModuleLogger.writing ostream).RunIf ModuleLogger.KeepsStream es s →
      LogBase.Delivered ostream s.base ∧
      (KeepsOrder (ModuleLogger.writing ostream) (·.base : ModuleLogger σ ρ → _) .execute es ↔
        (ModuleLogger.writing ostream).RunIf ModuleLogger.FindsNoOther es s)) := by
  constructor
  · intro es s h
    have hstream : s.base.ToStream ostream := by
      apply h.inv (·.base.ToStream ostream) ⟨rfl, by simp [Logger.writing, Logger.system, Logger.init], rfl⟩
      exact fun s e s' hi hk hs => hi.moved (Logger.step_moved hs) (Logger.step_streamFunction hk hs)
    have hfits : (Logger.dispatcher (some fun _ => some ostream)).Fits = Logger.FindsNoOther (σ := σ) (ρ := ρ) := by
      funext s e
      exact propext (Logger.fits_iff _ s e)
    refine ⟨hstream.delivered ((Logger.dispatcher _).sound h.run), ?_⟩
    rw [← hfits]
    exact (Logger.dispatcher _).order_iff h.run
  · intro es s h
    have hstream : s.base.ToStream ostream := by
      apply h.inv (·.base.ToStream ostream) ⟨rfl, by simp [ModuleLogger.writing, ModuleLogger.system, ModuleLogger.init], rfl⟩
      exact fun s e s' hi hk hs => hi.moved (ModuleLogger.step_moved hs) (ModuleLogger.step_streamFunction hk hs)
    have hfits : (ModuleLogger.dispatcher (.init (some fun _ _ => some ostream)) .init .init).Fits =
        ModuleLogger.FindsNoOther (σ := σ) (ρ := ρ) := by
      funext s e
      exact propext (ModuleLogger.fits_iff _ _ s e)
    refine ⟨hstream.delivered ((ModuleLogger.dispatcher _ .init .init).sound h.run), ?_⟩
    rw [← hfits]
    exact (ModuleLogger.dispatcher _ .init .init).order_iff h.run

/-- A message of each logger that is written through a strand. -/
theorem delivered_in_order_iff_posted :
    (∃ es s, (Logger.writing (ρ := Unit) ()).RunIf Logger.KeepsStream es s ∧ LogBase.Delivered () s.base ∧
      (KeepsOrder (Logger.writing ()) (·.base : Logger Unit Unit → _) .execute es ↔
        (Logger.writing ()).RunIf Logger.FindsNoOther es s) ∧ s.base.written = [((), [97])]) ∧
    ∃ es s, (ModuleLogger.writing (ρ := Unit) ()).RunIf ModuleLogger.KeepsStream es s ∧ LogBase.Delivered () s.base ∧
      (KeepsOrder (ModuleLogger.writing ()) (·.base : ModuleLogger Unit Unit → _) .execute es ↔
        (ModuleLogger.writing ()).RunIf ModuleLogger.FindsNoOther es s) ∧ s.base.written = [((), [97])] := by
  have hexec : (Logger.writing (ρ := Unit) ()).exec Logger.KeepsStream (Logger.writing ()).init
      [.setAsyncMode, .log .trace [97], .execute 0] = some _ := rfl
  have hexec' : (ModuleLogger.writing (ρ := Unit) ()).exec ModuleLogger.KeepsStream (ModuleLogger.writing ()).init
      [.registerModule [109] .trace, .string [109], .setAsyncMode, .log 0 .trace [97], .execute 0] = some _ := rfl
  have hrun := System.Steps.of_exec hexec
  have hrun' := System.Steps.of_exec hexec'
  have h := (delivered_in_order_iff ()).1 _ _ hrun
  have h' := (delivered_in_order_iff ()).2 _ _ hrun'
  exact ⟨⟨_, _, hrun, h.1, h.2, rfl⟩, ⟨_, _, hrun', h'.1, h'.2, rfl⟩⟩

/-- One text waits on the strand while the mode is switched back, and the other is written before it. -/
theorem switch_reorders :
    ∃ s, (Logger.writing (ρ := Unit) ()).Run
        [.setAsyncMode, .log .trace [97], .setSyncMode, .log .trace [98], .execute 0] s ∧
      s.base.dispatch.pending = [] ∧ s.base.dispatch.called.map (·.message) = [[97], [98]] ∧
      s.base.written = [((), [98]), ((), [97])] := by
  have hexec : (Logger.writing (ρ := Unit) ()).exec (fun _ _ => True) (Logger.writing ()).init
      [.setAsyncMode, .log .trace [97], .setSyncMode, .log .trace [98], .execute 0] = some _ := rfl
  exact ⟨_, System.Steps.of_exec hexec, rfl, rfl, rfl⟩

end Zar
