import Zar.Lib.Marked
import Zar.Logging.ModuleLogger
/-!
# Asynchronous and synchronous logging

An entry keeps the level, the message and the functions by value, and of the module a
reference. What the entry shows when it runs is what the synchronous logger shows in `log`,
if the string of the caller still is what it was.
-/

namespace Zar

variable {κ μ σ ρ : Type}

/-! ## The effects of an entry -/

/-- A call of the stream function, which begins the effects of an entry. -/
def Effect.Asks (e : Effect μ σ ρ) : Prop := ∃ module level, e = .streamFunction module level

theorem Entry.doLog_piece {entry : Entry κ μ σ ρ} (h : entry.streamFunction ≠ none) (module : μ) :
    Piece Effect.Asks (entry.doLog module) := by
  obtain ⟨f, hf⟩ := Option.ne_none_iff_exists'.1 h
  unfold doLog
  rw [hf]
  refine ⟨_, _, rfl, ⟨module, entry.level, rfl⟩, ?_⟩
  rintro c hc ⟨m, level, rfl⟩
  split at hc
  · exact List.not_mem_nil hc
  · simp at hc

theorem Entry.doLog_pieces (entry : Entry κ μ σ ρ) (a b : μ) :
    entry.doLog a = [] ∧ entry.doLog b = [] ∨ Piece Effect.Asks (entry.doLog a) ∧ Piece Effect.Asks (entry.doLog b) := by
  cases h : entry.streamFunction with
  | none => exact .inl ⟨by simp [doLog, h], by simp [doLog, h]⟩
  | some f =>
    have hne : entry.streamFunction ≠ none := by simp [h]
    exact .inr ⟨doLog_piece hne a, doLog_piece hne b⟩

/-- The effects tell what the module was read as, unless there is no stream function to tell. -/
theorem Entry.doLog_inj {entry : Entry κ μ σ ρ} {a b : μ} :
    entry.doLog a = entry.doLog b ↔ entry.streamFunction = none ∨ a = b := by
  cases h : entry.streamFunction with
  | none => simp [doLog, h]
  | some f =>
    constructor
    · intro heq
      simp only [doLog, h] at heq
      obtain ⟨hask, -⟩ := List.cons.inj heq
      exact .inr (Effect.streamFunction.inj hask).1
    · rintro (h | rfl)
      · cases h
      · rfl

namespace ModuleLogger

variable {f : Option (Option Bytes → Level → Option σ)} {s s' : ModuleLogger σ ρ} {e : Event σ ρ} {es : List (Event σ ρ)}

/-! ## The two modes -/

/-- A new logger that was switched to asynchronous mode. -/
def asynchronous (f : Option (Option Bytes → Level → Option σ)) : ModuleLogger σ ρ :=
  let s : ModuleLogger σ ρ := init f
  { s with base := s.base.setAsyncMode }

def Event.switches : Event σ ρ → Bool
  | .setAsyncMode | .setSyncMode => true
  | _ => false

def Event.isExecute : Event σ ρ → Bool
  | .execute _ => true
  | _ => false

/-- The mode stays as it is. -/
def NoSwitch (_ : ModuleLogger σ ρ) (e : Event σ ρ) : Prop := e.switches = false

instance (s : ModuleLogger σ ρ) (e : Event σ ρ) : Decidable (NoSwitch s e) := inferInstanceAs (Decidable (_ = false))

/-- The entry that runs has no stream function, or finds the string of its module alive and as it was
when `log` was called. -/
def Intact (s : ModuleLogger σ ρ) (e : Event σ ρ) : Prop :=
  ∀ i w d, e = .execute i → s.base.dispatch.run i = some (w, d) →
    w.task.streamFunction = none ∨ s.read w.task.module = w.task.logged

/-! ## The asynchronous logger -/

/-- All entries wait on the one strand. -/
structure OneStrand (s : ModuleLogger σ ρ) : Prop where
  queue : s.base.dispatch.queue = some 0
  fits : s.base.dispatch.Fits

theorem OneStrand.step (h : OneStrand s) (hn : NoSwitch s e) (hs : s.step e = some s') : OneStrand s' := by
  have hsome : s.base.dispatch.queue.isSome := by simp [h.queue]
  cases step_cases hs with
  | setAsyncMode => cases hn
  | setSyncMode => cases hn
  | active message hread ha =>
    refine ⟨?_, Dispatch.fits_dispatch h.fits hsome _⟩
    simp [LogBase.log, h.queue]
  | execute hb =>
    obtain ⟨w, dispatch, hr, rfl⟩ := LogBase.execute_some hb
    refine ⟨?_, Dispatch.fits_run h.fits hr⟩
    obtain ⟨before, behind, -, -, -, rfl⟩ := Dispatch.run_cases hr
    exact h.queue
  | _ => exact ⟨h.queue, h.fits⟩

theorem run_oneStrand (h : (system (asynchronous f)).RunIf NoSwitch es s) : OneStrand s := by
  refine h.inv OneStrand ⟨rfl, ?_⟩ fun _ _ _ hi hn hs => hi.step hn hs
  intro w hw
  cases hw

/-- With one strand, the entries run in the order of the calls. -/
theorem run_exact (h : (system (asynchronous f)).RunIf NoSwitch es s) (hp : s.base.dispatch.pending = []) :
    s.base.dispatch.done.map (·.task) = s.base.dispatch.called := by
  have hstart : ({} : Dispatch (Entry Nat (Option Bytes) σ ρ)).step .newQueue =
      some (asynchronous f : ModuleLogger σ ρ).base.dispatch := rfl
  have hsound := Dispatch.Sound.init.step hstart
  have horderly := (Dispatch.Orderly.init.step_iff .init hstart).2 (by simp)
  have hfits : (system (asynchronous f)).RunIf (dispatcher (asynchronous f) hsound horderly).Fits es s := by
    apply h.mono_inv OneStrand (run_oneStrand .nil) (fun _ _ _ hi hn hs => hi.step hn hs)
    exact fun s e s' hi _ _ task _ => hi.fits
  have horder := ((dispatcher (asynchronous f) hsound horderly).order_iff h.run).2 hfits
  have hinOrder := horder es s (List.prefix_refl es) h.run [] s .nil
  have hdone : s.base.dispatch.done = Dispatch.tickets s.base.dispatch.called :=
    ((dispatcher (asynchronous f) hsound horderly).sound h.run).exact hp hinOrder
  rw [hdone, Dispatch.tickets_task]

/-- An event that is no execution shows nothing. -/
theorem waits_step (h : OneStrand s) (hn : NoSwitch s e) (he : e.isExecute = false) (hs : s.step e = some s') :
    s'.base.effects = s.base.effects ∧ s'.base.dispatch.done = s.base.dispatch.done := by
  cases step_cases hs with
  | setAsyncMode => cases hn
  | setSyncMode => cases hn
  | execute => cases he
  | active message hread ha => simp [LogBase.log, Dispatch.dispatch, h.queue]
  | _ => exact ⟨rfl, rfl⟩

/-- The executions are steps of this kind. -/
theorem exists_of_isExecute (he : e.isExecute = true) : ∃ i, e = .execute i := by
  cases e with
  | execute i => exact ⟨i, rfl⟩
  | _ => cases he

theorem intact_execute {i : Nat} {w : Waiting (Entry Nat (Option Bytes) σ ρ)} {d : Dispatch (Entry Nat (Option Bytes) σ ρ)}
    (hr : s.base.dispatch.run i = some (w, d)) :
    Intact s (.execute i) ↔ w.task.streamFunction = none ∨ s.read w.task.module = w.task.logged := by
  constructor
  · exact fun h => h i w d rfl hr
  · rintro hw j v d' he hv
    cases he
    obtain ⟨rfl, -⟩ := Prod.mk.inj (Option.some.inj (hr.symm.trans hv))
    exact hw

theorem intact_of_not_execute (he : e.isExecute = false) : Intact s e := by
  rintro i w d rfl
  cases he

/-- The effects are those of the entries that ran, each with what its module then was; the run was
intact if each was as it had been. -/
def Executed (f : Option (Option Bytes → Level → Option σ)) (es : List (Event σ ρ)) (s : ModuleLogger σ ρ) : Prop :=
  ∃ xs : List (Entry Nat (Option Bytes) σ ρ × Option Bytes),
    xs.map Prod.fst = s.base.dispatch.done.map (·.task) ∧ s.base.effects = xs.flatMap (fun x => x.1.doLog x.2) ∧
    ((system (asynchronous f)).RunIf Intact es s ↔ ∀ x ∈ xs, x.1.streamFunction = none ∨ x.2 = x.1.logged)

theorem run_executed (h : (system (asynchronous f)).RunIf NoSwitch es s) : Executed f es s := by
  apply h.inv_hist (Executed f) ⟨[], rfl, rfl, iff_of_true .nil (by simp)⟩
  rintro es s e s' hr ⟨xs, hdone, heffects, hintact⟩ hn hs
  cases he : e.isExecute with
  | false =>
    obtain ⟨heff, hd⟩ := waits_step (run_oneStrand hr) hn he hs
    refine ⟨xs, by rw [hd, hdone], by rw [heff, heffects], ?_⟩
    rw [hr.run.snoc_iff hs, hintact, and_iff_left (intact_of_not_execute he)]
  | true =>
    obtain ⟨i, rfl⟩ := exists_of_isExecute he
    obtain ⟨base, hb, rfl⟩ := Option.map_eq_some_iff.1 hs
    obtain ⟨w, dispatch, hrun, rfl⟩ := LogBase.execute_some hb
    have hhere := intact_execute hrun
    obtain ⟨before, behind, -, -, -, rfl⟩ := Dispatch.run_cases hrun
    refine ⟨xs ++ [(w.task, s.read w.task.module)], ?_, ?_, ?_⟩
    · simp [hdone]
    · simp [heffects]
    · rw [hr.run.snoc_iff hs, hintact, hhere]
      simp [or_imp, forall_and]

/-! ## The synchronous logger -/

/-- The logger beside `s` that has another dispatcher and other effects. -/
def beside (s : ModuleLogger σ ρ) (d : Dispatch (Entry Nat (Option Bytes) σ ρ)) (effects : List (Effect (Option Bytes) σ ρ)) :
    ModuleLogger σ ρ :=
  { s with base := { s.base with dispatch := d, effects := effects } }

@[simp] theorem beside_read (s : ModuleLogger σ ρ) (d : Dispatch (Entry Nat (Option Bytes) σ ρ))
    (effects : List (Effect (Option Bytes) σ ρ)) : (s.beside d effects).read = s.read := rfl

@[simp] theorem beside_isActive (s : ModuleLogger σ ρ) (d : Dispatch (Entry Nat (Option Bytes) σ ρ))
    (effects : List (Effect (Option Bytes) σ ρ)) : (s.beside d effects).isActive = s.isActive := rfl

/-- The synchronous logger was called for the same entries, and showed each as it was logged. -/
structure Shown (s : ModuleLogger σ ρ) (d : Dispatch (Entry Nat (Option Bytes) σ ρ))
    (effects : List (Effect (Option Bytes) σ ρ)) : Prop where
  queue : d.queue = none
  called : d.called = s.base.dispatch.called
  effects : effects = d.called.flatMap fun entry => entry.doLog entry.logged

theorem Shown.step {d : Dispatch (Entry Nat (Option Bytes) σ ρ)} {effects : List (Effect (Option Bytes) σ ρ)}
    (h : Shown s d effects) (hn : NoSwitch s e) (he : e.isExecute = false) (hs : s.step e = some s') :
    ∃ d' effects', (s.beside d effects).step e = some (s'.beside d' effects') ∧ Shown s' d' effects' := by
  cases step_cases hs with
  | setAsyncMode => cases hn
  | setSyncMode => cases hn
  | execute => cases he
  | registered level hm | known level hm =>
    refine ⟨d, effects, ?_, h.queue, h.called, h.effects⟩
    simp [ModuleLogger.step, registerModule, beside, hm]
  | set level hm | threw level hm =>
    refine ⟨d, effects, ?_, h.queue, h.called, h.effects⟩
    simp [ModuleLogger.step, setThresholdLevelOf, beside, hm]
  | change value hread | letGo hread =>
    refine ⟨d, effects, ?_, h.queue, h.called, h.effects⟩
    simp only [ModuleLogger.step, beside_read, hread]
    rfl
  | @active cell module level message hread ha =>
    have heffects := h.effects
    refine ⟨d.dispatch (s.base.entry cell (some module) level message),
      effects ++ (s.base.entry cell (some module) level message).doLog (some module), ?_, ?_, ?_, ?_⟩
    · simp only [ModuleLogger.step, beside_read, hread, Option.map_some, ModuleLogger.log, beside_isActive, ha, if_true]
      simp only [LogBase.log, beside, h.queue, Option.isSome_none, Bool.false_eq_true, if_false]
      rfl
    · simp [h.queue]
    · simp [LogBase.log, h.called]
    · rw [heffects, Dispatch.dispatch_called, List.flatMap_append, List.flatMap_singleton]
      rfl
  | inactive message hread ha =>
    refine ⟨d, effects, ?_, h⟩
    simp [ModuleLogger.step, hread, ModuleLogger.log, ha]
  | _ => exact ⟨d, effects, rfl, h.queue, h.called, h.effects⟩

/-- The same calls can be made to a synchronous logger. -/
theorem exists_synchronous (h : (system (asynchronous f)).RunIf NoSwitch es s) :
    ∃ d effects, (system (init f)).Run (es.filter fun e => !e.isExecute) (s.beside d effects) ∧ Shown s d effects := by
  refine h.inv_hist (fun es (s : ModuleLogger σ ρ) => ∃ d effects,
    (system (init f)).Run (es.filter fun e => !e.isExecute) (s.beside d effects) ∧ Shown s d effects) ?_ ?_
  · exact ⟨{}, [], .nil, rfl, rfl, rfl⟩
  · rintro es s e s' - ⟨d, effects, hrun, hshown⟩ hn hs
    rw [List.filter_append]
    cases he : e.isExecute with
    | false =>
      obtain ⟨d', effects', hstep, hshown'⟩ := hshown.step hn he hs
      refine ⟨d', effects', ?_, hshown'⟩
      simp only [he, List.filter_cons, List.filter_nil, Bool.not_false, if_true]
      exact .snoc hrun trivial hstep
    | true =>
      simp only [he, List.filter_cons, List.filter_nil, Bool.not_true, Bool.false_eq_true, if_false, List.append_nil]
      obtain ⟨i, rfl⟩ := exists_of_isExecute he
      obtain ⟨base, hb, rfl⟩ := Option.map_eq_some_iff.1 hs
      obtain ⟨w, dispatch, hr, rfl⟩ := LogBase.execute_some hb
      obtain ⟨before, behind, -, -, -, rfl⟩ := Dispatch.run_cases hr
      exact ⟨d, effects, hrun, hshown.queue, hshown.called, hshown.effects⟩

/-- Once all entries ran, the asynchronous logger showed what the synchronous one shows of the same
calls exactly if each entry that has a stream function found the string of its module alive and as it
was when `log` was called. -/
theorem asynchronous_iff (h : (system (asynchronous f)).RunIf NoSwitch es s) (hp : s.base.dispatch.pending = []) :
    ∃ t, (system (init f)).Run (es.filter fun e => !e.isExecute) t ∧
      (s.base.effects = t.base.effects ↔ (system (asynchronous f)).RunIf Intact es s) := by
  obtain ⟨d, effects, hrun, hshown⟩ := exists_synchronous h
  obtain ⟨xs, hdone, heffects, hintact⟩ := run_executed h
  refine ⟨_, hrun, ?_⟩
  have hcalled : d.called = xs.map Prod.fst := by rw [hshown.called, ← run_exact h hp, hdone]
  have hsync : effects = xs.flatMap fun x => x.1.doLog x.1.logged := by
    rw [hshown.effects, hcalled, List.flatMap_map]
  have hpieces : ∀ x ∈ xs, x.1.doLog x.2 = [] ∧ x.1.doLog x.1.logged = [] ∨
      Piece Effect.Asks (x.1.doLog x.2) ∧ Piece Effect.Asks (x.1.doLog x.1.logged) :=
    fun x _ => x.1.doLog_pieces x.2 x.1.logged
  calc s.base.effects = (s.beside d effects).base.effects
    _ ↔ xs.flatMap (fun x => x.1.doLog x.2) = xs.flatMap fun x => x.1.doLog x.1.logged := by
      rw [heffects, show (s.beside d effects).base.effects = effects from rfl, hsync]
    _ ↔ ∀ x ∈ xs, x.1.doLog x.2 = x.1.doLog x.1.logged := flatMap_eq_iff hpieces
    _ ↔ ∀ x ∈ xs, x.1.streamFunction = none ∨ x.2 = x.1.logged := forall₂_congr fun x _ => Entry.doLog_inj
    _ ↔ (system (asynchronous f)).RunIf Intact es s := hintact.symm

/-- The stream function of a new logger, for the streams 0 and 1. -/
def basicStream (_ : Option Bytes) (level : Level) : Option Nat := some (level.basicStreamFunction 0 1)

/-- A caller that keeps its string. -/
theorem asynchronous_iff_kept :
    ∃ es s t, (system (ρ := Nat) (asynchronous (some basicStream))).RunIf NoSwitch es s ∧
      (system (init (some basicStream))).Run (es.filter fun e => !e.isExecute) t ∧
      (s.base.effects = t.base.effects ↔ (system (asynchronous (some basicStream))).RunIf Intact es s) ∧
      s.base.effects = [.streamFunction (some [109]) .trace, .write 0 [97]] := by
  have hexec : (system (ρ := Nat) (asynchronous (some basicStream))).exec NoSwitch (asynchronous (some basicStream))
      [.registerModule [109] .trace, .string [109], .log 0 .trace [97], .execute 0] = some _ := rfl
  have hrun := System.Steps.of_exec hexec
  obtain ⟨t, ht, hiff⟩ := asynchronous_iff hrun rfl
  exact ⟨_, _, t, hrun, ht, hiff, rfl⟩

/-- A caller that lets its string go before the entry runs, as a macro does with a temporary. -/
theorem asynchronous_dangles :
    ∃ es s t, (system (ρ := Nat) (asynchronous (some basicStream))).RunIf NoSwitch es s ∧ s.base.dispatch.pending = [] ∧
      (system (init (some basicStream))).Run (es.filter fun e => !e.isExecute) t ∧
      s.base.effects = [.streamFunction none .trace, .write 0 [97]] ∧
      t.base.effects = [.streamFunction (some [109]) .trace, .write 0 [97]] := by
  have hexec : (system (ρ := Nat) (asynchronous (some basicStream))).exec NoSwitch (asynchronous (some basicStream))
      [.registerModule [109] .trace, .string [109], .log 0 .trace [97], .letGo 0, .execute 0] = some _ := rfl
  have hexec' : (system (ρ := Nat) (init (some basicStream))).exec (fun _ _ => True) (init (some basicStream))
      [.registerModule [109] .trace, .string [109], .log 0 .trace [97], .letGo 0] = some _ := rfl
  exact ⟨_, _, _, System.Steps.of_exec hexec, rfl, System.Steps.of_exec hexec', rfl, rfl⟩

end ModuleLogger

end Zar
