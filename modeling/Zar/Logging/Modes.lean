import Mathlib.Data.List.Perm.Subperm
import Zar.Logging.Asynchronous
import Zar.Logging.Order
/-!
# Logging while the mode changes

The module logger, with any switches of its mode while entries wait, beside a synchronous logger
that gets the same calls. Each entry shows what the synchronous logger shows of it, and the
order is all that tells the two apart.
-/

namespace Zar

/-- What an entry shows to a caller that keeps its string. -/
def Entry.shown {κ μ σ ρ : Type} (entry : Entry κ μ σ ρ) : List (Effect μ σ ρ) := entry.doLog entry.logged

namespace ModuleLogger

variable {σ ρ : Type} {f : Option (Option Bytes → Level → Option σ)} {s s' : ModuleLogger σ ρ} {e : Event σ ρ}
  {es : List (Event σ ρ)}

/-- What is called, but for the switches of the mode. -/
def Event.isCall (e : Event σ ρ) : Bool := !e.switches && !e.isExecute

/-! ## What ran -/

/-- The entries that ran, each with what its module then was. -/
structure Ran (s : ModuleLogger σ ρ) (xs : List (Entry Nat (Option Bytes) σ ρ × Option Bytes)) : Prop where
  done : xs.map Prod.fst = s.base.dispatch.done.map (·.task)
  effects : s.base.effects = xs.flatMap fun x => x.1.doLog x.2

/-- A step runs at most one entry, and a call runs its own with the module as it is. -/
theorem Ran.step {xs : List (Entry Nat (Option Bytes) σ ρ × Option Bytes)} (h : Ran s xs) (hs : s.step e = some s') :
    ∃ ys, Ran s' (xs ++ ys) ∧ (Intact s e ↔ ∀ y ∈ ys, y.1.streamFunction = none ∨ y.2 = y.1.logged) := by
  have hquiet : ∀ {s' : ModuleLogger σ ρ}, s'.base.effects = s.base.effects → s'.base.dispatch.done = s.base.dispatch.done →
      e.isExecute = false →
      ∃ ys, Ran s' (xs ++ ys) ∧ (Intact s e ↔ ∀ y ∈ ys, y.1.streamFunction = none ∨ y.2 = y.1.logged) := by
    intro s' heffects hdone he
    refine ⟨[], ?_, iff_of_true (intact_of_not_execute he) (List.forall_mem_nil _)⟩
    rw [List.append_nil]
    exact ⟨by rw [hdone]; exact h.done, by rw [heffects]; exact h.effects⟩
  cases step_cases hs with
  | @active cell module level message hread ha =>
    cases hq : s.base.dispatch.queue with
    | some queue => exact hquiet (by simp [LogBase.log, hq]) (by simp [LogBase.log, Dispatch.dispatch, hq]) rfl
    | none =>
      refine ⟨[(s.base.entry cell (some module) level message, some module)], ⟨?_, ?_⟩, ?_⟩
      · simp [LogBase.log, Dispatch.dispatch, hq, h.done]
      · simp [LogBase.log, hq, h.effects]
      · exact iff_of_true (intact_of_not_execute rfl) (by simp [LogBase.entry])
  | @execute i base hb =>
    obtain ⟨w, dispatch, hrun, rfl⟩ := LogBase.execute_some hb
    have hintact := intact_execute hrun
    obtain ⟨before, behind, -, -, -, rfl⟩ := Dispatch.run_cases hrun
    refine ⟨[(w.task, s.read w.task.module)], ⟨?_, ?_⟩, ?_⟩
    · simp [h.done]
    · simp [h.effects]
    · simpa using hintact
  | _ => exact hquiet rfl rfl rfl

theorem Run.ran (h : (system (init f)).Run es s) : ∃ xs, Ran s xs ∧
    ((system (init f)).RunIf Intact es s ↔ ∀ x ∈ xs, x.1.streamFunction = none ∨ x.2 = x.1.logged) := by
  refine h.inv_hist (fun es (s : ModuleLogger σ ρ) => ∃ xs, Ran s xs ∧
    ((system (init f)).RunIf Intact es s ↔ ∀ x ∈ xs, x.1.streamFunction = none ∨ x.2 = x.1.logged)) ?_ ?_
  · exact ⟨[], ⟨rfl, rfl⟩, iff_of_true .nil (List.forall_mem_nil _)⟩
  · rintro es s e s' hr ⟨xs, hran, hintact⟩ - hs
    obtain ⟨ys, hran', hkept⟩ := hran.step hs
    refine ⟨xs ++ ys, hran', ?_⟩
    rw [hr.run.snoc_iff hs, hintact, hkept, List.forall_mem_append]

/-! ## The synchronous logger -/

/-- A switch or an execution is no matter of the synchronous logger. -/
theorem Shown.skip {d : Dispatch (Entry Nat (Option Bytes) σ ρ)} {effects : List (Effect (Option Bytes) σ ρ)}
    (h : Shown s d effects) (he : e.isCall = false) (hs : s.step e = some s') :
    s'.beside d effects = s.beside d effects ∧ Shown s' d effects := by
  cases step_cases hs with
  | setAsyncMode | setSyncMode => exact ⟨rfl, h.queue, h.called, h.effects⟩
  | execute hb =>
    obtain ⟨w, dispatch, hr, rfl⟩ := LogBase.execute_some hb
    obtain ⟨before, behind, -, -, -, rfl⟩ := Dispatch.run_cases hr
    exact ⟨rfl, h.queue, h.called, h.effects⟩
  | _ => cases he

/-- The same calls can be made to a logger that is never switched. -/
theorem Run.exists_synchronous (h : (system (init f)).Run es s) :
    ∃ d effects, (system (init f)).Run (es.filter Event.isCall) (s.beside d effects) ∧ Shown s d effects := by
  refine h.inv_hist (fun es (s : ModuleLogger σ ρ) => ∃ d effects,
    (system (init f)).Run (es.filter Event.isCall) (s.beside d effects) ∧ Shown s d effects) ?_ ?_
  · exact ⟨{}, [], .nil, rfl, rfl, rfl⟩
  · rintro es s e s' - ⟨d, effects, hrun, hshown⟩ - hs
    rw [List.filter_append]
    cases he : e.isCall with
    | true =>
      have hparts : e.switches = false ∧ e.isExecute = false := by simpa [Event.isCall] using he
      obtain ⟨d', effects', hstep, hshown'⟩ := hshown.step hparts.1 hparts.2 hs
      refine ⟨d', effects', ?_, hshown'⟩
      simp only [he, List.filter_cons, List.filter_nil, if_true]
      exact .snoc hrun trivial hstep
    | false =>
      obtain ⟨hsame, hshown'⟩ := hshown.skip he hs
      refine ⟨d, effects, ?_, hshown'⟩
      simp only [he, List.filter_cons, List.filter_nil, Bool.false_eq_true, if_false, List.append_nil]
      rw [hsame]
      exact hrun

/-! ## The entries that wait -/

def Executes (_ : ModuleLogger σ ρ) (e : Event σ ρ) : Prop := ∃ i, e = .execute i

theorem execute_lt (ho : Executes s e) (hs : s.step e = some s') :
    s'.base.dispatch.pending.length < s.base.dispatch.pending.length := by
  obtain ⟨i, rfl⟩ := ho
  obtain ⟨base, hb, rfl⟩ := Option.map_eq_some_iff.1 hs
  obtain ⟨w, dispatch, hr, rfl⟩ := LogBase.execute_some hb
  obtain ⟨before, behind, hp, -, -, rfl⟩ := Dispatch.run_cases hr
  simp [hp]

theorem rest_iff {start : ModuleLogger σ ρ} : (system start).Rest Executes s ↔ s.base.dispatch.pending = [] := by
  constructor
  · intro hrest
    by_contra hne
    obtain ⟨w, behind, hp⟩ := List.exists_cons_of_ne_nil hne
    have hr := Dispatch.run_of_split (show s.base.dispatch.pending = [] ++ w :: behind from hp) (List.forall_mem_nil _)
    have hn := hrest (.execute 0) ⟨0, rfl⟩
    have hrun : s.base.dispatch.run 0 = some _ := hr
    simp [system, step, LogBase.execute, hrun] at hn
  · rintro hp e ⟨i, rfl⟩
    simp [system, step, LogBase.execute, Dispatch.run, hp]

/-! ## The two loggers -/

/-- What ran are entries of the calls, each once. -/
theorem Run.done_called (h : (system (init f)).Run es s) :
    (s.base.dispatch.done.map (·.task)).Subperm s.base.dispatch.called ∧
    (s.base.dispatch.pending = [] → (s.base.dispatch.done.map (·.task)).Perm s.base.dispatch.called ∧
      ((system (init f)).RunIf FindsNoOther es s → s.base.dispatch.done.map (·.task) = s.base.dispatch.called)) := by
  have hsound : s.base.dispatch.Sound := (dispatcher (init f) .init .init).sound h
  have htasks := Dispatch.tickets_task s.base.dispatch.called
  refine ⟨?_, fun hp => ⟨?_, fun hfits => ?_⟩⟩
  · have hperm := hsound.accounted.map (·.task)
    rw [htasks, List.map_append] at hperm
    exact (List.sublist_append_right _ _).subperm.trans hperm.subperm
  · have hperm := (hsound.all hp).map (·.task)
    rwa [htasks] at hperm
  · have hiff : (dispatcher (init f) .init .init).Fits = FindsNoOther (σ := σ) (ρ := ρ) := by
      funext s e
      exact propext (fits_iff _ _ s e)
    have horder := ((dispatcher (init f) .init .init).order_iff h).2 (hiff ▸ hfits)
    have hdone := hsound.exact hp (horder es s (List.prefix_refl es) h [] s .nil)
    rw [show s.base.dispatch.done = Dispatch.tickets s.base.dispatch.called from hdone, htasks]

/-- Whatever the switches of the mode, the thresholds and the functions, the entries that wait come to an
end. A synchronous logger can get the same calls. As long as each entry finds the string of its module as
it was, the logger showed what the synchronous one shows, entry by entry, of some of the calls, each once; of
all once no entry waits; and then in their order if no active message found an entry that waits on
another strand than the one in use. -/
theorem shows_what_synchronous_shows (h : (system (init f)).Run es s) :
    ¬ (system (init f)).Endless Executes s ∧
    (∃ es' s', (system (init f)).Steps Executes s es' s' ∧ s'.base.dispatch.pending = []) ∧
    ∃ t, (system (init f)).Run (es.filter Event.isCall) t ∧ t.base.dispatch.queue = none ∧ t.modules = s.modules ∧
      ((system (init f)).RunIf Intact es s → ∃ xs ys : List (Entry Nat (Option Bytes) σ ρ),
        s.base.effects = xs.flatMap Entry.shown ∧ t.base.effects = ys.flatMap Entry.shown ∧ xs.Subperm ys ∧
          (s.base.dispatch.pending = [] → xs.Perm ys ∧ ((system (init f)).RunIf FindsNoOther es s → xs = ys))) := by
  have hlt : ∀ (s : ModuleLogger σ ρ) e s', True → Executes s e → (system (init f)).step s e = some s' →
      True ∧ s'.base.dispatch.pending.length < s.base.dispatch.pending.length := fun s e s' _ ho hs => ⟨trivial, execute_lt ho hs⟩
  refine ⟨System.not_endless (fun s : ModuleLogger σ ρ => s.base.dispatch.pending.length) _ hlt trivial, ?_, ?_⟩
  · obtain ⟨es', s', hsteps, hrest⟩ :=
      System.exists_rest (fun s : ModuleLogger σ ρ => s.base.dispatch.pending.length) _ hlt trivial
    exact ⟨es', s', hsteps, rest_iff.1 hrest⟩
  · obtain ⟨d, effects, hrun, hshown⟩ := Run.exists_synchronous h
    obtain ⟨xs, hran, hintact⟩ := Run.ran h
    refine ⟨_, hrun, hshown.queue, rfl, fun hkept => ?_⟩
    refine ⟨s.base.dispatch.done.map (·.task), s.base.dispatch.called, ?_, ?_, Run.done_called h⟩
    · rw [hran.effects, ← hran.done, List.flatMap_map]
      apply List.flatMap_congr
      intro x hx
      rcases hintact.1 hkept x hx with hnone | hsame
      · simp [Entry.shown, Entry.doLog, hnone]
      · rw [hsame]
        rfl
    · change effects = _
      rw [hshown.effects, hshown.called]
      rfl

instance (s : ModuleLogger σ ρ) : (e : Event σ ρ) → Decidable (Intact s e)
  | .execute i =>
    match h : s.base.dispatch.run i with
    | none => isTrue fun j w d he hr => by
        cases he
        rw [h] at hr
        cases hr
    | some (_, _) => decidable_of_iff _ (intact_execute h).symm
  | .registerModule _ _ | .setThresholdLevel _ | .setThresholdLevelOf _ _ | .setPreProcessFunction _ | .setStreamFunction _
  | .setPostProcessFunction _ | .setAsyncMode | .setSyncMode | .string _ | .change _ _ | .letGo _ | .log _ _ _ =>
    isTrue (intact_of_not_execute rfl)

/-- A text waits while the mode is switched back and the threshold is raised, and the next one is written first. -/
def reordered : List (Event Nat Unit) :=
  [.registerModule [109] .trace, .string [109], .setAsyncMode, .log 0 .trace [97], .setSyncMode, .setThresholdLevel .error,
    .log 0 .warning [98], .log 0 .fatal [99], .execute 0]

theorem shows_what_synchronous_shows_reordered :
    ∃ s t, (system (init (some basicStream))).Run reordered s ∧
      (system (init (some basicStream))).Run (reordered.filter Event.isCall) t ∧
      (∃ xs ys : List (Entry Nat (Option Bytes) Nat Unit), s.base.effects = xs.flatMap Entry.shown ∧
        t.base.effects = ys.flatMap Entry.shown ∧ xs.Perm ys) ∧
      s.base.written = [(1, [99]), (0, [97])] := by
  obtain ⟨s, hkept, hp, hwritten⟩ := System.RunIf.exists_of_exec (system (init (some basicStream))) Intact reordered
    (fun s => s.base.dispatch.pending.length = 0 ∧ s.base.written = [(1, [99]), (0, [97])]) (by decide +kernel)
  obtain ⟨-, -, t, ht, -, -, hshown⟩ := shows_what_synchronous_shows (System.RunIf.run hkept)
  obtain ⟨xs, ys, hs, ht', -, hall⟩ := hshown hkept
  exact ⟨s, t, System.RunIf.run hkept, ht, ⟨xs, ys, hs, ht', (hall (List.length_eq_zero_iff.1 hp)).1⟩, hwritten⟩

end ModuleLogger
end Zar
