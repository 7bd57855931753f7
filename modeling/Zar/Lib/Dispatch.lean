import Mathlib.Data.List.Nodup
import Mathlib.Data.List.Range
import Zar.Lib.System
/-!
# Tasks that run at once or wait in queues

A task that is dispatched runs at once, or waits in the queue in use. A queue runs its
tasks in their order, and nothing orders the tasks of two queues. The queue in use can be
changed while tasks wait. Each task carries its number in the order of the dispatches, so
that equal tasks are told apart.
-/

namespace Zar

structure Ticket (α : Type) where
  number : Nat
  task : α
  deriving DecidableEq, Repr

structure Waiting (α : Type) extends Ticket α where
  queue : Nat
  deriving DecidableEq, Repr

structure Dispatch (α : Type) where
  /-- The queue in use. Without one, tasks run at once. -/
  queue : Option Nat := none
  /-- How many queues there were. -/
  made : Nat := 0
  called : List α := []
  pending : List (Waiting α) := []
  /-- What ran, in the order in which it did. -/
  done : List (Ticket α) := []
  deriving DecidableEq, Repr

inductive DispatchEvent (α : Type) where
  | dispatch (task : α)
  | newQueue
  | noQueue
  /-- The task that waits at this place runs. -/
  | run (i : Nat)

namespace Dispatch
variable {α : Type} {d d' : Dispatch α} {es : List (DispatchEvent α)}

def dispatch (d : Dispatch α) (task : α) : Dispatch α :=
  match d.queue with
  | some queue => { d with
      called := d.called ++ [task]
      pending := d.pending ++ [⟨⟨d.called.length, task⟩, queue⟩] }
  | none => { d with called := d.called ++ [task], done := d.done ++ [⟨d.called.length, task⟩] }

@[simp] theorem dispatch_queue (d : Dispatch α) (task : α) : (d.dispatch task).queue = d.queue := by
  unfold dispatch
  split <;> simp [*]

@[simp] theorem dispatch_called (d : Dispatch α) (task : α) : (d.dispatch task).called = d.called ++ [task] := by
  unfold dispatch
  split <;> rfl

def newQueue (d : Dispatch α) : Dispatch α := { d with queue := some d.made, made := d.made + 1 }

def noQueue (d : Dispatch α) : Dispatch α := { d with queue := none }

/-- A task runs once those in front of it in its queue did. -/
def run (d : Dispatch α) (i : Nat) : Option (Waiting α × Dispatch α) :=
  match d.pending[i]? with
  | none => none
  | some w =>
    if ∀ v ∈ d.pending.take i, v.queue ≠ w.queue then
      some (w, { d with pending := d.pending.eraseIdx i, done := d.done ++ [w.toTicket] })
    else none

def step (d : Dispatch α) : DispatchEvent α → Option (Dispatch α)
  | .dispatch task => some (d.dispatch task)
  | .newQueue => some d.newQueue
  | .noQueue => some d.noQueue
  | .run i => (d.run i).map (·.2)

/-- What a run of a waiting task finds. -/
theorem run_cases {i : Nat} {w : Waiting α} (h : d.run i = some (w, d')) :
    ∃ before behind, d.pending = before ++ w :: behind ∧ before.length = i ∧ (∀ v ∈ before, v.queue ≠ w.queue) ∧
      d' = { d with pending := before ++ behind, done := d.done ++ [w.toTicket] } := by
  unfold run at h
  split at h
  · cases h
  · rename_i w' hw
    split at h
    · rename_i hfront
      cases h
      obtain ⟨hi, rfl⟩ := List.getElem?_eq_some_iff.1 hw
      refine ⟨d.pending.take i, d.pending.drop (i + 1), ?_, List.length_take_of_le hi.le, hfront, ?_⟩
      · rw [List.getElem_cons_drop, List.take_append_drop]
      · rw [List.eraseIdx_eq_take_drop_succ]
    · cases h

theorem run_of_split {before behind : List (Waiting α)} {w : Waiting α} (h : d.pending = before ++ w :: behind)
    (hw : ∀ v ∈ before, v.queue ≠ w.queue) :
    d.run before.length = some (w, { d with pending := before ++ behind, done := d.done ++ [w.toTicket] }) := by
  unfold run
  rw [h]
  simp only [List.getElem?_append_right (Nat.le_refl _), Nat.sub_self, List.getElem?_cons_zero, List.take_left]
  rw [if_pos hw, List.eraseIdx_append_of_length_le (Nat.le_refl _)]
  simp

/-! ## Nothing is lost or done twice -/

/-- The tasks with their numbers. -/
def tickets (called : List α) : List (Ticket α) := called.mapIdx Ticket.mk

@[simp] theorem tickets_concat (called : List α) (task : α) :
    tickets (called ++ [task]) = tickets called ++ [⟨called.length, task⟩] := by simp [tickets]

theorem tickets_number (called : List α) : (tickets called).map (·.number) = List.range called.length := by
  induction called using List.reverseRecOn with
  | nil => rfl
  | append_singleton called task ih => simp [ih, List.range_succ]

theorem tickets_task (called : List α) : (tickets called).map (·.task) = called := by
  induction called using List.reverseRecOn with
  | nil => rfl
  | append_singleton called task ih => simp [ih]

/-- What waits and what ran are the tasks dispatched, each once, and the former wait in their order. -/
structure Sound (d : Dispatch α) : Prop where
  accounted : (d.pending.map (·.toTicket) ++ d.done).Perm (tickets d.called)
  waiting : d.pending.Pairwise (·.number < ·.number)

theorem Sound.init : Sound ({} : Dispatch α) := ⟨.nil, .nil⟩

theorem Sound.numbers (h : d.Sound) : (d.pending.map (·.number) ++ d.done.map (·.number)).Perm (List.range d.called.length) := by
  have hperm := h.accounted.map (·.number)
  rw [tickets_number, List.map_append, List.map_map] at hperm
  exact hperm

theorem Sound.pending_lt (h : d.Sound) {w : Waiting α} (hw : w ∈ d.pending) : w.number < d.called.length :=
  List.mem_range.1 (h.numbers.mem_iff.1 (List.mem_append_left _ (List.mem_map_of_mem hw)))

theorem Sound.done_lt (h : d.Sound) {t : Ticket α} (ht : t ∈ d.done) : t.number < d.called.length :=
  List.mem_range.1 (h.numbers.mem_iff.1 (List.mem_append_right _ (List.mem_map_of_mem ht)))

theorem Sound.nodup (h : d.Sound) : (d.done.map (·.number)).Nodup :=
  (h.numbers.nodup_iff.2 List.nodup_range).of_append_right

theorem Sound.all (h : d.Sound) (hp : d.pending = []) : d.done.Perm (tickets d.called) := by
  have hperm := h.accounted
  rw [hp] at hperm
  simpa using hperm

theorem Sound.dispatch (h : d.Sound) (task : α) : (d.dispatch task).Sound := by
  unfold Dispatch.dispatch
  split
  · refine ⟨?_, ?_⟩
    · simp only [List.map_append, List.map_singleton, tickets_concat, List.append_assoc]
      apply (List.perm_append_comm.append_left _).trans
      rw [← List.append_assoc]
      exact h.accounted.append_right _
    · refine List.pairwise_append.2 ⟨h.waiting, List.pairwise_singleton _ _, ?_⟩
      intro w hw v hv
      obtain rfl := List.mem_singleton.1 hv
      exact h.pending_lt hw
  · refine ⟨?_, h.waiting⟩
    simp only [tickets_concat]
    rw [← List.append_assoc]
    exact h.accounted.append_right _

theorem Sound.run {i : Nat} {w : Waiting α} (h : d.Sound) (hr : d.run i = some (w, d')) : d'.Sound := by
  obtain ⟨before, behind, hp, -, -, rfl⟩ := run_cases hr
  have hacc := h.accounted
  have hwait := h.waiting
  rw [hp] at hacc hwait
  refine ⟨?_, hwait.sublist ((List.Sublist.refl before).append (List.sublist_cons_self w behind))⟩
  refine List.Perm.trans ?_ hacc
  simp only [List.map_append, List.map_cons, List.append_assoc, List.cons_append]
  apply List.Perm.append_left _
  rw [← List.append_assoc]
  exact List.perm_append_singleton _ _

theorem Sound.step {e : DispatchEvent α} (h : d.Sound) (hs : d.step e = some d') : d'.Sound := by
  cases e with
  | dispatch task =>
    cases hs
    exact h.dispatch task
  | newQueue =>
    cases hs
    exact ⟨h.accounted, h.waiting⟩
  | noQueue =>
    cases hs
    exact ⟨h.accounted, h.waiting⟩
  | run i =>
    obtain ⟨⟨w, d''⟩, hr, rfl⟩ := Option.map_eq_some_iff.1 hs
    exact h.run hr

/-! ## The order -/

/-- What ran so far did so in the order of the dispatches. -/
def InOrder (d : Dispatch α) : Prop := d.done.Pairwise (·.number < ·.number)

/-- All that waits does so in one queue, behind what ran. -/
structure Orderly (d : Dispatch α) : Prop where
  inOrder : d.InOrder
  behind : ∀ t ∈ d.done, ∀ w ∈ d.pending, t.number < w.number
  single : ∀ v ∈ d.pending, ∀ w ∈ d.pending, v.queue = w.queue

theorem Orderly.init : Orderly ({} : Dispatch α) := ⟨.nil, by simp, by simp⟩

/-- Where nothing waits any more, the order is that of the dispatches. -/
theorem Sound.exact (h : d.Sound) (hp : d.pending = []) (ho : d.InOrder) : d.done = tickets d.called := by
  have hsorted : (tickets d.called).Pairwise (·.number < ·.number) := by
    refine List.Pairwise.of_map (·.number) (fun _ _ h => h) ?_
    rw [tickets_number]
    exact List.pairwise_lt_range
  refine List.Perm.eq_of_pairwise ?_ ho hsorted (h.all hp)
  intro s t _ _ hst hts
  exact absurd hst (Nat.lt_asymm hts)

/-- A task that runs keeps the order where one queue holds all that waits. -/
theorem Orderly.run {i : Nat} {w : Waiting α} (h : d.Orderly) (hsound : d.Sound) (hr : d.run i = some (w, d')) : d'.Orderly := by
  obtain ⟨before, behind, hp, -, hfront, rfl⟩ := run_cases hr
  have hwait := hsound.waiting
  have hsingle := h.single
  have hbehind := h.behind
  rw [hp] at hwait hsingle hbehind
  -- Nothing stands in front of the task, since that would be in its queue.
  obtain rfl : before = [] := by
    cases before with
    | nil => rfl
    | cons v before => exact absurd (hsingle v (by simp) w (by simp)) (hfront v (by simp))
  rw [List.nil_append] at hwait hsingle hbehind
  obtain ⟨hlater, -⟩ := List.pairwise_cons.1 hwait
  refine ⟨?_, ?_, ?_⟩
  · refine List.pairwise_append.2 ⟨h.inOrder, List.pairwise_singleton _ _, ?_⟩
    intro t ht u hu
    obtain rfl := List.mem_singleton.1 hu
    exact hbehind t ht w List.mem_cons_self
  · intro t ht v hv
    rcases List.mem_append.1 ht with ht | ht
    · exact hbehind t ht v (List.mem_cons_of_mem w hv)
    · obtain rfl := List.mem_singleton.1 ht
      exact hlater v hv
  · exact fun v hv u hu => hsingle v (List.mem_cons_of_mem w hv) u (List.mem_cons_of_mem w hu)

def system (α : Type) : System (Dispatch α) (DispatchEvent α) := ⟨{}, step⟩

/-- Only tasks that waited run. -/
def OnlyRuns (_ : Dispatch α) (e : DispatchEvent α) : Prop := ∃ i, e = .run i

theorem Orderly.steps (h : d.Orderly) (hsound : d.Sound) (hs : (system α).Steps OnlyRuns d es d') : d'.InOrder := by
  have hboth : d'.Orderly ∧ d'.Sound := by
    refine hs.inv (fun d => d.Orderly ∧ d.Sound) ⟨h, hsound⟩ ?_
    rintro d _ d' ⟨h, hsound⟩ ⟨i, rfl⟩ hs
    obtain ⟨⟨w, d''⟩, hr, rfl⟩ := Option.map_eq_some_iff.1 hs
    exact ⟨h.run hsound hr, hsound.run hr⟩
  exact hboth.1.inOrder

theorem one_run {before behind : List (Waiting α)} {w : Waiting α} (h : d.pending = before ++ w :: behind)
    (hw : ∀ v ∈ before, v.queue ≠ w.queue) :
    (system α).Steps OnlyRuns d [.run before.length]
      { d with pending := before ++ behind, done := d.done ++ [w.toTicket] } := by
  refine .one ⟨_, rfl⟩ ?_
  simp [system, step, run_of_split h hw]

/-- The first task that waits can run, so what ran before was dispatched before it. -/
theorem first_behind {w : Waiting α} {behind : List (Waiting α)} (hp : d.pending = w :: behind)
    (hall : ∀ es d', (system α).Steps OnlyRuns d es d' → d'.InOrder) : ∀ t ∈ d.done, t.number < w.number := by
  have hrun := one_run (d := d) (List.nil_append (w :: behind) ▸ hp) (by simp)
  have horder : (d.done ++ [w.toTicket]).Pairwise (·.number < ·.number) := hall _ _ hrun
  exact fun t ht => (List.pairwise_append.1 horder).2.2 t ht _ (List.mem_singleton_self _)

/-- Where it is not so, the tasks that wait can run out of order. -/
theorem Sound.orderly (h : d.Sound) (hall : ∀ es d', (system α).Steps OnlyRuns d es d' → d'.InOrder) : d.Orderly := by
  cases hp : d.pending with
  | nil => exact ⟨hall _ _ .nil, by simp [hp], by simp [hp]⟩
  | cons w behind =>
    have hwait := h.waiting
    rw [hp] at hwait
    obtain ⟨hlater, -⟩ := List.pairwise_cons.1 hwait
    have hfirst := first_behind hp hall
    have hsame : ∀ v ∈ behind, v.queue = w.queue := by
      by_contra hne
      push Not at hne
      obtain ⟨v, hv, hne⟩ := hne
      -- The first task in another queue can run before the first of all.
      have hfind : (behind.find? fun v => v.queue ≠ w.queue).isSome := List.find?_isSome.2 ⟨v, hv, by simpa using hne⟩
      obtain ⟨x, hx⟩ := Option.isSome_iff_exists.1 hfind
      obtain ⟨hxq, before, rest, rfl, hbefore⟩ := List.find?_eq_some_iff_append.1 hx
      simp only [ne_eq, decide_eq_true_eq] at hxq
      have hfront : ∀ u ∈ w :: before, u.queue ≠ x.queue := by
        intro u hu
        rcases List.mem_cons.1 hu with rfl | hu
        · exact Ne.symm hxq
        · have hsame : u.queue = w.queue := by simpa using hbefore u hu
          rw [hsame]
          exact Ne.symm hxq
      have hrun := one_run (d := d) hp hfront
      have hbad := first_behind (d := { d with pending := w :: before ++ rest, done := d.done ++ [x.toTicket] })
        rfl (fun es d' hs => hall _ d' (hrun.trans hs)) x.toTicket (by simp)
      exact absurd (hlater x (by simp)) (Nat.lt_asymm hbad)
    refine ⟨hall _ _ .nil, ?_, ?_⟩
    · intro t ht v hv
      rw [hp] at hv
      rcases List.mem_cons.1 hv with rfl | hv
      · exact hfirst t ht
      · exact (hfirst t ht).trans (hlater v hv)
    · have hqueue : ∀ v ∈ d.pending, v.queue = w.queue := by
        rw [hp]
        intro v hv
        rcases List.mem_cons.1 hv with rfl | hv
        · rfl
        · exact hsame v hv
      exact fun v hv u hu => (hqueue v hv).trans (hqueue u hu).symm

/-- What waits does so in the queue in use; without one, nothing waits. -/
def Fits (d : Dispatch α) : Prop := ∀ w ∈ d.pending, d.queue = some w.queue

theorem fits_dispatch (h : d.Fits) (hq : d.queue.isSome) (task : α) : (d.dispatch task).Fits := by
  obtain ⟨queue, hq⟩ := Option.isSome_iff_exists.1 hq
  intro w hw
  simp only [dispatch, hq] at hw ⊢
  rcases List.mem_append.1 hw with hw | hw
  · rw [← hq]
    exact h w hw
  · rw [List.mem_singleton.1 hw]

theorem fits_run {i : Nat} {w : Waiting α} (h : d.Fits) (hr : d.run i = some (w, d')) : d'.Fits := by
  obtain ⟨before, behind, hp, -, -, rfl⟩ := run_cases hr
  intro v hv
  apply h v
  rw [hp]
  rcases List.mem_append.1 hv with hv | hv
  · exact List.mem_append_left _ hv
  · exact List.mem_append_right _ (List.mem_cons_of_mem w hv)

/-- A dispatch keeps the order exactly if all that waits does so in the queue in use. -/
theorem Orderly.dispatch_iff (h : d.Orderly) (hsound : d.Sound) (task : α) : (d.dispatch task).Orderly ↔ d.Fits := by
  unfold dispatch Fits
  cases hq : d.queue with
  | some queue =>
    constructor
    · intro ho w hw
      have hsame := ho.single w (List.mem_append_left _ hw) ⟨⟨d.called.length, task⟩, queue⟩ (by simp)
      exact congrArg some hsame.symm
    · intro hfits
      have hqueue : ∀ w ∈ d.pending, w.queue = queue := fun w hw => (Option.some.inj (hfits w hw)).symm
      refine ⟨h.inOrder, ?_, ?_⟩
      · intro t ht w hw
        rcases List.mem_append.1 hw with hw | hw
        · exact h.behind t ht w hw
        · obtain rfl := List.mem_singleton.1 hw
          exact hsound.done_lt ht
      · have hall : ∀ w ∈ d.pending ++ [⟨⟨d.called.length, task⟩, queue⟩], w.queue = queue := by
          intro w hw
          rcases List.mem_append.1 hw with hw | hw
          · exact hqueue w hw
          · rw [List.mem_singleton.1 hw]
        exact fun v hv w hw => (hall v hv).trans (hall w hw).symm
  | none =>
    constructor
    · intro ho w hw
      have hlt : d.called.length < w.number := ho.behind ⟨d.called.length, task⟩ (by simp) w hw
      exact absurd (hsound.pending_lt hw) (Nat.lt_asymm hlt)
    · intro hfits
      have hp : d.pending = [] := List.eq_nil_iff_forall_not_mem.2 fun w hw => Option.some_ne_none _ (hfits w hw).symm
      refine ⟨?_, by simp [hp], by simp [hp]⟩
      refine List.pairwise_append.2 ⟨h.inOrder, List.pairwise_singleton _ _, ?_⟩
      intro t ht u hu
      obtain rfl := List.mem_singleton.1 hu
      exact hsound.done_lt ht

/-- A step that does not run a task leaves what may follow as it is, a dispatch apart. -/
theorem Orderly.step_iff {e : DispatchEvent α} (h : d.Orderly) (hsound : d.Sound) (hs : d.step e = some d') :
    d'.Orderly ↔ ∀ task, e = .dispatch task → d.Fits := by
  cases e with
  | dispatch task =>
    cases hs
    rw [h.dispatch_iff hsound]
    exact ⟨fun hfits _ _ => hfits, fun hfits => hfits task rfl⟩
  | newQueue =>
    cases hs
    exact iff_of_true ⟨h.inOrder, h.behind, h.single⟩ (by simp)
  | noQueue =>
    cases hs
    exact iff_of_true ⟨h.inOrder, h.behind, h.single⟩ (by simp)
  | run i =>
    obtain ⟨⟨w, d''⟩, hr, rfl⟩ := Option.map_eq_some_iff.1 hs
    exact iff_of_true (h.run hsound hr) (by simp)

end Dispatch

/-! ## Systems that dispatch -/

/-- A part of the state of `S` that its events act on as a dispatcher does. -/
structure Dispatcher {σ ε : Type} (S : System σ ε) (α : Type) where
  get : σ → Dispatch α
  /-- What an event does to it, if anything. -/
  action : σ → ε → Option (DispatchEvent α)
  execute : Nat → ε
  init_sound : (get S.init).Sound
  init_orderly : (get S.init).Orderly
  step_none {s : σ} {e : ε} {s' : σ} : S.step s e = some s' → action s e = none → get s' = get s
  step_some {s : σ} {e : ε} {s' : σ} {a : DispatchEvent α} :
    S.step s e = some s' → action s e = some a → (get s).step a = some (get s')
  /-- The events that run a task. -/
  action_execute (s : σ) (i : Nat) : action s (execute i) = some (.run i)
  runs {s : σ} {i : Nat} {d : Dispatch α} : (get s).step (.run i) = some d → ∃ s', S.step s (execute i) = some s'

namespace Dispatcher
variable {σ ε α : Type} {S : System σ ε} (D : Dispatcher S α) {s s' : σ} {es : List ε}

/-- A task is dispatched only where all that waits does so in the queue in use. -/
def Fits (s : σ) (e : ε) : Prop := ∀ task, D.action s e = some (.dispatch task) → (D.get s).Fits

/-- Only tasks that waited run. -/
def Executes (_ : σ) (e : ε) : Prop := ∃ i, e = D.execute i

theorem sound (h : S.Run es s) : (D.get s).Sound := by
  apply h.inv (fun s => (D.get s).Sound) D.init_sound
  intro s e s' hi _ hs
  cases ha : D.action s e with
  | none =>
    rw [D.step_none hs ha]
    exact hi
  | some a => exact hi.step (D.step_some hs ha)

theorem steps_get (h : S.Steps D.Executes s es s') :
    ∃ ds, (Dispatch.system α).Steps Dispatch.OnlyRuns (D.get s) ds (D.get s') := by
  induction h with
  | nil => exact ⟨[], .nil⟩
  | snoc _ ho hs ih =>
    obtain ⟨ds, hd⟩ := ih
    obtain ⟨i, rfl⟩ := ho
    exact ⟨_, .snoc hd ⟨i, rfl⟩ (D.step_some hs (D.action_execute _ i))⟩

theorem exists_steps {ds : List (DispatchEvent α)} {d : Dispatch α}
    (h : (Dispatch.system α).Steps Dispatch.OnlyRuns (D.get s) ds d) :
    ∃ es s', S.Steps D.Executes s es s' ∧ D.get s' = d := by
  induction h with
  | nil => exact ⟨[], s, .nil, rfl⟩
  | snoc _ ho hs ih =>
    obtain ⟨es, m, hm, rfl⟩ := ih
    obtain ⟨i, rfl⟩ := ho
    obtain ⟨s', hstep⟩ := D.runs hs
    have hget := D.step_some hstep (D.action_execute m i)
    exact ⟨_, s', .snoc hm ⟨i, rfl⟩ hstep, Option.some.inj (hget.symm.trans hs)⟩

theorem orderly_iff (h : S.Run es s) :
    (D.get s).Orderly ↔ ∀ ex s', S.Steps D.Executes s ex s' → (D.get s').InOrder := by
  constructor
  · intro ho ex s' hex
    obtain ⟨ds, hd⟩ := D.steps_get hex
    exact ho.steps (D.sound h) hd
  · intro hall
    apply (D.sound h).orderly
    intro ds d hd
    obtain ⟨ex, s', hex, rfl⟩ := D.exists_steps hd
    exact hall ex s' hex

/-- All along a run, whatever of the waiting tasks runs next does so in the order of the dispatches,
exactly if each dispatch of the run finds all that waits in the queue in use. -/
theorem order_iff (h : S.Run es s) :
    (∀ es' s', es' <+: es → S.Run es' s' → ∀ ex t, S.Steps D.Executes s' ex t → (D.get t).InOrder) ↔ S.RunIf D.Fits es s := by
  refine h.prefixes_iff_runIf (fun _ s => ∀ ex t, S.Steps D.Executes s ex t → (D.get t).InOrder) ?_ ?_
  · exact (D.orderly_iff (System.Steps.nil : S.Run [] S.init)).1 D.init_orderly
  · intro es s e s' hrun hp hs
    have hrun' : S.Run (es ++ [e]) s' := .snoc hrun.run trivial hs
    have ho := (D.orderly_iff hrun.run).2 hp
    rw [← D.orderly_iff hrun']
    cases ha : D.action s e with
    | none =>
      rw [D.step_none hs ha]
      exact iff_of_true ho fun task he => absurd (ha.symm.trans he) (by simp)
    | some a =>
      rw [ho.step_iff (D.sound hrun.run) (D.step_some hs ha)]
      unfold Fits
      simp only [ha, Option.some.injEq]

end Dispatcher

end Zar
