import Zar.Lib.System
/-!
# The end of the client

`tapplication::run` and `asio_callback_signal`: the main thread and those of the pool run the
service, and the one that gets the signal stops it and joins the pool. Which thread that is
decides how the program ends.
-/

namespace Zar

/-- Where a thread is. -/
inductive Thread where
  /-- The main thread, in the loop of `run` that starts the pool. -/
  | starting
  /-- In `io_service_.run()`, in no handler. -/
  | running
  /-- In a handler other than `asio_callback_signal`. -/
  | handling
  /-- In `asio_callback_signal`, at the join of this element of `threads_`. -/
  | joining (i : Nat)
  /-- Behind `loop`. -/
  | returned
  deriving DecidableEq, Repr

/-- In the service, or behind it. -/
def Thread.Serving (x : Thread) : Prop := x = .running ∨ x = .handling ∨ x = .returned

inductive Outcome where
  /-- `main` returned `EXIT_SUCCESS`. -/
  | finished
  /-- `main` caught an exception. -/
  | failed
  /-- `std::terminate`: a `std::thread` was destroyed before it was joined. -/
  | terminated
  /-- Two threads changed `threads_` at once. -/
  | undefined
  deriving DecidableEq, Repr

structure Process where
  /-- How many threads `run` starts. -/
  size : Nat
  /-- The main thread and those of the pool. -/
  threads : List Thread
  /-- `threads_`: whether its elements are joinable. -/
  joinable : List Bool := []
  stopped : Bool := false
  /-- The thread that got the signal. -/
  signalled : Option Nat := none
  outcome : Option Outcome := none
  deriving DecidableEq, Repr

namespace Process

def setThread (P : Process) (t : Nat) (thread : Thread) : Process := { P with threads := P.threads.set t thread }

/-- `loop` behind a handler. What the handler threw is caught. -/
def loop (P : Process) (t : Nat) : Process := P.setThread t (if P.stopped then .returned else .running)

/-- `threads_.push_back(std::thread(..))`. The constructor throws where no thread can be had. -/
def pushBack (P : Process) (throws : Bool) : Process :=
  if throws then { P with outcome := some (if P.joinable.isEmpty then .failed else .terminated) }
  else { P with threads := P.threads ++ [.running], joinable := P.joinable ++ [true] }

def asioCallbackSignal (P : Process) (t : Nat) : Process :=
  if P.threads[0]? = some .starting then { P with signalled := some t, outcome := some .undefined }
  else { P with stopped := true, signalled := some t, threads := P.threads.set t (.joining 0) }

/-- `thread.join()` of element `i`, in thread `t`. A thread that joins itself gets an exception, any
other one waits. -/
def join (P : Process) (t i : Nat) : Option Process :=
  match P.joinable[i]? with
  | none => some ({ P with joinable := [] }.loop t)
  | some joinable =>
    if joinable = false ∨ i + 1 = t then some (P.loop t)
    else if P.threads[i + 1]? = some .returned then
      some { P with joinable := P.joinable.set i false, threads := P.threads.set t (.joining (i + 1)) }
    else none

inductive Event where
  /-- The next turn of the loop of `run`, or its end. -/
  | start (throws : Bool)
  | dispatch (t : Nat)
  /-- A handler ends, by an exception or not. -/
  | done (t : Nat)
  | signal (t : Nat)
  | join (t : Nat)
  /-- `io_service_.run()` returns. -/
  | leave (t : Nat)
  /-- `main` destroys the application. -/
  | exit
  deriving DecidableEq, Repr

def step (P : Process) (e : Event) : Option Process :=
  if P.outcome ≠ none then none
  else
    match e with
    | .start throws =>
      if P.threads[0]? = some .starting then
        if P.joinable.length < P.size then some (P.pushBack throws) else some (P.setThread 0 .running)
      else none
    | .dispatch t =>
      if P.threads[t]? = some .running ∧ P.stopped = false then some (P.setThread t .handling) else none
    | .done t => if P.threads[t]? = some .handling then some (P.loop t) else none
    | .signal t =>
      if P.threads[t]? = some .running ∧ P.stopped = false ∧ P.signalled = none then some (P.asioCallbackSignal t) else none
    | .join t =>
      match P.threads[t]? with
      | some (.joining i) => P.join t i
      | _ => none
    | .leave t => if P.threads[t]? = some .running ∧ P.stopped = true then some (P.setThread t .returned) else none
    | .exit =>
      if P.threads[0]? = some .returned then
        some { P with outcome := some (if true ∈ P.joinable then .terminated else .finished) }
      else none

/-- `run` starts four threads. -/
def system (size : Nat) : System Process Event := ⟨{ size := size, threads := [.starting] }, step⟩

variable {P P' : Process} {e : Event} {t : Nat}

/-- What each event finds, and leaves. -/
inductive Stepped (P : Process) : Event → Process → Prop
  | pushBack (throws : Bool) (hmain : P.threads[0]? = some .starting) (hlt : P.joinable.length < P.size) :
      Stepped P (.start throws) (P.pushBack throws)
  | started (throws : Bool) (hmain : P.threads[0]? = some .starting) : Stepped P (.start throws) (P.setThread 0 .running)
  | dispatch {t : Nat} (ht : P.threads[t]? = some .running) (hstop : P.stopped = false) :
      Stepped P (.dispatch t) (P.setThread t .handling)
  | done {t : Nat} (ht : P.threads[t]? = some .handling) : Stepped P (.done t) (P.loop t)
  | signal {t : Nat} (ht : P.threads[t]? = some .running) (hsig : P.signalled = none) :
      Stepped P (.signal t) (P.asioCallbackSignal t)
  | clear {t i : Nat} (ht : P.threads[t]? = some (.joining i)) (hi : P.joinable[i]? = none) :
      Stepped P (.join t) ({ P with joinable := [] }.loop t)
  | refused {t i : Nat} {joinable : Bool} (ht : P.threads[t]? = some (.joining i)) (hi : P.joinable[i]? = some joinable)
      (h : joinable = false ∨ i + 1 = t) : Stepped P (.join t) (P.loop t)
  | joined {t i : Nat} (ht : P.threads[t]? = some (.joining i)) (hi : P.joinable[i]? = some true) (hne : i + 1 ≠ t)
      (hr : P.threads[i + 1]? = some .returned) :
      Stepped P (.join t) { P with joinable := P.joinable.set i false, threads := P.threads.set t (.joining (i + 1)) }
  | leave {t : Nat} (ht : P.threads[t]? = some .running) (hstop : P.stopped = true) :
      Stepped P (.leave t) (P.setThread t .returned)
  | exit (hmain : P.threads[0]? = some .returned) :
      Stepped P .exit { P with outcome := some (if true ∈ P.joinable then .terminated else .finished) }

theorem step_cases (hs : P.step e = some P') : P.outcome = none ∧ Stepped P e P' := by
  obtain ⟨hout, hs⟩ := Option.ite_none_left_eq_some.1 hs
  refine ⟨not_not.1 hout, ?_⟩
  cases e with
  | start throws =>
    obtain ⟨hmain, hs⟩ := Option.ite_none_right_eq_some.1 hs
    split at hs
    · rename_i hlt
      obtain rfl := Option.some.inj hs
      exact .pushBack throws hmain hlt
    · obtain rfl := Option.some.inj hs
      exact .started throws hmain
  | dispatch t =>
    obtain ⟨⟨ht, hstop⟩, hs⟩ := Option.ite_none_right_eq_some.1 hs
    obtain rfl := Option.some.inj hs
    exact .dispatch ht hstop
  | done t =>
    obtain ⟨ht, hs⟩ := Option.ite_none_right_eq_some.1 hs
    obtain rfl := Option.some.inj hs
    exact .done ht
  | signal t =>
    obtain ⟨⟨ht, -, hsig⟩, hs⟩ := Option.ite_none_right_eq_some.1 hs
    obtain rfl := Option.some.inj hs
    exact .signal ht hsig
  | join t =>
    dsimp only at hs
    split at hs
    · rename_i i ht
      unfold join at hs
      split at hs
      · rename_i hi
        obtain rfl := Option.some.inj hs
        exact .clear ht hi
      · rename_i joinable hi
        split at hs
        · rename_i h
          obtain rfl := Option.some.inj hs
          exact .refused ht hi h
        · rename_i h
          obtain ⟨hj, hne⟩ := not_or.1 h
          obtain ⟨hr, hs⟩ := Option.ite_none_right_eq_some.1 hs
          obtain rfl := Option.some.inj hs
          rw [Bool.not_eq_false] at hj
          exact .joined ht (hj ▸ hi) hne hr
    · cases hs
  | leave t =>
    obtain ⟨⟨ht, hstop⟩, hs⟩ := Option.ite_none_right_eq_some.1 hs
    obtain rfl := Option.some.inj hs
    exact .leave ht hstop
  | exit =>
    obtain ⟨hmain, hs⟩ := Option.ite_none_right_eq_some.1 hs
    obtain rfl := Option.some.inj hs
    exact .exit hmain

/-! ## The stages -/

/-- The program serves, then one thread joins the others, then it is over. -/
inductive Stage (P : Process) : Prop
  /-- No signal so far. -/
  | serving (hout : P.outcome = none) (hsig : P.signalled = none) (hstop : P.stopped = false)
      (hlen : P.threads.length = P.joinable.length + 1) (hjoin : ∀ b ∈ P.joinable, b = true)
      (hsize : P.joinable.length ≤ P.size)
      (hthreads : ∀ t x, P.threads[t]? = some x → x = .running ∨ x = .handling ∨ (x = .starting ∧ t = 0))
  /-- Thread `t` joins the pool. A thread of the pool never gets beyond itself. -/
  | joining (t i : Nat) (hout : P.outcome = none) (hsig : P.signalled = some t) (hstop : P.stopped = true)
      (hlen : P.threads.length = P.joinable.length + 1) (hsize : P.joinable.length ≤ P.size)
      (ht : P.threads[t]? = some (.joining i)) (hi : i ≤ P.joinable.length)
      (hjoin : ∀ j, i ≤ j → j < P.joinable.length → P.joinable[j]? = some true) (hbefore : t ≠ 0 → i < t)
      (hothers : ∀ (u : Nat) (x : Thread), u ≠ t → P.threads[u]? = some x → x.Serving)
  /-- Thread `t` was told that it cannot join itself. -/
  | refused (t : Nat) (hout : P.outcome = none) (hsig : P.signalled = some t) (hstop : P.stopped = true)
      (hpool : t ≠ 0) (hleft : true ∈ P.joinable) (hmain : 0 < P.threads.length)
      (hthreads : ∀ (u : Nat) (x : Thread), P.threads[u]? = some x → x.Serving)
  /-- The main thread joined the pool. -/
  | joined (hout : P.outcome = none) (hsig : P.signalled = some 0) (hstop : P.stopped = true)
      (hjoin : P.joinable = []) (hmain : 0 < P.threads.length)
      (hthreads : ∀ (u : Nat) (x : Thread), P.threads[u]? = some x → x.Serving)
  | ended (o : Outcome) (hout : P.outcome = some o) (hfin : o = .finished ↔ P.signalled = some 0)

theorem set_cases {l : List Thread} {u : Nat} {x y : Thread} (h : (l.set t y)[u]? = some x) :
    (u = t ∧ x = y) ∨ (u ≠ t ∧ l[u]? = some x) := by
  by_cases hu : u = t
  · subst hu
    rw [List.getElem?_set] at h
    simp at h
    exact .inl ⟨rfl, h.2.symm⟩
  · rw [List.getElem?_set_ne (Ne.symm hu)] at h
    exact .inr ⟨hu, h⟩

/-- A thread that goes on in the service, while the others stay. -/
theorem serving_set {l : List Thread} {y : Thread} (h : ∀ (u : Nat) (x : Thread), u ≠ t → l[u]? = some x → x.Serving) (hy : y.Serving) :
    ∀ (u : Nat) (x : Thread), (l.set t y)[u]? = some x → x.Serving := by
  intro u x hx
  rcases set_cases hx with ⟨-, rfl⟩ | ⟨hu, hx⟩
  · exact hy
  · exact h u x hu hx

theorem Stage.init (size : Nat) : Stage (system size).init := by
  refine .serving rfl rfl rfl rfl (by simp [system]) (Nat.zero_le _) ?_
  intro t x hx
  cases t with
  | zero =>
    obtain rfl := Option.some.inj hx
    exact .inr (.inr ⟨rfl, rfl⟩)
  | succ t => simp [system] at hx

/-- A step before the signal. -/
theorem Stage.of_serving (hout : P.outcome = none) (hsig : P.signalled = none) (hstop : P.stopped = false)
    (hlen : P.threads.length = P.joinable.length + 1) (hjoin : ∀ b ∈ P.joinable, b = true)
    (hsize : P.joinable.length ≤ P.size)
    (hthreads : ∀ t x, P.threads[t]? = some x → x = .running ∨ x = .handling ∨ (x = .starting ∧ t = 0))
    (hs : Stepped P e P') : Stage P' := by
  -- A thread of the service stays in it.
  have hset : ∀ {t x y}, P.threads[t]? = some x → y = .running ∨ y = .handling → Stage (P.setThread t y) := by
    intro t x y _ hy
    refine .serving hout hsig hstop ((List.length_set ..).trans hlen) hjoin hsize fun u z hz => ?_
    rcases set_cases hz with ⟨-, rfl⟩ | ⟨-, hz⟩
    · exact hy.imp_right .inl
    · exact hthreads u z hz
  have hnever : ∀ {t i : Nat}, P.threads[t]? ≠ some (.joining i) := by
    intro t i ht
    rcases hthreads t _ ht with h | h | ⟨h, -⟩ <;> cases h
  cases hs with
  | pushBack throws hmain hlt =>
    unfold pushBack
    cases throws with
    | true =>
      refine .ended _ rfl ?_
      rw [hsig]
      split <;> simp
    | false =>
      refine .serving hout hsig hstop ?_ ?_ ?_ ?_
      · simp [hlen]
      · simpa using hjoin
      · simpa using Nat.succ_le_of_lt hlt
      · intro t x hx
        simp only [Bool.false_eq_true, if_false] at hx
        rw [List.getElem?_append] at hx
        split at hx
        · exact hthreads t x hx
        · rw [List.getElem?_singleton] at hx
          obtain ⟨-, hx⟩ := Option.ite_none_right_eq_some.1 hx
          exact .inl (Option.some.inj hx).symm
  | started throws hmain => exact hset hmain (.inl rfl)
  | dispatch ht => exact hset ht (.inr rfl)
  | done ht =>
    unfold loop
    rw [hstop]
    exact hset ht (.inl rfl)
  | @signal t ht hsig' =>
    have hpos : P.threads[0]? = some .starting → t ≠ 0 := by
      rintro hmain rfl
      rw [ht] at hmain
      cases hmain
    unfold asioCallbackSignal
    split
    · rename_i hmain
      exact .ended _ rfl ⟨nofun, fun h => absurd (Option.some.inj h) (hpos hmain)⟩
    · rename_i hmain
      refine .joining t 0 hout rfl rfl ((List.length_set ..).trans hlen) hsize
        (List.getElem?_set_self (List.getElem?_eq_some_iff.1 ht).1) (Nat.zero_le _) ?_ Nat.pos_of_ne_zero ?_
      · intro j _ hj
        rw [List.getElem?_eq_getElem hj, hjoin _ (List.getElem_mem hj)]
      · intro u x hu hx
        rw [List.getElem?_set_ne (Ne.symm hu)] at hx
        rcases hthreads u x hx with h | h | ⟨rfl, rfl⟩
        · exact .inl h
        · exact .inr (.inl h)
        · exact absurd hx hmain
  | clear ht | refused ht | joined ht => exact absurd ht hnever
  | leave ht h => rw [hstop] at h; cases h
  | exit hmain => rcases hthreads 0 _ hmain with h | h | ⟨h, -⟩ <;> cases h

/-- Behind the signal the threads leave the service, and `main` ends. -/
theorem Stepped.leaves (hs : Stepped P e P') (hstop : P.stopped = true) (hsig : P.signalled = some t)
    (hthreads : ∀ (u : Nat) (x : Thread), P.threads[u]? = some x → x.Serving) :
    (∃ u, P' = P.setThread u .returned) ∨
      P' = { P with outcome := some (if true ∈ P.joinable then .terminated else .finished) } := by
  have hnever : ∀ {u : Nat} {x : Thread}, P.threads[u]? = some x → x = .starting ∨ (∃ i, x = .joining i) → False := by
    rintro u x hu hx
    rcases hthreads u x hu with rfl | rfl | rfl <;> rcases hx with h | ⟨i, h⟩ <;> cases h
  cases hs with
  | pushBack _ hmain | started _ hmain => exact (hnever hmain (.inl rfl)).elim
  | dispatch _ h => rw [hstop] at h; cases h
  | @done u =>
    left
    refine ⟨u, ?_⟩
    rw [loop, hstop]
    rfl
  | signal _ h => rw [hsig] at h; cases h
  | clear ht | refused ht | joined ht => exact (hnever ht (.inr ⟨_, rfl⟩)).elim
  | @leave u => exact .inl ⟨u, rfl⟩
  | exit => exact .inr rfl

/-- A step while thread `t` joins the pool. -/
theorem Stage.of_joining {i : Nat} (hout : P.outcome = none) (hsig : P.signalled = some t) (hstop : P.stopped = true)
    (hlen : P.threads.length = P.joinable.length + 1) (hsize : P.joinable.length ≤ P.size)
    (ht : P.threads[t]? = some (.joining i)) (hi : i ≤ P.joinable.length)
    (hjoin : ∀ j, i ≤ j → j < P.joinable.length → P.joinable[j]? = some true) (hbefore : t ≠ 0 → i < t)
    (hothers : ∀ (u : Nat) (x : Thread), u ≠ t → P.threads[u]? = some x → x.Serving) (hs : Stepped P e P') : Stage P' := by
  have hlt := (List.getElem?_eq_some_iff.1 ht).1
  -- Only `t` joins, and the main thread started the pool.
  have hself : ∀ {u j : Nat}, P.threads[u]? = some (.joining j) → u = t ∧ j = i := by
    intro u j hu
    by_cases h : u = t
    · subst h
      rw [ht] at hu
      exact ⟨rfl, (Thread.joining.inj (Option.some.inj hu)).symm⟩
    · rcases hothers u _ h hu with h | h | h <;> cases h
  have hmain : P.threads[0]? ≠ some .starting := by
    intro h
    by_cases h0 : 0 = t
    · rw [h0, ht] at h
      cases h
    · rcases hothers 0 _ h0 h with h | h | h <;> cases h
  -- Another thread goes.
  have hset : ∀ {u : Nat} {x : Thread}, P.threads[u]? = some x → x ≠ .joining i → Stage (P.setThread u .returned) := by
    intro u x hu hx
    have hne : u ≠ t := by
      rintro rfl
      rw [ht] at hu
      exact hx (Option.some.inj hu).symm
    refine .joining t i hout hsig hstop ((List.length_set ..).trans hlen) hsize ?_ hi hjoin hbefore fun v x hv hx => ?_
    · exact (List.getElem?_set_ne hne).trans ht
    · rcases set_cases hx with ⟨-, rfl⟩ | ⟨-, hx⟩
      · exact .inr (.inr rfl)
      · exact hothers v x hv hx
  have hstay : ∀ (u : Nat) (x : Thread), (P.threads.set t .returned)[u]? = some x → x.Serving :=
    serving_set hothers (.inr (.inr rfl))
  cases hs with
  | pushBack _ h | started _ h => exact absurd h hmain
  | dispatch _ h => rw [hstop] at h; cases h
  | done hu =>
    unfold loop
    rw [hstop]
    exact hset hu nofun
  | signal _ h => rw [hsig] at h; cases h
  | @clear u j hu hnone =>
    obtain ⟨rfl, rfl⟩ := hself hu
    have hend := List.getElem?_eq_none_iff.1 hnone
    obtain rfl : u = 0 := by
      by_contra hne
      have := hbefore hne
      omega
    unfold loop
    rw [hstop]
    exact .joined hout hsig rfl rfl ((List.length_set ..).symm ▸ hlt) hstay
  | @refused u j b hu hj h =>
    obtain ⟨rfl, rfl⟩ := hself hu
    have htrue := hjoin j (Nat.le_refl _) (List.getElem?_eq_some_iff.1 hj).1
    have hpool : u ≠ 0 := by
      rcases h with rfl | h
      · rw [htrue] at hj
        cases hj
      · omega
    unfold loop
    rw [hstop]
    exact .refused u hout hsig hstop hpool (List.mem_of_getElem? htrue) (by simp [setThread]; omega) hstay
  | @joined u j hu hj hne hr =>
    obtain ⟨rfl, rfl⟩ := hself hu
    have hj' := (List.getElem?_eq_some_iff.1 hj).1
    refine .joining u (j + 1) hout hsig hstop (by simpa using hlen) (by simpa using hsize)
      (List.getElem?_set_self hlt) (by simpa using Nat.succ_le_of_lt hj') ?_ (fun h => by have := hbefore h; omega) ?_
    · intro k hk hk'
      rw [List.getElem?_set_ne (by omega)]
      exact hjoin k (by omega) (by simpa using hk')
    · intro v x hv hx
      rw [List.getElem?_set_ne (Ne.symm hv)] at hx
      exact hothers v x hv hx
  | leave hu => exact hset hu nofun
  | exit hmain =>
    have hpool : t ≠ 0 := by
      rintro rfl
      rw [ht] at hmain
      cases hmain
    have hleft : true ∈ P.joinable := by
      have := hbefore hpool
      exact List.mem_of_getElem? (hjoin (t - 1) (by omega) (by omega))
    refine .ended _ rfl ?_
    rw [if_pos hleft, hsig]
    exact ⟨nofun, fun h => absurd (Option.some.inj h) hpool⟩

theorem Stage.step (h : Stage P) (hs : P.step e = some P') : Stage P' := by
  obtain ⟨hnone, hs⟩ := step_cases hs
  cases h with
  | serving hout hsig hstop hlen hjoin hsize hthreads => exact of_serving hout hsig hstop hlen hjoin hsize hthreads hs
  | joining t i hout hsig hstop hlen hsize ht hi hjoin hbefore hothers =>
    exact of_joining hout hsig hstop hlen hsize ht hi hjoin hbefore hothers hs
  | refused t hout hsig hstop hpool hleft hmain hthreads =>
    rcases hs.leaves hstop hsig hthreads with ⟨u, rfl⟩ | rfl
    · exact .refused t hout hsig hstop hpool hleft ((List.length_set ..).symm ▸ hmain)
        (serving_set (fun u x _ => hthreads u x) (.inr (.inr rfl)))
    · refine .ended _ rfl ?_
      rw [if_pos hleft, hsig]
      exact ⟨nofun, fun h => absurd (Option.some.inj h) hpool⟩
  | joined hout hsig hstop hjoin hmain hthreads =>
    rcases hs.leaves hstop hsig hthreads with ⟨u, rfl⟩ | rfl
    · exact .joined hout hsig hstop hjoin ((List.length_set ..).symm ▸ hmain)
        (serving_set (fun u x _ => hthreads u x) (.inr (.inr rfl)))
    · refine .ended _ rfl ?_
      rw [hjoin, hsig]
      exact ⟨fun _ => rfl, fun _ => rfl⟩
  | ended o hout => rw [hout] at hnone; cases hnone

theorem Reachable.stage {size : Nat} (h : (system size).Reachable P) : Stage P :=
  h.inv Stage (Stage.init size) fun _ _ _ hi hs => hi.step hs

/-! ## No deadlock -/

/-- A thread of the service can always go on. -/
theorem Serving.progress {u : Nat} {x : Thread} (hout : P.outcome = none) (hstop : P.stopped = true) (hx : P.threads[u]? = some x)
    (h : x.Serving) : x = .returned ∨ ∃ e, P.step e ≠ none := by
  rcases h with rfl | rfl | rfl
  · exact .inr ⟨.leave u, by simp [Process.step, hout, hx, hstop]⟩
  · exact .inr ⟨.done u, by simp [Process.step, hout, hx]⟩
  · exact .inl rfl

theorem Stage.progress (h : Stage P) (hout : P.outcome = none) : ∃ e, P.step e ≠ none := by
  -- The main thread is somewhere.
  have hmain : 0 < P.threads.length → ∃ x, P.threads[0]? = some x := fun h => ⟨_, List.getElem?_eq_getElem h⟩
  have hexit : P.threads[0]? = some .returned → ∃ e, P.step e ≠ none := fun h =>
    ⟨.exit, by simp [Process.step, hout, h]⟩
  cases h with
  | serving _ hsig hstop hlen _ _ hthreads =>
    obtain ⟨x, hx⟩ := hmain (by omega)
    rcases hthreads 0 x hx with rfl | rfl | ⟨rfl, -⟩
    · exact ⟨.dispatch 0, by simp [Process.step, hout, hx, hstop]⟩
    · exact ⟨.done 0, by simp [Process.step, hout, hx]⟩
    · exact ⟨.start false, by simp [Process.step, hout, hx]; split <;> nofun⟩
  | joining t i _ _ hstop hlen _ ht _ hjoin _ hothers =>
    cases hi : P.joinable[i]? with
    | none => exact ⟨.join t, by simp [Process.step, hout, ht, join, hi]⟩
    | some b =>
      have hlt := (List.getElem?_eq_some_iff.1 hi).1
      obtain rfl : b = true := by
        rw [hjoin i (Nat.le_refl _) hlt] at hi
        exact (Option.some.inj hi).symm
      by_cases hne : i + 1 = t
      · exact ⟨.join t, by simp [Process.step, hout, ht, join, hi, hne]⟩
      · -- The thread that is joined comes behind its loop.
        have hx : P.threads[i + 1]? = some P.threads[i + 1] := List.getElem?_eq_getElem (by omega)
        rcases Serving.progress hout hstop hx (hothers (i + 1) _ hne hx) with hr | h
        · rw [hr] at hx
          exact ⟨.join t, by simp [Process.step, hout, ht, join, hi, hne, hx]⟩
        · exact h
  | refused _ _ _ hstop _ _ hlen hthreads | joined _ _ hstop _ hlen hthreads =>
    obtain ⟨x, hx⟩ := hmain hlen
    rcases Serving.progress hout hstop hx (hthreads 0 x hx) with rfl | h
    · exact hexit hx
    · exact h
  | ended o h => rw [h] at hout; cases hout

/-! ## The program ends -/

/-- What a thread has to do behind the signal. -/
def weight (size : Nat) : Thread → Nat
  | .starting | .running | .handling => 1
  | .joining i => size + 1 - i
  | .returned => 0

def left (P : Process) : Nat := (P.threads.map (weight P.size)).sum + if P.outcome = none then 1 else 0

/-- What a stage behind the signal says about a thread. -/
theorem Stage.signalled (h : Stage P) (hsig : P.signalled ≠ none) (hout : P.outcome = none) :
    P.stopped = true ∧ ∀ (u : Nat) (x : Thread), P.threads[u]? = some x →
      x.Serving ∨ ∃ i, x = .joining i ∧ i ≤ P.joinable.length ∧ P.joinable.length ≤ P.size := by
  cases h with
  | serving _ h => exact absurd h hsig
  | joining t i _ _ hstop _ hsize ht hi _ _ hothers =>
    refine ⟨hstop, fun u x hx => ?_⟩
    by_cases hu : u = t
    · subst hu
      rw [ht] at hx
      exact .inr ⟨i, (Option.some.inj hx).symm, hi, hsize⟩
    · exact .inl (hothers u x hu hx)
  | refused _ _ _ hstop _ _ _ hthreads | joined _ _ hstop _ _ hthreads => exact ⟨hstop, fun u x hx => .inl (hthreads u x hx)⟩
  | ended o h => rw [h] at hout; cases hout

theorem left_set {x y : Thread} (hx : P.threads[t]? = some x) (hlt : weight P.size y < weight P.size x) (joinable : List Bool) :
    ({ P with joinable := joinable, threads := P.threads.set t y }).left < P.left := by
  have hsum := sum_map_set (f := weight P.size) hx y
  unfold left
  dsimp only
  omega

/-- Behind the signal every step leaves less to do. -/
theorem Stage.left_lt (h : Stage P) (hsig : P.signalled ≠ none) (hs : P.step e = some P') : P'.left < P.left := by
  obtain ⟨hout, hs⟩ := step_cases hs
  obtain ⟨hstop, hthreads⟩ := h.signalled hsig hout
  have hloop : ∀ {u : Nat} {x : Thread} (joinable : List Bool), P.threads[u]? = some x → 0 < weight P.size x →
      ({ P with joinable := joinable }.loop u).left < P.left := by
    intro u x joinable hx hpos
    unfold loop
    rw [hstop]
    exact left_set (y := .returned) hx hpos joinable
  have hjoining : ∀ {u i : Nat}, P.threads[u]? = some (.joining i) → i ≤ P.joinable.length ∧ P.joinable.length ≤ P.size := by
    intro u i hu
    rcases hthreads u _ hu with (h | h | h) | ⟨j, h, hj⟩
    · cases h
    · cases h
    · cases h
    · cases h
      exact hj
  have hpos : ∀ {u i : Nat}, P.threads[u]? = some (.joining i) → 0 < weight P.size (.joining i) := by
    intro u i hu
    have := hjoining hu
    simp only [weight]
    omega
  cases hs with
  | pushBack _ hmain | started _ hmain => rcases hthreads 0 _ hmain with (h | h | h) | ⟨i, h, -⟩ <;> cases h
  | dispatch _ h => rw [hstop] at h; cases h
  | done hu => exact hloop P.joinable hu Nat.one_pos
  | signal _ h => exact absurd h hsig
  | clear hu => exact hloop [] hu (hpos hu)
  | refused hu => exact hloop P.joinable hu (hpos hu)
  | @joined u i hu hi =>
    have := (List.getElem?_eq_some_iff.1 hi).1
    have := hjoining hu
    refine left_set hu ?_ _
    simp only [weight]
    omega
  | leave hu => exact left_set (y := .returned) hu Nat.one_pos P.joinable
  | exit =>
    unfold left
    simp [hout]

theorem step_signalled (hs : P.step e = some P') (hsig : P.signalled ≠ none) : P'.signalled ≠ none := by
  obtain ⟨-, hs⟩ := step_cases hs
  cases hs with
  | pushBack throws =>
    unfold pushBack
    cases throws <;> exact hsig
  | signal _ h => exact absurd h hsig
  | started | dispatch | done | clear | refused | joined | leave | exit => exact hsig

/-- The threads of the client never wait for each other for ever. Behind the signal they come to an
end, and the program ends as it should if and only if the main thread got the signal. -/
theorem ends_cleanly_iff {size : Nat} (h : (system size).Reachable P) :
    (P.outcome = none → ∃ e, P.step e ≠ none) ∧
    (P.signalled ≠ none → ¬ (system size).Endless (fun _ _ => True) P) ∧
    (P.outcome ≠ none → (P.outcome = some .finished ↔ P.signalled = some 0)) := by
  have hstage := Reachable.stage h
  refine ⟨hstage.progress, fun hsig => ?_, fun hout => ?_⟩
  · refine System.not_endless left (fun P => Stage P ∧ P.signalled ≠ none) ?_ ⟨hstage, hsig⟩
    rintro P e P' ⟨hP, hsig⟩ - hs
    exact ⟨⟨hP.step hs, step_signalled hs hsig⟩, hP.left_lt hsig hs⟩
  · cases hstage with
    | serving h | joining _ _ h | refused _ h | joined h => exact absurd h hout
    | ended o h hfin => rw [h, Option.some.injEq, hfin]

/-- A thread of the pool gets the signal: it joins the one before it, and then itself. -/
def pooled : List Event :=
  [.start false, .start false, .start false, .start false, .start false, .dispatch 0, .signal 2, .leave 1, .join 2, .join 2,
    .done 0, .exit]

theorem ends_cleanly_iff_pooled : ∃ P, (system 4).Run pooled P ∧ P.outcome = some .terminated ∧ P.outcome ≠ some .finished ∧
    P.signalled = some 2 := by
  obtain ⟨P, hrun, hout, hsig⟩ := System.Run.exists_of_exec (system 4) pooled
    (fun P => P.outcome = some .terminated ∧ P.signalled = some 2) (by decide +kernel)
  have hiff := (ends_cleanly_iff (System.Run.reachable hrun)).2.2 (by rw [hout]; exact nofun)
  exact ⟨P, hrun, hout, hiff.not.2 (by rw [hsig]; decide), hsig⟩

end Process
end Zar
