import Zar.Communication.Endpoints
import Mathlib.Algebra.GroupWithZero.Nat
import Mathlib.Algebra.BigOperators.Group.List.Basic
import Mathlib.Data.Prod.Lex
/-!
# How a connect request ends

The steps behind a request come to an end: a retry goes on from the endpoint behind the
one that its `async_connect` started from. With a connect handler the last step calls it,
once, and without an error exactly if an attempt succeeded.
-/

namespace Zar

/-- The steps of an `async_connect` of `n` endpoints, and of those that retry behind it. -/
def AsyncConnect.cost : Nat → Nat
  | 0 => 0
  | n + 1 => n + 2 + cost n

/-- The steps that are left of an `async_connect`. -/
def AsyncConnect.work (connect : AsyncConnect) : Nat :=
  connect.untried.length + 1 + cost (connect.iterator.length - 1)

theorem AsyncConnect.start_work {iterator : List Endpoint} (h : iterator ≠ []) (connected : Bool) :
    (⟨iterator, iterator, connected⟩ : AsyncConnect).work = cost iterator.length := by
  obtain ⟨endpoint, next, rfl⟩ := List.exists_cons_of_ne_nil h
  simp only [work, List.length_cons, Nat.add_sub_cancel, cost]

namespace Connector

variable {c c' : Connector} {e : Event} {es : List Event} {strand : Bool}

def Event.isConnect : Event → Bool
  | .connect _ _ => true
  | .asioResolve | .resolved _ _ | .attempt _ _ | .connected _ => false

def Event.isResolved : Event → Bool
  | .resolved _ _ => true
  | .connect _ _ | .asioResolve | .attempt _ _ | .connected _ => false

/-- What follows a request: a resolve that succeeds has endpoints. -/
def Own (c : Connector) (e : Event) : Prop := e.isConnect = false ∧ c.Listed e

instance (c : Connector) (e : Event) : Decidable (c.Own e) := inferInstanceAs (Decidable (e.isConnect = false ∧ c.Listed e))

/-- The steps that the result of a resolve brings. -/
def Event.cost : Event → Nat
  | .resolved _ (some endpoints) => AsyncConnect.cost endpoints.length
  | .resolved _ none | .connect _ _ | .asioResolve | .attempt _ _ | .connected _ => 0

/-- The steps that are left. -/
def work (c : Connector) : Nat := 2 * c.posted.length + c.resolves.length + (c.connects.map (·.work)).sum

/-- The resolves that are left, and the steps behind them. -/
def rank (c : Connector) : Nat ×ₗ Nat := toLex (2 * c.posted.length + c.resolves.length, c.work)

/-! ## What a step costs -/

@[simp] theorem callHandler_work (c : Connector) (error : Bool) : (c.callHandler error).work = c.work := by
  unfold callHandler
  split <;> rfl

theorem asioConnect_work (c : Connector) {iterator : List Endpoint} (h : iterator ≠ []) :
    (c.asioConnect iterator).work = c.work + AsyncConnect.cost iterator.length := by
  simp only [work, asioConnect, List.map_append, List.map_singleton, List.sum_append, List.sum_singleton,
    AsyncConnect.start_work h]
  omega

/-- A request is posted, and resolved. -/
theorem connect_work (hu : c.unfinished = 0) (hostname service : Bytes) : (c.connect hostname service).work ≤ 2 := by
  obtain ⟨hp, hr, hc⟩ := unfinished_eq_zero.1 hu
  unfold connect
  split
  · simp [work, hp, hr, hc]
  · simp [work, asioResolve, hp, hr, hc]

theorem Own.work_lt (hl : c.InList) (ho : c.Own e) (hs : c.step e = some c') : c'.work + 1 ≤ c.work + e.cost := by
  cases e with
  | connect => exact absurd ho.1 (by simp [Event.isConnect])
  | asioResolve =>
    cases step_cases hs with | asioResolve hp =>
    simp only [work, asioResolve, hp, List.length_append, List.length_cons, List.length_nil]
    omega
  | resolved i endpoints =>
    cases step_cases hs with | resolved _ hlt =>
    have herase : ({ c with resolves := c.resolves.eraseIdx i }).work + 1 = c.work := by
      simp only [work, List.length_eraseIdx_of_lt hlt]
      omega
    cases endpoints with
    | none =>
      have hh : c.handler = true := ho.2
      simp only [asioResolveHandler, Option.isNone_none, hh, Bool.and_true, if_true, callHandler_work]
      exact Nat.le_trans (Nat.le_of_eq herase) (Nat.le_add_right _ _)
    | some endpoints =>
      have hne : endpoints ≠ [] := ho.2
      simp only [asioResolveHandler, Option.isNone_some, Bool.false_and, Bool.false_eq_true, if_false, Option.getD_some,
        asioConnect_work _ hne, Event.cost]
      omega
  | attempt i success =>
    obtain ⟨connect, endpoint, untried, hi, -, hu, rfl⟩ := attempt_next hs
    have hlt := (List.getElem?_eq_some_iff.1 hi).1
    have herase := ((perm_eraseIdx hi).map (·.work)).sum_eq
    have hset := ((List.set_perm_cons_eraseIdx hlt { connect with untried := untried, connected := success }).map
      (·.work)).sum_eq
    have hwork : connect.work = ({ connect with untried := untried, connected := success } : AsyncConnect).work + 1 := by
      simp only [AsyncConnect.work, hu, List.length_cons]
      omega
    rw [List.map_cons, List.sum_cons] at herase hset
    simp only [work, Event.cost]
    omega
  | connected i =>
    obtain ⟨connect, hi, -, rfl⟩ := connected_end hs
    have herase : ({ c with connects := c.connects.eraseIdx i }).work + connect.work = c.work := by
      have hsum := ((perm_eraseIdx hi).map (·.work)).sum_eq
      rw [List.map_cons, List.sum_cons] at hsum
      simp only [work]
      omega
    have hpos : 1 ≤ connect.work := by
      simp only [AsyncConnect.work]
      omega
    have hne : connect.iterator ≠ [] := by
      intro h
      exact hl.iterator (h ▸ List.mem_map_of_mem (List.mem_of_getElem? hi))
    rcases asioConnectHandler_cases { c with connects := c.connects.eraseIdx i } (!connect.connected) connect.iterator with
      ⟨-, he⟩ | ⟨-, h, he⟩ | ⟨-, -, he⟩ | ⟨-, endpoint, next, h, hnext, he⟩ <;> rw [he]
    · rw [callHandler_work]
      omega
    · exact absurd h hne
    · rw [callHandler_work]
      omega
    · -- The retry was paid for by the `async_connect` that ended.
      have hle : AsyncConnect.cost next.length + 1 ≤ connect.work := by
        simp only [AsyncConnect.work, h, List.length_cons, Nat.add_sub_cancel]
        omega
      rw [asioConnect_work _ hnext]
      omega

/-- The handlers start no resolve. -/
theorem callHandler_queues (c : Connector) (error : Bool) :
    (c.callHandler error).posted = c.posted ∧ (c.callHandler error).resolves = c.resolves := by
  unfold callHandler
  split <;> exact ⟨rfl, rfl⟩

theorem asioResolveHandler_queues (c : Connector) (error : Bool) (iterator : List Endpoint) :
    (c.asioResolveHandler error iterator).posted = c.posted ∧ (c.asioResolveHandler error iterator).resolves = c.resolves := by
  unfold asioResolveHandler
  split
  · exact callHandler_queues c error
  · exact ⟨rfl, rfl⟩

theorem asioConnectHandler_queues (c : Connector) (error : Bool) (iterator : List Endpoint) :
    (c.asioConnectHandler error iterator).posted = c.posted ∧ (c.asioConnectHandler error iterator).resolves = c.resolves := by
  rcases asioConnectHandler_cases c error iterator with
    ⟨-, he⟩ | ⟨-, -, he⟩ | ⟨-, -, he⟩ | ⟨-, endpoint, next, -, -, he⟩ <;> rw [he]
  · exact callHandler_queues c false
  · exact ⟨rfl, rfl⟩
  · exact callHandler_queues c true
  · exact ⟨rfl, rfl⟩

/-- A request goes from the strand to the resolver, and from there to the attempts. -/
theorem Own.queues (ho : c.Own e) (hs : c.step e = some c') :
    e.isResolved = false ∧ c.posted.length = c'.posted.length + 1 ∧ c'.resolves.length = c.resolves.length + 1 ∨
    e.isResolved = true ∧ c'.posted = c.posted ∧ c.resolves.length = c'.resolves.length + 1 ∨
    e.isResolved = false ∧ c'.posted = c.posted ∧ c'.resolves = c.resolves ∧ e.cost = 0 := by
  cases e with
  | connect => exact absurd ho.1 (by simp [Event.isConnect])
  | asioResolve =>
    cases step_cases hs with | asioResolve hp =>
    exact .inl ⟨rfl, by simp [asioResolve, hp], by simp [asioResolve]⟩
  | resolved i endpoints =>
    cases step_cases hs with | resolved _ hlt =>
    obtain ⟨hposted, hresolves⟩ := asioResolveHandler_queues { c with resolves := c.resolves.eraseIdx i } endpoints.isNone
      (endpoints.getD [])
    refine .inr (.inl ⟨rfl, hposted, ?_⟩)
    rw [hresolves, List.length_eraseIdx_of_lt hlt]
    omega
  | attempt i success =>
    obtain ⟨connect, endpoint, untried, -, -, -, rfl⟩ := attempt_next hs
    exact .inr (.inr ⟨rfl, rfl, rfl, rfl⟩)
  | connected i =>
    obtain ⟨connect, -, -, rfl⟩ := connected_end hs
    obtain ⟨hposted, hresolves⟩ := asioConnectHandler_queues { c with connects := c.connects.eraseIdx i } (!connect.connected)
      connect.iterator
    exact .inr (.inr ⟨rfl, hposted, hresolves, rfl⟩)

/-- A request is resolved once. -/
theorem Own.resolved_once (ho : c.Own e) (hs : c.step e = some c') :
    c'.posted.length + c'.resolves.length + [e].countP Event.isResolved = c.posted.length + c.resolves.length := by
  rw [List.countP_singleton]
  rcases ho.queues hs with ⟨he, hp, hr⟩ | ⟨he, hp, hr⟩ | ⟨he, hp, hr, -⟩
  · rw [he]
    simp only [Bool.false_eq_true, if_false]
    omega
  · rw [he, hp]
    simp only [if_true]
    omega
  · rw [he, hp, hr]
    rfl

/-- So the steps come to an end, whatever the resolves bring. -/
theorem Own.rank_lt (hl : c.InList) (ho : c.Own e) (hs : c.step e = some c') : c'.rank < c.rank := by
  unfold rank
  rw [Prod.Lex.toLex_lt_toLex]
  rcases ho.queues hs with ⟨-, hp, hr⟩ | ⟨-, hp, hr⟩ | ⟨-, hp, hr, hcost⟩
  · left
    omega
  · rw [hp]
    left
    omega
  · have hlt := ho.work_lt hl hs
    rw [hcost] at hlt
    exact .inr ⟨by rw [hp, hr], by omega⟩

/-! ## Calls without an error -/

/-- Each attempt that succeeded was reported, or will be. -/
def Answers (c : Connector) : Prop := c.calls.count false + c.connects.countP (·.connected) = c.attempts.countP (·.2)

theorem callHandler_calls (hh : c.handler = true) (error : Bool) :
    c.callHandler error = { c with calls := c.calls ++ [error] } := by
  rw [callHandler, if_pos hh]

/-- Behind an attempt that failed nothing that is reported is a success. -/
theorem Answers.failed (hh : c.handler = true) (h : c.Answers) (iterator : List Endpoint) :
    (c.callHandler true).Answers ∧ (c.asioConnect iterator).Answers := by
  constructor
  · rw [callHandler_calls hh]
    simpa [Answers] using h
  · simpa [Answers, asioConnect] using h

theorem Answers.step (hh : c.handler = true) (h : c.Answers) (hs : c.step e = some c') : c'.Answers := by
  cases e with
  | connect hostname service =>
    cases hs
    unfold Connector.connect
    split <;> exact h
  | asioResolve =>
    cases step_cases hs with | asioResolve =>
    exact h
  | resolved i endpoints =>
    cases step_cases hs with | resolved =>
    have hfailed := Answers.failed (c := { c with resolves := c.resolves.eraseIdx i }) hh h (endpoints.getD [])
    unfold asioResolveHandler
    split
    · rename_i he
      rw [(Bool.and_eq_true_iff.1 he).1]
      exact hfailed.1
    · exact hfailed.2
  | attempt i success =>
    obtain ⟨connect, endpoint, untried, hi, hc, -, rfl⟩ := attempt_next hs
    have hlt := (List.getElem?_eq_some_iff.1 hi).1
    have herase := (perm_eraseIdx hi).countP_eq (·.connected)
    have hset := (List.set_perm_cons_eraseIdx hlt { connect with untried := untried, connected := success }).countP_eq
      (·.connected)
    simp only [List.countP_cons, hc, Bool.false_eq_true, if_false] at herase hset
    simp only [Answers, List.countP_append, List.countP_singleton] at h ⊢
    omega
  | connected i =>
    obtain ⟨connect, hi, -, rfl⟩ := connected_end hs
    have herase := (perm_eraseIdx hi).countP_eq (·.connected)
    cases hc : connect.connected with
    | true =>
      simp only [List.countP_cons, hc, if_true] at herase
      simp only [asioConnectHandler, Bool.not_true, Bool.not_false, if_true]
      rw [callHandler_calls (c := { c with connects := c.connects.eraseIdx i }) hh]
      simp only [Answers, List.count_append, List.count_singleton_self] at h ⊢
      omega
    | false =>
      simp only [List.countP_cons, hc, Bool.false_eq_true, if_false] at herase
      have h' : Answers { c with connects := c.connects.eraseIdx i } := by
        simp only [Answers] at h ⊢
        omega
      have hfailed := Answers.failed (c := { c with connects := c.connects.eraseIdx i }) hh h'
      rcases asioConnectHandler_cases { c with connects := c.connects.eraseIdx i } true connect.iterator with
        ⟨h, -⟩ | ⟨-, -, he⟩ | ⟨-, -, he⟩ | ⟨-, endpoint, next, -, -, he⟩
      · cases h
      · rw [Bool.not_false, he]
        exact h'
      · rw [Bool.not_false, he]
        exact (hfailed []).1
      · rw [Bool.not_false, he]
        exact (hfailed next).2

/-! ## What all requests have -/

/-- What holds of a connector with a connect handler whose resolves bring endpoints. -/
structure Sound (c : Connector) : Prop where
  handler : c.handler = true
  bound : c.Bound
  inList : c.InList
  answers : c.Answers

theorem Sound.step (h : c.Sound) (ho : c.Listed e) (hs : c.step e = some c') : c'.Sound where
  handler := (step_kept hs).handler.trans h.handler
  bound := h.bound.step hs
  inList := (h.bound.inList hs).2 ⟨h.inList, ho⟩
  answers := h.answers.step h.handler hs

theorem RunIf.sound (h : (system strand true).RunIf Listed es c) : c.Sound :=
  h.inv Sound ⟨rfl, fun connect hm => by simp [system] at hm, ⟨rfl, by simp [system]⟩, rfl⟩
    fun _ _ _ hi ho hs => hi.step ho hs

/-- A request is unfinished until the handler is called for it. -/
theorem Sound.requests (h : c.Sound) (ho : c.Listed e) (hs : c.step e = some c') :
    c'.calls.length + c'.unfinished = c.calls.length + c.unfinished + [e].countP Event.isConnect := by
  by_cases he : ∃ hostname service, e = .connect hostname service
  · obtain ⟨hostname, service, rfl⟩ := he
    cases hs
    simp [Event.isConnect, Nat.add_assoc]
  · have hn : e.isConnect = false := by
      cases e with
      | connect hostname service => exact absurd ⟨hostname, service, rfl⟩ he
      | asioResolve | resolved | attempt | connected => rfl
    have hend := (h.step ho hs).inList.passedEnd
    rw [List.countP_singleton, hn]
    rcases step_requests hs fun hostname service h => he ⟨hostname, service, h⟩ with
      ⟨hc, hu, -⟩ | ⟨⟨error, hc⟩, hu, -⟩ | ⟨-, -, hp⟩
    · rw [hc, hu]
      rfl
    · rw [hc, List.length_append, List.length_singleton]
      simp only [Bool.false_eq_true, if_false]
      omega
    · exact absurd (hp h.handler) (by simp [hend])

/-- The history only grows. -/
theorem step_grows (hs : c.step e = some c') : c.calls <+: c'.calls ∧ c.attempts <+: c'.attempts := by
  have hcall : ∀ (x : Connector) (error : Bool), x.calls <+: (x.callHandler error).calls ∧
      x.attempts <+: (x.callHandler error).attempts := by
    intro x error
    unfold callHandler
    split
    · exact ⟨List.prefix_append _ _, List.prefix_refl _⟩
    · exact ⟨List.prefix_refl _, List.prefix_refl _⟩
  cases step_cases hs with
  | connect hostname service =>
    unfold connect
    split <;> exact ⟨List.prefix_refl _, List.prefix_refl _⟩
  | asioResolve => exact ⟨List.prefix_refl _, List.prefix_refl _⟩
  | @resolved i endpoints =>
    unfold asioResolveHandler
    split
    · exact hcall { c with resolves := c.resolves.eraseIdx i } _
    · exact ⟨List.prefix_refl _, List.prefix_refl _⟩
  | attempt => exact ⟨List.prefix_refl _, List.prefix_append _ _⟩
  | @connected i connect =>
    rcases asioConnectHandler_cases { c with connects := c.connects.eraseIdx i } (!connect.connected) connect.iterator with
      ⟨-, he⟩ | ⟨-, -, he⟩ | ⟨-, -, he⟩ | ⟨-, endpoint, next, -, -, he⟩ <;> rw [he]
    · exact hcall { c with connects := c.connects.eraseIdx i } _
    · exact ⟨List.prefix_refl _, List.prefix_refl _⟩
    · exact hcall { c with connects := c.connects.eraseIdx i } _
    · exact ⟨List.prefix_refl _, List.prefix_refl _⟩

/-- While a request is unfinished something can happen. -/
theorem rest_iff (hh : c.handler = true) : (system strand true).Rest Own c ↔ c.unfinished = 0 := by
  constructor
  · intro hrest
    have hposted : c.posted = [] := by
      cases hp : c.posted with
      | nil => rfl
      | cons q qs =>
        have h := hrest .asioResolve ⟨rfl, trivial⟩
        simp [system, step, hp] at h
    have hresolves : c.resolves = [] := by
      cases hr : c.resolves with
      | nil => rfl
      | cons q qs =>
        have h := hrest (.resolved 0 none) ⟨rfl, hh⟩
        simp [system, step, hr] at h
    have hconnects : c.connects = [] := by
      cases hc : c.connects with
      | nil => rfl
      | cons connect connects =>
        have hend := hrest (.connected 0) ⟨rfl, trivial⟩
        have hnext := hrest (.attempt 0 false) ⟨rfl, trivial⟩
        cases hu : connect.untried with
        | nil => simp [system, step, hc, hu] at hend
        | cons endpoint untried =>
          cases hconn : connect.connected with
          | true => simp [system, step, hc, hconn] at hend
          | false => simp [system, step, hc, hu, hconn] at hnext
    exact unfinished_eq_zero.2 ⟨hposted, hresolves, hconnects⟩
  · intro hu e ho
    obtain ⟨hp, hr, hc⟩ := unfinished_eq_zero.1 hu
    cases e with
    | connect => exact absurd ho.1 (by simp [Event.isConnect])
    | asioResolve => simp [system, step, hp]
    | resolved => simp [system, step, hr]
    | attempt | connected => simp [system, step, hc]

/-! ## The main result -/

/-- A request that is alone: the handler is called once, for what its attempts did. -/
theorem Sound.alone (h : c.Sound) (hu : c.unfinished = 0) (hostname service : Bytes)
    (hs : (system strand true).Steps Own (c.connect hostname service) es c') :
    ∃ tried, c'.attempts = c.attempts ++ tried ∧
      (c'.calls = c.calls ∧ c'.unfinished = 1 ∨
        ∃ error, c'.calls = c.calls ++ [error] ∧ c'.unfinished = 0 ∧ (error = false ↔ ∃ endpoint, (endpoint, true) ∈ tried)) := by
  have hconnect : c.step (.connect hostname service) = some (c.connect hostname service) := rfl
  have hgrows := step_grows hconnect
  have hrun : c'.Sound ∧ c'.calls.length + c'.unfinished = c.calls.length + 1 ∧ c.calls <+: c'.calls ∧
      c.attempts <+: c'.attempts := by
    refine hs.inv (fun x : Connector => x.Sound ∧ x.calls.length + x.unfinished = c.calls.length + 1 ∧
      c.calls <+: x.calls ∧ c.attempts <+: x.attempts)
      ⟨h.step (e := .connect hostname service) trivial hconnect, by simp [hu], hgrows.1, hgrows.2⟩ ?_
    rintro x e x' ⟨hx, hcount, hcalls, hattempts⟩ ho hstep
    have hrequests := hx.requests ho.2 hstep
    have hgrows := step_grows hstep
    rw [List.countP_singleton, ho.1] at hrequests
    exact ⟨hx.step ho.2 hstep, hrequests.trans hcount, hcalls.trans hgrows.1, hattempts.trans hgrows.2⟩
  obtain ⟨hsound, hcount, ⟨new, hnew⟩, ⟨tried, htried⟩⟩ := hrun
  refine ⟨tried, htried.symm, ?_⟩
  -- The request is unfinished, or one call was made for it.
  rw [← hnew, List.length_append] at hcount
  have hanswers := h.answers
  have hanswers' := hsound.answers
  cases new with
  | nil =>
    rw [List.length_nil] at hcount
    exact .inl ⟨by rw [← hnew, List.append_nil], by omega⟩
  | cons error new =>
    rw [List.length_cons] at hcount
    obtain rfl : new = [] := List.length_eq_zero_iff.1 (by omega)
    have hu' : c'.unfinished = 0 := by omega
    refine .inr ⟨error, hnew.symm, hu', ?_⟩
    -- Nothing is outstanding before and behind the request, so the call stands for its attempts.
    rw [Answers, (unfinished_eq_zero.1 hu).2.2, List.countP_nil] at hanswers
    rw [Answers, (unfinished_eq_zero.1 hu').2.2, ← hnew, ← htried, List.count_append, List.countP_append, List.countP_nil] at hanswers'
    have hone : [error].count false = tried.countP (·.2) := by omega
    have hpos : (∃ endpoint, (endpoint, true) ∈ tried) ↔ 0 < tried.countP (·.2) := by
      rw [List.countP_pos_iff]
      constructor
      · rintro ⟨endpoint, hm⟩
        exact ⟨_, hm, rfl⟩
      · rintro ⟨⟨endpoint, success⟩, hm, rfl⟩
        exact ⟨endpoint, hm⟩
    rw [hpos, ← hone]
    cases error <;> simp

/-- The steps that are taken are paid by the requests and by the results of the resolves. -/
theorem Sound.steps_le (h : c.Sound) (hs : (system strand true).Steps Own c es c') :
    es.length + c'.work ≤ c.work + (es.map Event.cost).sum := by
  induction hs with
  | nil => simp
  | snoc hs ho hstep ih =>
    have hsound := hs.inv Sound h fun _ _ _ hx ho hstep => hx.step ho.2 hstep
    have hlt := ho.work_lt hsound.inList hstep
    simp only [List.length_append, List.length_singleton, List.map_append, List.map_singleton, List.sum_append,
      List.sum_singleton]
    omega

/-- A request that is alone is resolved at most once. -/
theorem resolves_le (hu : c.unfinished = 0) (hostname service : Bytes)
    (hs : (system strand true).Steps Own (c.connect hostname service) es c') : es.countP Event.isResolved ≤ 1 := by
  have hqueues : (c.connect hostname service).posted.length + (c.connect hostname service).resolves.length ≤ 1 := by
    obtain ⟨hp, hr, -⟩ := unfinished_eq_zero.1 hu
    unfold connect
    split <;> simp [asioResolve, hp, hr]
  have hcount : es.countP Event.isResolved + c'.posted.length + c'.resolves.length =
      (c.connect hostname service).posted.length + (c.connect hostname service).resolves.length := by
    induction hs with
    | nil => simp
    | snoc hs ho hstep ih =>
      have honce := ho.resolved_once hstep
      rw [List.countP_append]
      omega
  omega

/-- In every run of a connector with a connect handler whose resolves bring an error or an
endpoint: each request was answered by one call or is unfinished. Behind it the steps come to an
end, and only when no request is unfinished. A request that is alone is resolved at most once, and
its steps are bounded by the list that this brought. It then got exactly one call, without an error
exactly if one of its attempts succeeded, and nothing is outstanding. -/
theorem connects_once (h : (system strand true).RunIf Listed es c) :
    c.calls.length + c.unfinished = es.countP Event.isConnect ∧
    ¬ (system strand true).Endless Own c ∧
    (∃ es' c', (system strand true).Steps Own c es' c' ∧ (system strand true).Rest Own c') ∧
    (∀ es' c', (system strand true).Steps Own c es' c' →
      es'.length + c'.work ≤ c.work + (es'.map Event.cost).sum ∧
      ((system strand true).Rest Own c' ↔ c'.unfinished = 0)) ∧
    (c.unfinished = 0 → ∀ hostname service es' c',
      (system strand true).Steps Own (c.connect hostname service) es' c' →
      es'.countP Event.isResolved ≤ 1 ∧ es'.length ≤ 2 + (es'.map Event.cost).sum ∧
      ((system strand true).Rest Own c' ↔ c'.unfinished = 0) ∧
      ∃ tried, c'.attempts = c.attempts ++ tried ∧
        (c'.calls = c.calls ∧ c'.unfinished = 1 ∨
          ∃ error, c'.calls = c.calls ++ [error] ∧ c'.unfinished = 0 ∧
            (error = false ↔ ∃ endpoint, (endpoint, true) ∈ tried))) := by
  have hsound := RunIf.sound h
  have hkept : ∀ {x x' : Connector} {es'}, x.Sound → (system strand true).Steps Own x es' x' → x'.Sound :=
    fun hx hs => hs.inv Sound hx fun _ _ _ hx ho hstep => hx.step ho.2 hstep
  have hlt : ∀ x e x', Sound x → Own x e → (system strand true).step x e = some x' → x'.Sound ∧ x'.rank < x.rank :=
    fun x e x' hx ho hstep => ⟨hx.step ho.2 hstep, ho.rank_lt hx.inList hstep⟩
  refine ⟨?_, System.not_endless rank Sound hlt hsound, System.exists_rest rank Sound hlt hsound, ?_, ?_⟩
  · refine (h.inv_hist (fun es c => c.Sound ∧ c.calls.length + c.unfinished = es.countP Event.isConnect)
      ⟨RunIf.sound .nil, rfl⟩ ?_).2
    rintro es x e x' - ⟨hx, hcount⟩ ho hstep
    rw [List.countP_append, ← hcount]
    exact ⟨hx.step ho hstep, hx.requests ho hstep⟩
  · intro es' c' hs
    exact ⟨hsound.steps_le hs, rest_iff (hkept hsound hs).handler⟩
  · intro hu hostname service es' c' hs
    have hconnect : (c.connect hostname service).Sound := hsound.step (e := .connect hostname service) trivial rfl
    have hle := hconnect.steps_le hs
    have hwork := connect_work hu hostname service
    exact ⟨resolves_le hu hostname service hs, by omega, rest_iff (hkept hconnect hs).handler,
      hsound.alone hu hostname service hs⟩

/-- A resolve fails. The next one brings two endpoints: the first attempt fails, and the second one
succeeds. -/
theorem connects_once_second : ∃ c c', (system true true).RunIf Listed [.connect [120] [121], .asioResolve,
      .resolved 0 none] c ∧
    (system true true).Steps Own (c.connect [120] [121]) [.asioResolve, .resolved 0 (some [⟨1, 1⟩, ⟨2, 1⟩]),
      .attempt 0 false, .attempt 0 true, .connected 0] c' ∧
    c.calls = [true] ∧ c'.calls = [true, false] ∧ (system true true).Rest Own c' := by
  have hexec : (system true true).exec Listed (system true true).init [.connect [120] [121], .asioResolve,
      .resolved 0 none] = some _ := rfl
  have hrun := System.Steps.of_exec hexec
  have hexec' : (system true true).exec Own
      (connect { strand := true, handler := true, query := ([120], [121]), calls := [true] } [120] [121])
      [.asioResolve, .resolved 0 (some [⟨1, 1⟩, ⟨2, 1⟩]), .attempt 0 false, .attempt 0 true, .connected 0] = some _ := rfl
  have hsteps := System.Steps.of_exec hexec'
  exact ⟨_, _, hrun, hsteps, rfl, rfl, ((connects_once hrun).2.2.2.2 rfl _ _ _ _ hsteps).2.2.1.2 rfl⟩

end Connector
end Zar
