import Zar.Exception
import Zar.Lib.System
/-!
# The connector

`tconnector`: a name is resolved, and its endpoints are tried. `async_connect`
itself tries the endpoints from an iterator to the end, until one accepts. An
iterator is the list of the endpoints from it to the end.
-/

namespace Zar

/-- What a host name and a service resolve to. -/
structure Endpoint where
  address : UInt32
  port : UInt16
  deriving DecidableEq, Repr

/-- An outstanding `async_connect`: the iterator that its handler is bound to, and
how far it is. -/
structure AsyncConnect where
  iterator : List Endpoint
  untried : List Endpoint
  connected : Bool := false
  deriving DecidableEq, Repr

structure Connector where
  /-- Whether a strand is enabled. -/
  strand : Bool
  /-- Whether `connect_handler_` is set. -/
  handler : Bool
  query : Bytes × Bytes := ([], [])
  /-- The calls of `asio_resolve` that the strand still has to run. -/
  posted : List (Bytes × Bytes) := []
  resolves : List (Bytes × Bytes) := []
  connects : List AsyncConnect := []
  /-- Whether an iterator at the end was incremented. -/
  passedEnd : Bool := false
  -- The history: the errors that the handler was called with, and the attempts with their success.
  calls : List Bool := []
  attempts : List (Endpoint × Bool) := []
  deriving DecidableEq, Repr

namespace Connector

def callHandler (c : Connector) (error : Bool) : Connector := if c.handler then { c with calls := c.calls ++ [error] } else c

def asioConnect (c : Connector) (iterator : List Endpoint) : Connector :=
  { c with connects := c.connects ++ [⟨iterator, iterator, false⟩] }

def asioConnectHandler (c : Connector) (error : Bool) (iterator : List Endpoint) : Connector :=
  if !error then c.callHandler error
  else
    match iterator with
    | [] => { c with passedEnd := true }
    | _ :: iterator => if iterator = [] then c.callHandler error else c.asioConnect iterator

/-- With an error the iterator is the end. -/
def asioResolveHandler (c : Connector) (error : Bool) (iterator : List Endpoint) : Connector :=
  if error && c.handler then c.callHandler error else c.asioConnect iterator

def asioResolve (c : Connector) (hostname service : Bytes) : Connector :=
  { c with query := (hostname, service), resolves := c.resolves ++ [(hostname, service)] }

def connect (c : Connector) (hostname service : Bytes) : Connector :=
  if c.strand then { c with posted := c.posted ++ [(hostname, service)] } else c.asioResolve hostname service

/-! ## Steps -/

/-- What can happen to a connector. What is outstanding is numbered as it was started. -/
inductive Event where
  /-- A call from outside of the handlers. -/
  | connect (hostname service : Bytes)
  /-- The strand runs the first posted `asio_resolve`. -/
  | asioResolve
  /-- A resolve ends, with endpoints or with an error, and its handler runs. -/
  | resolved (i : Nat) (endpoints : Option (List Endpoint))
  /-- `async_connect` tries its next endpoint. -/
  | attempt (i : Nat) (success : Bool)
  /-- The handler of an `async_connect` that is complete runs. -/
  | connected (i : Nat)
  deriving DecidableEq, Repr

def step (c : Connector) : Event → Option Connector
  | .connect hostname service => some (c.connect hostname service)
  | .asioResolve =>
    match c.posted with
    | [] => none
    | (hostname, service) :: posted => some (({ c with posted := posted }).asioResolve hostname service)
  | .resolved i endpoints =>
    match c.resolves[i]? with
    | none => none
    | some _ =>
      some (({ c with resolves := c.resolves.eraseIdx i }).asioResolveHandler endpoints.isNone (endpoints.getD []))
  | .attempt i success =>
    match c.connects[i]? with
    | none => none
    | some connect =>
      match connect.connected, connect.untried with
      | false, endpoint :: untried =>
        some { c with
          connects := c.connects.set i { connect with untried := untried, connected := success }
          attempts := c.attempts ++ [(endpoint, success)] }
      | _, _ => none
  | .connected i =>
    match c.connects[i]? with
    | none => none
    | some connect =>
      if connect.connected || connect.untried.isEmpty then
        some (({ c with connects := c.connects.eraseIdx i }).asioConnectHandler (!connect.connected) connect.iterator)
      else none

/-- What each event finds, and leaves. -/
inductive Stepped (c : Connector) : Event → Connector → Prop
  | connect (hostname service : Bytes) : Stepped c (.connect hostname service) (c.connect hostname service)
  | asioResolve {hostname service : Bytes} {posted : List (Bytes × Bytes)} (hp : c.posted = (hostname, service) :: posted) :
      Stepped c .asioResolve (({ c with posted := posted }).asioResolve hostname service)
  | resolved {i : Nat} (endpoints : Option (List Endpoint)) (hi : i < c.resolves.length) :
      Stepped c (.resolved i endpoints)
        (({ c with resolves := c.resolves.eraseIdx i }).asioResolveHandler endpoints.isNone (endpoints.getD []))
  | attempt {i : Nat} {connect : AsyncConnect} {endpoint : Endpoint} {untried : List Endpoint} (success : Bool) :
      Stepped c (.attempt i success) { c with
        connects := c.connects.set i { connect with untried := untried, connected := success }
        attempts := c.attempts ++ [(endpoint, success)] }
  | connected {i : Nat} {connect : AsyncConnect} (hi : c.connects[i]? = some connect) :
      Stepped c (.connected i)
        (({ c with connects := c.connects.eraseIdx i }).asioConnectHandler (!connect.connected) connect.iterator)

theorem step_cases {c c' : Connector} {e : Event} (hs : c.step e = some c') : Stepped c e c' := by
  cases e with
  | connect hostname service =>
    cases hs
    exact .connect hostname service
  | asioResolve =>
    simp only [step] at hs
    split at hs
    · cases hs
    · rename_i hp
      cases hs
      exact .asioResolve hp
  | resolved i endpoints =>
    simp only [step] at hs
    split at hs
    · cases hs
    · rename_i hi
      cases hs
      exact .resolved endpoints (List.getElem?_eq_some_iff.1 hi).1
  | attempt i success =>
    simp only [step] at hs
    split at hs
    · cases hs
    · split at hs
      · cases hs
        exact .attempt success
      · cases hs
  | connected i =>
    simp only [step] at hs
    split at hs
    · cases hs
    · rename_i hi
      split at hs
      · cases hs
        exact .connected hi
      · cases hs

/-- An attempt takes the next endpoint. -/
theorem attempt_next {c c' : Connector} {i : Nat} {success : Bool} (hs : c.step (.attempt i success) = some c') :
    ∃ connect endpoint untried, c.connects[i]? = some connect ∧ connect.connected = false ∧
      connect.untried = endpoint :: untried ∧ c' = { c with
        connects := c.connects.set i { connect with untried := untried, connected := success }
        attempts := c.attempts ++ [(endpoint, success)] } := by
  simp only [step] at hs
  split at hs
  · cases hs
  · rename_i connect hi
    split at hs
    · rename_i endpoint untried hc hu
      cases hs
      exact ⟨connect, endpoint, untried, hi, hc, hu, rfl⟩
    · cases hs

/-- An `async_connect` ends with an endpoint that accepted, or behind the last one. -/
theorem connected_end {c c' : Connector} {i : Nat} (hs : c.step (.connected i) = some c') :
    ∃ connect, c.connects[i]? = some connect ∧ (connect.connected = true ∨ connect.untried = []) ∧
      c' = ({ c with connects := c.connects.eraseIdx i }).asioConnectHandler (!connect.connected) connect.iterator := by
  simp only [step] at hs
  split at hs
  · cases hs
  · rename_i connect hi
    split at hs
    · rename_i hend
      cases hs
      exact ⟨connect, hi, by simpa using hend, rfl⟩
    · cases hs

/-- What the handler of an `async_connect` does. -/
theorem asioConnectHandler_cases (c : Connector) (error : Bool) (iterator : List Endpoint) :
    error = false ∧ c.asioConnectHandler error iterator = c.callHandler false ∨
    error = true ∧ iterator = [] ∧ c.asioConnectHandler error iterator = { c with passedEnd := true } ∨
    error = true ∧ (∃ endpoint, iterator = [endpoint]) ∧ c.asioConnectHandler error iterator = c.callHandler true ∨
    error = true ∧ ∃ endpoint next, iterator = endpoint :: next ∧ next ≠ [] ∧
      c.asioConnectHandler error iterator = c.asioConnect next := by
  cases error with
  | false => exact .inl ⟨rfl, rfl⟩
  | true =>
    refine .inr ?_
    cases iterator with
    | nil => exact .inl ⟨rfl, rfl, rfl⟩
    | cons endpoint next =>
      cases next with
      | nil => exact .inr (.inl ⟨rfl, ⟨endpoint, rfl⟩, rfl⟩)
      | cons endpoint' next => exact .inr (.inr ⟨rfl, endpoint, endpoint' :: next, rfl, List.cons_ne_nil _ _, rfl⟩)

/-! ## Requests -/

/-- The requests that are not finished. -/
def unfinished (c : Connector) : Nat := c.posted.length + c.resolves.length + c.connects.length

theorem unfinished_eq_zero {c : Connector} : c.unfinished = 0 ↔ c.posted = [] ∧ c.resolves = [] ∧ c.connects = [] := by
  simp only [unfinished, Nat.add_eq_zero_iff, List.length_eq_zero_iff, and_assoc]

@[simp] theorem connect_unfinished (c : Connector) (hostname service : Bytes) :
    (c.connect hostname service).unfinished = c.unfinished + 1 := by
  unfold connect
  split <;> simp only [asioResolve, unfinished, List.length_append, List.length_singleton] <;> omega

@[simp] theorem connect_calls (c : Connector) (hostname service : Bytes) : (c.connect hostname service).calls = c.calls := by
  unfold connect
  split <;> rfl

theorem connect_passedEnd (c : Connector) (hostname service : Bytes) :
    (c.connect hostname service).passedEnd = c.passedEnd := by
  unfold connect
  split <;> rfl

/-- What a handler does for its request: another operation, a call of the connect handler, or
neither. With a connect handler the last is only behind the end of the endpoints. -/
def Goes (c c' : Connector) : Prop :=
  c'.calls = c.calls ∧ c'.unfinished = c.unfinished + 1 ∧ c'.passedEnd = c.passedEnd ∨
  (∃ error, c'.calls = c.calls ++ [error]) ∧ c'.unfinished = c.unfinished ∧ c'.passedEnd = c.passedEnd ∨
  c'.calls = c.calls ∧ c'.unfinished = c.unfinished ∧ (c.handler = true → c'.passedEnd = true)

theorem callHandler_goes (c : Connector) (error : Bool) : c.Goes (c.callHandler error) := by
  unfold callHandler
  split
  · exact .inr (.inl ⟨⟨error, rfl⟩, rfl, rfl⟩)
  · rename_i hh
    exact .inr (.inr ⟨rfl, rfl, fun h => absurd h hh⟩)

theorem asioConnect_goes (c : Connector) (iterator : List Endpoint) : c.Goes (c.asioConnect iterator) := by
  refine .inl ⟨rfl, ?_, rfl⟩
  simp only [asioConnect, unfinished, List.length_append, List.length_singleton]
  omega

theorem asioConnectHandler_goes (c : Connector) (error : Bool) (iterator : List Endpoint) :
    c.Goes (c.asioConnectHandler error iterator) := by
  rcases asioConnectHandler_cases c error iterator with
    ⟨-, he⟩ | ⟨-, -, he⟩ | ⟨-, -, he⟩ | ⟨-, endpoint, next, -, -, he⟩ <;> rw [he]
  · exact callHandler_goes c false
  · exact .inr (.inr ⟨rfl, rfl, fun _ => rfl⟩)
  · exact callHandler_goes c true
  · exact asioConnect_goes c next

theorem asioResolveHandler_goes (c : Connector) (error : Bool) (iterator : List Endpoint) :
    c.Goes (c.asioResolveHandler error iterator) := by
  unfold asioResolveHandler
  split
  · exact callHandler_goes c error
  · exact asioConnect_goes c iterator

variable {c c' : Connector} {e : Event}

/-- Behind the start of a request: it goes on, it ends with a call of the handler, or it is lost. -/
theorem step_requests (hs : c.step e = some c') (he : ∀ hostname service, e ≠ .connect hostname service) :
    c'.calls = c.calls ∧ c'.unfinished = c.unfinished ∧ c'.passedEnd = c.passedEnd ∨
    (∃ error, c'.calls = c.calls ++ [error]) ∧ c'.unfinished + 1 = c.unfinished ∧ c'.passedEnd = c.passedEnd ∨
    c'.calls = c.calls ∧ c'.unfinished + 1 = c.unfinished ∧ (c.handler = true → c'.passedEnd = true) := by
  -- The operation that ended leaves one less.
  have hgoes : ∀ {x : Connector}, x.calls = c.calls → x.passedEnd = c.passedEnd → x.handler = c.handler →
      x.unfinished + 1 = c.unfinished → x.Goes c' →
      c'.calls = c.calls ∧ c'.unfinished = c.unfinished ∧ c'.passedEnd = c.passedEnd ∨
      (∃ error, c'.calls = c.calls ++ [error]) ∧ c'.unfinished + 1 = c.unfinished ∧ c'.passedEnd = c.passedEnd ∨
      c'.calls = c.calls ∧ c'.unfinished + 1 = c.unfinished ∧ (c.handler = true → c'.passedEnd = true) := by
    intro x hx hp hh hu hg
    rcases hg with ⟨hc, heq, hpe⟩ | ⟨⟨error, hc⟩, heq, hpe⟩ | ⟨hc, heq, hpe⟩
    · exact .inl ⟨hc.trans hx, heq.trans hu, hpe.trans hp⟩
    · exact .inr (.inl ⟨⟨error, by rw [hc, hx]⟩, by rw [heq, hu], hpe.trans hp⟩)
    · exact .inr (.inr ⟨hc.trans hx, by rw [heq, hu], fun h => hpe (hh.trans h)⟩)
  cases step_cases hs with
  | connect hostname service => exact absurd rfl (he hostname service)
  | asioResolve hp =>
    refine .inl ⟨rfl, ?_, rfl⟩
    simp only [asioResolve, unfinished, hp, List.length_append, List.length_cons, List.length_nil]
    omega
  | @resolved i endpoints hlt =>
    refine hgoes (x := { c with resolves := c.resolves.eraseIdx i }) rfl rfl rfl ?_ (asioResolveHandler_goes _ _ _)
    simp only [unfinished, List.length_eraseIdx_of_lt hlt]
    omega
  | attempt => exact .inl ⟨rfl, by simp [unfinished], rfl⟩
  | @connected i connect hi =>
    have hlt := (List.getElem?_eq_some_iff.1 hi).1
    refine hgoes (x := { c with connects := c.connects.eraseIdx i }) rfl rfl rfl ?_ (asioConnectHandler_goes _ _ _)
    simp only [unfinished, List.length_eraseIdx_of_lt hlt]
    omega

/-! ## Attempts that succeed -/

/-- The event reports an attempt that succeeded. -/
def Succeeds (c : Connector) : Event → Prop
  | .connected i => ∃ connect ∈ c.connects[i]?, connect.connected = true
  | .connect _ _ | .asioResolve | .resolved _ _ | .attempt _ _ => False

instance (c : Connector) : (e : Event) → Decidable (c.Succeeds e)
  | .connected i => inferInstanceAs (Decidable (∃ connect ∈ c.connects[i]?, connect.connected = true))
  | .connect _ _ | .asioResolve | .resolved _ _ | .attempt _ _ => inferInstanceAs (Decidable False)

/-- What no step changes. -/
structure Kept (c c' : Connector) : Prop where
  strand : c'.strand = c.strand
  handler : c'.handler = c.handler

theorem connect_kept (c : Connector) (hostname service : Bytes) : c.Kept (c.connect hostname service) := by
  unfold connect
  split <;> exact ⟨rfl, rfl⟩

theorem callHandler_kept (c : Connector) (error : Bool) : c.Kept (c.callHandler error) := by
  unfold callHandler
  split <;> exact ⟨rfl, rfl⟩

theorem step_kept (hs : c.step e = some c') : c.Kept c' := by
  cases step_cases hs with
  | connect => exact connect_kept c _ _
  | asioResolve | attempt => exact ⟨rfl, rfl⟩
  | @resolved i endpoints =>
    have hk := callHandler_kept { c with resolves := c.resolves.eraseIdx i } endpoints.isNone
    unfold asioResolveHandler
    split
    · exact ⟨hk.strand, hk.handler⟩
    · exact ⟨rfl, rfl⟩
  | @connected i connect =>
    have hk : ∀ error, c.Kept (({ c with connects := c.connects.eraseIdx i }).callHandler error) := by
      intro error
      have hk := callHandler_kept { c with connects := c.connects.eraseIdx i } error
      exact ⟨hk.strand, hk.handler⟩
    rcases asioConnectHandler_cases { c with connects := c.connects.eraseIdx i } (!connect.connected) connect.iterator with
      ⟨-, he⟩ | ⟨-, -, he⟩ | ⟨-, -, he⟩ | ⟨-, endpoint, next, -, -, he⟩ <;> rw [he]
    · exact hk false
    · exact ⟨rfl, rfl⟩
    · exact hk true
    · exact ⟨rfl, rfl⟩

/-- The connect handler gets no error exactly from an attempt that succeeded. -/
theorem step_succeeds (hh : c.handler = true) (hs : c.step e = some c') :
    c'.calls = c.calls ∧ ¬ c.Succeeds e ∨ ∃ error, c'.calls = c.calls ++ [error] ∧ (error = false ↔ c.Succeeds e) := by
  cases step_cases hs with
  | connect => exact .inl ⟨connect_calls c _ _, id⟩
  | asioResolve | attempt => exact .inl ⟨rfl, id⟩
  | resolved endpoints =>
    unfold asioResolveHandler
    split
    · rename_i he
      rw [callHandler, if_pos hh]
      refine .inr ⟨_, rfl, ?_⟩
      simpa [Succeeds, hh] using he
    · exact .inl ⟨rfl, id⟩
  | @connected i connect hi =>
    have hsucc : c.Succeeds (.connected i) ↔ connect.connected = true := by simp [Succeeds, hi]
    rw [hsucc]
    rcases asioConnectHandler_cases { c with connects := c.connects.eraseIdx i } (!connect.connected) connect.iterator with
      ⟨hc, he⟩ | ⟨hc, -, he⟩ | ⟨hc, -, he⟩ | ⟨hc, endpoint, next, -, -, he⟩ <;> rw [he]
    · rw [callHandler, if_pos hh]
      exact .inr ⟨false, rfl, by simpa using hc⟩
    · exact .inl ⟨rfl, by simpa using hc⟩
    · rw [callHandler, if_pos hh]
      exact .inr ⟨true, rfl, by simpa using hc⟩
    · exact .inl ⟨rfl, by simpa using hc⟩

end Connector
end Zar
