import Zar.Communication.Endpoints
/-!
# The attempts of a request

`async_connect` tries all endpoints from the iterator to the end. Behind its error
`asio_connect_handler` goes on with the endpoint behind that iterator, as if only one
had been tried, and so the last one is tried once for each endpoint. The order is kept
only if one of the endpoints accepts, or there are not two.
-/

namespace Zar
namespace Connector

variable {c c' x x' : Connector} {e : Event} {es : List Event} {strand handler : Bool} {endpoints : List Endpoint}
  {outcome : Nat → Bool} {tried : List (Endpoint × Bool)}

/-- The resolve brings these endpoints, and `outcome` tells which of the attempts succeed that are
made since there were `start`. -/
def Follows (endpoints : List Endpoint) (outcome : Nat → Bool) (start : Nat) (c : Connector) : Event → Prop
  | .connect _ _ => False
  | .asioResolve | .connected _ => True
  | .resolved _ result => result = some endpoints
  | .attempt _ success => success = outcome (c.attempts.length - start)

instance (endpoints : List Endpoint) (outcome : Nat → Bool) (start : Nat) (c : Connector) :
    (e : Event) → Decidable (Follows endpoints outcome start c e)
  | .connect _ _ => inferInstanceAs (Decidable False)
  | .asioResolve | .connected _ => inferInstanceAs (Decidable True)
  | .resolved _ result => inferInstanceAs (Decidable (result = some endpoints))
  | .attempt _ success => inferInstanceAs (Decidable (success = outcome (c.attempts.length - start)))

/-- The endpoints are tried from the first, each once, until an attempt succeeds. -/
structure InOrder (endpoints : List Endpoint) (tried : List (Endpoint × Bool)) : Prop where
  order : tried.map (·.1) <+: endpoints
  stops : ∀ attempt ∈ tried.dropLast, attempt.2 = false

/-! ## The first `async_connect` -/

/-- How far an `async_connect` of all endpoints is. -/
structure FirstPass (endpoints : List Endpoint) (outcome : Nat → Bool) (tried : List (Endpoint × Bool))
    (connect : AsyncConnect) : Prop where
  iterator : connect.iterator = endpoints
  endpoints : tried.map (·.1) ++ connect.untried = endpoints
  failed : connect.connected = false → ∀ attempt ∈ tried, attempt.2 = false
  stops : ∀ attempt ∈ tried.dropLast, attempt.2 = false
  outcome : tried.map (·.2) = (List.range tried.length).map outcome

theorem FirstPass.init : FirstPass endpoints outcome [] ⟨endpoints, endpoints, false⟩ :=
  ⟨rfl, rfl, by simp, by simp, rfl⟩

theorem FirstPass.inOrder {connect : AsyncConnect} (h : FirstPass endpoints outcome tried connect) :
    InOrder endpoints tried := ⟨⟨connect.untried, h.endpoints⟩, h.stops⟩

theorem FirstPass.attempt {connect : AsyncConnect} (h : FirstPass endpoints outcome tried connect)
    (hc : connect.connected = false) {endpoint : Endpoint} {untried : List Endpoint} (hu : connect.untried = endpoint :: untried) :
    FirstPass endpoints outcome (tried ++ [(endpoint, outcome tried.length)])
      { connect with untried := untried, connected := outcome tried.length } where
  iterator := h.iterator
  endpoints := by
    rw [← h.endpoints, hu]
    simp
  failed := by
    intro hnot attempt hm
    rcases List.mem_append.1 hm with hm | hm
    · exact h.failed hc attempt hm
    · rw [List.mem_singleton.1 hm]
      exact hnot
  stops := by
    rw [List.dropLast_concat]
    exact h.failed hc
  outcome := by
    rw [List.length_append, List.length_singleton, List.range_succ, List.map_append, List.map_append, h.outcome]
    rfl

/-- Where an endpoint accepts, the first `async_connect` finds it. -/
theorem FirstPass.ends {connect : AsyncConnect} (h : FirstPass endpoints outcome tried connect)
    (hend : connect.connected = true ∨ connect.untried = []) (hsome : ∃ j < endpoints.length, outcome j = true) :
    connect.connected = true := by
  rcases hend with hc | hu
  · exact hc
  · cases hc : connect.connected with
    | true => rfl
    | false =>
      -- All endpoints were tried, and all attempts failed.
      obtain ⟨j, hj, hsuccess⟩ := hsome
      have hlength := congrArg List.length h.endpoints
      rw [hu, List.append_nil, List.length_map] at hlength
      have hmem : outcome j ∈ tried.map (·.2) := by
        rw [h.outcome]
        exact List.mem_map_of_mem (List.mem_range.2 (by omega))
      obtain ⟨attempt, hm, hj'⟩ := List.mem_map.1 hmem
      rw [← hsuccess, ← hj']
      exact (h.failed hc attempt hm).symm

/-! ## A request that is alone -/

/-- How far the request is that was made in `c`. -/
inductive Trying (c : Connector) (endpoints : List Endpoint) (outcome : Nat → Bool) (x : Connector) : Prop
  | resolving (operations : x.posted.length + x.resolves.length = 1) (connects : x.connects = [])
      (attempts : x.attempts = c.attempts) : Trying c endpoints outcome x
  | connecting {tried : List (Endpoint × Bool)} {connect : AsyncConnect} (posted : x.posted = []) (resolves : x.resolves = [])
      (connects : x.connects = [connect]) (attempts : x.attempts = c.attempts ++ tried)
      (pass : FirstPass endpoints outcome tried connect) : Trying c endpoints outcome x
  | ended {tried : List (Endpoint × Bool)} (unfinished : x.unfinished = 0) (attempts : x.attempts = c.attempts ++ tried)
      (order : InOrder endpoints tried) : Trying c endpoints outcome x

theorem Trying.inOrder (h : Trying c endpoints outcome x) :
    ∃ tried, x.attempts = c.attempts ++ tried ∧ InOrder endpoints tried := by
  cases h with
  | resolving _ _ ha => exact ⟨[], by rw [ha, List.append_nil], List.nil_prefix, by simp⟩
  | connecting _ _ _ ha hpass => exact ⟨_, ha, hpass.inOrder⟩
  | ended _ ha ho => exact ⟨_, ha, ho⟩

theorem Trying.init (hu : c.unfinished = 0) (hostname service : Bytes) :
    Trying c endpoints outcome (c.connect hostname service) := by
  obtain ⟨hp, hr, hc⟩ := unfinished_eq_zero.1 hu
  unfold connect
  split
  · exact .resolving (by simp [hp, hr]) hc rfl
  · exact .resolving (by simp [asioResolve, hp, hr]) hc rfl

theorem callHandler_ended (hu : x.unfinished = 0) (error : Bool) :
    (x.callHandler error).unfinished = 0 ∧ (x.callHandler error).attempts = x.attempts := by
  unfold callHandler
  split <;> exact ⟨hu, rfl⟩

/-- The only outstanding `async_connect`. -/
theorem connects_single {connect connect' : AsyncConnect} {i : Nat} (hc : x.connects = [connect])
    (hi : x.connects[i]? = some connect') : i = 0 ∧ connect' = connect := by
  obtain ⟨hlt, he⟩ := List.getElem?_eq_some_iff.1 hi
  simp only [hc, List.length_singleton, Nat.lt_one_iff] at hlt
  subst hlt
  simp only [hc, List.getElem_cons_zero] at he
  exact ⟨rfl, he.symm⟩

/-- One `async_connect` is enough where an endpoint accepts, or there are not two. -/
theorem FirstPass.connected {connect : AsyncConnect} (h : FirstPass endpoints outcome tried connect)
    (hcond : endpoints.length ≤ 1 ∨ ∃ j < endpoints.length, outcome j = true)
    (hend : connect.connected = true ∨ connect.untried = []) (hu : x.unfinished = 0) :
    (x.asioConnectHandler (!connect.connected) connect.iterator).unfinished = 0 ∧
      (x.asioConnectHandler (!connect.connected) connect.iterator).attempts = x.attempts := by
  rcases asioConnectHandler_cases x (!connect.connected) connect.iterator with
    ⟨-, he⟩ | ⟨-, -, he⟩ | ⟨-, -, he⟩ | ⟨hc, endpoint, next, hit, hnext, he⟩ <;> rw [he]
  · exact callHandler_ended hu false
  · exact ⟨hu, rfl⟩
  · exact callHandler_ended hu true
  · -- A retry needs two endpoints, none of which accepted.
    rcases hcond with hle | hsome
    · rw [← h.iterator, hit, List.length_cons] at hle
      exact absurd (List.length_eq_zero_iff.1 (by omega)) hnext
    · rw [h.ends hend hsome] at hc
      cases hc

theorem Trying.step (hcond : endpoints.length ≤ 1 ∨ ∃ j < endpoints.length, outcome j = true)
    (h : Trying c endpoints outcome x) (ho : Follows endpoints outcome c.attempts.length x e) (hs : x.step e = some x') :
    Trying c endpoints outcome x' := by
  cases h with
  | resolving hn hc ha =>
    cases e with
    | connect => exact ho.elim
    | asioResolve =>
      cases step_cases hs with | asioResolve hp =>
      refine .resolving ?_ hc ha
      simp only [hp, asioResolve, List.length_cons, List.length_append, List.length_nil] at hn ⊢
      omega
    | resolved i result =>
      cases (show result = some endpoints from ho)
      cases step_cases hs with | resolved _ hlt =>
      have hp : x.posted = [] := List.length_eq_zero_iff.1 (by omega)
      have hr : x.resolves.eraseIdx i = [] := by
        rw [← List.length_eq_zero_iff, List.length_eraseIdx_of_lt hlt]
        omega
      exact .connecting hp hr (by simp [asioResolveHandler, asioConnect, hc])
        (by simp [asioResolveHandler, asioConnect, ha]) FirstPass.init
    | attempt i success =>
      obtain ⟨connect, endpoint, untried, hi, -⟩ := attempt_next hs
      simp [hc] at hi
    | connected i =>
      obtain ⟨connect, hi, -⟩ := connected_end hs
      simp [hc] at hi
  | @connecting tried connect hp hr hc ha hpass =>
    cases e with
    | connect => exact ho.elim
    | asioResolve => simp [Connector.step, hp] at hs
    | resolved => simp [Connector.step, hr] at hs
    | attempt i success =>
      obtain ⟨connect', endpoint, untried, hi, hnot, hu, rfl⟩ := attempt_next hs
      obtain ⟨rfl, rfl⟩ := connects_single hc hi
      have hsuccess : success = outcome tried.length := by
        have h : success = outcome (x.attempts.length - c.attempts.length) := ho
        rw [h, ha, List.length_append, Nat.add_sub_cancel_left]
      rw [hsuccess]
      exact .connecting hp hr (by simp [hc]) (by simp [ha]) (hpass.attempt hnot hu)
    | connected i =>
      obtain ⟨connect', hi, hend, rfl⟩ := connected_end hs
      obtain ⟨rfl, rfl⟩ := connects_single hc hi
      have hu : unfinished { x with connects := x.connects.eraseIdx 0 } = 0 :=
        unfinished_eq_zero.2 ⟨hp, hr, by simp [hc]⟩
      obtain ⟨hu', ha'⟩ := hpass.connected hcond hend hu
      exact .ended hu' (ha'.trans ha) hpass.inOrder
  | ended hu =>
    obtain ⟨hp, hr, hc⟩ := unfinished_eq_zero.1 hu
    cases e with
    | connect => exact ho.elim
    | asioResolve => simp [Connector.step, hp] at hs
    | resolved => simp [Connector.step, hr] at hs
    | attempt | connected => simp [Connector.step, hc] at hs

/-! ## Where no endpoint accepts -/

section
variable (strand handler : Bool) (endpoints : List Endpoint) (outcome : Nat → Bool) (start : Nat)

/-- An `async_connect` whose attempts all fail. -/
theorem fails {iterator untried : List Endpoint} (hc : x.connects = [⟨iterator, untried, false⟩])
    (hout : ∀ j < untried.length, outcome (x.attempts.length - start + j) = false) (hstart : start ≤ x.attempts.length) :
    ∃ es x', (system strand handler).Steps (Follows endpoints outcome start) x es x' ∧
      x'.connects = [⟨iterator, [], false⟩] ∧ x'.attempts = x.attempts ++ untried.map (·, false) := by
  induction untried generalizing x with
  | nil => exact ⟨[], x, .nil, hc, by simp⟩
  | cons endpoint untried ih =>
    have hone : (system strand handler).Steps (Follows endpoints outcome start) x [.attempt 0 false]
        { x with connects := [⟨iterator, untried, false⟩], attempts := x.attempts ++ [(endpoint, false)] } :=
      System.Steps.one (hout 0 (by simp)).symm (by simp [system, Connector.step, hc])
    have hnext : ∀ j < untried.length, outcome ((x.attempts ++ [(endpoint, false)]).length - start + j) = false := by
      intro j hj
      rw [← hout (j + 1) (by simpa using hj)]
      congr 1
      simp only [List.length_append, List.length_singleton]
      omega
    obtain ⟨es, x', hs, hc', ha'⟩ := ih (x := { x with
      connects := [⟨iterator, untried, false⟩]
      attempts := x.attempts ++ [(endpoint, false)] }) rfl hnext (Nat.le_trans hstart (by simp))
    exact ⟨_, x', hone.trans hs, hc', by simp [ha']⟩

/-- The steps of a request that is alone, up to its first `async_connect`. -/
theorem reaches_connect (hu : c.unfinished = 0) (hostname service : Bytes) :
    ∃ es x, (system strand handler).Steps (Follows endpoints outcome start) (c.connect hostname service) es x ∧
      x.connects = [⟨endpoints, endpoints, false⟩] ∧ x.attempts = c.attempts := by
  obtain ⟨hp, hr, hc⟩ := unfinished_eq_zero.1 hu
  have hresolved : ∀ {x : Connector} {q}, x.resolves = [q] → x.connects = [] → x.attempts = c.attempts →
      ∃ es x', (system strand handler).Steps (Follows endpoints outcome start) x es x' ∧
        x'.connects = [⟨endpoints, endpoints, false⟩] ∧ x'.attempts = c.attempts := by
    intro x q hr hc ha
    refine ⟨[.resolved 0 (some endpoints)], ({ x with resolves := [] }).asioConnect endpoints, System.Steps.one rfl ?_, ?_, ha⟩
    · simp [system, Connector.step, hr, asioResolveHandler]
    · simp [asioConnect, hc]
  unfold connect
  split
  · obtain ⟨es, x, hs, h⟩ := hresolved (x := ({ c with posted := [] }).asioResolve hostname service)
      (q := (hostname, service)) (by simp [asioResolve, hr]) hc rfl
    exact ⟨_, x, (System.Steps.one (e := .asioResolve) trivial (by simp [system, Connector.step, hp])).trans hs, h⟩
  · exact hresolved (x := c.asioResolve hostname service) (q := (hostname, service)) (by simp [asioResolve, hr]) hc rfl

/-- Where none of two endpoints or more accepts, the second one is tried again behind the last. -/
theorem tries_again (hu : c.unfinished = 0) (hostname service : Bytes) {endpoint endpoint' : Endpoint} {rest : List Endpoint}
    (he : endpoints = endpoint :: endpoint' :: rest) (hfail : ∀ j < endpoints.length, outcome j = false) :
    ∃ es c' tried, (system strand handler).Steps (Follows endpoints outcome c.attempts.length)
      (c.connect hostname service) es c' ∧ c'.attempts = c.attempts ++ tried ∧ tried.length = endpoints.length + 1 := by
  obtain ⟨es, x, hs, hc, ha⟩ := reaches_connect strand handler endpoints outcome c.attempts.length hu hostname service
  obtain ⟨es', x', hs', hc', ha'⟩ := fails strand handler endpoints outcome c.attempts.length hc
    (by simpa [ha] using hfail) (Nat.le_of_eq (by rw [ha]))
  -- The handler goes on behind the first endpoint, as if only that one had been tried.
  have hretry : (system strand handler).Steps (Follows endpoints outcome c.attempts.length) x' [.connected 0]
      { x' with connects := [⟨endpoint' :: rest, endpoint' :: rest, false⟩] } :=
    System.Steps.one trivial (by simp [system, Connector.step, hc', he, asioConnectHandler, asioConnect])
  have hagain : (system strand handler).Steps (Follows endpoints outcome c.attempts.length)
      { x' with connects := [⟨endpoint' :: rest, endpoint' :: rest, false⟩] }
      [.attempt 0 (outcome (x'.attempts.length - c.attempts.length))]
      { x' with
        connects := [⟨endpoint' :: rest, rest, outcome (x'.attempts.length - c.attempts.length)⟩]
        attempts := x'.attempts ++ [(endpoint', outcome (x'.attempts.length - c.attempts.length))] } :=
    System.Steps.one rfl (by simp [system, Connector.step])
  refine ⟨_, _, endpoints.map (·, false) ++ [(endpoint', outcome (x'.attempts.length - c.attempts.length))],
    ((hs.trans hs').trans hretry).trans hagain, ?_, ?_⟩
  · simp only [ha', ha, List.append_assoc]
  · simp

end

/-! ## The main result -/

/-- For every request that is alone and every list of its endpoints: the attempts are made in the
order of the list, each once and up to the first that succeeds, in every state behind it, exactly if
the list has less than two endpoints or one of the attempts on it succeeds. -/
theorem tries_in_order (hu : c.unfinished = 0) (hostname service : Bytes) (endpoints : List Endpoint) (outcome : Nat → Bool) :
    (∀ es c', (system strand handler).Steps (Follows endpoints outcome c.attempts.length)
      (c.connect hostname service) es c' → ∃ tried, c'.attempts = c.attempts ++ tried ∧ InOrder endpoints tried) ↔
    endpoints.length ≤ 1 ∨ ∃ j < endpoints.length, outcome j = true := by
  constructor
  · intro horder
    by_contra hnot
    rw [not_or, Nat.not_le] at hnot
    obtain ⟨hle, hnone⟩ := hnot
    have hfail : ∀ j < endpoints.length, outcome j = false := by
      intro j hj
      cases ho : outcome j with
      | true => exact absurd ⟨j, hj, ho⟩ hnone
      | false => rfl
    obtain ⟨endpoint, endpoint', rest, he⟩ : ∃ endpoint endpoint' rest, endpoints = endpoint :: endpoint' :: rest := by
      cases endpoints with
      | nil => simp at hle
      | cons endpoint next =>
        cases next with
        | nil => simp at hle
        | cons endpoint' rest => exact ⟨_, _, _, rfl⟩
    obtain ⟨es, c', tried, hs, ha, hlength⟩ := tries_again strand handler endpoints outcome hu hostname service he hfail
    obtain ⟨tried', ha', ho⟩ := horder es c' hs
    obtain rfl : tried = tried' := List.append_cancel_left (ha.symm.trans ha')
    have hprefix := ho.order.length_le
    rw [List.length_map] at hprefix
    omega
  · intro hcond es c' hs
    exact (hs.inv (Trying c endpoints outcome) (Trying.init hu hostname service) fun _ _ _ hx ho hstep =>
      hx.step hcond ho hstep).inOrder

/-- The second of two endpoints accepts. -/
theorem tries_in_order_second : ∃ c', (system true true).Steps (Follows [⟨1, 1⟩, ⟨2, 1⟩] (· == 1) 0)
      (connect { strand := true, handler := true } [120] [121])
      [.asioResolve, .resolved 0 (some [⟨1, 1⟩, ⟨2, 1⟩]), .attempt 0 false, .attempt 0 true, .connected 0] c' ∧
    c'.calls = [false] ∧ ∃ tried, c'.attempts = [] ++ tried ∧ InOrder [⟨1, 1⟩, ⟨2, 1⟩] tried := by
  have hexec : (system true true).exec (Follows [⟨1, 1⟩, ⟨2, 1⟩] (· == 1) 0)
      (connect { strand := true, handler := true } [120] [121])
      [.asioResolve, .resolved 0 (some [⟨1, 1⟩, ⟨2, 1⟩]), .attempt 0 false, .attempt 0 true, .connected 0] = some _ := rfl
  have hsteps := System.Steps.of_exec hexec
  exact ⟨_, hsteps, rfl, (tries_in_order (c := { strand := true, handler := true }) rfl [120] [121] _ (· == 1)).2
    (.inr ⟨1, by decide, rfl⟩) _ _ hsteps⟩

/-- Neither of two endpoints accepts, and the second one is tried twice. -/
theorem tries_twice : ∃ c, (system false true).Run [.connect [120] [121], .resolved 0 (some [⟨1, 1⟩, ⟨2, 1⟩]),
      .attempt 0 false, .attempt 0 false, .connected 0, .attempt 0 false] c ∧
    c.attempts = [(⟨1, 1⟩, false), (⟨2, 1⟩, false), (⟨2, 1⟩, false)] ∧ ¬ InOrder [⟨1, 1⟩, ⟨2, 1⟩] c.attempts := by
  have hexec : (system false true).exec (fun _ _ => True) (system false true).init [.connect [120] [121],
      .resolved 0 (some [⟨1, 1⟩, ⟨2, 1⟩]), .attempt 0 false, .attempt 0 false, .connected 0, .attempt 0 false] =
        some _ := rfl
  refine ⟨_, System.Steps.of_exec hexec, rfl, ?_⟩
  intro h
  exact absurd h.order.length_le (by decide)

end Connector
end Zar
