import Zar.Communication.Callback
import Zar.Czar.Connection
import Zar.Czar.Streams
/-!
# The connections of a client

A client has one socket. `async_connect` closes it before each attempt, so a `/connect` that was
typed before another one succeeded ends the connection of the other one. Each connection carries
the part of the stream that the client wrote while it was open, and the client reads of one
connection behind the other.
-/

namespace Zar

namespace Connector

variable {c c' : Connector} {e : Event}

/-- An attempt succeeds. -/
def Event.accepts : Event → Bool
  | .attempt _ success => success
  | .connect _ _ | .asioResolve | .resolved _ _ | .connected _ => false

/-- Whether an attempt begins in the step: the first one of an `async_connect`, or the one behind
an attempt that failed. -/
def begins (c : Connector) : Event → Bool
  | .resolved _ (some endpoints) => !endpoints.isEmpty
  | .attempt i false => c.connects[i]?.any fun connect => decide (1 < connect.untried.length)
  | .connected i => c.connects[i]?.any fun connect => !connect.connected && decide (1 < connect.iterator.length)
  | .connect _ _ | .asioResolve | .resolved _ none | .attempt _ true => false

theorem step_accepts (hs : c.step e = some c') :
    c'.attempts.countP (·.2) = c.attempts.countP (·.2) + if e.accepts then 1 else 0 := by
  have hcall : ∀ (x : Connector) (error : Bool), (x.callHandler error).attempts = x.attempts := by
    intro x error
    unfold callHandler
    split <;> rfl
  cases e with
  | connect hostname service =>
    cases hs
    unfold Connector.connect
    split <;> rfl
  | asioResolve =>
    cases step_cases hs with | asioResolve =>
    rfl
  | resolved i endpoints =>
    cases step_cases hs with | resolved =>
    unfold asioResolveHandler
    split
    · rw [hcall]
      rfl
    · rfl
  | attempt i success =>
    obtain ⟨connect, endpoint, untried, -, -, -, rfl⟩ := attempt_next hs
    simp only [List.countP_append, List.countP_singleton]
    rfl
  | connected i =>
    obtain ⟨connect, -, -, rfl⟩ := connected_end hs
    rcases asioConnectHandler_cases { c with connects := c.connects.eraseIdx i } (!connect.connected) connect.iterator with
      ⟨-, he⟩ | ⟨-, -, he⟩ | ⟨-, -, he⟩ | ⟨-, endpoint, next, -, -, he⟩ <;> rw [he]
    · rw [hcall]
      rfl
    · rfl
    · rw [hcall]
      rfl
    · rfl

end Connector

namespace Application

variable {host : Endian} {a a' : Application} {e : Event}

/-! ## Before an attempt succeeds -/

/-- The attempts that succeeded. -/
def accepted (a : Application) : Nat := a.socket.connector.attempts.countP (·.2)

def Event.accepts : Event → Bool
  | .connector e => e.accepts
  | .input _ | .output _ | .receiver _ | .sender _ => false

/-- A line leaves the socket alone, or it is not refused. -/
theorem executeLine_socket (hst : a.Strands) (line : Bytes) : (a.executeLine line).1.socket = a.socket ∨
    ¬ a.Refused (parseLine line) ∧ (a.executeLine line).1.socket = (a.effect (parseLine line)).socket := by
  by_cases hr : a.Refused (parseLine line)
  · obtain ⟨t, he⟩ := executeLine_refused hst.sender hr
    rw [he]
    exact .inl (refusal_parts a (parseLine line)).2.1
  · rw [executeLine_accepted hst.sender hr]
    exact .inr ⟨hr, rfl⟩

/-- Of the connector a line asks for a connection at most. -/
theorem executeLine_connector (hst : a.Strands) (line : Bytes) :
    (a.executeLine line).1.socket.connector = a.socket.connector ∨
      ∃ server, (a.executeLine line).1.socket.connector = a.socket.connector.connect server (text "2048") := by
  rcases executeLine_socket hst line with he | ⟨-, he⟩ <;> rw [he]
  · exact .inl rfl
  · cases parseLine line with
    | blank | begin | unknown | «end» => exact .inl rfl
    | connect server => exact .inr ⟨server, rfl⟩
    | server command => cases hb : a.bufferingMode <;> simp [effect, hb, sendAction, TcpSocket.sendAction]

/-- Without a connection a line sends nothing. -/
theorem executeLine_offline (hst : a.Strands) (hconn : a.connected = false) (line : Bytes) :
    (a.executeLine line).1.socket.sender = a.socket.sender := by
  rcases executeLine_socket hst line with he | ⟨hr, he⟩ <;> rw [he]
  cases hl : parseLine line with
  | blank | begin | unknown | connect => rfl
  | «end» | server => simp [hl, Refused, hconn] at hr

/-- What the connector does in a step. -/
theorem Change.connectorStep (hst : a.Strands) (hc : Change a e a') :
    a'.socket.connector = a.socket.connector ∧ e.accepts = false ∨
      ∃ e', a.socket.connector.step e' = some a'.socket.connector ∧ e'.accepts = e.accepts := by
  cases hc with
  | @line _ _ line =>
    rcases executeLine_connector hst line with he | ⟨server, he⟩
    · exact .inl ⟨he, rfl⟩
    · exact .inr ⟨.connect server (text "2048"), congrArg some he.symm, rfl⟩
  | input | output | sender | receiver => exact .inl ⟨rfl, rfl⟩
  | connector hs | connected hs => exact .inr ⟨_, hs, rfl⟩

theorem Change.accepted (hst : a.Strands) (hc : Change a e a') :
    a'.accepted = a.accepted + if e.accepts then 1 else 0 := by
  rcases hc.connectorStep hst with ⟨he, hno⟩ | ⟨e', hs, he⟩
  · rw [Application.accepted, he, hno]
    rfl
  · rw [← he]
    exact Connector.step_accepts hs

/-- Before an attempt succeeds the client is not connected, and sends nothing. -/
structure Unconnected (a : Application) : Prop where
  connected : a.connected = false
  called : a.socket.sender.called = []
  answers : a.socket.connector.Answers

theorem Unconnected.change (h : a.Unconnected) (hh : Handled a) (hc : Change a e a') (hn : a'.accepted = 0) :
    a'.Unconnected := by
  have hanswers : a'.socket.connector.Answers := by
    rcases hc.connectorStep hh.strands with ⟨he, -⟩ | ⟨e', hs, -⟩
    · rw [he]
      exact h.answers
    · exact h.answers.step hh.handler hs
  cases hc with
  | @line _ _ line =>
    refine ⟨(executeLine_asked hh.strands line).connected.trans h.connected, ?_, hanswers⟩
    exact (congrArg Sender.called (executeLine_offline hh.strands h.connected line)).trans h.called
  | input | output | receiver | connector => exact ⟨h.connected, h.called, hanswers⟩
  | sender hs ho hr => exact ⟨h.connected, (Sender.step_called_same ho hr hs).trans h.called, hanswers⟩
  | @connected _ connector error _ _ hcalls =>
    -- A call without an error is one for an attempt that succeeded.
    have herror : error = true := by
      cases error with
      | true => rfl
      | false =>
        have hsum : connector.calls.count false + connector.connects.countP (·.connected) = 0 := hanswers.trans hn
        rw [hcalls, List.count_append, List.count_singleton_self] at hsum
        omega
    subst herror
    exact ⟨by rw [h.connected]; rfl, h.called, hanswers⟩

theorem Reachable.unconnected (h : (system host).Reachable a) (hn : a.accepted = 0) : a.Unconnected := by
  have hboth : Handled a ∧ (a.accepted = 0 → a.Unconnected) := by
    refine h.inv (fun a => Handled a ∧ (a.accepted = 0 → a.Unconnected)) ⟨Handled.init host, fun _ => ⟨rfl, rfl, rfl⟩⟩ ?_
    rintro a e a' ⟨hh, hi⟩ hs
    have hc := step_change hh.strands hs
    have haccepted := hc.accepted hh.strands
    exact ⟨hh.change hc, fun hn => (hi (by omega)).change hh hc hn⟩
  exact hboth.2 hn

/-- So nothing is written. -/
theorem Reachable.unwritten (h : (system host).Reachable a) (hn : a.accepted = 0) : a.socket.sender.stream = [] := by
  have hasks := Reachable.asks h
  rw [actions, (Reachable.unconnected h hn).called] at hasks
  exact List.prefix_nil.1 hasks

end Application

/-! ## Connections -/

structure Connection where
  client : Nat
  /-- How much the client had written before it. -/
  start : Nat
  /-- How much it had written when its socket was closed, if it was. -/
  stop : Option Nat := none
  /-- The session that took it, if one did. -/
  key : Option Nat := none
  /-- What the client received. -/
  received : Bytes := []
  deriving DecidableEq, Repr

namespace Connection

/-- What is written to a connection, of the stream of its client. -/
def part (x : Connection) (stream : Bytes) : Bytes := (stream.take (x.stop.getD stream.length)).drop x.start

/-- The client closes its socket, if it is still open. -/
def close (x : Connection) (written : Nat) : Connection := { x with stop := some (x.stop.getD written) }

def accept (x : Connection) (k : Nat) : Connection := { x with key := some k }

def receive (x : Connection) (bytes : Bytes) : Connection := { x with received := x.received ++ bytes }

variable {x y : Connection} {stream stream' : Bytes}

theorem part_mono (x : Connection) (h : stream <+: stream') : x.part stream <+: x.part stream' := by
  unfold part
  cases x.stop with
  | none =>
    simp only [Option.getD_none, List.take_length]
    exact h.drop x.start
  | some n => exact (h.take n).drop x.start

theorem part_infix (x : Connection) (stream : Bytes) : x.part stream <:+: stream :=
  (List.drop_suffix _ _).isInfix.trans (List.take_prefix _ stream).isInfix

/-- Of a connection that is the first one nothing is missing. -/
theorem part_first (h : x.start = 0) (stream : Bytes) : x.part stream <+: stream := by
  rw [part, h, List.drop_zero]
  exact List.take_prefix _ stream

theorem part_open (h : x.start = 0) (hopen : x.stop = none) (stream : Bytes) : x.part stream = stream := by
  rw [part, h, hopen, Option.getD_none, List.take_length, List.drop_zero]

end Connection

namespace Application

variable {host : Endian} {a a' : Application} {e : Event} {x y : Connection} {xs before later : List Connection}

/-- The connections of a client, the first one first. Only the last one can be open. -/
structure Dialled (a : Application) (xs : List Connection) : Prop where
  reads : a.socket.receiver.arrived = xs.flatMap (·.received)
  opened : xs.length = a.accepted
  first : ∀ x ∈ xs.head?, x.start = 0
  closed : ∀ x ∈ xs.dropLast, x.stop ≠ none

/-- A step in which nothing arrives, and no attempt succeeds. -/
theorem Dialled.quiet (h : a.Dialled xs) (hst : a.Strands) (hs : a.step e = some a') (harr : e.arrives = [])
    (hno : e.accepts = false) : a'.Dialled xs := by
  have hc := step_change hst hs
  refine ⟨?_, ?_, h.first, h.closed⟩
  · rw [(hc.traffic hst).2, harr, List.append_nil]
    exact h.reads
  · rw [hc.accepted hst, hno]
    exact h.opened

/-- Connections are closed. -/
theorem Dialled.close (h : a.Dialled xs) (n : Nat) : a.Dialled (xs.map (·.close n)) := by
  refine ⟨?_, ?_, ?_, ?_⟩
  · rw [List.flatMap_map]
    exact h.reads
  · rw [List.length_map]
    exact h.opened
  · intro y hy
    rw [List.head?_map] at hy
    obtain ⟨x, hx, rfl⟩ := Option.map_eq_some_iff.1 hy
    exact h.first x hx
  · intro y hy
    rw [← List.map_dropLast] at hy
    obtain ⟨x, -, rfl⟩ := List.mem_map.1 hy
    exact Option.some_ne_none _

/-- An attempt succeeds. -/
theorem Dialled.connect (h : a.Dialled xs) (hr : (system host).Reachable a) (hs : a.step e = some a')
    (harr : e.arrives = []) (hyes : e.accepts = true) (hclosed : ∀ x ∈ xs, x.stop ≠ none) (hreceived : y.received = [])
    (hstart : y.start = a.socket.sender.stream.length) : a'.Dialled (xs ++ [y]) := by
  have hst := Reachable.strands hr
  have hc := step_change hst hs
  refine ⟨?_, ?_, ?_, ?_⟩
  · rw [(hc.traffic hst).2, harr, List.append_nil, List.flatMap_append, List.flatMap_singleton, hreceived, List.append_nil]
    exact h.reads
  · rw [List.length_append, hc.accepted hst, hyes, h.opened]
    rfl
  · intro x hx
    cases xs with
    | nil =>
      obtain rfl : y = x := Option.some.inj hx
      rw [hstart, Reachable.unwritten hr h.opened.symm]
      rfl
    | cons z zs => exact h.first x hx
  · rw [List.dropLast_concat]
    exact hclosed

/-- The first connection is the same one, or it takes the place of the first one. -/
theorem first_replaced (h : ∀ z ∈ (before ++ x :: later).head?, z.start = 0) (hy : y.start = x.start) :
    ∀ z ∈ (before ++ y :: later).head?, z.start = 0 := by
  cases before with
  | nil =>
    rintro _ ⟨⟩
    exact hy.trans (h x rfl)
  | cons z zs => exact h

/-- Bytes arrive at the connection that is open. -/
theorem Dialled.receive (h : a.Dialled (before ++ x :: later)) (hst : a.Strands) (hopen : x.stop = none) {bytes : Bytes}
    (hs : a.step (.receiver (.arrive bytes)) = some a') : a'.Dialled (before ++ x.receive bytes :: later) := by
  -- It is the last one.
  obtain rfl : later = [] := by
    by_contra hne
    refine h.closed x ?_ hopen
    rw [List.dropLast_append_cons, List.dropLast_cons_of_ne_nil hne]
    simp
  have hc := step_change hst hs
  have hclosed := h.closed
  rw [List.dropLast_concat] at hclosed
  refine ⟨?_, ?_, ?_, ?_⟩
  · rw [(hc.traffic hst).2, h.reads]
    simp [Connection.receive, Event.arrives, Receiver.Event.arrives]
  · rw [hc.accepted hst]
    simpa [Event.accepts] using h.opened
  · exact first_replaced h.first rfl
  · rw [List.dropLast_concat]
    exact hclosed

/-- A server takes a connection. -/
theorem Dialled.accept (h : a.Dialled (before ++ x :: later)) (k : Nat) : a.Dialled (before ++ x.accept k :: later) := by
  refine ⟨?_, ?_, ?_, ?_⟩
  · rw [h.reads]
    simp [Connection.accept]
  · rw [← h.opened]
    simp
  · exact first_replaced h.first rfl
  · have hclosed := h.closed
    cases later with
    | nil =>
      rw [List.dropLast_concat] at hclosed ⊢
      exact hclosed
    | cons z zs =>
      simp only [List.dropLast_append_cons, List.dropLast_cons_cons, List.mem_append, List.mem_cons] at hclosed ⊢
      rintro y (hy | rfl | hy)
      · exact hclosed y (.inl hy)
      · exact hclosed x (.inr (.inl rfl))
      · exact hclosed y (.inr (.inr hy))

end Application
end Zar
