import Zar.Communication.Several
import Zar.Communication.Wire
import Zar.Czar.MultiLine
/-!
# The client between its streams

The actions go to the socket as they were asked for, and the lines that come from it go to the
standard output, each once and in order. Nothing the user types and no connection that fails
changes that.
-/

namespace Zar

theorem Sender.encoded_line {host : Endian} (ms : List Message) :
    ms.flatMap (·.encoding host .line) = ended 10 (ms.map (·.contents)) := by
  rw [ended, List.flatMap_map]
  rfl

/-- Nobody calls a receiver of the client from outside, and its handler leaves the protocol. -/
theorem Receiver.Event.stays {e : Receiver.Event} (ho : e.outside = false) (hr : e.reaction = {}) : e.Stays := by
  cases e with
  | arrive | receiveMessage | readSome => trivial
  | complete i react | fail i react =>
    obtain rfl : react = {} := hr
    rfl
  | receive | setProtocol => cases ho

/-- The same of a sender. -/
theorem Sender.Event.kept {e : Sender.Event} (s : Sender) (ho : e.outside = false) (hr : e.reaction = {}) :
    Sender.Kept s e ∧ ∀ react, e = .handler react → react.throws = none := by
  cases e with
  | sendMessage | transfer => exact ⟨trivial, by rintro _ ⟨⟩⟩
  | handler react =>
    obtain rfl : react = {} := hr
    exact ⟨trivial, by rintro _ ⟨⟩; rfl⟩
  | request | setProtocol => cases ho

namespace Application

variable {host : Endian} {a a' : Application} {e : Event} {es : List Event}

/-- The connection and the standard output, each in its strand. -/
structure Streams (host : Endian) (a : Application) : Prop where
  sender : Sender.Served host .telnet a.socket.sender
  output : Sender.Served host .line a.output
  receiver : ∃ frames, a.socket.receiver.Several frames

/-- A line asks for one action or for none. -/
theorem effect_sender (a : Application) (l : Line) : (a.effect l).socket.sender = a.socket.sender ∨
    ∃ action, (a.effect l).socket.sender = (a.socket.sender.request (.action action)).1 := by
  cases l with
  | blank | begin | unknown | connect => exact .inl rfl
  | «end» => exact .inr ⟨a.commandBuffer, rfl⟩
  | server command =>
    cases hb : a.bufferingMode with
    | true =>
      left
      simp only [effect, hb, if_true]
    | false =>
      right
      simp only [effect, hb, Bool.false_eq_true, if_false]
      exact ⟨command, rfl⟩

theorem executeLine_parts (hst : a.Strands) (line : Bytes) :
    (a.executeLine line).1.output = a.output ∧ (a.executeLine line).1.socket.receiver = a.socket.receiver ∧
      ((a.executeLine line).1.socket.sender = a.socket.sender ∨
        ∃ action, (a.executeLine line).1.socket.sender = (a.socket.sender.request (.action action)).1) := by
  by_cases hr : a.Refused (parseLine line)
  · obtain ⟨t, e⟩ := executeLine_refused hst.sender hr
    obtain ⟨hout, hsock, -⟩ := refusal_parts a (parseLine line)
    rw [e]
    exact ⟨hout, congrArg TcpSocket.receiver hsock, .inl (congrArg TcpSocket.sender hsock)⟩
  · obtain ⟨hout, hrec, -⟩ := effect_parts a (parseLine line)
    rw [executeLine_accepted hst.sender hr]
    exact ⟨hout, hrec, effect_sender a (parseLine line)⟩

theorem Streams.change (h : Streams host a) (hst : a.Strands) (hc : Change a e a') : Streams host a' := by
  cases hc with
  | @line _ _ line =>
    obtain ⟨hout, hrec, hsend⟩ := executeLine_parts hst line
    refine ⟨?_, by rw [hout]; exact h.output, by rw [hrec]; exact h.receiver⟩
    dsimp only
    rcases hsend with he | ⟨action, he⟩
    · rw [he]
      exact h.sender
    · rw [he]
      exact h.sender.request (.inr (.inl rfl)) _
  | input | connector => exact ⟨h.sender, h.output, h.receiver⟩
  | output hs ho hr =>
    obtain ⟨hkept, hthrow⟩ := Sender.Event.kept a.output ho hr
    exact ⟨h.sender, h.output.step (.inl rfl) hkept hthrow hs, h.receiver⟩
  | sender hs ho hr =>
    obtain ⟨hkept, hthrow⟩ := Sender.Event.kept a.socket.sender ho hr
    exact ⟨h.sender.step (.inr (.inl rfl)) hkept hthrow hs, h.output, h.receiver⟩
  | receiver hs ho hr hout =>
    obtain ⟨frames, hf⟩ := h.receiver
    refine ⟨h.sender, ?_, hf.step (Receiver.Event.stays ho hr) hs⟩
    rcases hout with rfl | ⟨m, rfl⟩
    · exact h.output
    · exact h.output.request (.inl rfl) _
  | connected =>
    obtain ⟨frames, hf⟩ := h.receiver
    exact ⟨h.sender, h.output, frames, hf.receive⟩

theorem Reachable.strands (h : (system host).Reachable a) : a.Strands := by
  obtain ⟨es, h⟩ := h
  exact RunIf.strands h

theorem Reachable.streams (h : (system host).Reachable a) : Streams host a := by
  obtain ⟨es, h⟩ := h
  refine RunIf.changes (Streams host) h ?_ fun _ _ _ hst hi _ hc => hi.change hst hc
  exact ⟨Sender.Served.init host .telnet, Sender.Served.init host .line, [], Receiver.Several.init host true⟩

/-! ## What is written to the standard output -/

/-- What was passed to the standard output. -/
def shown (a : Application) : List Bytes := a.output.called.map (·.contents)

theorem stepReceiver_shown {e : Receiver.Event} (hs : a.stepReceiver e = some a')
    (hi : a.shown = a.socket.receiver.contents) : a'.shown = a'.socket.receiver.contents := by
  unfold stepReceiver at hs
  split at hs
  · cases hs
  · rename_i receiver hreceiver
    have hcontents := Receiver.step_contents hreceiver
    dsimp only at hs
    split at hs
    · cases hs
      dsimp only
      rw [hcontents, ← hi]
      rcases Receiver.step_newCall hreceiver with ⟨hn, hm⟩ | ⟨n, hn, hm⟩ | ⟨n, m, hn, hm⟩
      · simp [hn, hm, onCall, shown]
      · simp [hn, hm, onCall, asioCallbackSocketReceive, shown]
      · obtain ⟨b, w, st, he⟩ := Sender.request_change a.output (.action m.contents)
        simp [hn, hm, onCall, asioCallbackSocketReceive, shown, he, Request.message]
    · cases hs

/-- Every message that was delivered is passed on, and nothing else. -/
theorem Reachable.shown (h : (system host).Reachable a) : a.shown = a.socket.receiver.contents := by
  have hboth : a.Strands ∧ a.shown = a.socket.receiver.contents := by
    refine h.inv (fun a => a.Strands ∧ a.shown = a.socket.receiver.contents) ⟨⟨rfl, rfl, rfl⟩, rfl⟩ ?_
    rintro a e a' ⟨hst, hi⟩ hs
    have hc := step_change hst hs
    refine ⟨hst.change hc, ?_⟩
    cases hc with
    | @line _ _ line =>
      obtain ⟨hout, hrec, -⟩ := executeLine_parts hst line
      simpa only [Application.shown, hout, hrec] using hi
    | input | sender | connector => exact hi
    | output hout ho hr => exact (congrArg (List.map _) (Sender.step_called_same ho hr hout)).trans hi
    | receiver =>
      obtain ⟨-, hs⟩ := Option.ite_none_left_eq_some.1 hs
      exact stepReceiver_shown hs hi
    | connected =>
      dsimp only [Application.shown]
      rw [Receiver.contents, Receiver.receive_calls]
      exact hi
  exact hboth.2

/-! ## The streams -/

/-- The server gets the actions, as far as it gets. -/
theorem Reachable.asks (h : (system host).Reachable a) : a.socket.sender.stream <+: telnetLines a.actions := by
  rw [actions, ← Sender.encoded_telnet]
  exact (Reachable.streams h).sender.stream (.inr (.inl rfl))

theorem Reachable.asked (h : (system host).Reachable a) (herror : ∀ x ∈ a.socket.sender.reports, x.error = false)
    (hw : a.socket.sender.writes = []) (hp : a.socket.sender.posted = []) :
    a.socket.sender.stream = telnetLines a.actions := by
  rw [actions, ← Sender.encoded_telnet]
  exact (Reachable.streams h).sender.written (.inr (.inl rfl)) herror hw hp

/-- The user gets the messages of the server, a line end behind each. -/
theorem Reachable.shows (h : (system host).Reachable a) :
    a.output.stream <+: ended 10 a.shown ∧ a.shown <+: telnetContents a.socket.receiver.arrived := by
  obtain ⟨frames, hf⟩ := (Reachable.streams h).receiver
  constructor
  · rw [Application.shown, ← Sender.encoded_line]
    exact (Reachable.streams h).output.stream (.inl rfl)
  · rw [Reachable.shown h]
    exact hf.first

theorem Reachable.showed (h : (system host).Reachable a) (herror : ∀ x ∈ a.output.reports, x.error = false)
    (hw : a.output.writes = []) (hp : a.output.posted = []) (hidle : a.socket.receiver.Idle) :
    a.output.stream = ended 10 a.shown ∧ a.shown = telnetContents a.socket.receiver.arrived := by
  obtain ⟨frames, hf⟩ := (Reachable.streams h).receiver
  constructor
  · rw [Application.shown, ← Sender.encoded_line]
    exact (Reachable.streams h).output.written (.inl rfl) herror hw hp
  · rw [Reachable.shown h]
    exact hf.all hidle

/-- The bytes that come from the server in a step. -/
def Event.arrives : Event → Bytes
  | .receiver e => e.arrives
  | .input _ | .output _ | .connector _ | .sender _ => []

/-- A step adds to the stream of the socket, and takes what arrives. -/
theorem Change.traffic (hst : a.Strands) (hc : Change a e a') :
    a.socket.sender.stream <+: a'.socket.sender.stream ∧
      a'.socket.receiver.arrived = a.socket.receiver.arrived ++ e.arrives := by
  cases hc with
  | @line _ _ line =>
    obtain ⟨-, hrec, hsend⟩ := executeLine_parts hst line
    refine ⟨?_, by simp only [hrec, Event.arrives, List.append_nil]⟩
    dsimp only
    rcases hsend with he | ⟨action, he⟩
    · rw [he]
    · rw [he]
      exact Sender.step_stream (e := .request (.action action)) rfl
  | input | output | connector => exact ⟨List.prefix_refl _, (List.append_nil _).symm⟩
  | sender hs => exact ⟨Sender.step_stream hs, (List.append_nil _).symm⟩
  | receiver hs => exact ⟨List.prefix_refl _, Receiver.step_arrived hs⟩
  | connected => exact ⟨List.prefix_refl _, (Receiver.receive_kept _).arrived.trans (List.append_nil _).symm⟩

end Application
end Zar
