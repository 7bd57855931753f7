import Zar.Communication.Calls
import Zar.Communication.SendOrder
import Zar.Czar.Lines
/-!
# What a step of the client changes

`step_change` sums up the steps: a line is executed, a connection attempt ends, a
message of the server is written out, or one of the parts does something on its
own. The invariants are case analyses over it.
-/

namespace Zar

namespace Receiver

variable {r r' : Receiver} {e : Event}

theorem newCall_same (h : r'.calls = r.calls) : r.newCall r' = none := by simp [newCall, h]

theorem newCall_concat {call : Call} (h : r'.calls = r.calls ++ [call]) : r.newCall r' = some call := by
  simp [newCall, h]

theorem step_newCall (hs : r.step e = some r') :
    (r.newCall r' = none ∧ r.message e = none) ∨ (∃ n, r.newCall r' = some ⟨true, n, none⟩ ∧ r.message e = none) ∨
      ∃ n m, r.newCall r' = some ⟨false, n, some m⟩ ∧ r.message e = some m := by
  rcases step_calls hs with ⟨hc, hm⟩ | ⟨n, hc, hm⟩ | ⟨n, m, hc, hm⟩
  · exact .inl ⟨newCall_same hc, hm⟩
  · exact .inr (.inl ⟨n, newCall_concat hc, hm⟩)
  · exact .inr (.inr ⟨n, m, newCall_concat hc, hm⟩)

end Receiver

namespace Sender

variable {s s' : Sender} {e : Event}

theorem request_same (s : Sender) (r : Request) : (s.request r).1.strand = s.strand := by
  obtain ⟨b, w, st, h⟩ := request_change s r
  rw [h]

theorem requests_same (s : Sender) (rs : List Request) : (s.requests rs).strand = s.strand := by
  induction rs generalizing s with
  | nil => rfl
  | cons r rs ih => exact (ih (s.request r).1).trans (request_same s r)

theorem step_strand (hs : s.step e = some s') : s'.strand = s.strand := by
  cases step_cases hs with
  | request r => exact request_same s r
  | @sendMessage m ms =>
    obtain ⟨b, w, st, h⟩ := sendMessage_change { s with posted := ms } m
    rw [h]
  | transfer | setProtocol => rfl
  | @handler error n ws react =>
    obtain ⟨t, rs, h⟩ := report_change { s with writes := ws } error n
    unfold sendQueueMessageHandler
    rw [h]
    cases react.throws with
    | some t => exact requests_same _ _
    | none =>
      obtain ⟨b, w, st, h⟩ := advance_change (requests _ react.requests)
      dsimp only
      rw [h]
      exact requests_same _ _

/-- By itself a sender is asked for nothing. -/
theorem step_called_same (ho : e.outside = false) (hr : e.reaction = {})
    (hs : s.step e = some s') : s'.called = s.called := by
  cases step_cases hs with
  | @sendMessage m ms =>
    obtain ⟨b, w, st, h⟩ := sendMessage_change { s with posted := ms } m
    rw [h]
  | transfer => rfl
  | @handler error n ws react =>
    obtain rfl : react = {} := hr
    obtain ⟨t, rs, hreport⟩ := report_change { s with writes := ws } error n
    obtain ⟨b, w, st, h⟩ := advance_change (({ s with writes := ws }).report error n)
    change ((({ s with writes := ws }).report error n).advance.1).called = s.called
    rw [h, hreport]
  | request | setProtocol => cases ho

end Sender

/-! ## Steps of the client -/

namespace Application

variable {host : Endian} {a a' : Application} {e : Event} {es : List Event}

/-- The line that the event passes to `execute`. -/
def lineOf (a : Application) : Event → Option Bytes
  | .input e => (a.input.message e).map (·.contents)
  | _ => none

/-- What a step does. -/
inductive Change (a : Application) : Event → Application → Prop
  | line {e : Receiver.Event} {input : Receiver} {line : Bytes} (hs : a.input.step e = some input)
      (ho : e.outside = false) (hline : a.lineOf (.input e) = some line) (hr : e.reaction = ⟨none, (a.executeLine line).2⟩) :
      Change a (.input e) { (a.executeLine line).1 with input := input }
  | input {e : Receiver.Event} {input : Receiver} (hs : a.input.step e = some input) (ho : e.outside = false)
      (hline : a.lineOf (.input e) = none) (hr : e.reaction = {}) : Change a (.input e) { a with input := input }
  | output {e : Sender.Event} {output : Sender} (hs : a.output.step e = some output) (ho : e.outside = false)
      (hr : e.reaction = {}) : Change a (.output e) { a with output := output }
  | sender {e : Sender.Event} {sender : Sender} (hs : a.socket.sender.step e = some sender) (ho : e.outside = false)
      (hr : e.reaction = {}) : Change a (.sender e) { a with socket := { a.socket with sender := sender } }
  | receiver {e : Receiver.Event} {receiver : Receiver} {output : Sender} (hs : a.socket.receiver.step e = some receiver)
      (ho : e.outside = false) (hr : e.reaction = {})
      (hout : output = a.output ∨ ∃ m, output = (a.output.request (.action m)).1) :
      Change a (.receiver e) { a with socket := { a.socket with receiver := receiver }, output := output }
  | connector {e : Connector.Event} {connector : Connector} (hs : a.socket.connector.step e = some connector)
      (ho : e.outside = false) (hc : connector.calls = a.socket.connector.calls) :
      Change a (.connector e) { a with socket := { a.socket with connector := connector } }
  | connected {e : Connector.Event} {connector : Connector} {error : Bool}
      (hs : a.socket.connector.step e = some connector) (ho : e.outside = false)
      (hc : connector.calls = a.socket.connector.calls ++ [error]) :
      Change a (.connector e) { a with
        connected := a.connected || !error
        socket := { a.socket with connector := connector, receiver := a.socket.receiver.receive.1 } }

/-- The standard output has a strand, and so has the socket. Nothing is thrown there. -/
structure Strands (a : Application) : Prop where
  output : a.output.strand = true
  sender : a.socket.sender.strand = true
  receiver : a.socket.receiver.strand = true

theorem receiver_change (h : a.Strands) {e : Receiver.Event} (ho : e.outside = false) (hs : a.stepReceiver e = some a') :
    Change a (.receiver e) a' := by
  unfold stepReceiver at hs
  split at hs
  · cases hs
  · rename_i receiver hi
    dsimp only at hs
    split at hs
    · rename_i hr
      cases hs
      rcases Receiver.step_newCall hi with ⟨hn, -⟩ | ⟨n, hn, -⟩ | ⟨n, m, hn, -⟩
      · rw [hn] at hr ⊢
        exact .receiver hi ho hr (.inl rfl)
      · rw [hn] at hr ⊢
        exact .receiver hi ho hr (.inl rfl)
      · rw [hn] at hr ⊢
        simp only [onCall, asioCallbackSocketReceive, Bool.false_eq_true, if_false, request_strand h.output] at hr ⊢
        exact .receiver hi ho hr (.inr ⟨m.contents, by rw [request_strand h.output]⟩)
    · cases hs

theorem socketConnect_eq (a : Application) (error : Bool) :
    (a.asioCallbackSocketConnect error).1 = { a with
      connected := a.connected || !error
      socket := { a.socket with receiver := a.socket.receiver.receive.1 } } := by
  cases error <;> simp [asioCallbackSocketConnect, TcpSocket.receive]

theorem connector_change {e : Connector.Event} (ho : e.outside = false) (hs : a.stepConnector e = some a') :
    Change a (.connector e) a' := by
  unfold stepConnector at hs
  split at hs
  · cases hs
  · rename_i connector hi
    have hne : ∀ hostname service, e ≠ .connect hostname service := by
      rintro hostname service rfl
      cases ho
    have hcalls : connector.calls = a.socket.connector.calls ∨ ∃ error, connector.calls = a.socket.connector.calls ++ [error] := by
      rcases Connector.step_requests hi hne with ⟨hc, -⟩ | ⟨hc, -⟩ | ⟨hc, -⟩
      · exact .inl hc
      · exact .inr hc
      · exact .inl hc
    rcases hcalls with hc | ⟨error, hc⟩
    · simp only [hc, List.getElem?_length] at hs
      cases hs
      exact .connector hi ho hc
    · simp only [hc, List.getElem?_concat_length] at hs
      cases hs
      rw [socketConnect_eq]
      exact .connected hi ho hc

theorem input_change {e : Receiver.Event} (ho : e.outside = false) (hs : a.stepInput e = some a') :
    Change a (.input e) a' := by
  unfold stepInput at hs
  split at hs
  · cases hs
  · rename_i input hi
    dsimp only at hs
    split at hs
    · rename_i hr
      cases hs
      rcases Receiver.step_newCall hi with ⟨hn, hm⟩ | ⟨n, hn, hm⟩ | ⟨n, m, hn, hm⟩
      · rw [hn] at hr ⊢
        exact .input hi ho (by simp [lineOf, hm]) hr
      · rw [hn] at hr ⊢
        exact .input hi ho (by simp [lineOf, hm]) hr
      · rw [hn] at hr ⊢
        exact .line hi ho (by simp [lineOf, hm]) hr
    · cases hs

theorem step_change (h : a.Strands) (hs : a.step e = some a') : Change a e a' := by
  cases e with
  | input e =>
    obtain ⟨ho, hs⟩ := Option.ite_none_left_eq_some.1 hs
    exact input_change (eq_false_of_ne_true ho) hs
  | connector e =>
    obtain ⟨ho, hs⟩ := Option.ite_none_left_eq_some.1 hs
    exact connector_change (eq_false_of_ne_true ho) hs
  | receiver e =>
    obtain ⟨ho, hs⟩ := Option.ite_none_left_eq_some.1 hs
    exact receiver_change h (eq_false_of_ne_true ho) hs
  | output e =>
    obtain ⟨ho, hs⟩ := Option.ite_none_left_eq_some.1 hs
    obtain ⟨hr, hs⟩ := Option.ite_none_right_eq_some.1 hs
    obtain ⟨output, hout, rfl⟩ := Option.map_eq_some_iff.1 hs
    exact .output hout (eq_false_of_ne_true ho) hr
  | sender e =>
    obtain ⟨ho, hs⟩ := Option.ite_none_left_eq_some.1 hs
    obtain ⟨hr, hs⟩ := Option.ite_none_right_eq_some.1 hs
    obtain ⟨sender, hsend, rfl⟩ := Option.map_eq_some_iff.1 hs
    exact .sender hsend (eq_false_of_ne_true ho) hr

/-! ## What every run keeps -/

theorem sendAction_strand (a : Application) (action : Bytes) :
    (a.sendAction action).socket.sender.strand = a.socket.sender.strand :=
  Sender.request_same a.socket.sender (.action action)

/-- Of the parts a line changes the sender and the connector. -/
theorem effect_parts (a : Application) (l : Line) :
    (a.effect l).output = a.output ∧ (a.effect l).socket.receiver = a.socket.receiver ∧
      (a.effect l).socket.sender.strand = a.socket.sender.strand := by
  cases l with
  | blank | begin | unknown | connect => exact ⟨rfl, rfl, rfl⟩
  | «end» => exact ⟨rfl, rfl, sendAction_strand _ a.commandBuffer⟩
  | server command =>
    cases hb : a.bufferingMode with
    | true => simp [effect, hb]
    | false =>
      simp only [effect, hb, Bool.false_eq_true, if_false]
      exact ⟨rfl, rfl, sendAction_strand a command⟩

theorem refusal_parts (a : Application) (l : Line) :
    (a.refusal l).output = a.output ∧ (a.refusal l).socket = a.socket ∧ (a.refusal l).connected = a.connected := by
  cases l <;> exact ⟨rfl, rfl, rfl⟩

theorem Strands.line (h : a.Strands) (line : Bytes) : (a.executeLine line).1.Strands := by
  by_cases hr : a.Refused (parseLine line)
  · obtain ⟨t, e⟩ := executeLine_refused h.sender hr
    obtain ⟨hout, hsock, -⟩ := refusal_parts a (parseLine line)
    rw [e]
    exact ⟨by rw [hout]; exact h.output, by rw [hsock]; exact h.sender, by rw [hsock]; exact h.receiver⟩
  · obtain ⟨hout, hrec, hsend⟩ := effect_parts a (parseLine line)
    rw [executeLine_accepted h.sender hr]
    exact ⟨by rw [hout]; exact h.output, hsend.trans h.sender, by rw [hrec]; exact h.receiver⟩

theorem Strands.change (h : a.Strands) (hc : Change a e a') : a'.Strands := by
  cases hc with
  | line _ _ _ _ => exact ⟨(h.line _).output, (h.line _).sender, (h.line _).receiver⟩
  | input _ _ _ _ => exact ⟨h.output, h.sender, h.receiver⟩
  | output hs _ _ => exact ⟨(Sender.step_strand hs).trans h.output, h.sender, h.receiver⟩
  | sender hs _ _ => exact ⟨h.output, (Sender.step_strand hs).trans h.sender, h.receiver⟩
  | receiver hs _ _ hout =>
    refine ⟨?_, h.sender, (Receiver.step_kept hs).2.1.trans h.receiver⟩
    rcases hout with rfl | ⟨m, rfl⟩
    · exact h.output
    · exact (Sender.request_same _ _).trans h.output
  | connector _ _ _ => exact ⟨h.output, h.sender, h.receiver⟩
  | connected _ _ _ => exact ⟨h.output, h.sender, (Receiver.receive_kept _).strand.trans h.receiver⟩

theorem RunIf.strands {ok : Application → Event → Prop} (h : (system host).RunIf ok es a) : a.Strands :=
  h.inv Strands ⟨rfl, rfl, rfl⟩ fun _ _ _ hi _ hs => hi.change (step_change hi hs)

/-- Every step of a run is one of the changes. -/
theorem RunIf.changes {ok : Application → Event → Prop} (I : Application → Prop) (h : (system host).RunIf ok es a)
    (h0 : I (run host)) (hs : ∀ a e a', a.Strands → I a → ok a e → Change a e a' → I a') : I a := by
  refine (h.inv (fun a => a.Strands ∧ I a) ⟨⟨rfl, rfl, rfl⟩, h0⟩ ?_).2
  intro a e a' hi ho hstep
  have hc := step_change hi.1 hstep
  exact ⟨hi.1.change hc, hs a e a' hi.1 hi.2 ho hc⟩

end Application
end Zar
