import Zar.Communication.Reading
/-!
# Changing the protocol between two messages

`async_read_until` may read past its delimiter, and what it read too much stays in
the buffer. The next `async_read_until` looks there first, but `async_read` of a
size waits for that many new bytes. So a basic message of which a byte is in the
buffer when the handler turns to the basic protocol is not delivered when it is
complete. Where the buffer is empty then, every change of protocol goes well.
-/

namespace Zar
namespace Receiver

variable {host : Endian} {r r' : Receiver} {e : Event} {es : List Event} {strand : Bool} {q : Nat → Protocol}

/-- The handler of the message `k` leaves the connection in the protocol `q (k + 1)`. Nobody
else changes the protocol. -/
def Switches (q : Nat → Protocol) (r : Receiver) : Event → Prop
  | .arrive _ | .receiveMessage | .readSome _ _ | .fail _ _ => True
  | .complete _ react => react.protocol.getD (q r.calls.length) = q (r.calls.length + 1)
  | .receive | .setProtocol _ => False

instance (q : Nat → Protocol) (r : Receiver) : (e : Event) → Decidable (Switches q r e)
  | .arrive _ | .receiveMessage | .readSome _ _ | .fail _ _ => inferInstanceAs (Decidable True)
  | .complete _ react => inferInstanceAs (Decidable (react.protocol.getD (q r.calls.length) = q (r.calls.length + 1)))
  | .receive | .setProtocol _ => inferInstanceAs (Decidable False)

instance (q : Nat → Protocol) (r : Receiver) : (e : Event) → Decidable (Emptied q r e)
  | .complete i react => inferInstanceAs (Decidable (react.throws = none → q r.calls.length ≠ .basic →
      q (r.calls.length + 1) = .basic → ∀ read ∈ r.reads[i]?, ∀ n ∈ read.complete r.inputBuffer, r.inputBuffer.drop n = []))
  | .arrive _ | .receive | .receiveMessage | .readSome _ _ | .fail _ _ | .setProtocol _ =>
    inferInstanceAs (Decidable True)

/-- The calls of the handler are those for all messages that are complete in what arrived,
each parsed in the protocol in force at its first byte. -/
def Current (q : Nat → Protocol) (r : Receiver) : Prop :=
  ((Format.parseFrom (fun k => (q k).format r.host) 0 r.arrived).1.mapIdx fun k frame => (q k).call r.host frame) =
    r.calls.map some

/-- A receiver that follows the schedule and waits has delivered everything. -/
theorem Follows.current {T : Thrown → Prop} {F : Prop} {frames : List Bytes} {rest : Bytes} {calls : List Call}
    (h : Follows q T F host r frames rest calls) (hw : r.Waits) : Current q r := by
  obtain ⟨hu, read, hr, hc⟩ := hw
  have hi : r.reads[0]? = some read := by rw [hr]; rfl
  cases h.stage with
  | malformed _ _ hreads | threw _ hreads | failed _ hreads => simp [hreads] at hr
  | reading _ hcalls _ hph =>
    have hnone := (hph.waiting hi hc hu).1
    rw [h.sameHost] at hnone
    unfold Current
    rw [h.sameHost, h.reads.rest hnone, hcalls]
    exact h.decoded

/-! ## Runs -/

/-- The receiver follows the schedule, or it reads no more. -/
def Switched (host : Endian) (q : Nat → Protocol) (r : Receiver) : Prop :=
  (∃ frames rest calls, Follows q (fun _ => True) True host r frames rest calls) ∨ r.posted = 0 ∧ r.reads = []

/-- A read that fails is the end of the reading, also where the handler throws. -/
theorem Follows.fail {T : Thrown → Prop} {F : Prop} {frames : List Bytes} {rest : Bytes} {calls : List Call}
    (h : Follows q T F host r frames rest calls) {i : Nat} {react : ReceiveReaction} (hs : r.step (.fail i react) = some r') :
    r'.posted = 0 ∧ r'.reads = [] := by
  cases step_cases hs with
  | @fail _ read _ hi =>
    have hsame : ∀ x : Receiver, x.posted = 0 → x.reads = [] →
        (catching (x.handle read true read.transferred react)).posted = 0 ∧
          (catching (x.handle read true read.transferred react)).reads = [] := by
      intro x hpost hreads
      unfold handle asioReceiveHandlerReadLength asioReceiveHandler receiveError callHandler
      cases react.throws <;> split <;> exact ⟨hpost, hreads⟩
    cases h.stage with
    | malformed _ _ hreads | threw _ hreads | failed _ hreads => simp [hreads] at hi
    | reading _ _ _ hph =>
      obtain ⟨rfl, hr, hpost⟩ := hph.read hi
      exact hsame _ hpost (by rw [hr]; rfl)

/-- Without a read nothing is read. -/
theorem Switches.stopped (ho : Switches q r e) (hpost : r.posted = 0) (hreads : r.reads = []) (hs : r.step e = some r') :
    r'.posted = 0 ∧ r'.reads = [] := by
  cases step_cases hs with
  | arrive => exact ⟨hpost, hreads⟩
  | receive | setProtocol => exact ho.elim
  | receiveMessage hpos => omega
  | readSome hi | complete _ hi | fail _ hi => simp [hreads] at hi

theorem Switched.step (hq : ∀ k, (q k).Streamed) (h : Switched host q r) (ho : Switches q r e) (hem : Emptied q r e)
    (hs : r.step e = some r') : Switched host q r' := by
  rcases h with ⟨frames, rest, calls, hf⟩ | ⟨hpost, hreads⟩
  · cases e with
    | arrive bytes => exact .inl ⟨_, _, _, by cases hs; exact hf.arrive bytes⟩
    | receiveMessage => exact .inl (hf.step (e := .receiveMessage) hq trivial hem hs)
    | readSome i k => exact .inl (hf.step (e := .readSome i k) hq trivial hem hs)
    | complete i react => exact .inl (hf.step (e := .complete i react) hq ⟨ho, fun _ _ => trivial⟩ hem hs)
    | fail i react => exact .inr (hf.fail hs)
    | receive | setProtocol => exact ho.elim
  · exact .inr (ho.stopped hpost hreads hs)

/-- Whatever protocols the handler asks for, nothing is late where each change to the basic
protocol meets an empty buffer, or the handler throws: once all that arrived is read, and the outstanding
read waits for more, every message that is complete was delivered. -/
theorem switch_delivers (hq : ∀ k, (q k).Streamed)
    (h : (system host (q 0) strand).RunIf (fun r e => Switches q r e ∧ Emptied q r e) es r) (hw : r.Waits) :
    Current q r := by
  have hk : Switched host q r := by
    refine h.inv (Switched host q) (.inl ⟨_, _, _, Follows.init (hq 0) strand⟩) ?_
    intro r e r' hk ho hs
    exact hk.step hq ho.1 ho.2 hs
  rcases hk with ⟨frames, rest, calls, hf⟩ | ⟨-, hreads⟩
  · exact hf.current hw
  · obtain ⟨-, read, hr, -⟩ := hw
    rw [hreads] at hr
    cases hr

/-- A line, then basic messages. -/
def lineThenBasic : Nat → Protocol
  | 0 => .line
  | _ => .basic

theorem lineThenBasic_streamed (k : Nat) : (lineThenBasic k).Streamed := by
  cases k with
  | zero => exact .inl rfl
  | succ k => exact .inr (.inr rfl)

/-- The line is read alone, and behind it the basic message in two pieces. -/
theorem switch_delivers_line_basic : ∃ r,
    (system .little (lineThenBasic 0) true).RunIf (fun r e => Switches lineThenBasic r e ∧ Emptied lineThenBasic r e)
      [.receiveMessage, .arrive [97, 10], .readSome 0 2, .complete 0 ⟨some .basic, none⟩, .receiveMessage,
        .arrive [0, 0, 0, 5, 65, 0, 0, 0, 1], .readSome 0 4, .complete 0 {}, .readSome 0 5, .complete 0 {},
        .receiveMessage] r ∧
    Current lineThenBasic r ∧ r.calls.length = 2 := by
  have hexec : (system .little (lineThenBasic 0) true).exec
      (fun r e => Switches lineThenBasic r e ∧ Emptied lineThenBasic r e) (system .little (lineThenBasic 0) true).init
      [.receiveMessage, .arrive [97, 10], .readSome 0 2, .complete 0 ⟨some .basic, none⟩, .receiveMessage,
        .arrive [0, 0, 0, 5, 65, 0, 0, 0, 1], .readSome 0 4, .complete 0 {}, .readSome 0 5, .complete 0 {},
        .receiveMessage] = some _ := rfl
  have hrun := System.Steps.of_exec hexec
  exact ⟨_, hrun, switch_delivers lineThenBasic_streamed hrun ⟨rfl, _, rfl, rfl⟩, rfl⟩

/-- The line and the basic message arrive together and are read at once. The message is
complete, and the receiver waits for four more bytes. -/
theorem surplus_not_delivered : ∃ r,
    (system .little (lineThenBasic 0) true).RunIf (Switches lineThenBasic)
      [.receiveMessage, .arrive [97, 10, 0, 0, 0, 5, 65, 0, 0, 0, 1], .readSome 0 11,
        .complete 0 ⟨some .basic, none⟩, .receiveMessage] r ∧
    r.Waits ∧ ¬ Current lineThenBasic r ∧ r.inputBuffer = [0, 0, 0, 5, 65, 0, 0, 0, 1] := by
  have hexec : (system .little (lineThenBasic 0) true).exec (Switches lineThenBasic)
      (system .little (lineThenBasic 0) true).init
      [.receiveMessage, .arrive [97, 10, 0, 0, 0, 5, 65, 0, 0, 0, 1], .readSome 0 11,
        .complete 0 ⟨some .basic, none⟩, .receiveMessage] = some _ := rfl
  refine ⟨_, System.Steps.of_exec hexec, ⟨rfl, _, rfl, rfl⟩, ?_, rfl⟩
  intro hcur
  have hparse : (Format.parseFrom (fun k => (lineThenBasic k).format .little) 0
      [97, 10, 0, 0, 0, 5, 65, 0, 0, 0, 1]).1.length = 2 := by
    rw [Format.parseFrom_some (show (Protocol.line.format .little).next _ = some ([97, 10], [0, 0, 0, 5, 65, 0, 0, 0, 1]) from rfl),
      Format.parseFrom_some (show (Protocol.basic.format .little).next _ = some ([65, 0, 0, 0, 1], []) from rfl),
      Format.parseFrom_none (show (Protocol.basic.format .little).next _ = none from rfl)]
    rfl
  have hlen := congrArg List.length hcur
  rw [List.length_mapIdx, List.length_map] at hlen
  exact absurd (hparse.symm.trans hlen) (by decide)

end Receiver
end Zar
