import Mathlib.Data.Prod.Lex
import Zar.Communication.Calls
import Zar.Communication.Framing
import Zar.Communication.Switching
import Zar.Communication.Wire
/-!
# One direction of a connection

What the sender of one end writes arrives at the receiver of the other end, in pieces of any
size and at any time. Handlers may throw, and reads and writes may fail. The messages still
arrive in the order they were asked for, each once, as far as they get.
-/

namespace Zar

variable {host host' : Endian} {p : Protocol} {strand strand' : Bool}

/-! ## A receiver that may fail -/

namespace Receiver

variable {r r' : Receiver} {e : Event} {q : Nat → Protocol} {T : Thrown → Prop} {F : Prop} {frames : List Bytes} {rest : Bytes}
  {calls : List Call}

/-- The protocol stays, and nobody else calls `receive`. -/
def Steady (_ : Receiver) : Event → Prop
  | .arrive _ | .receiveMessage | .readSome _ _ => True
  | .complete _ react | .fail _ react => react.protocol = none
  | .receive | .setProtocol _ => False

instance (r : Receiver) : (e : Event) → Decidable (Steady r e)
  | .arrive _ | .receiveMessage | .readSome _ _ => inferInstanceAs (Decidable True)
  | .complete _ react | .fail _ react => inferInstanceAs (Decidable (react.protocol = none))
  | .receive | .setProtocol _ => inferInstanceAs (Decidable False)

/-- The calls with a message. -/
def heard (r : Receiver) : List Call := r.calls.filter fun call => !call.error

theorem Follows.heard (h : Follows q T F host r frames rest calls) : r.heard = calls := by
  have hall : calls.filter (fun call => !call.error) = calls := by
    apply List.filter_eq_self.2
    intro call hmem
    rw [h.toHeard.call hmem]
    rfl
  unfold Receiver.heard
  cases h.stage with
  | reading _ hcalls | malformed _ _ _ hcalls | threw _ _ hcalls => rw [hcalls, hall]
  | failed _ _ hcalls =>
    rw [hcalls, List.filter_append, hall]
    exact List.append_nil _

/-- What was heard are the frames that were read, and the receiver follows or it reads no more. -/
def Hears (host : Endian) (p : Protocol) (r : Receiver) : Prop :=
  ∃ frames rest calls, Heard (fun _ => p) host r frames rest calls ∧ r.heard = calls ∧
    (Stage (fun _ => True) True host p r rest calls ∨ r.posted = 0 ∧ r.reads = [])

theorem Hears.init (hp : p.Streamed) (host : Endian) (strand : Bool) : Hears host p (system host p strand).init := by
  have h : Follows (fun _ => p) (fun _ => True) True host (system host p strand).init [] [] [] := Follows.init hp strand
  exact ⟨[], [], [], h.toHeard, h.heard, .inl h.stage⟩

theorem Follows.hears (h : Follows (fun _ => p) (fun _ => True) True host r frames rest calls) : Hears host p r :=
  ⟨frames, rest, calls, h.toHeard, h.heard, .inl h.stage⟩

theorem step_fail_heard {i : Nat} {react : ReceiveReaction} (hs : r.step (.fail i react) = some r') : r'.heard = r.heard := by
  cases step_cases hs with
  | @fail i read react hi =>
    have hcalls := handle_error_calls { r with reads := r.reads.eraseIdx i } read read.transferred react
    unfold heard catching
    rw [hcalls, List.filter_append]
    exact List.append_nil _

theorem Hears.step (hp : p.Streamed) (h : Hears host p r) (ho : Steady r e) (hs : r.step e = some r') : Hears host p r' := by
  obtain ⟨frames, rest, calls, hheard, hcalls, hstage⟩ := h
  obtain ⟨hhost, -, harr⟩ := step_kept hs
  rcases hstage with hstage | ⟨hpost, hreads⟩
  · have hf : Follows (fun _ => p) (fun _ => True) True host r frames rest calls := ⟨hheard, hstage⟩
    have hstep : Scheduled (fun _ => p) (fun _ => True) True r e → Hears host p r' := by
      intro hsched
      have hem : Emptied (fun _ => p) r e := by
        cases e with
        | complete => exact fun _ hne he => absurd he hne
        | arrive | receive | receiveMessage | readSome | fail | setProtocol => trivial
      obtain ⟨frames', rest', calls', hf'⟩ := hf.step (fun _ => hp) hsched hem hs
      exact hf'.hears
    cases e with
    | arrive | receiveMessage | readSome => exact hstep trivial
    | complete i react =>
      refine hstep ⟨?_, fun _ _ => trivial⟩
      rw [show react.protocol = none from ho]
      rfl
    | fail i react =>
      -- The read is gone, and with it the reading.
      have hsame : Heard (fun _ => p) host r' frames rest calls := hheard.same hhost (harr.trans (List.append_nil _))
      exact ⟨frames, rest, calls, hsame, (step_fail_heard hs).trans hcalls, .inr (hf.fail hs)⟩
    | receive | setProtocol => exact ho.elim
  · cases step_cases hs with
    | arrive bytes =>
      exact ⟨frames, rest ++ bytes, calls, ⟨hheard.sameHost, hheard.reads.arrive bytes, hheard.decoded⟩, hcalls,
        .inr ⟨hpost, hreads⟩⟩
    | receive | setProtocol => exact ho.elim
    | receiveMessage hpos => omega
    | readSome hi | complete _ hi | fail _ hi => simp [hreads] at hi

/-- What was heard while the encoding of `ms` arrives are the first messages of `ms`. -/
theorem Hears.first {ms : List Message} (h : Hears host' p r) (hr : ∀ m ∈ ms, m.Representable p)
    (ha : r.arrived <+: ms.flatMap (·.encoding host p)) : r.heard <+: ms.map (·.delivery host p) := by
  obtain ⟨frames, rest, calls, hheard, rfl, -⟩ := h
  have hd : Delivered host' p { r with protocol := p, calls := r.heard } frames rest :=
    ⟨hheard.sameHost, rfl, Format.readsFrom_const.1 hheard.reads, hheard.mapM⟩
  exact hd.first hr ha

theorem Hears.work_lt (hp : p.Streamed) (h : Hears host p r) (ho : Internal r e) (hs : r.step e = some r') :
    r'.work < r.work := by
  obtain ⟨frames, rest, calls, hheard, -, hstage⟩ := h
  have hnone : r.posted = 0 → r.reads = [] → False := by
    intro hpost hreads
    cases step_cases hs with
    | receiveMessage hpos => omega
    | readSome hi | complete _ hi => simp [hreads] at hi
    | arrive | receive | fail | setProtocol => exact ho.elim
  rcases hstage with (⟨hprotocol, hcalls, -, hph⟩ | ⟨-, hpost, hreads⟩ | ⟨hpost, hreads⟩ | ⟨hpost, hreads⟩) | ⟨hpost, hreads⟩
  · have hd : Delivered host p r frames rest :=
      ⟨hheard.sameHost, hprotocol, Format.readsFrom_const.1 hheard.reads, by rw [hcalls]; exact hheard.mapM⟩
    exact Framed.work_lt hp ⟨frames, rest, hd, .inl hph⟩ ho hs
  all_goals exact (hnone hpost hreads).elim

end Receiver

/-! ## The two ends -/

structure Channel where
  sender : Sender
  receiver : Receiver
  deriving DecidableEq, Repr

namespace Channel

inductive Event where
  | sender (e : Sender.Event)
  /-- A step of the receiver, with no bytes from the sender. -/
  | receiver (e : Receiver.Event)
  /-- The next `n` bytes arrive. -/
  | deliver (n : Nat)
  deriving DecidableEq, Repr

/-- The next `n` bytes of a stream of which `arrived` is there. -/
def next (stream arrived : Bytes) (n : Nat) : Bytes := (stream.drop arrived.length).take n

def step (C : Channel) : Event → Option Channel
  | .sender e => (C.sender.step e).map fun s => { C with sender := s }
  | .receiver e => if e.arrives ≠ [] then none else (C.receiver.step e).map fun r => { C with receiver := r }
  | .deliver n =>
    let bytes := next C.sender.stream C.receiver.arrived n
    if bytes ≠ [] then (C.receiver.step (.arrive bytes)).map fun r => { C with receiver := r } else none

/-- A sender, and a receiver on which `receive()` was called. -/
def system (host host' : Endian) (p : Protocol) (strand strand' : Bool) : System Channel Event :=
  ⟨⟨(Sender.system host p strand).init, (Receiver.system host' p strand').init⟩, step⟩

theorem next_front {stream arrived : Bytes} (h : arrived <+: stream) (n : Nat) :
    arrived ++ next stream arrived n <+: stream := by
  obtain ⟨later, rfl⟩ := h
  rw [next, List.drop_left, List.prefix_append_right_inj]
  exact List.take_prefix n later

/-- All of a stream is there when there is no next byte. -/
theorem arrived_all {stream arrived : Bytes} (hpre : arrived <+: stream)
    (hn : next stream arrived stream.length = []) : arrived = stream := by
  obtain ⟨later, rfl⟩ := hpre
  rw [next, List.drop_left, List.take_of_length_le (by simp)] at hn
  rw [hn, List.append_nil]

theorem next_length {stream arrived : Bytes} {n : Nat} (hpre : arrived <+: stream) (hne : next stream arrived n ≠ []) :
    stream.length - (arrived ++ next stream arrived n).length < stream.length - arrived.length := by
  have hle := (next_front hpre n).length_le
  have hpos := List.length_pos_iff.2 hne
  rw [List.length_append] at hle ⊢
  omega

variable {C C' : Channel} {e : Event} {es : List Event}

/-- Both ends keep the protocol, and `receive` is called once. -/
def Steady (C : Channel) : Event → Prop
  | .sender e => Sender.Kept C.sender e
  | .receiver e => Receiver.Steady C.receiver e
  | .deliver _ => True

instance (C : Channel) : (e : Event) → Decidable (Steady C e)
  | .sender e => inferInstanceAs (Decidable (Sender.Kept C.sender e))
  | .receiver e => inferInstanceAs (Decidable (Receiver.Steady C.receiver e))
  | .deliver _ => inferInstanceAs (Decidable True)

/-- The steps of both ends by themselves: nobody asks for a message. -/
def Internal (C : Channel) : Event → Prop
  | .sender e => Sender.Silent e
  | .receiver e => Receiver.Internal C.receiver e
  | .deliver _ => True

/-- Nothing throws, and no read fails. -/
def Unharmed : Event → Prop
  | .sender (.handler react) => react.throws = none
  | .receiver (.complete _ react) => react.throws = none
  | .receiver (.fail _ _) => False
  | _ => True

theorem Internal.steady (h : Internal C e) : Steady C e := by
  cases e with
  | sender e =>
    cases e with
    | sendMessage | transfer | handler => trivial
    | request | setProtocol => exact h.elim
  | receiver e =>
    cases e with
    | complete i react =>
      obtain rfl : react = {} := h
      rfl
    | receiveMessage | readSome => trivial
    | arrive | receive | fail | setProtocol => exact h.elim
  | deliver => trivial

/-- The part of the sender in a run. -/
def Event.ofSender : Event → Option Sender.Event
  | .sender e => some e
  | .receiver _ | .deliver _ => none

theorem RunIf.sender (h : (system host host' p strand strand').RunIf Steady es C) :
    (Sender.system host p strand).RunIf Sender.Kept (es.filterMap Event.ofSender) C.sender := by
  induction h with
  | nil => exact .nil
  | @snoc es C e C' h ho hs ih =>
    rw [List.filterMap_append]
    cases e with
    | sender e =>
      obtain ⟨s, hstep, rfl⟩ := Option.map_eq_some_iff.1 hs
      exact ih.snoc ho hstep
    | receiver e =>
      obtain ⟨-, hs⟩ := Option.ite_none_left_eq_some.1 hs
      obtain ⟨r, -, rfl⟩ := Option.map_eq_some_iff.1 hs
      rw [show [Event.receiver e].filterMap Event.ofSender = [] from rfl, List.append_nil]
      exact ih
    | deliver n =>
      obtain ⟨-, hs⟩ := Option.ite_none_right_eq_some.1 hs
      obtain ⟨r, -, rfl⟩ := Option.map_eq_some_iff.1 hs
      rw [show [Event.deliver n].filterMap Event.ofSender = [] from rfl, List.append_nil]
      exact ih

/-- Where nothing is harmed, the receiver ran by itself. -/
theorem RunIf.receiver (h : (system host host' p strand strand').RunIf Steady es C) (hun : ∀ e ∈ es, Unharmed e) :
    ∃ fs, (Receiver.system host' p strand').RunIf Receiver.Plain fs C.receiver := by
  induction h with
  | nil => exact ⟨[], .nil⟩
  | @snoc es C e C' h ho hs ih =>
    obtain ⟨fs, hf⟩ := ih fun e he => hun e (List.mem_append_left _ he)
    have hlast := hun e (List.mem_append_right _ (List.mem_singleton_self e))
    cases e with
    | sender e =>
      obtain ⟨s, -, rfl⟩ := Option.map_eq_some_iff.1 hs
      exact ⟨fs, hf⟩
    | receiver e =>
      obtain ⟨-, hs⟩ := Option.ite_none_left_eq_some.1 hs
      obtain ⟨r, hstep, rfl⟩ := Option.map_eq_some_iff.1 hs
      refine ⟨fs ++ [e], hf.snoc ?_ hstep⟩
      cases e with
      | arrive | receiveMessage | readSome => trivial
      | complete i react =>
        obtain ⟨protocol, throws⟩ := react
        obtain rfl : protocol = none := ho
        obtain rfl : throws = none := hlast
        rfl
      | fail => exact hlast.elim
      | receive | setProtocol => exact ho.elim
    | deliver n =>
      obtain ⟨-, hs⟩ := Option.ite_none_right_eq_some.1 hs
      obtain ⟨r, hstep, rfl⟩ := Option.map_eq_some_iff.1 hs
      have hplain : Receiver.Plain C.receiver (.arrive (next C.sender.stream C.receiver.arrived n)) := trivial
      exact ⟨_, hf.snoc hplain hstep⟩

/-! ## The invariant -/

structure Sound (host' : Endian) (p : Protocol) (C : Channel) : Prop where
  lone : Sender.Lone C.sender
  hears : Receiver.Hears host' p C.receiver
  arrived : C.receiver.arrived <+: C.sender.stream

theorem Sound.init (hp : p.Streamed) : Sound host' p (system host host' p strand strand').init where
  lone := Sender.reachable_lone (System.reachable_init (S := Sender.system host p strand))
  hears := Receiver.Hears.init hp host' strand'
  arrived := by
    unfold system Receiver.system Receiver.catching
    rw [(Receiver.receive_kept _).arrived]
    exact List.nil_prefix

theorem Sound.step (hp : p.Streamed) (h : Sound host' p C) (ho : Steady C e) (hs : C.step e = some C') : Sound host' p C' := by
  cases e with
  | sender e =>
    obtain ⟨s, hstep, rfl⟩ := Option.map_eq_some_iff.1 hs
    exact ⟨(h.lone.step hstep).1, h.hears, h.arrived.trans (Sender.step_stream hstep)⟩
  | receiver e =>
    obtain ⟨harr, hs⟩ := Option.ite_none_left_eq_some.1 hs
    obtain ⟨r, hstep, rfl⟩ := Option.map_eq_some_iff.1 hs
    refine ⟨h.lone, h.hears.step hp ho hstep, ?_⟩
    have hsame := Receiver.step_arrived hstep
    rw [not_not.1 harr, List.append_nil] at hsame
    exact hsame ▸ h.arrived
  | deliver n =>
    obtain ⟨-, hs⟩ := Option.ite_none_right_eq_some.1 hs
    obtain ⟨r, hstep, rfl⟩ := Option.map_eq_some_iff.1 hs
    refine ⟨h.lone, h.hears.step hp (by trivial) hstep, ?_⟩
    rw [Receiver.step_arrived hstep]
    exact next_front h.arrived n

theorem RunIf.sound (hp : p.Streamed) (h : (system host host' p strand strand').RunIf Steady es C) : Sound host' p C :=
  h.inv (Sound host' p) (Sound.init hp) fun _ _ _ hi ho hs => hi.step hp ho hs

/-- The sender first, then the bytes on the way, then the receiver. -/
def rank (C : Channel) : Nat ×ₗ Nat ×ₗ Nat :=
  toLex (C.sender.work, toLex (C.sender.stream.length - C.receiver.arrived.length, C.receiver.work))

theorem Sound.rank_lt (hp : p.Streamed) (h : Sound host' p C) (ho : Internal C e) (hs : C.step e = some C') :
    C'.rank < C.rank := by
  unfold rank
  simp only [Prod.Lex.toLex_lt_toLex]
  cases e with
  | sender e =>
    obtain ⟨s, hstep, rfl⟩ := Option.map_eq_some_iff.1 hs
    exact .inl (h.lone.work_lt ho hstep)
  | receiver e =>
    obtain ⟨harr, hs⟩ := Option.ite_none_left_eq_some.1 hs
    obtain ⟨r, hstep, rfl⟩ := Option.map_eq_some_iff.1 hs
    have hsame := Receiver.step_arrived hstep
    rw [not_not.1 harr, List.append_nil] at hsame
    exact .inr ⟨rfl, .inr ⟨by rw [hsame], h.hears.work_lt hp ho hstep⟩⟩
  | deliver n =>
    obtain ⟨hne, hs⟩ := Option.ite_none_right_eq_some.1 hs
    obtain ⟨r, hstep, rfl⟩ := Option.map_eq_some_iff.1 hs
    refine .inr ⟨rfl, .inl ?_⟩
    rw [Receiver.step_arrived hstep]
    exact next_length h.arrived hne

/-- Whatever throws and fails at either end, the messages that the receive handler gets are the first
of those that were asked for, each once and in order. Where no more is asked for both ends come to
rest, and all arrived unless something threw or failed. -/
theorem messages_arrive (hp : p.Streamed) (h : (system host host' p strand strand').RunIf Steady es C)
    (hr : ∀ m ∈ C.sender.called, m.Representable p) :
    C.receiver.heard <+: C.sender.called.map (·.delivery host p) ∧
    ¬ (system host host' p strand strand').Endless Internal C ∧
    (∃ fs C', (system host host' p strand strand').Steps Internal C fs C' ∧
      (system host host' p strand strand').Rest Internal C') ∧
    ((system host host' p strand strand').Rest Internal C → (∀ e ∈ es, Unharmed e) →
      (∀ x ∈ C.sender.reports, x.error = false) → C.receiver.calls = C.sender.called.map (·.delivery host p)) := by
  have hsound := RunIf.sound hp h
  have hsender := RunIf.sender h
  have hlt : ∀ C e C', Sound host' p C → Internal C e → (system host host' p strand strand').step C e = some C' →
      Sound host' p C' ∧ C'.rank < C.rank := fun C e C' hC ho hs =>
    ⟨hC.step hp ho.steady hs, hC.rank_lt hp ho hs⟩
  refine ⟨?_, System.not_endless rank _ hlt hsound, System.exists_rest rank _ hlt hsound, fun hrest hun herror => ?_⟩
  · exact hsound.hears.first hr (hsound.arrived.trans (Sender.RunIf.stream hp hsender))
  · have hsrest : ∀ e, Sender.Silent e → C.sender.step e = none := by
      intro e ho
      exact Option.map_eq_none_iff.1 (hrest (.sender e) ho)
    obtain ⟨hwrites, hposted⟩ := Sender.nothing_left (hsrest .sendMessage trivial) (fun n => hsrest (.transfer false n) trivial)
      (hsrest (.handler {}) rfl)
    have hthrow : ∀ react, .handler react ∈ es.filterMap Event.ofSender → react.throws = none := by
      intro react hmem
      obtain ⟨e, he, hof⟩ := List.mem_filterMap.1 hmem
      cases e with
      | sender e =>
        obtain rfl := Option.some.inj hof
        exact hun _ he
      | receiver | deliver => cases hof
    have hstream := Sender.RunIf.written hp hsender (Sender.RunIf.unthrown hp hsender hthrow) herror hwrites hposted
    -- The bytes arrived, and the receiver read them.
    have harrived : C.receiver.arrived = C.sender.stream := by
      apply arrived_all hsound.arrived
      by_contra hne
      have hn := hrest (.deliver C.sender.stream.length) trivial
      simp [system, Channel.step, hne, Receiver.step] at hn
    obtain ⟨fs, hf⟩ := RunIf.receiver h hun
    have hrrest : (Receiver.system host' p strand').Rest Receiver.Internal C.receiver := by
      intro e ho
      have hn := hrest (.receiver e) ho
      have harr : e.arrives = [] := by
        cases e with
        | arrive => exact ho.elim
        | receive | receiveMessage | readSome | complete | fail | setProtocol => rfl
      simp only [system, Channel.step, harr, ne_eq, not_true_eq_false, if_false] at hn
      exact Option.map_eq_none_iff.1 hn
    exact ((Receiver.RunIf.undisturbed hp hf).all hr (harrived.trans hstream) hrrest).1

/-- The second write fails, and then the read. -/
def cut : List Event :=
  [.sender (.request (.action (text "a"))), .sender (.request (.reply 7 (text "b"))), .sender (.transfer false 10), .deliver 3,
    .receiver (.readSome 0 3), .sender (.handler {}), .deliver 10, .receiver (.readSome 0 1), .receiver (.complete 0 {}),
    .receiver (.readSome 0 6), .receiver (.complete 0 {}), .sender (.transfer true 5), .deliver 10, .receiver (.readSome 0 4),
    .receiver (.complete 0 {}), .receiver (.readSome 0 1), .sender (.handler {}), .receiver (.fail 0 { throws := some .system_error })]

theorem messages_arrive_cut : ∃ C, (system .little .big .basic false false).RunIf Steady cut C ∧
    C.receiver.heard <+: C.sender.called.map (·.delivery .little .basic) ∧
    C.receiver.heard.map (·.message) = [some ⟨.action, 1, text "a"⟩] ∧ C.sender.called.length = 2 := by
  have hexec : (system .little .big .basic false false).exec Steady (system .little .big .basic false false).init cut = some _ := rfl
  have hrun := System.Steps.of_exec hexec
  exact ⟨_, hrun, (messages_arrive (.inr (.inr rfl)) hrun (by decide)).1, by decide, rfl⟩

end Channel
end Zar
