import Zar.Communication.Codec
import Zar.Communication.Framing
/-!
# Malformed basic frames

`asio_receive_handler` decodes a frame behind counting its bytes, and before it
consumes them, calls the handler and receives again. So a frame that `tmessage`
refuses ends the reading: no read follows, and nobody is told. The peer decides
about the length and the type byte, so the theorem is about every stream.
-/

namespace Zar

variable {host : Endian} {frame : Bytes} {frames : List Bytes}

theorem call_basic (host : Endian) (frame : Bytes) : Protocol.basic.call host frame = none ↔ ¬ WellFormed frame := by
  unfold Protocol.call WellFormed
  rcases Message.decode_basic host frame with ⟨hlt, t, h⟩ | ⟨hle, ha, hr, t, h⟩ | ⟨hw, type, -, h⟩
  · rw [h]
    exact ⟨fun _ hw => Nat.not_le.2 hlt hw.1, fun _ => rfl⟩
  · rw [h]
    exact ⟨fun _ hw => hw.2.elim ha hr, fun _ => rfl⟩
  · rw [h]
    exact ⟨nofun, fun hbad => absurd hw hbad⟩

namespace Receiver

variable {r r' : Receiver} {rest rest' : Bytes} {e : Event} {es : List Event} {strand : Bool}

/-- The handler neither throws nor changes the protocol, and nobody else does. Reads may
fail at any time. -/
def Quiet (_ : Receiver) : Event → Prop
  | .arrive _ | .receiveMessage | .readSome _ _ => True
  | .complete _ react | .fail _ react => react = {}
  | .receive | .setProtocol _ => False

instance (r : Receiver) : (e : Event) → Decidable (Quiet r e)
  | .arrive _ | .receiveMessage | .readSome _ _ => inferInstanceAs (Decidable True)
  | .complete _ react | .fail _ react => inferInstanceAs (Decidable (react = {}))
  | .receive | .setProtocol _ => inferInstanceAs (Decidable False)

/-- There is one read, outstanding or about to be started in the strand, or the handler was
told of the error that ended the reading. What was counted left the buffer. -/
def Alive (r : Receiver) : Prop :=
  (r.posted + r.reads.length = 1 ∨ ∃ call, r.calls.getLast? = some call ∧ call.error = true) ∧ r.Counted 0

theorem plain_quiet (ho : Plain r e) : Quiet r e := by
  cases e <;> first | exact ho | trivial

theorem RunIf.quiet_follows {p : Protocol} (hp : p.Streamed) (h : (system host p strand).RunIf Quiet es r) :
    ∃ frames rest calls, Follows (fun _ => p) (fun _ => False) True host r frames rest calls := by
  refine RunIf.follows (q := fun _ => p) (fun _ => hp) ?_ h
  intro r e ho
  cases e with
  | arrive | receiveMessage | readSome => exact ⟨trivial, trivial⟩
  | complete i react =>
    cases (show react = {} from ho)
    exact ⟨⟨rfl, by simp⟩, fun _ hne he => absurd he hne⟩
  | fail i react =>
    cases (show react = {} from ho)
    exact ⟨⟨rfl, trivial⟩, trivial⟩
  | receive | setProtocol => exact ho.elim

/-- The next frame is one of every stream that goes on from what arrived. -/
theorem next_mem {F : Format UInt8 Bytes} {arrived stream : Bytes} (h : F.Reads arrived frames rest)
    (ha : arrived <+: stream) (hn : F.next rest = some (frame, rest')) : frame ∈ (F.parse stream).1 := by
  obtain ⟨later, rfl⟩ := ha
  have hparse := (h.deliver hn).arrive later
  unfold Format.Reads at hparse
  rw [hparse]
  simp

/-- The receiver reads a stream without trouble, in whatever pieces it comes and however far,
exactly when every complete frame of it is well formed. -/
theorem stays_alive (host : Endian) (strand : Bool) (stream : Bytes) :
    (∀ es r, (system host .basic strand).RunIf Quiet es r → r.arrived <+: stream → r.Alive) ↔
      ∀ frame ∈ ((Protocol.basic.format host).parse stream).1, WellFormed frame := by
  have hp : Protocol.basic.Streamed := .inr (.inr rfl)
  constructor
  · intro halive frame hmem
    by_contra hbad
    -- All of the stream arrives, and the receiver goes on as far as it can.
    have hstart : (system host .basic strand).RunIf Plain [.arrive stream] _ := System.Steps.one trivial rfl
    have hu := RunIf.undisturbed hp hstart
    obtain ⟨es, r, hs, hrest⟩ : ∃ es r, (system host .basic strand).Steps Internal _ es r ∧
        (system host .basic strand).Rest Internal r := hu.exists_rest hp
    have hrun : (system host .basic strand).RunIf Quiet ([.arrive stream] ++ es) r :=
      (System.Steps.trans hstart (hs.mono fun _ _ ho => internal_plain ho)).mono fun _ _ ho => plain_quiet ho
    have harr : r.arrived = stream := by
      rw [internal_steps_arrived hs]
      simp [system, catching, (receive_kept _).arrived]
    obtain ⟨frames, rest, calls, hf⟩ := hu.internal hp hs
    have hreads := Format.readsFrom_const.1 hf.reads
    rw [harr] at hreads
    cases hf.stage with
    | threw _ _ _ _ ht => exact ht.elim
    | failed _ _ _ _ hf => exact hf.elim
    | malformed _ hpost hread hcalls =>
      rcases (halive _ r hrun ⟨[], by simp [harr]⟩).1 with hone | ⟨call, hlast, herr⟩
      · simp [hpost, hread] at hone
      · rw [hcalls] at hlast
        have hok := hf.call (List.mem_of_getLast? hlast)
        rw [herr] at hok
        cases hok
    | reading _ _ _ hph =>
      obtain ⟨read, hi, hc, hu⟩ := hph.at_rest hrest
      have hnone := (hph.waiting hi hc hu).1
      rw [hf.sameHost] at hnone
      rw [hreads.rest hnone] at hmem
      exact absurd ((call_basic host frame).2 hbad) (hf.decodes hmem)
  · intro hwf es r h ha
    obtain ⟨frames, rest, calls, hf⟩ := RunIf.quiet_follows hp h
    cases hf.stage with
    | reading hp hcalls hcount hph => exact ⟨.inl hph.outstanding, hcount⟩
    | threw _ _ _ _ ht => exact ht.elim
    | failed hpost hreads hcalls hcount => exact ⟨.inr ⟨_, by rw [hcalls, List.getLast?_concat], rfl⟩, hcount⟩
    | malformed _ _ _ _ _ hn hbad =>
      have hmem := next_mem (Format.readsFrom_const.1 hf.reads) ha hn
      exact absurd (hwf _ hmem) ((call_basic host _).1 hbad)

/-- A message of no bytes, and one of a type that does not exist. Of the second one five bytes
are counted and still in the buffer. -/
theorem malformed_not_alive : ∃ r r',
    (system .little .basic true).RunIf Quiet
      [.receiveMessage, .arrive [0, 0, 0, 0], .readSome 0 4, .complete 0 {}, .complete 0 {}] r ∧ ¬ r.Alive ∧
    (system .little .basic true).RunIf Quiet
      [.receiveMessage, .arrive [0, 0, 0, 5, 66, 0, 0, 0, 0], .readSome 0 4, .complete 0 {}, .readSome 0 5,
        .complete 0 {}] r' ∧ ¬ r'.Alive ∧
    r'.calls = [] ∧ r'.totalBytesTransferred = 9 ∧ r'.inputBuffer = [66, 0, 0, 0, 0] := by
  have hexec : (system .little .basic true).exec Quiet (system .little .basic true).init
      [.receiveMessage, .arrive [0, 0, 0, 0], .readSome 0 4, .complete 0 {}, .complete 0 {}] = some _ := rfl
  have hexec' : (system .little .basic true).exec Quiet (system .little .basic true).init
      [.receiveMessage, .arrive [0, 0, 0, 5, 66, 0, 0, 0, 0], .readSome 0 4, .complete 0 {}, .readSome 0 5,
        .complete 0 {}] = some _ := rfl
  have hdead : ∀ r : Receiver, r.posted = 0 → r.reads = [] → r.calls = [] → ¬ r.Alive := by
    rintro r hpost hreads hcalls ⟨hone | ⟨call, hlast, -⟩, -⟩
    · simp [hpost, hreads] at hone
    · simp [hcalls] at hlast
  exact ⟨_, _, System.Steps.of_exec hexec, hdead _ rfl rfl rfl, System.Steps.of_exec hexec', hdead _ rfl rfl rfl, rfl, rfl,
    rfl⟩

end Receiver
end Zar
