import Zar.Communication.Framing
/-!
# Contents on a telnet connection

Nothing is escaped, so the receiver takes the first end of line for the end of a
message. Contents arrive as they were sent exactly if none has an end of line in
it, whatever pieces the stream comes in.
-/

namespace Zar

variable {host host' : Endian} {frame : Bytes} {ms : List Message}

namespace Receiver

/-- The contents of the messages that the handler was called with. -/
def contents (r : Receiver) : List Bytes := r.calls.filterMap fun call => call.message.map (·.contents)

/-- While `stream` arrives, in any pieces, the first of `sent` are delivered, one message
each, and all of them once it arrived and the receiver has nothing left to do. -/
def ArriveIntact (host : Endian) (stream : Bytes) (sent : List Bytes) : Prop :=
  ∀ strand es r, (system host .telnet strand).RunIf Plain es r → r.arrived <+: stream →
    r.contents <+: sent ∧ (r.arrived = stream → (system host .telnet strand).Rest Internal r → r.contents = sent)

end Receiver

/-- A message is decoded without its end of line. -/
theorem call_telnet (host : Endian) (frame : Bytes) :
    Protocol.telnet.call host frame =
      some ⟨false, frame.length, some ⟨.reply, 0, substr frame 0 (sizeSub frame.length 2)⟩⟩ := rfl

/-- The first end of line ends the message. -/
theorem telnet_first (host : Endian) {xs rest : Bytes} (h : (Protocol.telnet.format host).next xs = some (frame, rest)) :
    ¬ text "\r\n" <:+: substr frame 0 (sizeSub frame.length 2) ∧
      xs = substr frame 0 (sizeSub frame.length 2) ++ text "\r\n" ++ rest := by
  rw [next_terminator (d := text "\r\n") rfl] at h
  obtain ⟨n, hn, he⟩ := Option.map_eq_some_iff.1 h
  obtain ⟨rfl, rfl⟩ := Prod.mk.inj he
  obtain ⟨hle, hxs, htake⟩ := matchEnd_some hn
  have hlen : (xs.take n).length = n := by simp [hxs]
  have htwo : 2 ≤ n := hle
  have hsub : substr (xs.take n) 0 (sizeSub (xs.take n).length 2) = xs.take (n - 2) := by
    rw [hlen, sizeSub, if_pos htwo, substr, List.drop_zero, List.take_take, Nat.min_eq_left (Nat.sub_le n 2)]
  rw [hsub]
  refine ⟨matchEnd_first hn (by omega), ?_⟩
  rw [show xs.take (n - 2) ++ text "\r\n" = xs.take n from htake.symm]
  exact (List.take_append_drop n xs).symm

/-- No contents that are delivered contain an end of line. -/
theorem delivered_clean {p : Protocol} (hp : p = .telnet) {r : Receiver} {frames : List Bytes} {rest : Bytes}
    (hd : Receiver.Delivered host p r frames rest) : ∀ c ∈ r.contents, ¬ text "\r\n" <:+: c := by
  subst hp
  have hcalls := Receiver.calls_total (call_telnet host) hd.calls
  have hframes : ∀ frame ∈ frames, ¬ text "\r\n" <:+: substr frame 0 (sizeSub frame.length 2) := by
    intro frame hf
    refine Format.parse_forall (F := Protocol.telnet.format host)
      (fun frame => ¬ text "\r\n" <:+: substr frame 0 (sizeSub frame.length 2)) (fun _ _ _ hn => (telnet_first host hn).1)
      r.arrived frame ?_
    have hreads := hd.reads
    unfold Format.Reads at hreads
    rw [hreads]
    exact List.mem_append_left _ hf
  intro c hc
  unfold Receiver.contents at hc
  rw [hcalls, List.filterMap_map] at hc
  obtain ⟨frame, hf, he⟩ := List.mem_filterMap.1 hc
  obtain rfl := Option.some.inj he
  exact hframes frame hf

theorem delivery_contents (host : Endian) (ms : List Message) :
    ((ms.map (·.delivery host .telnet)).filterMap fun call => call.message.map (·.contents)) = ms.map (·.contents) := by
  rw [List.filterMap_map]
  exact congrFun List.filterMap_eq_map ms

/-- The contents of messages arrive exactly if a telnet connection can carry them. -/
theorem arriveIntact_iff (host host' : Endian) (ms : List Message) :
    Receiver.ArriveIntact host' (ms.flatMap (·.encoding host .telnet)) (ms.map (·.contents)) ↔
      ∀ m ∈ ms, m.Representable .telnet := by
  have hp : Protocol.telnet.Streamed := .inr (.inl rfl)
  constructor
  · intro h m hm
    -- All of the stream arrives, and the receiver goes on as far as it can.
    have hstart : (Receiver.system host' .telnet true).RunIf Receiver.Plain
        [.arrive (ms.flatMap (·.encoding host .telnet))] _ := System.Steps.one trivial rfl
    have hu := Receiver.RunIf.undisturbed hp hstart
    obtain ⟨es, r, hs, hrest⟩ : ∃ es r, (Receiver.system host' .telnet true).Steps Receiver.Internal _ es r ∧
        (Receiver.system host' .telnet true).Rest Receiver.Internal r := hu.exists_rest hp
    have hrun : (Receiver.system host' .telnet true).RunIf Receiver.Plain _ r :=
      System.Steps.trans hstart (hs.mono fun _ _ ho => Receiver.internal_plain ho)
    have harr : r.arrived = ms.flatMap (·.encoding host .telnet) := by
      rw [Receiver.internal_steps_arrived hs]
      simp [Receiver.system, Receiver.catching, (Receiver.receive_kept _).arrived]
    have hall := (h true _ r hrun ⟨[], by rw [harr, List.append_nil]⟩).2 harr hrest
    obtain ⟨frames, rest, hd, -⟩ := (Receiver.RunIf.undisturbed hp hrun).framed
    exact delivered_clean rfl hd m.contents (by rw [hall]; exact List.mem_map_of_mem hm)
  · intro hr strand es r h ha
    have hu := Receiver.RunIf.undisturbed hp h
    obtain ⟨frames, rest, hd, -⟩ := hu.framed
    rw [← delivery_contents host ms]
    constructor
    · obtain ⟨later, he⟩ := hd.first hr ha
      rw [← he, List.filterMap_append]
      exact List.prefix_append _ _
    · intro hall hrest
      rw [Receiver.contents, (hu.all hr hall hrest).1]

end Zar
