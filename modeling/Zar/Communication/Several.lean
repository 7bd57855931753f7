import Zar.Communication.Calls
import Zar.Communication.Telnet
import Zar.Communication.Terminated
/-!
# Several reads of one telnet stream

`receive` may be called while a read is outstanding, and each read may fail. All of them
wait for the same end of line, so the messages are the lines of the stream, each once and
in order. As long as a read is left, every line is delivered in the end.
-/

namespace Zar

/-- The lines at the front of a telnet stream, without their ends. -/
def telnetContents (stream : Bytes) : List Bytes :=
  ((Protocol.telnet.format .little).parse stream).1.map fun frame => substr frame 0 (sizeSub frame.length 2)

theorem telnetContents_mono {xs ys : Bytes} (h : xs <+: ys) : telnetContents xs <+: telnetContents ys :=
  (Format.parse_mono h).map _

namespace Receiver

variable {r r' : Receiver} {frames : List Bytes} {e : Event}

/-- A step adds the message of its event to the contents. -/
theorem step_contents (hs : r.step e = some r') :
    r'.contents = r.contents ++ ((r.message e).map (·.contents)).toList := by
  unfold contents
  rcases step_calls hs with ⟨hc, hm⟩ | ⟨n, hc, hm⟩ | ⟨n, m, hc, hm⟩
  · simp [hc, hm]
  · simp [hc, hm]
  · simp [hc, hm]

/-- Nobody changes the protocol. -/
def Event.Stays : Event → Prop
  | .setProtocol _ => False
  | .complete _ react | .fail _ react => react.protocol = none
  | .arrive _ | .receive | .receiveMessage | .readSome _ _ => True

/-- Of what arrived `frames` were delivered, and the rest is in the buffer or still on the stream. -/
structure Several (r : Receiver) (frames : List Bytes) : Prop where
  protocol : r.protocol = .telnet
  reads : ∀ read ∈ r.reads, read = .until (text "\r\n")
  framed : (Protocol.telnet.format .little).Reads r.arrived frames (r.inputBuffer ++ r.unread)
  contents : r.contents = frames.map fun frame => substr frame 0 (sizeSub frame.length 2)

theorem Several.init (host : Endian) (strand : Bool) : Several { host := host, protocol := .telnet, strand := strand } [] :=
  ⟨rfl, by rintro read ⟨⟩, Format.Reads.init, rfl⟩

theorem Several.receiveMessage (h : Several r frames) : Several r.receiveMessage.1 frames := by
  have he : r.receiveMessage = (r.receiveUntil (text "\r\n"), none) := by
    unfold Receiver.receiveMessage
    rw [h.protocol]
  rw [he]
  refine ⟨h.protocol, ?_, h.framed, h.contents⟩
  intro read hr
  rcases List.mem_append.1 hr with hr | hr
  · exact h.reads read hr
  · exact List.mem_singleton.1 hr

theorem Several.receive (h : Several r frames) : Several r.receive.1 frames := by
  unfold Receiver.receive
  split
  · exact ⟨h.protocol, h.reads, h.framed, h.contents⟩
  · exact h.receiveMessage

/-- The handler of a read that failed. -/
theorem Several.fail (h : Several r frames) {react : ReceiveReaction} (ho : react.protocol = none) :
    Several (r.handle (.until (text "\r\n")) true 0 react).1 frames := by
  obtain ⟨protocol, throws⟩ := react
  obtain rfl : protocol = none := ho
  have hcontents : ({ r with calls := r.calls ++ [⟨true, 0, none⟩] } : Receiver).contents = r.contents := by
    unfold Receiver.contents
    rw [List.filterMap_append]
    exact List.append_nil _
  cases throws with
  | some t => exact ⟨h.protocol, h.reads, h.framed, hcontents.trans h.contents⟩
  | none => exact ⟨h.protocol, h.reads, h.framed, hcontents.trans h.contents⟩

/-- `n` bytes are taken off the buffer, and the handler is called with the line. -/
def delivered (r : Receiver) (n : Nat) : Receiver :=
  (((r.count n).consume n).callHandler
    ⟨false, n, some ⟨.reply, 0, substr (r.inputBuffer.take n) 0 (sizeSub (r.inputBuffer.take n).length 2)⟩⟩ {}).1

theorem handle_line (hp : r.protocol = .telnet) (d : Bytes) (n : Nat) (throws : Option Thrown) :
    r.handle (.until d) false n ⟨none, throws⟩ =
      match throws with
      | some t => (r.delivered n, some t)
      | none => (r.delivered n).receive := by
  simp only [handle, asioReceiveHandler, Bool.false_eq_true, if_false, Message.decode, count, hp, delivered, callHandler,
    consume, Option.getD_none]
  cases throws <;> rfl

/-- A line is complete: it is the next one of the stream. -/
theorem Several.delivered (h : Several r frames) {n : Nat} (hn : matchEnd (text "\r\n") r.inputBuffer = some n) :
    Several (r.delivered n) (frames ++ [r.inputBuffer.take n]) := by
  have hnext : (Protocol.telnet.format .little).next (r.inputBuffer ++ r.unread) =
      some (r.inputBuffer.take n, r.inputBuffer.drop n ++ r.unread) := by
    rw [next_terminator rfl, matchEnd_append _ hn]
    have hle := (matchEnd_some hn).2.1
    simp [List.take_append_of_le_length hle, List.drop_append_of_le_length hle]
  refine ⟨h.protocol, h.reads, h.framed.deliver hnext, ?_⟩
  rw [List.map_append, ← h.contents]
  simp [Receiver.delivered, callHandler, consume, count, Receiver.contents]

theorem Several.complete (h : Several r frames) {react : ReceiveReaction} (ho : react.protocol = none) {n : Nat}
    (hn : matchEnd (text "\r\n") r.inputBuffer = some n) :
    Several (r.handle (.until (text "\r\n")) false n react).1 (frames ++ [r.inputBuffer.take n]) := by
  obtain ⟨protocol, throws⟩ := react
  obtain rfl : protocol = none := ho
  rw [handle_line h.protocol]
  cases throws with
  | some t => exact h.delivered hn
  | none => exact (h.delivered hn).receive

theorem Several.step (h : Several r frames) (ho : e.Stays) (hs : r.step e = some r') : ∃ frames', Several r' frames' := by
  have herase : ∀ i, Several { r with reads := r.reads.eraseIdx i } frames := fun i =>
    ⟨h.protocol, fun read hr => h.reads read (List.mem_of_mem_eraseIdx hr), h.framed, h.contents⟩
  cases step_cases hs with
  | setProtocol => exact ho.elim
  | arrive bytes =>
    refine ⟨frames, h.protocol, h.reads, ?_, h.contents⟩
    rw [← List.append_assoc]
    exact h.framed.arrive bytes
  | receive =>
    have hr := h.receive
    exact ⟨frames, hr.protocol, hr.reads, hr.framed, hr.contents⟩
  | receiveMessage =>
    have hposted : Several { r with posted := r.posted - 1 } frames := ⟨h.protocol, h.reads, h.framed, h.contents⟩
    have hr := hposted.receiveMessage
    exact ⟨frames, hr.protocol, hr.reads, hr.framed, hr.contents⟩
  | @readSome i k read hi =>
    refine ⟨frames, h.protocol, ?_, ?_, h.contents⟩
    · intro read' hr
      rcases List.mem_or_eq_of_mem_set hr with hr | rfl
      · exact h.reads read' hr
      · rw [h.reads read (List.mem_of_getElem? hi)]
        rfl
    · rw [List.append_assoc, List.take_append_drop]
      exact h.framed
  | @complete i n read react hi hn =>
    obtain rfl := h.reads read (List.mem_of_getElem? hi)
    have hr := (herase i).complete (show react.protocol = none from ho) hn
    exact ⟨_, hr.protocol, hr.reads, hr.framed, hr.contents⟩
  | @fail i read react hi =>
    obtain rfl := h.reads read (List.mem_of_getElem? hi)
    have hr := (herase i).fail (show react.protocol = none from ho)
    exact ⟨_, hr.protocol, hr.reads, hr.framed, hr.contents⟩

/-- What was delivered are the first lines of what arrived. -/
theorem Several.first (h : Several r frames) : r.contents <+: telnetContents r.arrived := by
  have hreads := h.framed
  unfold Format.Reads at hreads
  rw [h.contents, telnetContents, hreads, List.map_append]
  exact List.prefix_append _ _

/-! ## Nothing is left -/

/-- What was read is all there is: a read waits, and finds no end of line. -/
structure Idle (r : Receiver) : Prop where
  posted : r.posted = 0
  waits : r.reads ≠ []
  unread : r.unread = []
  unfinished : ∀ read ∈ r.reads, read.complete r.inputBuffer = none

theorem Several.all (h : Several r frames) (hidle : Idle r) : r.contents = telnetContents r.arrived := by
  obtain ⟨read, reads, hr⟩ := List.exists_cons_of_ne_nil hidle.waits
  have hmem : read ∈ r.reads := by
    rw [hr]
    exact List.mem_cons_self
  have hnone := hidle.unfinished read hmem
  rw [h.reads read hmem] at hnone
  have hnext : (Protocol.telnet.format .little).next (r.inputBuffer ++ r.unread) = none := by
    rw [hidle.unread, List.append_nil, next_terminator rfl]
    exact Option.map_eq_none_iff.2 hnone
  rw [h.contents, telnetContents, h.framed.rest hnext]

/-- The steps of the receiver itself. -/
def Event.Own : Event → Prop
  | .receiveMessage | .readSome _ _ => True
  | .complete _ react => react.protocol = none
  | .arrive _ | .receive | .fail _ _ | .setProtocol _ => False

theorem receiveMessage_terminator {d : Bytes} (hd : r.protocol.terminator = some d) :
    r.receiveMessage = (r.receiveUntil d, none) := by
  unfold Receiver.receiveMessage
  cases hp : r.protocol <;> rw [hp] at hd <;> cases hd <;> rfl

/-- What ends with a terminator can be decoded. -/
theorem decode_terminator {p : Protocol} {d : Bytes} (hd : p.terminator = some d) (host : Endian) (frame : Bytes) :
    ∃ m, Message.decode host p frame = .ok m := by
  cases p <;> cases hd <;> exact ⟨_, rfl⟩

/-- A line uses up bytes of the buffer, also where the handler throws. -/
theorem line_work {d : Bytes} (hd : r.protocol.terminator = some d) {n : Nat} (hn : matchEnd d r.inputBuffer = some n)
    {react : ReceiveReaction} (ho : react.protocol = none) : (catching (r.handle (.until d) false n react)).work ≤ r.work := by
  obtain ⟨m, hm⟩ := decode_terminator hd r.host (r.inputBuffer.take n)
  have hpos := matchEnd_pos (terminator_ne_nil hd) hn
  have hle := (matchEnd_some hn).2.1
  obtain ⟨protocol, throws⟩ := react
  obtain rfl : protocol = none := ho
  have hgone : (((r.count n).consume n).callHandler ⟨false, n, some m⟩ {}).1.work + 2 ≤ r.work := by
    simp only [work, callHandler, consume, count, List.length_drop]
    omega
  have he : r.handle (.until d) false n ⟨none, throws⟩ =
      match throws with
      | some t => ((((r.count n).consume n).callHandler ⟨false, n, some m⟩ {}).1, some t)
      | none => (((r.count n).consume n).callHandler ⟨false, n, some m⟩ {}).1.receive := by
    simp only [handle, asioReceiveHandler, count, Bool.false_eq_true, if_false, hm]
    cases throws <;> rfl
  rw [he]
  cases throws with
  | some t => exact Nat.le_of_succ_le (Nat.le_of_succ_le hgone)
  | none => exact (receive_work _).trans hgone

/-- Each of them leaves less to do. -/
theorem terminator_work_lt {d : Bytes} (hd : r.protocol.terminator = some d) (hreads : ∀ read ∈ r.reads, read = .until d)
    (ho : e.Own) (hs : r.step e = some r') : r'.work < r.work := by
  cases step_cases hs with
  | arrive | receive | fail | setProtocol => exact ho.elim
  | receiveMessage =>
    rw [receiveMessage_terminator (r := { r with posted := r.posted - 1 }) hd]
    simp only [catching, work, receiveUntil, List.length_append, List.length_singleton]
    omega
  | @readSome i k read hi hk =>
    obtain rfl := hreads read (List.mem_of_getElem? hi)
    have hle : k ≤ r.unread.length := by
      have hwants := hk.2
      simp only [Read.wants] at hwants
      split at hwants <;> omega
    simp only [work, List.length_append, List.length_take, List.length_drop, List.length_set]
    omega
  | @complete i n read react hi hn =>
    obtain rfl := hreads read (List.mem_of_getElem? hi)
    have hlt := (List.getElem?_eq_some_iff.1 hi).1
    -- The read is gone, and so is the line.
    have hgone : ({ r with reads := r.reads.eraseIdx i } : Receiver).work < r.work := by
      simp only [work, List.length_eraseIdx_of_lt hlt]
      omega
    exact Nat.lt_of_le_of_lt (line_work (r := { r with reads := r.reads.eraseIdx i }) hd hn ho) hgone

theorem Several.work_lt (h : Several r frames) (ho : e.Own) (hs : r.step e = some r') : r'.work < r.work :=
  terminator_work_lt (by rw [h.protocol]; rfl) h.reads ho hs

end Receiver
end Zar
