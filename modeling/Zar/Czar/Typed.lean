import Zar.Czar.Streams
/-!
# What is asked was typed

The bytes of an action were typed, or they are the line ends that a block gets back. So a byte
that nobody typed is in no action.
-/

namespace Zar

namespace Receiver

variable {r r' : Receiver} {e : Event} {m : Message}

/-! ## What is delivered arrived -/

/-- Bytes leave the buffer at its front only. -/
structure Consumed (r r' : Receiver) : Prop where
  buffer : r'.inputBuffer <:+ r.inputBuffer
  unread : r'.unread = r.unread

theorem receiveMessage_consumed (r : Receiver) : r.Consumed r.receiveMessage.1 := by
  unfold receiveMessage
  split <;> exact ⟨List.suffix_refl _, rfl⟩

theorem receive_consumed (r : Receiver) : r.Consumed r.receive.1 := by
  unfold receive
  split
  · exact ⟨List.suffix_refl _, rfl⟩
  · exact receiveMessage_consumed r

theorem receiveError_consumed (r : Receiver) (n : Nat) (react : ReceiveReaction) :
    r.Consumed (r.receiveError n react).1 := by
  unfold receiveError callHandler
  cases react.throws with
  | some t => exact ⟨List.suffix_refl _, rfl⟩
  | none => exact ⟨List.drop_suffix _ _, rfl⟩

theorem handle_consumed (r : Receiver) (read : Read) (error : Bool) (n : Nat) (react : ReceiveReaction) :
    r.Consumed (r.handle read error n react).1 := by
  have herror : r.Consumed ((r.count n).receiveError n react).1 :=
    ⟨(receiveError_consumed (r.count n) n react).buffer, (receiveError_consumed (r.count n) n react).unread⟩
  unfold handle asioReceiveHandlerReadLength asioReceiveHandler
  split
  · dsimp only
    split
    · exact herror
    · split
      · exact ⟨List.suffix_refl _, rfl⟩
      · exact ⟨List.drop_suffix _ _, rfl⟩
  · dsimp only
    split
    · exact herror
    · split
      · exact ⟨List.suffix_refl _, rfl⟩
      · unfold callHandler
        cases react.throws with
        | some t => exact ⟨List.drop_suffix _ _, rfl⟩
        | none =>
          exact ⟨(receive_consumed _).buffer.trans (List.drop_suffix _ _), (receive_consumed _).unread⟩

/-- What was read and what is still on the stream is the end of what arrived. -/
def Fed (r : Receiver) : Prop := r.inputBuffer ++ r.unread <:+ r.arrived

theorem Fed.step (h : Fed r) (hs : r.step e = some r') : Fed r' := by
  have harr := step_arrived hs
  have hconsumed : ∀ {x : Receiver × Option Thrown}, r.Consumed x.1 → e.arrives = [] → catching x = r' → Fed r' := by
    rintro x hx he rfl
    rw [he, List.append_nil] at harr
    unfold Fed
    rw [harr, show (catching x).unread = r.unread from hx.unread]
    obtain ⟨front, hfront⟩ := hx.buffer
    refine List.IsSuffix.trans ⟨front, ?_⟩ h
    rw [← hfront, List.append_assoc]
    rfl
  cases step_cases hs with
  | arrive bytes =>
    obtain ⟨front, hfront⟩ := h
    exact ⟨front, by rw [← hfront]; simp only [List.append_assoc]⟩
  | receive =>
    have hr := receive_consumed r
    exact hconsumed ⟨hr.buffer, hr.unread⟩ rfl rfl
  | receiveMessage =>
    have hr := receiveMessage_consumed { r with posted := r.posted - 1 }
    exact hconsumed ⟨hr.buffer, hr.unread⟩ rfl rfl
  | readSome =>
    unfold Fed
    dsimp only
    rw [List.append_assoc, List.take_append_drop]
    exact h
  | @complete i n read react =>
    have hr := handle_consumed { r with reads := r.reads.eraseIdx i } read false n react
    exact hconsumed ⟨hr.buffer, hr.unread⟩ rfl rfl
  | @fail i read react =>
    have hr := handle_consumed { r with reads := r.reads.eraseIdx i } read true read.transferred react
    exact hconsumed ⟨hr.buffer, hr.unread⟩ rfl rfl
  | setProtocol => exact h

/-- Contents are cut out of the frame. -/
theorem decode_subset {host : Endian} {p : Protocol} {frame : Bytes} (h : Message.decode host p frame = .ok m) :
    m.contents ⊆ frame := by
  have hsub : ∀ n, substr frame 0 n ⊆ frame := fun n => List.Subset.trans (List.take_subset _ _) (List.drop_subset _ _)
  cases p with
  | direct =>
    cases h
    exact List.Subset.refl _
  | line | telnet =>
    cases h
    exact hsub _
  | compressed => cases h
  | basic =>
    simp only [Message.decode] at h
    split at h
    · cases h
    · cases hr : Message.readType (frame.headD 0) with
      | error t =>
        rw [hr] at h
        cases h
      | ok type =>
        rw [hr] at h
        cases h
        exact List.drop_subset _ _

theorem Fed.message (h : Fed r) (hm : r.message e = some m) : m.contents ⊆ r.arrived := by
  have hbuffer : r.inputBuffer ⊆ r.arrived := fun b hb => h.subset (List.mem_append_left _ hb)
  have hframe : ∀ n, (Message.decode r.host r.protocol (r.inputBuffer.take n)).toOption = some m → m.contents ⊆ r.arrived := by
    intro n hn
    cases hd : Message.decode r.host r.protocol (r.inputBuffer.take n) with
    | error t =>
      rw [hd] at hn
      cases hn
    | ok m' =>
      rw [hd] at hn
      obtain rfl := Option.some.inj hn
      exact List.Subset.trans (decode_subset hd) (List.Subset.trans (List.take_subset _ _) hbuffer)
  cases e with
  | complete i react =>
    simp only [message] at hm
    split at hm
    · cases hm
    · cases hm
    · obtain ⟨n, -, hn⟩ := Option.bind_eq_some_iff.1 hm
      exact hframe n hn
  | arrive | receive | receiveMessage | readSome | fail | setProtocol => cases hm

end Receiver

namespace Application

variable {host : Endian} {a a' : Application} {e : Event} {es : List Event} {P : UInt8 → Prop}

/-- Of bytes like these are the block that is typed, and the actions. -/
structure Made (P : UInt8 → Prop) (a : Application) : Prop where
  block : ∀ b ∈ a.commandBuffer, P b
  actions : ∀ action ∈ a.actions, ∀ b ∈ action, P b

theorem Made.sendAction (h : Made P a) {action : Bytes} (hb : ∀ b ∈ action, P b) : Made P (a.sendAction action) := by
  obtain ⟨b, w, st, he⟩ := Sender.request_change a.socket.sender (.action action)
  refine ⟨h.block, ?_⟩
  intro x hx
  simp only [Application.actions, Application.sendAction, TcpSocket.sendAction, he, Request.message, List.map_append,
    List.map_singleton, List.mem_append, List.mem_singleton] at hx
  rcases hx with hx | rfl
  · exact h.actions x hx
  · exact hb

theorem Made.line {line : Bytes} (h : Made P a) (hst : a.Strands) (hend : P 10) (hline : ∀ b ∈ line, P b) :
    Made P (a.executeLine line).1 := by
  have hserver : ∀ command, parseLine line = .server command → ∀ b ∈ command, P b := by
    intro command hp
    rcases parseLine_cases line with ⟨-, h'⟩ | ⟨-, h'⟩ | ⟨-, h'⟩ | ⟨-, -, -, ⟨_, h'⟩ | ⟨_, h'⟩⟩ | ⟨-, -, h'⟩ <;>
      cases hp.symm.trans h'
    exact hline
  by_cases hr : a.Refused (parseLine line)
  · obtain ⟨t, ht⟩ := executeLine_refused hst.sender hr
    rw [ht]
    cases parseLine line with
    | blank | begin | connect | unknown | server => exact h
    | «end» =>
      refine ⟨?_, h.actions⟩
      intro b hb
      simp only [refusal] at hb
      split at hb
      · cases hb
      · exact h.block b hb
  · rw [executeLine_accepted hst.sender hr]
    cases hp : parseLine line with
    | blank | unknown | begin | connect => exact ⟨h.block, h.actions⟩
    | «end» =>
      have hempty : Made P { a with bufferingMode := false, commandBuffer := [] } := ⟨List.forall_mem_nil _, h.actions⟩
      exact hempty.sendAction h.block
    | server command =>
      have hcommand := hserver command hp
      cases hm : a.bufferingMode with
      | false =>
        simp only [effect, hm, Bool.false_eq_true, if_false]
        exact h.sendAction hcommand
      | true =>
        simp only [effect, hm, if_true]
        refine ⟨?_, h.actions⟩
        intro b hb
        rw [List.mem_append, List.mem_append] at hb
        rcases hb with (hb | hb) | hb
        · exact h.block b hb
        · exact hcommand b hb
        · rw [List.mem_singleton.1 (show b ∈ [10] from hb)]
          exact hend

/-- What was typed decides what an action can be made of. -/
def Typed (P : UInt8 → Prop) (a : Application) : Prop :=
  a.input.Fed ∧ ((∀ b ∈ a.input.arrived, P b) → Made P a)

theorem Typed.change (hend : P 10) (h : Typed P a) (hst : a.Strands) (hc : Change a e a') : Typed P a' := by
  obtain ⟨hfed, hmade⟩ := h
  cases hc with
  | @line _ input line hs _ hline =>
    refine ⟨hfed.step hs, fun harr => ?_⟩
    have hbefore : ∀ b ∈ a.input.arrived, P b := by
      intro b hb
      apply harr b
      change b ∈ input.arrived
      rw [Receiver.step_arrived hs]
      exact List.mem_append_left _ hb
    obtain ⟨m, hm, rfl⟩ := Option.map_eq_some_iff.1 hline
    have hm' := (hmade hbefore).line hst hend fun b hb => hbefore b (hfed.message hm hb)
    exact ⟨hm'.block, hm'.actions⟩
  | @input _ input hs =>
    refine ⟨hfed.step hs, fun harr => ?_⟩
    have hm' := hmade fun b hb => harr b (by
      change b ∈ input.arrived
      rw [Receiver.step_arrived hs]
      exact List.mem_append_left _ hb)
    exact ⟨hm'.block, hm'.actions⟩
  | sender hs ho hr =>
    refine ⟨hfed, fun harr => ⟨(hmade harr).block, ?_⟩⟩
    dsimp only [Application.actions]
    rw [Sender.step_called_same ho hr hs]
    exact (hmade harr).actions
  | output | receiver | connector | connected => exact ⟨hfed, fun harr => ⟨(hmade harr).block, (hmade harr).actions⟩⟩

/-- Every byte of an action was typed, but for the line ends of blocks. -/
theorem Reachable.typed (h : (system host).Reachable a) (hend : P 10) (hinput : ∀ b ∈ a.input.arrived, P b) :
    ∀ action ∈ a.actions, ∀ b ∈ action, P b := by
  obtain ⟨es, h⟩ := h
  have htyped : Typed P a := by
    refine RunIf.changes (Typed P) h ?_ fun _ _ _ hst hi _ hc => hi.change hend hst hc
    exact ⟨List.suffix_refl _, fun _ => ⟨List.forall_mem_nil _, List.forall_mem_nil _⟩⟩
  exact (htyped.2 hinput).actions

end Application
end Zar
