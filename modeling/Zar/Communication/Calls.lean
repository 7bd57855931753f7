import Zar.Communication.Receiver
/-!
# What the receive handler is called with

A step of a receiver calls its handler at most once: with an error, or with the message
that `message` reads off the state and the event.
-/

namespace Zar
namespace Receiver

variable {r r' : Receiver} {e : Event}

/-- The message that the event hands to the receive handler. -/
def message (r : Receiver) : Event → Option Message
  | .complete i _ =>
    match r.reads[i]? with
    | none | some (.exactly _ _ .asioReceiveHandlerReadLength) => none
    | some read =>
      (read.complete r.inputBuffer).bind fun n => (Message.decode r.host r.protocol (r.inputBuffer.take n)).toOption
  | _ => none

theorem receiveMessage_calls (r : Receiver) : r.receiveMessage.1.calls = r.calls := by
  unfold receiveMessage
  split <;> rfl

theorem receive_calls (r : Receiver) : r.receive.1.calls = r.calls := by
  unfold receive
  split
  · rfl
  · exact receiveMessage_calls r

theorem receiveError_calls (r : Receiver) (n : Nat) (react : ReceiveReaction) :
    (r.receiveError n react).1.calls = r.calls ++ [⟨true, n, none⟩] := by
  unfold receiveError callHandler
  cases react.throws <;> rfl

theorem handle_error_calls (r : Receiver) (read : Read) (n : Nat) (react : ReceiveReaction) :
    (r.handle read true n react).1.calls = r.calls ++ [⟨true, n, none⟩] := by
  unfold handle asioReceiveHandlerReadLength asioReceiveHandler
  split <;> exact receiveError_calls (r.count n) n react

theorem asioReceiveHandler_calls (r : Receiver) (n : Nat) (react : ReceiveReaction) :
    (r.asioReceiveHandler false n react).1.calls = r.calls ++
      ((Message.decode r.host r.protocol (r.inputBuffer.take n)).toOption.map fun m => ⟨false, n, some m⟩).toList := by
  unfold asioReceiveHandler
  simp only [count, Bool.false_eq_true, if_false]
  cases Message.decode r.host r.protocol (r.inputBuffer.take n) with
  | error t => exact (List.append_nil _).symm
  | ok m =>
    unfold callHandler
    cases react.throws with
    | some t => rfl
    | none => exact receive_calls _

/-- A step calls the handler with an error, with the message of the event, or not at all. -/
theorem step_calls (hs : r.step e = some r') :
    (r'.calls = r.calls ∧ r.message e = none) ∨ (∃ n, r'.calls = r.calls ++ [⟨true, n, none⟩] ∧ r.message e = none) ∨
      ∃ n m, r'.calls = r.calls ++ [⟨false, n, some m⟩] ∧ r.message e = some m := by
  cases step_cases hs with
  | arrive | setProtocol | readSome => exact .inl ⟨rfl, rfl⟩
  | receive => exact .inl ⟨receive_calls r, rfl⟩
  | receiveMessage => exact .inl ⟨receiveMessage_calls { r with posted := r.posted - 1 }, rfl⟩
  | @fail i read react hi =>
    exact .inr (.inl ⟨_, handle_error_calls { r with reads := r.reads.eraseIdx i } read _ react, rfl⟩)
  | @complete i n read react hi hn =>
    -- Reading the length makes no call, any other read that of `asio_receive_handler`.
    have hframe : ∀ {x : Receiver}, x = { r with reads := r.reads.eraseIdx i } →
        x.handle read false n react = x.asioReceiveHandler false n react →
        r.message (.complete i react) = (Message.decode r.host r.protocol (r.inputBuffer.take n)).toOption →
        ((catching (x.handle read false n react)).calls = r.calls ∧ r.message (.complete i react) = none) ∨
          (∃ n', (catching (x.handle read false n react)).calls = r.calls ++ [⟨true, n', none⟩] ∧
            r.message (.complete i react) = none) ∨
          ∃ n' m, (catching (x.handle read false n react)).calls = r.calls ++ [⟨false, n', some m⟩] ∧
            r.message (.complete i react) = some m := by
      rintro x rfl hx hm
      have hcalls := asioReceiveHandler_calls { r with reads := r.reads.eraseIdx i } n react
      rw [hm, hx]
      cases hd : Message.decode r.host r.protocol (r.inputBuffer.take n) with
      | error t =>
        rw [hd] at hcalls
        exact .inl ⟨hcalls.trans (List.append_nil _), rfl⟩
      | ok m =>
        rw [hd] at hcalls
        exact .inr (.inr ⟨n, m, hcalls, rfl⟩)
    cases read with
    | «until» d => exact hframe rfl rfl (by simp [message, hi, hn])
    | exactly bytes k handler =>
      cases handler with
      | asioReceiveHandler => exact hframe rfl rfl (by simp [message, hi, hn])
      | asioReceiveHandlerReadLength =>
        refine .inl ⟨?_, by simp [message, hi]⟩
        simp only [catching, handle, asioReceiveHandlerReadLength, Bool.false_eq_true, if_false]
        split <;> rfl

end Receiver
end Zar
