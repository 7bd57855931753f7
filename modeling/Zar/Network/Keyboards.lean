import Zar.Czar.Keyboard
import Zar.Network.Rest
/-!
# From the keyboards to the screens

What the users type is what the server is asked, and what it replies is what they see. Between
the two are the lines of the standard input, the blocks, the streams of both sides and the
sessions. The lines are one more stage, in front of the others.
-/

namespace Zar
namespace Network

variable {host : Endian} {hosts : List Endian} {N N' : Network} {a : Application} {c : Nat} {e : Event}

/-- The handlers of both sides, those of the lines that were typed, and the bytes on the way. -/
def Going (N : Network) : Event → Prop
  | .client _ (.input e) => e.Own
  | e => Internal N e

theorem Internal.going (h : Internal N e) : Going N e := by
  cases e with
  | client c e =>
    cases e with
    | input => exact h.elim
    | output | connector | receiver | sender => exact h
  | server | toServer | toClient => exact h

/-- The lines come first. -/
def goingRank (N : Network) : Nat ×ₗ Nat ×ₗ Nat ×ₗ Nat ×ₗ Nat ×ₗ Nat ×ₗ Nat := toLex (N.total (·.input.work), N.rank)

/-- The other stages leave the lines alone. -/
theorem Linked.lines_kept (h : Linked host N) (ho : Internal N e) (hs : N.step e = some N') :
    N'.total (·.input.work) = N.total (·.input.work) := by
  cases step_cases hs with
  | @client c a a' e hc _ hstep =>
    obtain ⟨host', hr⟩ := h.clients c a hc
    rw [dial_own ho]
    cases Application.step_change (Application.Reachable.strands hr) hstep with
    | sender | receiver | output => exact total_eq _ hc rfl
    | line | input | connector | connected => exact ho.elim
  | server | toServer => rfl
  | accept => exact ho.elim
  | @toClient i n x a a' _ hc _ _ hstep =>
    obtain ⟨host', hr⟩ := h.clients x.client a hc
    cases Application.step_change (Application.Reachable.strands hr) hstep with
    | receiver => exact total_eq (N := N.setConnection i _) _ hc rfl

theorem Linked.going_lt (h : Linked host N) (ho : Going N e) (hs : N.step e = some N') : N'.goingRank < N.goingRank := by
  have hinternal : Internal N e → N'.goingRank < N.goingRank := fun hi =>
    Prod.Lex.toLex_lt_toLex.2 (.inr ⟨h.lines_kept hi hs, h.rank_lt hi hs⟩)
  cases e with
  | client c e =>
    cases e with
    | input e =>
      cases step_cases hs with
      | @client _ a a' _ hc _ hstep =>
        obtain ⟨host', hr⟩ := h.clients c a hc
        exact Prod.Lex.toLex_lt_toLex.2 (.inl (total_lt _ hc (Application.Reachable.input_lt hr ho hstep)))
    | output | connector | receiver | sender => exact hinternal ho
  | server | toServer | toClient => exact hinternal ho

/-! ## At rest -/

theorem going_rest (hrest : (system host hosts).Rest Going N) : (system host hosts).Rest Internal N :=
  fun _ ho => hrest _ (Internal.going ho)

theorem input_rest (hrest : (system host hosts).Rest Going N) (hc : N.clients[c]? = some a) {e : Receiver.Event} (ho : e.Own) :
    a.step (.input e) = none := by
  have hn := hrest (.client c (.input e)) ho
  simpa [system, step, stepClient, hc, Application.Event.arrives] using hn

/-- No client has anything to read from its keyboard. -/
def Typed (N : Network) : Prop :=
  ∀ a ∈ N.clients, a.input.posted = 0 ∧ a.input.unread = [] ∧ ∀ read ∈ a.input.reads, read.complete a.input.inputBuffer = none

instance (N : Network) : Decidable N.Typed := inferInstanceAs (Decidable (∀ a ∈ N.clients, _))

theorem going_rest_of_quiet (h : N.Quiet) (ht : N.Typed) : (system host hosts).Rest Going N := by
  intro e ho
  have hrest : (system host hosts).Rest Internal N := rest_of_quiet h
  have hinternal : Internal N e → N.step e = none := hrest e
  cases e with
  | client c e =>
    cases e with
    | input e =>
      change N.step (.client c (.input e)) = none
      by_contra hne
      obtain ⟨N', hs⟩ := Option.ne_none_iff_exists'.1 hne
      cases step_cases hs with
      | @client _ a a' _ hc _ hstep =>
        obtain ⟨hpost, hunread, hreads⟩ := ht a (List.mem_of_getElem? hc)
        have hnone := Receiver.Event.Own.step_none (r := a.input) ho hpost hunread hreads
        simp [Application.step, Application.stepInput, hnone] at hstep
    | output | connector | receiver | sender => exact hinternal ho
  | server | toServer | toClient => exact hinternal ho

/-- The user logged in, and the client reads on. -/
def loggedIn : List Event := login ++ [.client 0 (.input .receiveMessage)]

end Network
end Zar
