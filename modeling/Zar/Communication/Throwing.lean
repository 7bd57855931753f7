import Zar.Communication.SendOrder
/-!
# What an exception leaves of a sender

That the queue is not empty also says that a write is outstanding. `encode` throws
between the two, and so may `send_handler_` before its message leaves the queue. The
loop of the io_service goes on, but with a message in the queue and no write: later
messages queue up behind it, and none is written any more. Without a throw the two
always agree, and everything that was asked for is written.
-/

namespace Zar
namespace Sender

variable {host : Endian} {p : Protocol} {strand : Bool} {s s' : Sender} {e : Event} {es : List Event}

/-- While a message is queued, a write is outstanding. -/
def Sending (s : Sender) : Prop := s.messages ≠ [] → s.writes.length = 1

/-- At most one write is outstanding, and only while a message is queued. -/
def Lone (s : Sender) : Prop := s.writes.length ≤ (s.messages.take 1).length

instance (s : Sender) : (e : Event) → Decidable (Calm s e)
  | .request _ => inferInstanceAs (Decidable (s.strand = false → s.messages = [] → s.protocol ≠ .compressed))
  | .sendMessage => inferInstanceAs (Decidable (s.messages = [] → s.protocol ≠ .compressed))
  | .handler react => inferInstanceAs (Decidable (react.throws = none ∧
      (s.messages.tail ≠ [] ∨ s.strand = false ∧ react.requests ≠ [] → s.protocol ≠ .compressed)))
  | .transfer _ _ | .setProtocol _ => inferInstanceAs (Decidable True)

/-! ## A throw is the only way to stop -/

theorem Lone.stopped (h : Lone s) (hn : ¬ Sending s) : s.messages ≠ [] ∧ s.writes = [] := by
  obtain ⟨hm, hw⟩ := Classical.not_imp.1 hn
  refine ⟨hm, ?_⟩
  cases hws : s.writes with
  | nil => rfl
  | cons w ws =>
    obtain ⟨rfl, -⟩ := write_front h hws
    exact absurd (by rw [hws]; rfl) hw

/-- The front message is written, unless it is encoded in the compressed protocol. -/
theorem start_sending (hm : s.messages ≠ []) (hw : s.writes = []) :
    Lone s.sendQueueMessage.1 ∧ (Sending s.sendQueueMessage.1 ↔ s.protocol ≠ .compressed) := by
  obtain ⟨m, ms, h⟩ := List.exists_cons_of_ne_nil hm
  by_cases hc : s.protocol = .compressed
  · rw [sendQueueMessage_compressed hc]
    refine ⟨by simp [Lone, hw], ?_⟩
    simp [Sending, hm, hw, hc]
  · rw [sendQueueMessage_eq hc h]
    refine ⟨by simp [Lone, hw, h], ?_⟩
    simp [Sending, hw, hc]

theorem sendMessage_sending (hl : Lone s) (m : Message) :
    Lone (s.sendMessage m).1 ∧
      (Sending (s.sendMessage m).1 ↔ Sending s ∧ (s.messages = [] → s.protocol ≠ .compressed)) := by
  by_cases h : s.messages = []
  · have hw : s.writes = [] := by simpa [Lone, h] using hl
    obtain ⟨hl', hs⟩ := start_sending (s := { s with messages := s.messages ++ [m] }) (by simp) hw
    have he : s.sendMessage m = ({ s with messages := s.messages ++ [m] }).sendQueueMessage := by simp [sendMessage, h]
    rw [he, hs]
    exact ⟨hl', by simp [Sending, h]⟩
  · obtain ⟨m', ms, hm⟩ := List.exists_cons_of_ne_nil h
    rw [sendMessage_busy h]
    exact ⟨by simpa [Lone, hm] using hl, by simp [Sending, h]⟩

theorem advance_sending (hw : s.writes = []) :
    Lone s.advance.1 ∧ (Sending s.advance.1 ↔ (s.messages.tail ≠ [] → s.protocol ≠ .compressed)) := by
  unfold advance
  dsimp only
  split
  · rename_i he
    have hne : s.messages.tail ≠ [] := by simpa using he
    obtain ⟨hl, hs⟩ := start_sending (s := { s with messages := s.messages.tail }) hne hw
    rw [hs]
    exact ⟨hl, by simp [hne]⟩
  · rename_i he
    have hn : s.messages.tail = [] := by simpa using he
    exact ⟨by simp [Lone, hw], by simp [Sending, hn]⟩

theorem request_sending (hl : Lone s) (r : Request) :
    Lone (s.request r).1 ∧ (Sending (s.request r).1 ↔ Sending s ∧ Calm s (.request r)) := by
  unfold request strandExecute
  dsimp only
  split
  · rename_i hs
    refine ⟨hl, ?_⟩
    simp [Sending, Calm, hs]
  · rename_i hs
    obtain ⟨hl', hs'⟩ := sendMessage_sending
      (s := { s with id := (r.message s.id).1, called := s.called ++ [(r.message s.id).2] }) hl (r.message s.id).2
    rw [hs']
    refine ⟨hl', ?_⟩
    simp [Sending, Calm, hs]

theorem handler_sending (hl : Lone s) {error : Bool} {n : Nat} {ws : List Write} (hw : s.writes = .completed error n :: ws)
    (react : SendReaction) :
    Lone (({ s with writes := ws }).sendQueueMessageHandler error n react).1 ∧
      (Sending (({ s with writes := ws }).sendQueueMessageHandler error n react).1 ↔
        Sending s ∧ Calm s (.handler react)) := by
  obtain ⟨rfl, m, ms, hm⟩ := write_front hl hw
  have hsending : Sending s := fun _ => by rw [hw]; rfl
  unfold sendQueueMessageHandler
  rw [report_requests (s := { s with writes := [] }) hm]
  cases ht : react.throws with
  | some t =>
    -- The message is still at the front, and its write is gone.
    refine ⟨by simp [Lone], ?_⟩
    simp [Sending, Calm, ht]
  | none =>
    refine ⟨(advance_sending rfl).1, ?_⟩
    rw [(advance_sending rfl).2, List.tail_cons]
    simp only [hsending, Calm, ht, true_and, hm, List.tail_cons]
    rw [tail_ne_nil s react.requests ms]

/-- The sender goes on sending exactly if it did and the step does not throw. -/
theorem Lone.step (hl : Lone s) (hs : s.step e = some s') : Lone s' ∧ (Sending s' ↔ Sending s ∧ Calm s e) := by
  cases step_cases hs with
  | request r => exact request_sending hl r
  | @sendMessage m ms => exact sendMessage_sending (s := { s with posted := ms }) hl m
  | transfer hw => exact ⟨by simpa [Lone, hw] using hl, by simp [Sending, Calm, hw]⟩
  | handler react hw => exact handler_sending hl hw react
  | setProtocol p => exact ⟨hl, by simp [Sending, Calm]⟩

theorem reachable_lone (h : (system host p strand).Reachable s) : Lone s :=
  h.inv Lone (Nat.le_refl _) fun _ _ _ hl hs => (hl.step hs).1

theorem sending_iff_calm (h : (system host p strand).Run es s) : Sending s ↔ (system host p strand).RunIf Calm es s :=
  h.iff_runIf Sending (fun hm => absurd rfl hm) fun _ _ _ hr hs => ((reachable_lone hr).step hs).2

/-- A sender that stopped starts nothing any more. -/
theorem Lone.stays_stopped (hl : Lone s) (hn : ¬ Sending s) (hs : s.step e = some s') :
    ¬ Sending s' ∧ s'.started = s.started := by
  obtain ⟨hm, hw⟩ := hl.stopped hn
  refine ⟨fun h => hn ((hl.step hs).2.1 h).1, ?_⟩
  cases step_cases hs with
  | request r =>
    unfold request strandExecute
    dsimp only
    split
    · rfl
    · rw [sendMessage_busy]
      exact hm
  | @sendMessage m ms => rw [sendMessage_busy (s := { s with posted := ms }) hm]
  | transfer hws | handler react hws => cases hw.symm.trans hws
  | setProtocol p => rfl

/-! ## Without a throw everything is written -/

/-- What the sender does by itself, with a handler that asks for nothing. -/
def Own (_ : Sender) : Event → Prop
  | .sendMessage | .transfer _ _ => True
  | .handler react => react = {}
  | .request _ | .setProtocol _ => False

theorem Own.calm (ho : Own s e) (hc : s.protocol ≠ .compressed) : Calm s e := by
  cases e with
  | sendMessage => exact fun _ => hc
  | transfer => trivial
  | handler react =>
    cases (show react = {} from ho)
    exact ⟨rfl, fun _ => hc⟩
  | request | setProtocol => exact ho.elim

theorem Own.protocol (ho : Own s e) (hs : s.step e = some s') : s'.protocol = s.protocol := by
  cases step_cases hs with
  | request | setProtocol => exact ho.elim
  | @sendMessage m ms =>
    obtain ⟨b, w, st, he⟩ := sendMessage_change { s with posted := ms } m
    rw [he]
  | transfer => rfl
  | @handler error n ws react =>
    cases (show react = {} from ho)
    obtain ⟨t, rs, he⟩ := report_change { s with writes := ws } error n
    obtain ⟨b, w, st, he'⟩ := advance_change (({ s with writes := ws }).report error n)
    simp only [sendQueueMessageHandler, requests, List.foldl_nil, he']
    rw [he]

/-- The write did not end yet. -/
def isRunning : Write → Bool
  | .running _ => true
  | .completed _ _ => false

/-- What is left to do: a posted message is queued, a queued one starts a write, and a write ends
and is reported. -/
def work (s : Sender) : Nat :=
  5 * s.posted.length + 2 * s.messages.length + s.writes.length + s.writes.countP isRunning

theorem sendQueueMessage_work (s : Sender) : s.sendQueueMessage.1.work ≤ s.work + 2 := by
  by_cases hc : s.protocol = .compressed
  · rw [sendQueueMessage_compressed hc]
    omega
  · cases hm : s.messages with
    | nil =>
      have he : s.sendQueueMessage.1 = s := by simp [sendQueueMessage, hm]
      rw [he]
      omega
    | cons m ms =>
      rw [sendQueueMessage_eq hc hm]
      simp only [work, List.length_append, List.length_singleton, List.countP_append, List.countP_singleton, isRunning,
        if_true]
      omega

theorem sendMessage_work (s : Sender) (m : Message) : (s.sendMessage m).1.work ≤ s.work + 4 := by
  have hpush : ({ s with messages := s.messages ++ [m] }).work = s.work + 2 := by
    simp only [work, List.length_append, List.length_singleton]
    omega
  unfold sendMessage
  dsimp only
  split
  · have hle := sendQueueMessage_work { s with messages := s.messages ++ [m] }
    omega
  · exact Nat.le_trans (Nat.le_of_eq hpush) (Nat.add_le_add_left (by decide) _)

theorem advance_work {m : Message} {ms : List Message} (hm : s.messages = m :: ms) : s.advance.1.work ≤ s.work := by
  have hpop : ({ s with messages := s.messages.tail }).work + 2 = s.work := by
    simp only [work, hm, List.tail_cons, List.length_cons]
    omega
  unfold advance
  dsimp only
  split
  · have hle := sendQueueMessage_work { s with messages := s.messages.tail }
    omega
  · exact Nat.le_trans (Nat.le_add_right _ 2) (Nat.le_of_eq hpop)

theorem Own.work_lt (hq : Queued s) (ho : Own s e) (hs : s.step e = some s') : s'.work < s.work := by
  cases step_cases hs with
  | request | setProtocol => exact ho.elim
  | @sendMessage m ms hp =>
    have hle := sendMessage_work { s with posted := ms } m
    have hpost : ({ s with posted := ms }).work + 5 = s.work := by
      simp only [work, hp, List.length_cons]
      omega
    omega
  | transfer hw =>
    simp only [work, hw, List.length_cons, List.countP_cons, isRunning, if_true, Bool.false_eq_true, if_false]
    omega
  | @handler error n ws react hw =>
    cases (show react = {} from ho)
    obtain ⟨-, m, ms, hm⟩ := hq.front hw
    have hdone : ({ s with writes := ws }).work + 1 = s.work := by
      simp only [work, hw, List.length_cons, List.countP_cons, isRunning, Bool.false_eq_true, if_false]
      omega
    obtain ⟨t, rs, he⟩ := report_change { s with writes := ws } error n
    have hle := advance_work (s := ({ s with writes := ws }).report error n) (m := m) (by rw [he]; exact hm)
    have hreport : (({ s with writes := ws }).report error n).work = ({ s with writes := ws }).work := by rw [he]; rfl
    simp only [sendQueueMessageHandler, requests, List.foldl_nil]
    omega

/-- With no step of its own left, the sender has nothing to write. -/
theorem rest_idle (hrest : (system host p strand).Rest Own s) : s.writes = [] ∧ s.posted = [] := by
  constructor
  · cases hw : s.writes with
    | nil => rfl
    | cons w ws =>
      cases w with
      | running n =>
        have h := hrest (.transfer false n) trivial
        simp [system, Sender.step, hw] at h
      | completed error n =>
        have h := hrest (.handler {}) rfl
        simp [system, Sender.step, hw] at h
  · cases hp : s.posted with
    | nil => rfl
    | cons m ms =>
      have h := hrest .sendMessage trivial
      simp [system, Sender.step, hp] at h

theorem Queued.idle (hq : Queued s) (hw : s.writes = []) : s.messages = [] := by
  have hb := hq.busy
  cases hm : s.messages with
  | nil => rfl
  | cons m ms => simp [hw, hm] at hb

/-! ## The main result -/

/-- In every run, whatever throws: a write is outstanding for a message in the queue as long as
nothing threw, and no longer. As long as it is, everything asked for is written: the sender comes
to an end with its own steps, and whenever nothing is outstanding all messages were started. Once
it is not, nothing is ever started again. -/
theorem never_wedged (h : (system host p strand).Run es s) :
    (Sending s ↔ (system host p strand).RunIf Calm es s) ∧
    (Sending s → ∀ es' s', (system host p strand).Steps Calm s es' s' →
      (s'.writes = [] → s'.posted = [] → s'.started = s'.called ∧ s'.reports.map (·.message) = s'.called) ∧
      (s'.protocol ≠ .compressed → ∀ es'' s'', (system host p strand).Steps Own s' es'' s'' →
        es''.length ≤ s'.work ∧ ((system host p strand).Rest Own s'' → s''.writes = [] ∧ s''.posted = []))) ∧
    (¬ Sending s → ∀ es' s', (system host p strand).Steps (fun _ _ => True) s es' s' → s'.started = s.started) := by
  refine ⟨sending_iff_calm h, ?_, ?_⟩
  · intro hsend es' s' hs
    have hrun : (system host p strand).RunIf Calm (es ++ es') s' := System.Steps.trans ((sending_iff_calm h).1 hsend) hs
    obtain ⟨hq, hcalled⟩ := RunIf.queued hrun
    constructor
    · -- Without a write the queue is empty, and everything that was asked for went through it.
      intro hw hp
      have hm := hq.idle hw
      have hst := hq.started
      rw [hm, hp, List.append_nil, List.append_nil] at hcalled
      rw [hm, List.take_nil, List.append_nil] at hst
      exact ⟨hst.trans hcalled.symm, hcalled.symm⟩
    · intro hc es'' s'' hs'
      have hlt := hs'.length_le work (fun x => Queued x ∧ x.protocol ≠ .compressed) ⟨hq, hc⟩ ?_
      · exact ⟨by omega, rest_idle⟩
      · rintro x e x' ⟨hx, hxc⟩ ho hstep
        exact ⟨⟨hx.step (ho.calm hxc) hstep, by rw [ho.protocol hstep]; exact hxc⟩, ho.work_lt hx hstep⟩
  · intro hn es' s' hs
    refine (hs.inv (fun x => Lone x ∧ ¬ Sending x ∧ x.started = s.started)
      ⟨reachable_lone h.reachable, hn, rfl⟩ ?_).2.2
    rintro x e x' ⟨hl, hx, hst⟩ - hstep
    obtain ⟨hx', hst'⟩ := hl.stays_stopped hx hstep
    exact ⟨(hl.step hstep).1, hx', hst'.trans hst⟩

/-- The handler asks for a message, and another one follows from outside, under a change of the
protocol. -/
theorem never_wedged_calm : ∃ s, (system .little .line true).RunIf Calm [.request (.action [97]), .sendMessage,
      .transfer true 1, .handler { requests := [.reply 7 [98]] }, .setProtocol .telnet, .sendMessage,
      .request (.action [99])] s ∧
    Sending s ∧ s.posted.length = 1 := by
  have hexec : (system .little .line true).exec Calm (system .little .line true).init
      [.request (.action [97]), .sendMessage, .transfer true 1, .handler { requests := [.reply 7 [98]] },
        .setProtocol .telnet, .sendMessage, .request (.action [99])] = some _ := rfl
  have hrun := System.Steps.of_exec hexec
  exact ⟨_, hrun, (never_wedged (System.RunIf.run hrun)).1.2 hrun, rfl⟩

/-- The send handler throws, and a message that is asked for later stays in the queue. -/
theorem throw_wedges : ∃ s, (system .little .line false).Run [.request (.action [97]), .transfer true 0,
      .handler { throws := some .system_error }, .request (.action [98])] s ∧
    s.messages.map (·.contents) = [[97], [98]] ∧ s.writes = [] ∧ s.started.map (·.contents) = [[97]] ∧
    ∀ e, e = .sendMessage ∨ (∃ error n, e = .transfer error n) ∨ (∃ react, e = .handler react) → s.step e = none := by
  have hexec : (system .little .line false).exec (fun _ _ => True) (system .little .line false).init
      [.request (.action [97]), .transfer true 0, .handler { throws := some .system_error }, .request (.action [98])] =
        some _ := rfl
  refine ⟨_, System.Steps.of_exec hexec, rfl, rfl, rfl, ?_⟩
  rintro e (rfl | ⟨error, n, rfl⟩ | ⟨react, rfl⟩) <;> rfl

end Sender
end Zar
