import Zar.Communication.SendOrder
import Zar.Lobby.Lifecycle
/-!
# What the reaper erases

A failed write makes a session reapable at once, whatever else it has
outstanding: the read, handlers that wait in the strand, and the next queued
message, whose write starts behind the handler. Where all of these are absent
the session is at rest, and it stays so until it is erased.
-/

namespace Zar

/-- At most one write at a time, and only with a message in the queue. -/
structure Sender.Single (x : Sender) : Prop where
  protocol : x.protocol = .telnet
  writes : x.writes.length ≤ 1
  queue : x.messages = [] → x.writes = []

namespace Sender

variable {x : Sender}

/-- A write starts if there is a message. -/
theorem sendQueueMessage_single (hp : x.protocol = .telnet) (hw : x.writes = []) :
    x.sendQueueMessage.1.Single ∧ (x.sendQueueMessage.1.writes = [] ↔ x.messages = []) := by
  cases hm : x.messages with
  | nil =>
    have he : x.sendQueueMessage.1 = x := by simp [sendQueueMessage, hm]
    rw [he]
    exact ⟨⟨hp, by simp [hw], fun _ => hw⟩, by simp [hw]⟩
  | cons m ms =>
    have he := sendQueueMessage_eq (by rw [hp]; nofun) hm
    rw [he]
    exact ⟨⟨hp, by simp [hw], fun hn => by simp [hm] at hn⟩, by simp⟩

theorem Single.sendMessage (h : x.Single) (m : Message) : (x.sendMessage m).1.Single := by
  unfold Sender.sendMessage
  by_cases hm : x.messages = []
  · simp only [hm, List.isEmpty_nil, Bool.not_true, Bool.not_false, if_true]
    exact (sendQueueMessage_single (x := { x with messages := [] ++ [m] }) h.protocol (h.queue hm)).1
  · have hne : x.messages.isEmpty = false := by simpa using hm
    simp only [hne, Bool.not_false, Bool.not_true, Bool.false_eq_true, if_false]
    exact ⟨h.protocol, h.writes, by simp⟩

theorem Single.request (h : x.Single) (r : Request) : (x.request r).1.Single := by
  unfold Sender.request strandExecute
  dsimp only
  split
  · exact ⟨h.protocol, h.writes, h.queue⟩
  · have hx : ({ x with id := (r.message x.id).1, called := x.called ++ [(r.message x.id).2] } : Sender).Single :=
      ⟨h.protocol, h.writes, h.queue⟩
    exact hx.sendMessage _

/-- Behind the handler of a write the next one starts if there is one more message. -/
theorem Single.advance (h : x.Single) {w : Write} {ws : List Write} (hw : x.writes = w :: ws) (error : Bool) (n : Nat) :
    (({ x with writes := ws }).report error n).advance.1.Single ∧
      ((({ x with writes := ws }).report error n).advance.1.writes = [] ↔ x.messages.length ≤ 1) := by
  have hws : ws = [] := by
    have hlen := h.writes
    rw [hw] at hlen
    simpa using hlen
  have htail : x.messages.tail = [] ↔ x.messages.length ≤ 1 := by
    rw [← List.length_eq_zero_iff, List.length_tail]
    omega
  obtain ⟨t, rs, e⟩ := report_change { x with writes := ws } error n
  rw [e, ← htail]
  unfold Sender.advance
  dsimp only
  by_cases hm : x.messages.tail = []
  · simp only [hm, List.isEmpty_nil, Bool.not_true, Bool.false_eq_true, if_false]
    exact ⟨⟨h.protocol, by simp [hws], fun _ => hws⟩, by simp [hws]⟩
  · have hne : x.messages.tail.isEmpty = false := by simpa using hm
    simp only [hne, Bool.not_false, if_true]
    exact sendQueueMessage_single
      (x := { x with writes := ws, totalBytesTransferred := t, reports := rs, messages := x.messages.tail })
      h.protocol hws

/-- The handler of a write that throws. -/
theorem Single.report (h : x.Single) {w : Write} {ws : List Write} (hw : x.writes = w :: ws) (error : Bool) (n : Nat) :
    (({ x with writes := ws }).report error n).Single := by
  obtain ⟨t, rs, e⟩ := report_change { x with writes := ws } error n
  have hlen := h.writes
  rw [hw] at hlen
  have hws : ws = [] := by simpa using hlen
  rw [e]
  exact ⟨h.protocol, by simp [hws], fun _ => hws⟩

theorem Single.transfer (h : x.Single) {error : Bool} {n : Nat} {x' : Sender}
    (hs : x.step (.transfer error n) = some x') : x'.Single := by
  cases step_cases hs with
  | transfer hw =>
    have hlen := h.writes
    rw [hw] at hlen
    refine ⟨h.protocol, hlen, fun hm => ?_⟩
    rw [h.queue hm] at hw
    cases hw

theorem Single.posted (h : x.Single) {x' : Sender} (hs : x.step .sendMessage = some x') : x'.Single := by
  cases step_cases hs with
  | @sendMessage m ms =>
    have hx : ({ x with posted := ms } : Sender).Single := ⟨h.protocol, h.writes, h.queue⟩
    exact hx.sendMessage m

end Sender

namespace Lobby

variable {L L' : Lobby} {s s' : Session} {e : Event} {es : List Event} {gs : List Game} {host : Endian} {c : Bytes}

theorem Answer.single (h : Answer L s c s' gs) (hs : s.sender.Single) : s'.sender.Single := by
  cases h with
  | nothing => exact hs
  | reply | login | create => exact hs.request _

theorem Moved.single (h : Moved L s e s' gs) (hs : s.sender.Single) : s'.sender.Single := by
  cases h with
  | acceptFailed | receiveMessage | readFailed => exact hs
  | sendMessage h => exact hs.posted h
  | transfer h => exact hs.transfer h
  | command _ ha => exact ha.single hs
  | wrote h | closed h => exact (hs.advance h _ _).1
  | threw h => exact hs.report h _ _

theorem Reachable.single (h : (system host).Reachable L) : ∀ s ∈ L.everyone, s.sender.Single := by
  have hcreate : ∀ k, (Session.create host k).sender.Single := fun k => ⟨rfl, Nat.zero_le 1, fun _ => rfl⟩
  refine Reachable.sessions (fun s => s.sender.Single) h ?_ ?_ fun L s e s' gs _ _ hp hm => hm.single hp
  · intro s hs
    rw [hs]
    exact hcreate s.key
  · intro s hs
    have hs' : s.sender.Single := by
      rw [hs]
      exact hcreate s.key
    exact hs'.request _

/-! ## A write that fails with nothing else to do -/

/-- The handler of a write that failed is next. -/
def writeFailed (s : Session) : Bool :=
  match s.sender.writes with
  | .completed error _ :: _ => error
  | _ => false

/-- No read is outstanding or waits to start, and there is no message but the one that is written. -/
def Alone (s : Session) : Prop :=
  s.reads = 0 ∧ s.posted = 0 ∧ s.sender.posted = [] ∧ s.sender.messages.length ≤ 1

/-- Where the handler of a failed write closes the socket, the session is alone with this write. -/
def Quiet (L : Lobby) : Event → Prop
  | .written k throws =>
    ∀ s ∈ L.sessions, s.key = k → s.opened = true → throws = false → writeFailed s = true → Alone s
  | _ => True

instance (s : Session) : Decidable (Alone s) := by unfold Alone; infer_instance

instance (L : Lobby) : (e : Event) → Decidable (L.Quiet e)
  | .written k throws => inferInstanceAs (Decidable (∀ s ∈ L.sessions,
      s.key = k → s.opened = true → throws = false → writeFailed s = true → Alone s))
  | .accept _ _ | .receiveMessage _ | .sendMessage _ | .read _ _ | .transfer _ _ _ | .tick _ =>
    inferInstanceAs (Decidable True)

/-- The handler of a failed write that closes the socket leaves the session idle exactly
when there was nothing else to do. -/
theorem closed_idle (hs : s.sender.Single) (hacc : s.accepts = 0) {n : Nat} {ws : List Write}
    (h : s.sender.writes = .completed true n :: ws) :
    (Session.setStatus
      { s with
        opened := false
        trace := s.trace ++ [.writeFailed true]
        sender := (({ s.sender with writes := ws }).report true n).advance.1 } .reapable).Idle ↔ Alone s := by
  have hw := (hs.advance h true n).2
  have hp : (({ s.sender with writes := ws }).report true n).advance.1.posted = s.sender.posted := by
    obtain ⟨t, rs, e⟩ := Sender.report_change { s.sender with writes := ws } true n
    obtain ⟨b, w, st, e'⟩ := Sender.advance_change (({ s.sender with writes := ws }).report true n)
    rw [e', e]
  unfold Session.Idle Alone
  simp only [Session.setStatus, hp, hw, hacc, true_and]
  constructor
  · rintro ⟨h1, h2, h3, h4⟩
    exact ⟨h2, h1, h3, h4⟩
  · rintro ⟨h1, h2, h3, h4⟩
    exact ⟨h2, h1, h3, h4⟩

/-- A write whose failure closes the socket. -/
theorem Moved.closing {k : Nat} (h : Moved L s e s' gs) (he : e = .written k false) (ho : s.opened = true)
    (hf : writeFailed s = true) (hs : s.sender.Single) (hacc : s.accepts = 0) :
    s'.status = .reapable ∧ (s'.Idle ↔ Alone s) := by
  cases h with
  | closed h => exact ⟨rfl, closed_idle hs hacc h⟩
  | wrote h => simp [writeFailed, h] at hf
  | threw h hthrows =>
    cases he
    cases hthrows ho
  | acceptFailed | receiveMessage | sendMessage | transfer | readFailed | command => cases he

/-- Sessions that wait for the reaper have nothing outstanding. -/
def Rested (L : Lobby) : Prop := ∀ s ∈ L.everyone, s.status = .reapable → s.Idle

theorem Moved.rested (h : Moved L s e s' gs) (hi : s.status = .reapable → s.Idle) (hs : s ∈ L.sessions) (hq : L.Quiet e)
    (hx : s.sender.Single) (hacc : s.accepts ≠ 0 → s.Waiting L.host) (hst : s'.status = .reapable) : s'.Idle := by
  have hne : s.status ≠ .reapable := fun hre => h.not_idle (hi hre)
  cases h with
  | acceptFailed h =>
    rw [Session.Waiting] at h
    rw [h]
    exact ⟨rfl, rfl, rfl, rfl, rfl⟩
  | readFailed => cases hst
  | closed h ho =>
    have h0 : s.accepts = 0 := by
      by_contra hne
      rw [hacc hne] at h
      cases h
    exact (closed_idle hx h0 h).2 (hq s hs rfl ho rfl (by simp [writeFailed, h]))
  | command _ ha => exact absurd (ha.status.symm.trans hst) hne
  | receiveMessage | sendMessage | transfer | wrote | threw => exact absurd hst hne

theorem Change.rested (hw : L.Wf) (h : Change L e L') (hi : L.Rested) (hq : L.Quiet e)
    (hx : ∀ s ∈ L.everyone, s.sender.Single) : L'.Rested := by
  intro x hmem hst
  cases h with
  | @moved s s' _ gs hs hm =>
    rcases (everyone_moved hw hs hm.key gs x).1 hmem with rfl | ⟨hmem, -⟩
    · exact hm.rested (hi s (mem_everyone hs)) hs hq (hx s (mem_everyone hs)) (fun hne => (hw.accepting s hs hne).1) hst
    · exact hi x hmem hst
  | @accepted init s hs hwait =>
    rcases List.mem_append.1 hmem with hmem | hmem
    · rcases mem_accepted hmem with hmem | rfl | rfl
      · exact hi x (mem_everyone (hs ▸ List.mem_append_left _ hmem)) hst
      · cases hst
      · cases hst
    · exact hi x (List.mem_append_right _ hmem) hst
  | reaped => exact hi x ((everyone_reaped x).1 hmem) hst
  | aborted => exact hi x hmem hst

/-- In every run where sessions are alone with the write whose failure closes the socket,
whatever the reaper erases is idle. Behind any other such failure, the reaper
erases a session in use. Ticks come between handlers: one that is still running is not counted. -/
theorem reaps_idle (host : Endian) :
    (∀ es L, (system host).RunIf Quiet es L → ∀ s ∈ L.erased, s.Idle) ∧
    ∀ L e L', (system host).Reachable L → L.step e = some L' → ¬ L.Quiet e →
      ∃ s ∈ L'.sessions, s ∈ L'.reap.erased ∧ ¬ s.Idle := by
  constructor
  · intro es L h s hs
    have hrest : L.Rested := by
      refine h.inv_hist (fun _ L => L.Rested) ?_ ?_
      · intro s hs hst
        rw [(run_waiting hs).status] at hst
        cases hst
      · intro es L e L' hrun hi hq hstep
        have hr : (system host).Reachable L := hrun.run.reachable
        exact (step_change (Reachable.wf hr) hstep).rested (Reachable.wf hr) hi hq (Reachable.single hr)
    exact hrest s (List.mem_append_right _ hs) (Reachable.erased h.run.reachable s hs)
  · intro L e L' hr hstep hq
    have hw := Reachable.wf hr
    cases e with
    | accept | receiveMessage | sendMessage | transfer | read | tick => exact absurd trivial hq
    | written k throws =>
      obtain ⟨s, hs, rfl, ho, rfl, hf, halone⟩ : ∃ s ∈ L.sessions, s.key = k ∧ s.opened = true ∧ throws = false ∧
          writeFailed s = true ∧ ¬ Alone s := by
        simpa [Quiet] using hq
      generalize he : Event.written s.key false = e at hstep
      cases step_change hw hstep with
      | @moved x x' _ gs hx hm =>
        have hk : x.key = s.key := by simpa [← he, Event.about] using hm.about.symm
        obtain rfl := hw.keys.eq hx hs hk
        have h0 : x.accepts = 0 := by
          by_contra hne
          rw [(hw.accepting x hx hne).1] at ho
          cases ho
        obtain ⟨hst, hidle⟩ := hm.closing he.symm ho hf (Reachable.single hr x (mem_everyone hx)) h0
        have hx' : x' ∈ (L.answered x' gs).sessions := mem_answered hx hm.key
        exact ⟨x', hx', List.mem_append_right _ (List.mem_filter.2 ⟨hx', by simp [hst]⟩), fun hi => halone (hidle.1 hi)⟩
      | accepted | reaped | aborted => cases he

/-- The read fails, then the write of the greeting, and then the reaper runs. -/
theorem reaps_idle_write_last : ∃ L, (system .little).RunIf Quiet
      [.accept 0 false, .receiveMessage 0, .sendMessage 0, .transfer 0 true 0, .read 0 none, .written 0 false,
        .tick false] L ∧
    L.erased.map (·.key) = [0] ∧ ∀ s ∈ L.erased, s.Idle := by
  have hexec : (system .little).exec Quiet (run .little)
      [.accept 0 false, .receiveMessage 0, .sendMessage 0, .transfer 0 true 0, .read 0 none, .written 0 false,
        .tick false] = some _ := rfl
  have hr : (system .little).RunIf Quiet _ _ := System.Steps.of_exec hexec
  exact ⟨_, hr, rfl, (reaps_idle .little).1 _ _ hr⟩

/-- The write of a reply fails. Its session is erased with its read outstanding, and with the
write of the next reply. -/
theorem erased_in_use : ∃ L, (system .little).Run
      [.accept 0 false, .sendMessage 0, .receiveMessage 0, .transfer 0 false 8, .written 0 false,
        .read 0 (some (text "help")), .sendMessage 0, .receiveMessage 0, .read 0 (some (text "help")), .sendMessage 0,
        .receiveMessage 0, .transfer 0 true 0, .written 0 false, .tick false] L ∧
    L.erased.map (fun s => (s.key, s.reads, s.sender.writes.length)) = [(0, 1, 1)] ∧ ¬ ∀ s ∈ L.erased, s.Idle := by
  have hexec : (system .little).exec (fun _ _ => True) (run .little)
      [.accept 0 false, .sendMessage 0, .receiveMessage 0, .transfer 0 false 8, .written 0 false,
        .read 0 (some (text "help")), .sendMessage 0, .receiveMessage 0, .read 0 (some (text "help")), .sendMessage 0,
        .receiveMessage 0, .transfer 0 true 0, .written 0 false, .tick false] = some _ := rfl
  exact ⟨_, System.Steps.of_exec hexec, by decide, by decide⟩

end Lobby
end Zar
