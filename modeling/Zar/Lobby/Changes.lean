import Zar.Lobby.Commands
/-!
# What a step changes

`step_change` sums up the handlers: a step moves one session, welcomes a new
connection, or erases what is reapable. The invariants of the lobby are case
analyses over this.
-/

namespace Zar

/-- A session whose accept is outstanding, and nothing else happened to it. -/
def Session.Waiting (host : Endian) (s : Session) : Prop := s = (Session.create host s.key).accept

theorem Session.Waiting.accepts {host : Endian} {s : Session} (h : s.Waiting host) : s.accepts = 1 := by
  rw [Session.Waiting] at h
  rw [h]
  rfl

theorem Session.Waiting.status {host : Endian} {s : Session} (h : s.Waiting host) : s.status = .wait_for_connection := by
  rw [Session.Waiting] at h
  rw [h]
  rfl

/-- A session whose accept failed: nothing is outstanding any more. -/
def Session.Failed (host : Endian) (s : Session) : Prop :=
  s = Session.setStatus { Session.create host s.key with trace := [.accepted true] } .reapable

/-- A session after its accept. -/
def Session.welcome (s : Session) : Session :=
  ((Session.setStatus { s with accepts := s.accepts - 1, opened := true, trace := s.trace ++ [.accepted false] }
    .connected).send (text "Zard\n1")).receive

@[simp] theorem Session.welcome_key (s : Session) : s.welcome.key = s.key := rfl

namespace Lobby

/-- What a step about one session makes of it and of the games. -/
inductive Moved (L : Lobby) (s : Session) : Event → Session → List Game → Prop
  | acceptFailed (h : s.Waiting L.host) :
      Moved L s (.accept s.key true)
        (Session.setStatus { s with accepts := s.accepts - 1, opened := false, trace := s.trace ++ [.accepted true] }
          .reapable) L.games
  | receiveMessage (h : 0 < s.posted) :
      Moved L s (.receiveMessage s.key) { s with posted := s.posted - 1, reads := s.reads + 1 } L.games
  | sendMessage {sender : Sender} (h : s.sender.step .sendMessage = some sender) :
      Moved L s (.sendMessage s.key) { s with sender := sender } L.games
  | transfer {sender : Sender} {error : Bool} {n : Nat} (h : s.sender.step (.transfer error n) = some sender) :
      Moved L s (.transfer s.key error n) { s with sender := sender } L.games
  | readFailed (h : 0 < s.reads) :
      Moved L s (.read s.key none)
        ((s.readEnds none).setStatus .disconnected) L.games
  | command {c : Bytes} {s' : Session} {gs : List Game} (h : 0 < s.reads)
      (ha : Answer L (s.readEnds (some c)) c s' gs) :
      Moved L s (.read s.key (some c)) s'.receive gs
  | wrote {n : Nat} {ws : List Write} {throws : Bool} (h : s.sender.writes = .completed false n :: ws) :
      Moved L s (.written s.key throws)
        { s with sender := (({ s.sender with writes := ws }).report false n).advance.1 } L.games
  | closed {n : Nat} {ws : List Write} (h : s.sender.writes = .completed true n :: ws) (ho : s.opened = true) :
      Moved L s (.written s.key false)
        (Session.setStatus
          { s with
            opened := false
            trace := s.trace ++ [.writeFailed true]
            sender := (({ s.sender with writes := ws }).report true n).advance.1 } .reapable) L.games
  | threw {n : Nat} {ws : List Write} {throws : Bool} (h : s.sender.writes = .completed true n :: ws)
      (ho : s.opened = true → throws = true) :
      Moved L s (.written s.key throws)
        { s with
          trace := s.trace ++ [.writeFailed false]
          sender := ({ s.sender with writes := ws }).report true n } L.games

/-- The session that an event is about. -/
def Event.about : Event → Option Nat
  | .accept k _ | .receiveMessage k | .sendMessage k | .read k _ | .transfer k _ _ | .written k _ => some k
  | .tick _ => none

inductive Change (L : Lobby) : Event → Lobby → Prop
  | moved {s s' : Session} {e : Event} {gs : List Game} (hs : s ∈ L.sessions) (h : Moved L s e s' gs)
      {caught : List Thrown} (hc : ∀ t ∈ caught, t ∈ L.caught ∨ t ≠ .int 0) :
      Change L e { L.answered s' gs with caught := caught }
  | accepted {init : List Session} {s : Session} (hs : L.sessions = init ++ [s]) (h : s.Waiting L.host) :
      Change L (.accept s.key false) { L with
        sessions := init ++ [s.welcome, (Session.create L.host L.nextKey).accept]
        nextKey := L.nextKey + 1 }
  | reaped (timers : Nat) : Change L (.tick false) { L.reap with timers := timers }
  | aborted (timers : Nat) : Change L (.tick true) { L with timers := timers }

/-- What every step relies on. -/
structure Wf (L : Lobby) : Prop where
  distinct : Keyed.Distinct Session.key (L.sessions ++ L.erased)
  fresh : ∀ s ∈ L.sessions ++ L.erased, s.key < L.nextKey
  /-- The receive handler is the one of the mode. -/
  handler : ∀ s ∈ L.sessions, s.receiveHandler = .game ↔ s.mode = .creating_game
  /-- Only the last session can be accepting. -/
  accepting : ∀ s ∈ L.sessions, s.accepts ≠ 0 → s.Waiting L.host ∧ L.sessions.getLast? = some s

variable {L L' : Lobby} {s s' : Session} {e : Event} {gs : List Game}

theorem Wf.keys (hw : L.Wf) : Keyed.Distinct Session.key L.sessions := hw.distinct.sublist (List.sublist_append_left _ _)

theorem Wf.dispatch (hw : L.Wf) : L.Dispatch := ⟨hw.keys, hw.handler⟩

/-! ## Every step is a change -/

theorem get?_mem {k : Nat} (h : L.get? k = some s) : s ∈ L.sessions ∧ s.key = k := Keyed.get?_some h

/-- Of two assignments to one session the second one counts. -/
theorem answered_answered (s' s'' : Session) (gs gs' : List Game) (hk : s'.key = s''.key) :
    (L.answered s' gs).answered s'' gs' = L.answered s'' gs' := by
  unfold answered update
  dsimp only
  rw [hk, Keyed.update_update _ fun _ _ => hk]

theorem answered_update (s' : Session) (gs : List Game) (f : Session → Session) (hk : (f s').key = s'.key) :
    (L.answered s' gs).update s'.key f = L.answered (f s') gs := by
  unfold answered update
  dsimp only
  rw [hk, Keyed.update_update _ fun _ _ => rfl]

theorem mem_answered (hs : s ∈ L.sessions) (hk : s'.key = s.key) : s' ∈ (L.answered s' gs).sessions :=
  Keyed.mem_update.2 (.inl ⟨s, hs, hk.symm, rfl⟩)

/-- Where only the trace of a session and what it has outstanding changed, a command is
answered in the same way. -/
theorem Answer.congr {c : Bytes} (hids : L'.sessions.map (·.id) = L.sessions.map (·.id)) (hgames : L'.games = L.games)
    (h : Answer L' s c s' gs) : Answer L s c s' gs := by
  cases h with
  | nothing h => rw [hgames]; exact .nothing h
  | reply h data => rw [hgames]; exact .reply h data
  | login h hm id hc hid =>
    rw [hgames]
    refine .login h hm id hc fun x hx => ?_
    have hx' : x.id ∈ L'.sessions.map (·.id) := by
      rw [hids]
      exact List.mem_map_of_mem hx
    obtain ⟨y, hy, he⟩ := List.mem_map.1 hx'
    rw [← he]
    exact hid y hy
  | create h hm id hc hid => rw [hgames] at hid ⊢; exact .create h hm id hc hid

theorem Dispatch.answered (hd : L.Dispatch) (hs : s ∈ L.sessions) (hk : s'.key = s.key) (hm : s'.mode = s.mode)
    (hh : s'.receiveHandler = s.receiveHandler) : (L.answered s' gs).Dispatch := by
  refine ⟨hd.keys.update fun x _ hx => hx.symm, fun x hx => ?_⟩
  rcases Keyed.mem_update.1 hx with ⟨-, -, -, rfl⟩ | ⟨hx, -⟩
  · rw [hm, hh]
    exact hd.handler s hs
  · exact hd.handler x hx

/-- A command that was read. -/
theorem read_change (hw : L.Wf) (hs : s ∈ L.sessions) (hr : 0 < s.reads) (c : Bytes) :
    Change L (.read s.key (some c)) (catching
      ((L.update s.key fun _ => s.readEnds (some c)).asioReceiveHandler (s.readEnds (some c)) (some c))) := by
  let s₁ : Session := s.readEnds (some c)
  have hd : (L.answered s₁ L.games).Dispatch := hw.dispatch.answered hs rfl rfl rfl
  obtain ⟨s', gs, ha, he⟩ := command_answer hd (show s₁ ∈ _ from mem_answered hs rfl) ⟨.reply, 0, c⟩
  have hids : (L.answered s₁ L.games).sessions.map (·.id) = L.sessions.map (·.id) :=
    Keyed.map_update _ fun x hx hk => by rw [hw.keys.eq hx hs hk]; rfl
  have hk : s'.key = s.key := ha.key
  have e : (L.update s.key fun _ => s₁).asioReceiveHandler s₁ (some c) = (L.answered s'.receive gs, none) := by
    change (L.answered s₁ L.games).asioReceiveHandler s₁ (some c) = _
    simp only [asioReceiveHandler, he]
    rw [answered_answered s₁ s' _ _ hk.symm, show s₁.key = s'.key from hk.symm, answered_update s' gs _ rfl]
  rw [e]
  exact .moved hs (.command hr (ha.congr hids rfl)) fun t ht => .inl (by simpa [answered, update] using ht)

/-- A read that failed. -/
theorem read_failed_change (hs : s ∈ L.sessions) (hr : 0 < s.reads) :
    Change L (.read s.key none) (catching
      ((L.update s.key fun _ => s.readEnds none).asioReceiveHandler (s.readEnds none) none)) := by
  let s₁ : Session := s.readEnds none
  have e : (L.update s.key fun _ => s₁).asioReceiveHandler s₁ none =
      (L.answered (s₁.setStatus .disconnected) L.games, none) := by
    change (L.answered s₁ L.games).asioReceiveHandler s₁ none = _
    have hc : (L.answered s₁ L.games).callHandler s₁ true none = (L.answered s₁ L.games, none) := by
      unfold callHandler
      split
      · rfl
      · simp only [Game.receiveHandler, if_true]
        rw [answered_update s₁ _ _ rfl]
    simp only [asioReceiveHandler, sessionReceiveHandler, hc, if_true]
    rw [answered_update s₁ _ _ rfl]
  rw [e]
  exact .moved hs (.readFailed hr) fun t ht => .inl (by simpa [answered, update] using ht)

theorem update_last {init : List Session} (h : L.sessions = init ++ [s]) (hd : Keyed.Distinct Session.key (init ++ [s]))
    (f : Session → Session) : L.update s.key f = { L with sessions := init ++ [f s] } := by
  unfold update
  rw [h, hd.update_last]

theorem updateBack_last {init : List Session} (h : L.sessions = init ++ [s])
    (hd : Keyed.Distinct Session.key (init ++ [s])) (f : Session → Session) :
    L.updateBack f = { L with sessions := init ++ [f s] } := by
  unfold updateBack
  simp only [h, List.getLast?_concat]
  exact update_last h hd f

/-- The session that accepted is the one that the lobby welcomes, and the next one
listens. -/
theorem accept_change (hw : L.Wf) (hs : s ∈ L.sessions) (ha : 0 < s.accepts) (error : Bool) :
    Change L (.accept s.key error) ((L.update s.key fun s =>
      { s with accepts := s.accepts - 1, opened := !error, trace := s.trace ++ [.accepted error] }).sessionAcceptHandler
        s.key error) := by
  obtain ⟨hwait, hlast⟩ := hw.accepting s hs (by omega)
  cases error with
  | true =>
    have e : ((L.update s.key fun s =>
        { s with accepts := s.accepts - 1, opened := !true, trace := s.trace ++ [.accepted true] }).sessionAcceptHandler
          s.key true) = { L.answered (Session.setStatus { s with
            accepts := s.accepts - 1, opened := false, trace := s.trace ++ [.accepted true] } .reapable) L.games with
          caught := L.caught } := by
      simp only [sessionAcceptHandler, if_true]
      rw [update_eq hw.keys hs]
      exact answered_update (L := L) { s with
        accepts := s.accepts - 1, opened := false, trace := s.trace ++ [.accepted true] } L.games _ rfl
    rw [e]
    exact .moved hs (.acceptFailed hwait) fun t ht => .inl ht
  | false =>
    obtain ⟨init, hinit⟩ := List.getLast?_eq_some_iff.1 hlast
    let s₁ : Session := { s with accepts := s.accepts - 1, opened := true, trace := s.trace ++ [.accepted false] }
    have hd : Keyed.Distinct Session.key (init ++ [s]) := hinit ▸ hw.keys
    have hfresh : ∀ x ∈ init ++ [s], x.key < L.nextKey := fun x hx =>
      hw.fresh x (List.mem_append_left _ (hinit ▸ hx))
    -- The keys after the accept: that of `s` again, and a fresh one.
    have hd₁ : Keyed.Distinct Session.key (init ++ [s₁]) := by
      simpa [Keyed.Distinct] using hd
    have hd₂ : Keyed.Distinct Session.key ((init ++ [s.welcome]) ++ [Session.create L.host L.nextKey]) := by
      apply Keyed.Distinct.concat (by simpa [Keyed.Distinct] using hd)
      intro x hx
      have hlt : x.key < L.nextKey := by
        rcases List.mem_append.1 hx with hx | hx
        · exact hfresh x (by simp [hx])
        · rw [List.mem_singleton.1 hx]
          exact hfresh s (by simp)
      exact Nat.ne_of_lt hlt
    have e : ((L.update s.key fun s =>
        { s with accepts := s.accepts - 1, opened := !false, trace := s.trace ++ [.accepted false] }).sessionAcceptHandler
          s.key false) = { L with
            sessions := init ++ [s.welcome, (Session.create L.host L.nextKey).accept], nextKey := L.nextKey + 1 } := by
      rw [update_last hinit hd]
      simp only [sessionAcceptHandler, acceptHandler, Bool.false_eq_true, if_false, Bool.not_false, if_true]
      rw [updateBack_last (s := s₁) rfl hd₁]
      unfold createSession listen
      rw [updateBack_last (s := Session.create L.host L.nextKey) rfl hd₂]
      simp [Session.welcome]
    rw [e]
    exact .accepted hinit hwait

/-- A write that starts throws what `encode` throws. -/
theorem advance_throws (x : Sender) : x.advance.2 ≠ some (.int 0) := by
  have hq : ∀ x : Sender, x.sendQueueMessage.2 ≠ some (.int 0) := by
    intro x
    unfold Sender.sendQueueMessage Message.encode
    split
    · simp
    · cases x.protocol <;> simp [NOT_IMPLEMENTED_YET]
  unfold Sender.advance
  dsimp only
  split
  · exact hq _
  · simp

/-- The handler of a write. -/
theorem written_change (hs : s ∈ L.sessions) {error : Bool} {n : Nat} {ws : List Write}
    (h : s.sender.writes = .completed error n :: ws) (throws : Bool) :
    Change L (.written s.key throws) (catching
      (L.update s.key fun _ =>
          (({ s with sender := { s.sender with writes := ws } }).sendQueueMessageHandler error n throws).1,
        (({ s with sender := { s.sender with writes := ws } }).sendQueueMessageHandler error n throws).2)) := by
  have hcaught : ∀ o : Option Thrown, o ≠ some (.int 0) → ∀ t ∈ L.caught ++ o.toList, t ∈ L.caught ∨ t ≠ .int 0 := by
    intro o ho t ht
    rcases List.mem_append.1 ht with ht | ht
    · exact .inl ht
    · right
      rintro rfl
      exact ho (Option.mem_toList.1 ht)
  cases error with
  | false => exact .moved hs (.wrote h) (hcaught _ (advance_throws _))
  | true =>
    by_cases ho : s.opened = true ∧ throws = false
    · obtain ⟨ho, rfl⟩ := ho
      have e : ({ s with sender := { s.sender with writes := ws } }).sendQueueMessageHandler true n false =
          (Session.setStatus { s with
            opened := false
            trace := s.trace ++ [.writeFailed true]
            sender := (({ s.sender with writes := ws }).report true n).advance.1 } .reapable,
          (({ s.sender with writes := ws }).report true n).advance.2) := by
        simp [Session.sendQueueMessageHandler, Session.sessionSendHandler, Session.close, ho, Session.setStatus]
      rw [e]
      exact .moved hs (.closed h ho) (hcaught _ (advance_throws _))
    · have e : ({ s with sender := { s.sender with writes := ws } }).sendQueueMessageHandler true n throws =
          ({ s with
            trace := s.trace ++ [.writeFailed false]
            sender := ({ s.sender with writes := ws }).report true n }, some .system_error) := by
        have hc : (s.opened && !throws) = false := by
          cases hso : s.opened <;> cases throws <;> simp [hso] at ho ⊢
        simp [Session.sendQueueMessageHandler, Session.sessionSendHandler, Session.close, hc]
      rw [e]
      exact .moved hs (.threw h fun hso => by simpa [hso] using ho) (hcaught _ (by simp))

theorem step_change (hw : L.Wf) (h : L.step e = some L') : Change L e L' := by
  cases e with
  | accept k error =>
    simp only [step] at h
    split at h
    · cases h
    · rename_i s hg
      obtain ⟨hs, rfl⟩ := get?_mem hg
      split at h
      · cases h
        exact accept_change hw hs (by assumption) error
      · cases h
  | receiveMessage k =>
    simp only [step] at h
    split at h
    · cases h
    · rename_i s hg
      obtain ⟨hs, rfl⟩ := get?_mem hg
      split at h
      · cases h
        rw [update_eq hw.keys hs]
        exact .moved hs (.receiveMessage (by assumption)) fun t ht => .inl ht
      · cases h
  | sendMessage k =>
    simp only [step] at h
    split at h
    · cases h
    · rename_i s hg
      obtain ⟨hs, rfl⟩ := get?_mem hg
      obtain ⟨sender, hsend, rfl⟩ := Option.map_eq_some_iff.1 h
      rw [update_eq hw.keys hs]
      exact .moved hs (.sendMessage hsend) fun t ht => .inl ht
  | transfer k error n =>
    simp only [step] at h
    split at h
    · cases h
    · rename_i s hg
      obtain ⟨hs, rfl⟩ := get?_mem hg
      obtain ⟨sender, hsend, rfl⟩ := Option.map_eq_some_iff.1 h
      rw [update_eq hw.keys hs]
      exact .moved hs (.transfer hsend) fun t ht => .inl ht
  | read k contents =>
    simp only [step] at h
    split at h
    · cases h
    · rename_i s hg
      obtain ⟨hs, rfl⟩ := get?_mem hg
      split at h
      · rename_i hr
        cases h
        cases contents with
        | none => exact read_failed_change hs hr
        | some c => exact read_change hw hs hr c
      · cases h
  | written k throws =>
    simp only [step] at h
    split at h
    · cases h
    · rename_i s hg
      obtain ⟨hs, rfl⟩ := get?_mem hg
      split at h
      · rename_i error n ws hwr
        cases h
        exact written_change hs hwr throws
      · cases h
  | tick aborted =>
    simp only [step] at h
    split at h
    · cases h
      cases aborted with
      | true => exact .aborted _
      | false => exact .reaped _
    · cases h

/-! ## Every state is well formed -/

theorem Moved.about (h : Moved L s e s' gs) : e.about = some s.key := by cases h <;> rfl

theorem Moved.key (h : Moved L s e s' gs) : s'.key = s.key := by
  cases h with
  | command _ ha => exact ha.key
  | acceptFailed | receiveMessage | sendMessage | transfer | readFailed | wrote | closed | threw => rfl

/-- A session whose accept is outstanding can only fail to accept. -/
theorem Moved.waiting (h : Moved L s e s' gs) (hw : s.Waiting L.host) : e = .accept s.key true ∧ s'.Failed L.host := by
  generalize hk : s.key = k at *
  rw [Session.Waiting, hk] at hw
  subst hw
  cases h with
  | acceptFailed => exact ⟨rfl, rfl⟩
  | receiveMessage h | readFailed h | command h => cases h
  | sendMessage h => cases h
  | transfer h => cases h
  | wrote h | closed h | threw h => cases h

theorem not_moved_failed (hf : s.Failed L.host) : ¬ Moved L s e s' gs := by
  intro h
  generalize hk : s.key = k at *
  rw [Session.Failed, hk] at hf
  subst hf
  cases h with
  | acceptFailed h => cases congrArg Session.accepts h
  | receiveMessage h | readFailed h | command h => cases h
  | sendMessage h => cases h
  | transfer h => cases h
  | wrote h | closed h | threw h => cases h

theorem Answer.accepts {c : Bytes} (h : Answer L s c s' gs) : s'.accepts = s.accepts := by cases h <;> rfl

theorem Moved.accepts (h : Moved L s e s' gs) :
    e = .accept s.key true ∧ s.Waiting L.host ∧ s'.accepts = 0 ∨ (∀ k, e ≠ .accept k true) ∧ s'.accepts = s.accepts := by
  cases h with
  | acceptFailed h => exact .inl ⟨rfl, h, h.symm ▸ rfl⟩
  | command _ ha => exact .inr ⟨by rintro _ ⟨⟩, ha.accepts⟩
  | receiveMessage | sendMessage | transfer | readFailed | wrote | closed | threw => exact .inr ⟨by rintro _ ⟨⟩, rfl⟩

/-- A session that does not accept can only be moved, and is not accepting then. -/
theorem Wf.moved_accepts (hw : L.Wf) (hs : s ∈ L.sessions) (h : Moved L s e s' gs) : s'.accepts = 0 := by
  rcases h.accepts with ⟨-, -, h0⟩ | ⟨hne, he⟩
  · exact h0
  · by_contra hacc
    exact hne _ (h.waiting (hw.accepting s hs (he ▸ hacc)).1).1

theorem Answer.handler {c : Bytes} (h : Answer L s c s' gs) (hh : s.receiveHandler = .game ↔ s.mode = .creating_game) :
    s'.receiveHandler = .game ↔ s'.mode = .creating_game := by
  cases h with
  | nothing | reply => exact hh
  | login h hm =>
    have hne : s.receiveHandler ≠ .game := by
      rw [Ne, hh, hm]
      decide
    exact ⟨fun he => absurd he hne, fun he => by cases he⟩
  | create => exact ⟨fun _ => rfl, fun _ => rfl⟩

theorem Moved.handler (h : Moved L s e s' gs) (hh : s.receiveHandler = .game ↔ s.mode = .creating_game) :
    s'.receiveHandler = .game ↔ s'.mode = .creating_game := by
  cases h with
  | command _ ha => exact ha.handler hh
  | acceptFailed | receiveMessage | sendMessage | transfer | readFailed | wrote | closed | threw => exact hh

/-- The sessions after a step about one of them. -/
theorem mem_moved (hk : s'.key = s.key) {x : Session}
    (hx : x ∈ Keyed.update Session.key s'.key (fun _ => s') L.sessions) :
    x = s' ∨ x ∈ L.sessions ∧ x.key ≠ s.key := by
  rcases Keyed.mem_update.1 hx with ⟨-, -, -, rfl⟩ | ⟨hx, hne⟩
  · exact .inl rfl
  · exact .inr ⟨hx, hk ▸ hne⟩

theorem Wf.answered (hw : L.Wf) (hs : s ∈ L.sessions) (hk : s'.key = s.key)
    (hh : s'.receiveHandler = .game ↔ s'.mode = .creating_game) (h0 : s'.accepts = 0) : (L.answered s' gs).Wf := by
  have hkeys : (L.answered s' gs).sessions.map Session.key = L.sessions.map Session.key :=
    Keyed.map_update Session.key fun x _ hx => hx.symm
  refine ⟨?_, ?_, ?_, ?_⟩
  · have hd := hw.distinct
    unfold Keyed.Distinct at *
    rw [List.map_append] at *
    rw [hkeys]
    exact hd
  · intro x hx
    rcases List.mem_append.1 hx with hx | hx
    · rcases mem_moved hk hx with rfl | ⟨hx, -⟩
      · rw [hk]
        exact hw.fresh s (List.mem_append_left _ hs)
      · exact hw.fresh x (List.mem_append_left _ hx)
    · exact hw.fresh x (List.mem_append_right _ hx)
  · intro x hx
    rcases mem_moved hk hx with rfl | ⟨hx, -⟩
    · exact hh
    · exact hw.handler x hx
  · intro x hx hacc
    rcases mem_moved hk hx with rfl | ⟨hx, hne⟩
    · exact absurd h0 hacc
    · obtain ⟨hwait, hlast⟩ := hw.accepting x hx hacc
      refine ⟨hwait, ?_⟩
      change (Keyed.update Session.key s'.key (fun _ => s') L.sessions).getLast? = some x
      unfold Keyed.update
      rw [List.getLast?_map, hlast, Option.map_some, if_neg (hk ▸ hne)]

theorem Wf.moved (hw : L.Wf) (hs : s ∈ L.sessions) (h : Moved L s e s' gs) {caught : List Thrown} :
    ({ L.answered s' gs with caught := caught } : Lobby).Wf := by
  have hw' : (L.answered s' gs).Wf := hw.answered hs h.key (h.handler (hw.handler s hs)) (hw.moved_accepts hs h)
  exact { hw' with }

/-- The sessions after an accept. -/
theorem mem_accepted {init : List Session} {x y : Session} (hx : x ∈ init ++ [s, y]) : x ∈ init ∨ x = s ∨ x = y := by
  simpa using hx

theorem Wf.accepted {init : List Session} (hw : L.Wf) (hs : L.sessions = init ++ [s]) (h : s.Waiting L.host) :
    ({ L with
      sessions := init ++ [s.welcome, (Session.create L.host L.nextKey).accept]
      nextKey := L.nextKey + 1 } : Lobby).Wf := by
  have hmem : ∀ x ∈ init, x ∈ L.sessions := fun x hx => hs ▸ List.mem_append_left _ hx
  have hlast : s ∈ L.sessions := by simp [hs]
  refine ⟨?_, ?_, ?_, ?_⟩
  · -- The keys are the old ones and the fresh one.
    have hd : Keyed.Distinct Session.key ((L.sessions ++ L.erased) ++ [Session.create L.host L.nextKey]) :=
      hw.distinct.concat fun x hx => Nat.ne_of_lt (hw.fresh x hx)
    have hp : List.Perm (((init ++ [s.welcome, (Session.create L.host L.nextKey).accept]) ++ L.erased).map Session.key)
        (((L.sessions ++ L.erased) ++ [Session.create L.host L.nextKey]).map Session.key) := by
      rw [hs]
      simp only [List.map_append, List.map_cons, List.map_nil, Session.welcome_key, List.append_assoc, List.cons_append,
        List.nil_append]
      exact ((List.perm_append_singleton _ _).symm.cons _).append_left _
    exact hp.nodup_iff.2 hd
  · intro x hx
    rcases List.mem_append.1 hx with hx | hx
    · rcases mem_accepted hx with hx | rfl | rfl
      · exact Nat.lt_succ_of_lt (hw.fresh x (List.mem_append_left _ (hmem x hx)))
      · exact Nat.lt_succ_of_lt (hw.fresh s (List.mem_append_left _ hlast))
      · exact Nat.lt_succ_self _
    · exact Nat.lt_succ_of_lt (hw.fresh x (List.mem_append_right _ hx))
  · intro x hx
    rcases mem_accepted hx with hx | rfl | rfl
    · exact hw.handler x (hmem x hx)
    · exact hw.handler s hlast
    · simp [Session.create, Session.accept]
  · intro x hx hne
    rcases mem_accepted hx with hx | rfl | rfl
    · -- An accepting session was the last one, and `s` is that.
      exfalso
      have he := (hw.accepting x (hmem x hx) hne).2
      rw [hs, List.getLast?_concat, Option.some.injEq] at he
      have hd := hw.keys
      rw [hs, Keyed.Distinct, List.map_append, List.nodup_append] at hd
      exact hd.2.2 _ (List.mem_map_of_mem hx) s.key (by simp) (by rw [he])
    · rw [h] at hne
      exact absurd rfl hne
    · exact ⟨rfl, by simp⟩

/-- The reaper moves sessions to the history. -/
theorem reap_perm (L : Lobby) : List.Perm (L.reap.sessions ++ L.reap.erased) (L.sessions ++ L.erased) := by
  simpa [reap] using Keyed.perm_transfer (fun s : Session => decide (s.status = .reapable)) L.sessions L.erased

theorem mem_reap : s ∈ L.reap.sessions ↔ s ∈ L.sessions ∧ s.status ≠ .reapable := by
  simp [reap]

theorem Wf.reaped (hw : L.Wf) (timers : Nat) : ({ L.reap with timers := timers } : Lobby).Wf := by
  refine ⟨?_, ?_, ?_, ?_⟩
  · exact ((L.reap_perm.map Session.key).nodup_iff).2 hw.distinct
  · intro x hx
    exact hw.fresh x (L.reap_perm.mem_iff.1 hx)
  · intro x hx
    exact hw.handler x (mem_reap.1 hx).1
  · intro x hx hne
    obtain ⟨hx, hst⟩ := mem_reap.1 hx
    obtain ⟨hwait, hlast⟩ := hw.accepting x hx hne
    refine ⟨hwait, ?_⟩
    obtain ⟨init, hinit⟩ := List.getLast?_eq_some_iff.1 hlast
    simp [reap, hinit, List.filter_append, hst]

theorem Wf.change (hw : L.Wf) (h : Change L e L') : L'.Wf := by
  cases h with
  | moved hs hm => exact hw.moved hs hm
  | accepted hs hwait => exact hw.accepted hs hwait
  | reaped timers => exact hw.reaped timers
  | aborted timers => exact ⟨hw.distinct, hw.fresh, hw.handler, hw.accepting⟩

theorem Wf.step (hw : L.Wf) (h : L.step e = some L') : L'.Wf := hw.change (step_change hw h)

theorem run_eq (host : Endian) : run host =
    { host := host, sessions := [(Session.create host 0).accept], timers := 1, nextKey := 1 } := by
  simp [run, createSession, listen, updateBack, update, Keyed.update, runReaper]

theorem Wf.init (host : Endian) : (run host).Wf := by
  rw [run_eq]
  have hone : ∀ s ∈ [(Session.create host 0).accept], s = (Session.create host 0).accept :=
    fun s hs => List.mem_singleton.1 hs
  refine ⟨?_, ?_, ?_, ?_⟩
  · simp [Keyed.Distinct]
  · intro s hs
    rw [hone s (by simpa using hs)]
    exact Nat.zero_lt_one
  · intro s hs
    rw [hone s hs]
    simp [Session.create, Session.accept]
  · intro s hs _
    rw [hone s hs]
    exact ⟨rfl, rfl⟩

theorem Reachable.wf {host : Endian} (h : (system host).Reachable L) : L.Wf :=
  h.inv Wf (Wf.init host) fun _ _ _ hw hs => hw.step hs

theorem Change.host (h : Change L e L') : L'.host = L.host := by cases h <;> rfl

/-- What holds of the first lobby and is kept by every change of a well-formed one holds of
every reachable lobby. -/
theorem Reachable.change {host : Endian} (I : Lobby → Prop) (h : (system host).Reachable L) (h0 : I (run host))
    (hs : ∀ L e L', L.Wf → I L → Change L e L' → I L') : I L := by
  have hboth : L.Wf ∧ I L := by
    refine h.inv (fun L => L.Wf ∧ I L) ⟨Wf.init host, h0⟩ ?_
    rintro L e L' ⟨hw, hi⟩ hstep
    exact ⟨hw.step hstep, hs L e L' hw hi (step_change hw hstep)⟩
  exact hboth.2

theorem Reachable.host {host : Endian} (h : (system host).Reachable L) : L.host = host := by
  refine Reachable.change (fun L => L.host = host) h ?_ fun L e L' _ hi hc => hc.host.trans hi
  exact congrArg Lobby.host (run_eq host)

/-! ## Invariants of single sessions -/

/-- The sessions that are there, and those that were. -/
def everyone (L : Lobby) : List Session := L.sessions ++ L.erased

theorem mem_everyone (hs : s ∈ L.sessions) : s ∈ L.everyone := List.mem_append_left _ hs

/-- In the beginning there is one session, which waits for its connection. -/
theorem run_waiting {host : Endian} (hs : s ∈ (run host).everyone) : s.Waiting host := by
  rw [run_eq] at hs
  obtain rfl : s = (Session.create host 0).accept := by simpa [everyone] using hs
  rfl

theorem everyone_reaped (x : Session) : x ∈ L.reap.everyone ↔ x ∈ L.everyone := L.reap_perm.mem_iff

/-- Everyone after a step about one session. -/
theorem everyone_moved (hw : L.Wf) (hs : s ∈ L.sessions) (hk : s'.key = s.key) (gs : List Game) (x : Session) :
    x ∈ (L.answered s' gs).everyone ↔ x = s' ∨ x ∈ L.everyone ∧ x.key ≠ s.key := by
  have herased : ∀ x ∈ L.erased, x.key ≠ s.key := by
    intro x hx he
    have hd := hw.distinct
    rw [Keyed.Distinct, List.map_append, List.nodup_append] at hd
    exact hd.2.2 _ (List.mem_map_of_mem hs) _ (List.mem_map_of_mem hx) he.symm
  constructor
  · intro hx
    rcases List.mem_append.1 hx with hx | hx
    · rcases mem_moved hk hx with rfl | ⟨hx, hne⟩
      · exact .inl rfl
      · exact .inr ⟨mem_everyone hx, hne⟩
    · exact .inr ⟨List.mem_append_right _ hx, herased x hx⟩
  · rintro (rfl | ⟨hx, hne⟩)
    · exact mem_everyone (mem_answered hs hk)
    · rcases List.mem_append.1 hx with hx | hx
      · exact mem_everyone (Keyed.mem_update.2 (.inr ⟨hx, hk.symm ▸ hne⟩))
      · exact List.mem_append_right _ hx

/-- Everyone is still there, and changed as in `R`. -/
def Lasting (R : Session → Session → Prop) (L L' : Lobby) : Prop :=
  ∀ s ∈ L.everyone, ∃ s' ∈ L'.everyone, s'.key = s.key ∧ R s s'

instance (R : Session → Session → Prop) [Std.Refl R] : Std.Refl (Lasting R) where
  refl _ := fun s hs => ⟨s, hs, rfl, refl_of R s⟩

instance (R : Session → Session → Prop) [IsTrans Session R] : IsTrans Lobby (Lasting R) where
  trans L₁ L₂ L₃ h₁ h₂ := by
    intro s hs
    obtain ⟨x, hx, hk, hsx⟩ := h₁ s hs
    obtain ⟨y, hy, hk', hxy⟩ := h₂ x hx
    exact ⟨y, hy, hk'.trans hk, trans_of R hsx hxy⟩

theorem Lasting.rel {R : Session → Session → Prop} (h : Lasting R L L') (hw : L'.Wf) (hs : s ∈ L.everyone)
    (hs' : s' ∈ L'.everyone) (hk : s'.key = s.key) : R s s' := by
  obtain ⟨x, hx, hkx, hr⟩ := h s hs
  rwa [hw.distinct.eq hs' hx (hk.trans hkx.symm)]

theorem Change.lasting (R : Session → Session → Prop) [Std.Refl R] (hw : L.Wf) (h : Change L e L')
    (hwelcome : ∀ s : Session, s.Waiting L.host → R s s.welcome)
    (hmoved : ∀ s s' gs, s ∈ L.sessions → Moved L s e s' gs → R s s') : Lasting R L L' := by
  intro x hx
  cases h with
  | @moved s s' _ gs hs hm =>
    have hmem := everyone_moved hw hs hm.key gs
    by_cases he : x.key = s.key
    · obtain rfl := hw.distinct.eq hx (mem_everyone hs) he
      exact ⟨s', (hmem s').2 (.inl rfl), hm.key, hmoved x s' gs hs hm⟩
    · exact ⟨x, (hmem x).2 (.inr ⟨hx, he⟩), rfl, refl_of R x⟩
  | @accepted init s hs hwait =>
    rcases List.mem_append.1 hx with hx | hx
    · rw [hs] at hx
      rcases List.mem_append.1 hx with hx | hx
      · exact ⟨x, mem_everyone (List.mem_append_left _ hx), rfl, refl_of R x⟩
      · obtain rfl := List.mem_singleton.1 hx
        exact ⟨x.welcome, mem_everyone (by simp), rfl, hwelcome x hwait⟩
    · exact ⟨x, List.mem_append_right _ hx, rfl, refl_of R x⟩
  | reaped => exact ⟨x, (everyone_reaped x).2 hx, rfl, refl_of R x⟩
  | aborted => exact ⟨x, hx, rfl, refl_of R x⟩

/-- What holds of a session that waits, of one that was just accepted, and after
whatever happens to a session it holds of, holds of everyone. -/
theorem Reachable.sessions {host : Endian} (P : Session → Prop) (h : (system host).Reachable L)
    (hwait : ∀ s : Session, s.Waiting host → P s) (hwelcome : ∀ s : Session, s.Waiting host → P s.welcome)
    (hmoved : ∀ L s e s' gs, (system host).Reachable L → s ∈ L.sessions → P s → Moved L s e s' gs → P s') :
    ∀ s ∈ L.everyone, P s := by
  obtain ⟨es, hrun⟩ := h
  refine hrun.inv_hist (fun _ L => ∀ s ∈ L.everyone, P s) ?_ ?_
  · intro s hs
    exact hwait s (run_waiting hs)
  · intro es L e L' hrun hi _ hs
    have hr : (system host).Reachable L := ⟨es, hrun⟩
    have hw := Reachable.wf hr
    have hhost := Reachable.host hr
    cases step_change hw hs with
    | moved hs' hm =>
      intro x hx
      rcases List.mem_append.1 hx with hx | hx
      · rcases mem_moved hm.key hx with rfl | ⟨hx, -⟩
        · exact hmoved _ _ _ _ _ hr hs' (hi _ (mem_everyone hs')) hm
        · exact hi x (mem_everyone hx)
      · exact hi x (List.mem_append_right _ hx)
    | @accepted init s hs' hwt =>
      intro x hx
      rcases List.mem_append.1 hx with hx | hx
      · rcases mem_accepted hx with hx | rfl | rfl
        · exact hi x (mem_everyone (hs' ▸ List.mem_append_left _ hx))
        · exact hwelcome s (hhost ▸ hwt)
        · exact hwait _ (by rw [hhost]; rfl)
      · exact hi x (List.mem_append_right _ hx)
    | reaped => exact fun x hx => hi x ((everyone_reaped x).1 hx)
    | aborted => exact hi

/-- What holds of a session that was just accepted, and after whatever happens to a
session it holds of, holds of everyone whose accept succeeded. -/
theorem Reachable.accepted {host : Endian} (P : Session → Prop) (h : (system host).Reachable L)
    (hwelcome : ∀ s : Session, s.Waiting host → P s.welcome)
    (hmoved : ∀ L s e s' gs, (system host).Reachable L → s ∈ L.sessions → ¬ s.Waiting L.host → P s →
      Moved L s e s' gs → P s') :
    ∀ s ∈ L.everyone, s.Waiting host ∨ s.Failed host ∨ P s := by
  refine Reachable.sessions _ h (fun s hs => .inl hs) (fun s hs => .inr (.inr (hwelcome s hs))) ?_
  intro L s e s' gs hr hs hp hm
  have hhost := Reachable.host hr
  by_cases hwait : s.Waiting L.host
  · exact .inr (.inl (hhost ▸ (hm.waiting hwait).2))
  · rcases hp with hp | hp | hp
    · exact absurd (hhost.symm ▸ hp) hwait
    · exact absurd hm (not_moved_failed (hhost.symm ▸ hp))
    · exact .inr (.inr (hmoved L s e s' gs hr hs hwait hp hm))

end Lobby
end Zar
