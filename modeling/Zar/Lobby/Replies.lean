import Zar.Communication.SendOrder
import Zar.Lobby.Names
/-!
# Replies

Every command but the empty one has one reply, and what a command changes can be
told from its reply: nothing, unless it starts with `OK`, and then at most the
part of the session that sent it.
-/

namespace Zar

/-- A greeting, and then one reply behind every command but the empty one. Reads and
writes may fail in between. -/
inductive Conversation : List Io → Prop
  | greeting : Conversation [.accepted false, .sent (text "Zard\n1")]
  | empty {t : List Io} (h : Conversation t) : Conversation (t ++ [.received []])
  | command {t : List Io} (h : Conversation t) {c : Bytes} (hc : c ≠ []) (reply : Bytes) :
      Conversation (t ++ [.received c, .sent reply])
  | readFailed {t : List Io} (h : Conversation t) : Conversation (t ++ [.readFailed])
  | writeFailed {t : List Io} (h : Conversation t) (closed : Bool) : Conversation (t ++ [.writeFailed closed])

/-- The data of a call of `tsession::send`. -/
def Io.data : Io → Option Bytes
  | .sent data => some data
  | _ => none

/-- How far a client went. -/
def Mode.rank : Mode → Nat
  | .connected => 0
  | .lobby => 1
  | .creating_game => 2

namespace Lobby

variable {L L' : Lobby} {s s' : Session} {e : Event} {gs : List Game} {host : Endian} {c : Bytes}

/-! ## The trace of a session -/

theorem Moved.conversation (h : Moved L s e s' gs) (hacc : ¬ s.Waiting L.host) (hc : Conversation s.trace) :
    Conversation s'.trace := by
  cases h with
  | acceptFailed hw => exact absurd hw hacc
  | receiveMessage | sendMessage | transfer | wrote => exact hc
  | readFailed => exact hc.readFailed
  | closed => exact hc.writeFailed true
  | threw => exact hc.writeFailed false
  | @command c s'' _ _ ha =>
    obtain ⟨replies, ht, hlen⟩ := ha.trace
    change Conversation s''.trace
    rw [ht]
    by_cases hcmd : c = []
    · rw [if_pos hcmd, List.length_eq_zero_iff] at hlen
      simpa [hlen, hcmd] using hc.empty
    · rw [if_neg hcmd, List.length_eq_one_iff] at hlen
      obtain ⟨reply, rfl⟩ := hlen
      simpa using hc.command hcmd reply

theorem Reachable.conversation (h : (system host).Reachable L) :
    ∀ s ∈ L.everyone, s.Waiting host ∨ s.Failed host ∨ Conversation s.trace := by
  refine Reachable.accepted _ h ?_ fun L s e s' gs _ _ hacc hp hm => hm.conversation hacc hp
  intro s hs
  rw [Session.Waiting] at hs
  rw [hs]
  exact .greeting

/-! ## What is sent is what the trace says -/

theorem send_called (s : Session) (data : Bytes) :
    (s.send data).sender.called.map (·.contents) = s.sender.called.map (·.contents) ++ [data] := by
  obtain ⟨b, w, st, e⟩ := Sender.request_change s.sender (.action data)
  simp [Session.send, e, Request.message]

/-- The messages passed to `tsession::send`. -/
def Sends (s : Session) : Prop := s.sender.called.map (·.contents) = s.trace.filterMap Io.data

theorem Sends.send (h : Sends s) (data : Bytes) : Sends (s.send data) := by
  unfold Sends at *
  rw [send_called, h]
  simp [Session.send, Io.data]

/-- What is not a call of `send` does not count. -/
theorem Sends.other (h : Sends s) (hc : s'.sender.called = s.sender.called) {x : Io} (hx : x.data = none)
    (ht : s'.trace = s.trace ++ [x]) : Sends s' := by
  unfold Sends at *
  rw [hc, ht, List.filterMap_append, h]
  simp [hx]

theorem Answer.sends (h : Answer L s c s' gs) (hs : Sends s) : Sends s' := by
  cases h with
  | nothing => exact hs
  | reply _ data => exact hs.send data
  | login _ _ id => exact Sends.send (s := (s.setId id).setMode .lobby) hs _
  | create _ _ id => exact Sends.send (s := s.setMode .creating_game) hs _

theorem report_called (x : Sender) (error : Bool) (n : Nat) : (x.report error n).called = x.called := by
  obtain ⟨t, rs, e⟩ := Sender.report_change x error n
  rw [e]

theorem advance_called (x : Sender) : x.advance.1.called = x.called := by
  obtain ⟨b, w, st, e⟩ := Sender.advance_change x
  rw [e]

theorem Moved.sends (h : Moved L s e s' gs) (hs : Sends s) : Sends s' := by
  cases h with
  | receiveMessage => exact hs
  | acceptFailed | readFailed => exact hs.other rfl rfl rfl
  | sendMessage h =>
    cases Sender.step_cases h with
    | @sendMessage m ms =>
      obtain ⟨b, w, st, e⟩ := Sender.sendMessage_change { s.sender with posted := ms } m
      simpa [Sends, e] using hs
  | transfer h =>
    cases Sender.step_cases h with
    | transfer => exact hs
  | command _ ha => exact ha.sends (hs.other rfl rfl rfl)
  | wrote => simpa [Sends, advance_called, report_called] using hs
  | closed => exact hs.other ((advance_called _).trans (report_called _ _ _)) rfl rfl
  | threw => exact hs.other (report_called _ _ _) rfl rfl

theorem Reachable.sends (h : (system host).Reachable L) : ∀ s ∈ L.everyone, Sends s := by
  refine Reachable.sessions Sends h ?_ ?_ fun L s e s' gs _ _ hp hm => hm.sends hp
  · intro s hs
    rw [hs]
    rfl
  · intro s hs
    rw [hs]
    rfl

/-! ## One reply for each command -/

/-- Handlers of the lobby never throw the `0` of `tgame::receive_handler`. -/
theorem Reachable.caught (h : (system host).Reachable L) : .int 0 ∉ L.caught := by
  refine Reachable.change (fun L => .int 0 ∉ L.caught) h ?_ ?_
  · rw [run_eq]
    simp
  · intro L e L' _ hi hc
    cases hc with
    | moved _ _ hc =>
      intro ht
      rcases hc _ ht with ht | ht
      · exact hi ht
      · exact ht rfl
    | accepted | reaped | aborted => exact hi

/-- In every reachable state: what a session whose accept succeeded did is a
conversation, of which the messages passed to `tsession::send` are one side; the
receive handler of a session is the one of its mode, and the `throw 0` was never
reached. A command changes nothing in another session. -/
theorem one_reply (h : (system host).Reachable L) :
    (∀ s ∈ L.everyone, .accepted false ∈ s.trace → Conversation s.trace) ∧
    (∀ s ∈ L.everyone, s.sender.called.map (·.contents) = s.trace.filterMap Io.data) ∧
    (∀ s ∈ L.sessions, s.receiveHandler = .game ↔ s.mode = .creating_game) ∧
    .int 0 ∉ L.caught ∧
    ∀ k c L', L.step (.read k (some c)) = some L' → ∀ x ∈ L.sessions, x.key ≠ k → x ∈ L'.sessions := by
  have hw := Reachable.wf h
  refine ⟨?_, Reachable.sends h, hw.handler, Reachable.caught h, ?_⟩
  · intro s hs ha
    rcases Reachable.conversation h s hs with hwait | hfail | hc
    · rw [hwait] at ha
      cases ha
    · rw [hfail] at ha
      simp [Session.setStatus] at ha
    · exact hc
  · intro k c L' hs x hx hne
    cases step_change hw hs with
    | moved hs' hm =>
      cases hm with
      | command _ ha => exact Keyed.mem_update.2 (.inr ⟨hx, fun he => hne (he.trans ha.key)⟩)

/-- The session logs in, creates a game, and asks for help on the way. -/
theorem one_reply_game : ∃ L, (system .little).Reachable L ∧ .int 0 ∉ L.caught ∧
    (∀ s ∈ L.everyone, .accepted false ∈ s.trace → Conversation s.trace) ∧
    L.everyone.map (fun s => s.trace.filterMap Io.data) =
      [[text "Zard\n1", text "OK\n", text "OK\nCreated game 'g'.\n", text "OK\nStill no help available.\n"], []] := by
  have hexec : (system .little).exec (fun _ _ => True) (run .little)
      [.accept 0 false, .receiveMessage 0, .read 0 (some (text "user a")), .receiveMessage 0, .read 0 (some []),
        .receiveMessage 0, .read 0 (some (text "game create g")), .receiveMessage 0, .read 0 (some (text "help"))] =
      some _ := rfl
  have hr : (system .little).Reachable _ := ⟨_, System.Steps.of_exec hexec⟩
  have h := one_reply hr
  exact ⟨_, hr, h.2.2.2.1, h.1, by decide⟩

/-! ## What a command changes -/

/-- The key, the id, the mode and the receive handler of a session. -/
def face (s : Session) : Nat × Bytes × Mode × Handler := (s.key, s.id, s.mode, s.receiveHandler)

def startsOk (reply : Bytes) : Prop := text "OK" <+: reply

/-- The id of a session that logged in stays, and the client only goes forward. -/
def Onward (s s' : Session) : Prop := (s.id ≠ [] → s'.id = s.id) ∧ s.mode.rank ≤ s'.mode.rank

instance : Std.Refl Onward where
  refl _ := ⟨fun _ => rfl, Nat.le_refl _⟩

instance : IsTrans Session Onward where
  trans s₁ s₂ s₃ h₁ h₂ := by
    refine ⟨fun hne => ?_, Nat.le_trans h₁.2 h₂.2⟩
    rw [h₂.1 (by rw [h₁.1 hne]; exact hne), h₁.1 hne]

/-- Sessions go onward, and games are only added. -/
def Grown (L L' : Lobby) : Prop := L.games <+: L'.games ∧ Lasting Onward L L'

instance : Std.Refl Grown where
  refl L := ⟨List.prefix_refl _, refl_of (Lasting Onward) L⟩

instance : IsTrans Lobby Grown where
  trans _ _ _ h₁ h₂ := ⟨h₁.1.trans h₂.1, trans_of (Lasting Onward) h₁.2 h₂.2⟩

theorem Joined.rank (h : Joined L s s' gs) : s.mode.rank ≤ s'.mode.rank := by
  cases h with
  | same _ hm => rw [hm]
  | login hm hm' => rw [hm, hm']; decide
  | create hm hm' => rw [hm, hm']; decide

theorem Joined.games (h : Joined L s s' gs) : ∃ new : List Game, gs = L.games ++ new ∧ new.length ≤ 1 := by
  cases h with
  | same | login => exact ⟨[], by simp, by simp⟩
  | create => exact ⟨_, rfl, by simp⟩

/-- A session logs in once. -/
theorem Joined.id (hr : L.Rooms) (hs : s ∈ L.sessions) (h : Joined L s s' gs) :
    s'.id = s.id ∨ s.id = [] ∧ s'.id ≠ [] := by
  cases h with
  | same hid => exact .inl hid
  | login hm _ hid => exact .inr ⟨(hr.modes s (mem_everyone hs)).1 hm, hr.login_id hs hm hid⟩
  | create _ _ hid => exact .inl hid

theorem Change.grown (hw : L.Wf) (hr : L.Rooms) (h : Change L e L') : Grown L L' := by
  constructor
  · cases h with
    | moved _ hm =>
      obtain ⟨new, rfl, -⟩ := hm.joined.games
      exact ⟨new, rfl⟩
    | accepted | reaped | aborted => exact List.prefix_refl _
  · refine h.lasting Onward hw (fun s _ => ⟨fun _ => rfl, Nat.le_refl _⟩) ?_
    intro s s' gs hs hm
    refine ⟨fun hne => ?_, hm.joined.rank⟩
    rcases hm.joined.id hr hs with hid | ⟨hid, -⟩
    · exact hid
    · exact absurd hid hne

theorem Reachable.grown (h : (system host).Reachable L) {es : List Event} (hs : (system host).Steps (fun _ _ => True) L es L') :
    Grown L L' :=
  hs.rel Grown h fun _ _ _ hr _ hstep => (step_change (Reachable.wf hr) hstep).grown (Reachable.wf hr) (Reachable.rooms hr)

/-- The replies to a command, and what of the session they tell. -/
theorem Answer.replies (h : Answer L s c s' gs) : ∃ replies : List Bytes,
    s'.trace = s.trace ++ replies.map .sent ∧ replies.length ≤ 1 ∧
      ((∀ reply ∈ replies, ¬ startsOk reply) → face s' = face s ∧ gs = L.games) := by
  cases h with
  | nothing => exact ⟨[], by simp, by simp, fun _ => ⟨rfl, rfl⟩⟩
  | reply _ data => exact ⟨[data], rfl, by simp, fun _ => ⟨rfl, rfl⟩⟩
  | login =>
    refine ⟨[text "OK\n"], rfl, by simp, fun hn => ?_⟩
    exact absurd (show startsOk (text "OK\n") by unfold startsOk; decide) (hn _ (by simp))
  | create _ _ id =>
    refine ⟨[text "OK\nCreated game '" ++ id ++ text "'.\n"], rfl, by simp, fun hn => ?_⟩
    have hok : startsOk (text "OK\nCreated game '" ++ id ++ text "'.\n") := by
      unfold startsOk
      rw [List.append_assoc]
      exact List.IsPrefix.trans (by decide) (List.prefix_append _ _)
    exact absurd hok (hn _ (by simp))

/-- In every reachable state, for every command of every session: without a reply that
starts with `OK` all ids, modes and receive handlers and the games are as before.
With it the other sessions are, the session keeps its id or gets its first one, its
mode goes forward, and at most one game is added at the end. So over every run
games are only appended, and an id stays after the login. -/
theorem command_effect (h : (system host).Reachable L) (hs : s ∈ L.sessions) (m : Message) :
    (∃ (L' : Lobby) (s' : Session) (replies : List Bytes),
      L.sessionReceiveHandler s false (some m) = (L', none) ∧ s' ∈ L'.sessions ∧ s'.key = s.key ∧
      s'.trace = s.trace ++ replies.map .sent ∧ replies.length ≤ 1 ∧
      ((∀ reply ∈ replies, ¬ startsOk reply) → L'.sessions.map face = L.sessions.map face ∧ L'.games = L.games) ∧
      ((∃ reply ∈ replies, startsOk reply) →
        L'.sessions.map Session.key = L.sessions.map Session.key ∧
        (∀ x ∈ L.sessions, x.key ≠ s.key → x ∈ L'.sessions) ∧
        (s'.id = s.id ∨ s.id = [] ∧ s'.id ≠ []) ∧ s.mode.rank ≤ s'.mode.rank ∧
        ∃ new : List Game, L'.games = L.games ++ new ∧ new.length ≤ 1)) ∧
    ∀ es L', (system host).Steps (fun _ _ => True) L es L' → L.gameList <+: L'.gameList ∧
      ∀ x ∈ L.everyone, x.id ≠ [] → ∀ x' ∈ L'.everyone, x'.key = x.key → x'.id = x.id := by
  have hw := Reachable.wf h
  have hr := Reachable.rooms h
  refine ⟨?_, ?_⟩
  · obtain ⟨s', gs, ha, he⟩ := command_answer hw.dispatch hs m
    obtain ⟨replies, ht, hlen, hno⟩ := ha.replies
    have hj := ha.joined
    refine ⟨_, s', replies, he, mem_answered hs ha.key, ha.key, ht, hlen, ?_, ?_⟩
    · intro hn
      obtain ⟨hf, hg⟩ := hno hn
      exact ⟨Keyed.map_update face fun x hx hk => by rw [hw.keys.eq hx hs (hk.trans ha.key), hf], hg⟩
    · intro _
      refine ⟨Keyed.map_update Session.key fun x _ hk => hk.symm, fun x hx hne => ?_, hj.id hr hs, hj.rank, hj.games⟩
      exact Keyed.mem_update.2 (.inr ⟨hx, fun hk => hne (hk.trans ha.key)⟩)
  · intro es L' hsteps
    have hgrown := Reachable.grown h hsteps
    exact ⟨hgrown.1.map _, fun x hx hne x' hx' hk => (hgrown.2.rel (Reachable.wf (h.steps hsteps)) hx hx' hk).1 hne⟩

/-- A session that logs in. -/
theorem command_effect_login : ∃ L s L' s', (system .little).Reachable L ∧ s ∈ L.sessions ∧
    L.sessionReceiveHandler s false (some ⟨.reply, 0, text "user a"⟩) = (L', none) ∧ s' ∈ L'.sessions ∧
      s'.trace = s.trace ++ [.sent (text "OK\n")] ∧ s.id = [] ∧ s'.id = text "a" := by
  have hexec : (system .little).exec (fun _ _ => True) (run .little) [.accept 0 false, .receiveMessage 0] = some _ := rfl
  have hr : (system .little).Reachable _ := ⟨_, System.Steps.of_exec hexec⟩
  obtain ⟨⟨L', s', replies, he, hs', hk, -⟩, -⟩ := command_effect hr (List.mem_cons_self ..) ⟨.reply, 0, text "user a"⟩
  refine ⟨_, _, L', s', hr, List.mem_cons_self .., he, hs', ?_⟩
  have hlogin : ∀ x ∈ L'.sessions, x.key = 0 → x.trace = [.accepted false, .sent (text "Zard\n1"), .sent (text "OK\n")] ∧
      x.id = text "a" := by
    have hL : L' = _ := (congrArg Prod.fst he).symm
    rw [hL]
    decide
  exact ⟨(hlogin s' hs' hk).1, rfl, (hlogin s' hs' hk).2⟩

end Lobby
end Zar
