import Zar.Lobby.Lobby
/-!
# What a command does

`Answer` sums up the three command interpreters: an empty command does nothing,
a login and a new game change their own part, and everything else is a reply
that changes nothing. Which of them it is depends on the mode.
-/

namespace Zar
namespace Lobby

variable {L : Lobby} {s s' : Session} {command : Bytes} {gs : List Game}

/-- A name that a command asks for. -/
inductive Claim where
  | user (id : Bytes)
  | gameCreate (id : Bytes)
  deriving DecidableEq, Repr

/-- The name that a command asks for in a mode. -/
def claimOf (mode : Mode) (command : Bytes) : Option Claim :=
  match mode with
  | .connected =>
    if substr command 0 cmdUser.length = cmdUser then some (.user (command.drop cmdUser.length)) else none
  | .lobby =>
    if substr command 0 cmdGameCreate.length = cmdGameCreate then some (.gameCreate (command.drop cmdGameCreate.length))
    else none
  | .creating_game => none

/-- What becomes of a session and of the games when the session's command was handled. -/
inductive Answer (L : Lobby) (s : Session) (command : Bytes) : Session → List Game → Prop
  | nothing (h : command = []) : Answer L s command s L.games
  | reply (h : command ≠ []) (data : Bytes) : Answer L s command (s.send data) L.games
  | login (h : command ≠ []) (hm : s.mode = .connected) (id : Bytes) (hc : claimOf s.mode command = some (.user id))
      (hid : ∀ x ∈ L.sessions, x.id ≠ id) :
      Answer L s command (((s.setId id).setMode .lobby).send (text "OK\n")) L.games
  | create (h : command ≠ []) (hm : s.mode = .lobby) (id : Bytes) (hc : claimOf s.mode command = some (.gameCreate id))
      (hid : ∀ g ∈ L.games, g.id ≠ id) :
      Answer L s command (Game.create s id).2 (L.games ++ [(Game.create s id).1])

/-- The lobby after a command, with what becomes of the session. -/
def answered (L : Lobby) (s' : Session) (gs : List Game) : Lobby :=
  { L.update s'.key fun _ => s' with games := gs }

/-- The keys of the sessions are distinct, and the receive handler is the one of the mode. -/
structure Dispatch (L : Lobby) : Prop where
  keys : Keyed.Distinct Session.key L.sessions
  handler : ∀ s ∈ L.sessions, s.receiveHandler = .game ↔ s.mode = .creating_game

theorem update_eq (hd : Keyed.Distinct Session.key L.sessions) (hs : s ∈ L.sessions) (f : Session → Session) :
    L.update s.key f = L.update s.key fun _ => f s := by
  unfold update
  rw [hd.update_congr hs (f := f) (g := fun _ => f s) rfl]

theorem answered_self (hd : Keyed.Distinct Session.key L.sessions) (hs : s ∈ L.sessions) : L.answered s L.games = L := by
  unfold answered update
  rw [hd.update_self hs]

theorem send_eq (hd : Keyed.Distinct Session.key L.sessions) (hs : s ∈ L.sessions) (data : Bytes) :
    L.send s.key data = L.answered (s.send data) L.games := update_eq hd hs _

theorem Answer.key (h : Answer L s command s' gs) : s'.key = s.key := by cases h <;> rfl

/-- A command has one reply, and an empty command has none. -/
theorem Answer.trace (h : Answer L s command s' gs) :
    ∃ replies : List Bytes, s'.trace = s.trace ++ replies.map .sent ∧ replies.length = if command = [] then 0 else 1 := by
  cases h with
  | nothing h => exact ⟨[], by simp, by simp [h]⟩
  | reply h data => exact ⟨[data], rfl, by simp [h]⟩
  | login h _ id => exact ⟨[_], rfl, by simp [h]⟩
  | create h _ id => exact ⟨[_], rfl, by simp [h]⟩

theorem get?_eq (hd : Keyed.Distinct Session.key L.sessions) (hs : s ∈ L.sessions) : L.get? s.key = some s := hd.get? hs

/-! ## The two commands that change something -/

theorem userScan_eq_none {id : Bytes} : L.userScan id = none ↔ ∀ x ∈ L.sessions, x.id ≠ id := by
  simp [userScan]

theorem gameCreateScan_eq_none {id : Bytes} : L.gameCreateScan id = none ↔ ∀ g ∈ L.games, g.id ≠ id := by
  simp [gameCreateScan]

theorem user_answer (hd : Keyed.Distinct Session.key L.sessions) (hs : s ∈ L.sessions) (hm : s.mode = .connected)
    (hc : command ≠ []) (id : Bytes) (hclaim : claimOf s.mode command = some (.user id)) :
    ∃ s' gs, Answer L s command s' gs ∧ orError s.key (L.user s.key id) = L.answered s' gs := by
  unfold user
  cases h : L.userScan id with
  | some t => exact ⟨_, _, .reply hc _, send_eq hd hs _⟩
  | none => exact ⟨_, _, .login hc hm id hclaim (userScan_eq_none.1 h), update_eq hd hs _⟩

theorem gameCreate_answer (hd : Keyed.Distinct Session.key L.sessions) (hs : s ∈ L.sessions) (hm : s.mode = .lobby)
    (hc : command ≠ []) (id : Bytes) (hclaim : claimOf s.mode command = some (.gameCreate id)) :
    ∃ s' gs, Answer L s command s' gs ∧ orError s.key (L.gameCreate s.key id) = L.answered s' gs := by
  unfold gameCreate
  cases h : L.gameCreateScan id with
  | some t => exact ⟨_, _, .reply hc _, send_eq hd hs _⟩
  | none =>
    simp only [orError, gameCreateCommit, get?_eq hd hs]
    rw [update_eq hd hs]
    exact ⟨_, _, .create hc hm id hclaim (gameCreateScan_eq_none.1 h), rfl⟩

/-! ## The interpreters -/

theorem executeConnected_answer (hd : Keyed.Distinct Session.key L.sessions) (hs : s ∈ L.sessions)
    (hm : s.mode = .connected) (command : Bytes) :
    ∃ s' gs, Answer L s command s' gs ∧ L.executeConnected s.key command = L.answered s' gs := by
  unfold executeConnected
  split
  · exact ⟨s, _, .nothing (by assumption), (answered_self hd hs).symm⟩
  · rename_i hc
    split
    · exact ⟨_, _, .reply hc _, send_eq hd hs _⟩
    split
    · exact user_answer hd hs hm hc _ (by rw [hm]; exact if_pos (by assumption))
    · exact ⟨_, _, .reply hc _, send_eq hd hs _⟩

theorem executeLobby_answer (hd : Keyed.Distinct Session.key L.sessions) (hs : s ∈ L.sessions)
    (hm : s.mode = .lobby) (command : Bytes) :
    ∃ s' gs, Answer L s command s' gs ∧ L.executeLobby s.key command = L.answered s' gs := by
  unfold executeLobby
  split
  · exact ⟨s, _, .nothing (by assumption), (answered_self hd hs).symm⟩
  · rename_i hc
    split
    · exact ⟨_, _, .reply hc _, send_eq hd hs _⟩
    split
    · exact gameCreate_answer hd hs hm hc _ (by rw [hm]; exact if_pos (by assumption))
    split
    · exact ⟨_, _, .reply hc _, send_eq hd hs _⟩
    · exact ⟨_, _, .reply hc _, send_eq hd hs _⟩

theorem executeCreatingGame_answer (L : Lobby) (s : Session) (command : Bytes) :
    ∃ s' gs, Answer L s command s' gs ∧
      (L.update s.key fun _ => Game.executeCreatingGame s command) = L.answered s' gs := by
  unfold Game.executeCreatingGame
  split
  · exact ⟨s, _, .nothing (by assumption), rfl⟩
  · rename_i hc
    split
    · exact ⟨_, _, .reply hc _, rfl⟩
    · exact ⟨_, _, .reply hc _, rfl⟩

/-- A message without an error is one command for the interpreter of the mode: the
receive handler that is installed is the one of the mode, and nothing is thrown. -/
theorem command_answer (hd : L.Dispatch) (hs : s ∈ L.sessions) (m : Message) :
    ∃ s' gs, Answer L s m.contents s' gs ∧ L.sessionReceiveHandler s false (some m) = (L.answered s' gs, none) := by
  have hh := hd.handler s hs
  unfold sessionReceiveHandler callHandler
  cases hr : s.receiveHandler with
  | lobby =>
    simp only [receiveHandler, Bool.false_eq_true, if_false]
    cases hm : s.mode with
    | connected =>
      obtain ⟨s', gs, ha, he⟩ := executeConnected_answer hd.keys hs hm m.contents
      exact ⟨s', gs, ha, by simp only [he]⟩
    | lobby =>
      obtain ⟨s', gs, ha, he⟩ := executeLobby_answer hd.keys hs hm m.contents
      exact ⟨s', gs, ha, by simp only [he]⟩
    | creating_game => rw [hr, hm] at hh; simp at hh
  | game =>
    have hm : s.mode = .creating_game := hh.1 hr
    obtain ⟨s', gs, ha, he⟩ := executeCreatingGame_answer L s m.contents
    refine ⟨s', gs, ha, ?_⟩
    rw [← he, update_eq hd.keys hs]
    simp only [Game.receiveHandler, Bool.false_eq_true, if_false, hm]

end Lobby
end Zar
