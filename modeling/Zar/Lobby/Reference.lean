import Zar.Lobby.GameList
/-!
# The lobby as its clients see it

`Reference` says what the server is for: members enter and leave, and each command is
answered from the names and rooms alone. Nothing of handlers, strands or sockets is left.
Every run of the lobby is one of the reference with the same commands, in the same order,
and the same replies.
-/

namespace Zar

/-- What a client asks for. -/
inductive Command where
  | help
  | user (id : Bytes)
  | gameCreate (id : Bytes)
  | gameList
  | unknown
  deriving DecidableEq, Repr

/-- How a command reads in a mode. -/
def parseCommand (mode : Mode) (command : Bytes) : Command :=
  if command = text "help" then .help
  else
    match mode with
    | .connected => if text "user " <+: command then .user (command.drop 5) else .unknown
    | .lobby =>
      if text "game create " <+: command then .gameCreate (command.drop 12)
      else if command = text "game list" then .gameList
      else .unknown
    | .creating_game => .unknown

namespace Roster

/-- How far a member went: without a name, with one, or with a room. -/
def mode (R : Roster Nat Bytes) (k : Nat) : Mode :=
  if k ∈ R.rooms.map Prod.snd then .creating_game
  else if (k, none) ∈ R.members then .connected
  else .lobby

/-- The event takes place, or the answer is an error. -/
def attempt (R : Roster Nat Bytes) (e : RosterEvent Nat Bytes) (reply : Bytes) : Roster Nat Bytes × Bytes :=
  match R.step e with
  | some R' => (R', reply)
  | none => (R, text "ERROR\n")

/-- What a command of the member does, and its reply. -/
def perform (R : Roster Nat Bytes) (k : Nat) : Command → Roster Nat Bytes × Bytes
  | .help => (R, if R.mode k = .creating_game then text "OK\nStill no help available.\n" else text "OK\nNo help available.\n")
  | .user id => if id = [] then (R, text "ERROR\n") else R.attempt (.claim k id) (text "OK\n")
  | .gameCreate id => R.attempt (.found k id) (text "OK\nCreated game '" ++ id ++ text "'.\n")
  | .gameList => (R, text "OK\n" ++ ended 10 (R.rooms.map Prod.fst))
  | .unknown => (R, text "EINVAL\nUnknown command.\n")

/-- An empty command has no reply. -/
def respond (R : Roster Nat Bytes) (k : Nat) (command : Bytes) : Roster Nat Bytes × Option Bytes :=
  if command = [] then (R, none)
  else
    let (R', reply) := R.perform k (parseCommand (R.mode k) command)
    (R', some reply)

theorem attempt_some {R R' : Roster Nat Bytes} {e : RosterEvent Nat Bytes}
    (h : (system Nat Bytes).step R e = some R') (reply : Bytes) : R.attempt e reply = (R', reply) := by
  unfold attempt
  rw [show R.step e = some R' from h]

theorem attempt_none {R : Roster Nat Bytes} {e : RosterEvent Nat Bytes} (h : R.step e = none) (reply : Bytes) :
    R.attempt e reply = (R, text "ERROR\n") := by
  unfold attempt
  rw [h]

theorem attempt_steps (R : Roster Nat Bytes) (e : RosterEvent Nat Bytes) (reply : Bytes) :
    ∃ es, (system Nat Bytes).Steps (fun _ _ => True) R es (R.attempt e reply).1 := by
  unfold attempt
  cases h : R.step e with
  | some R' => exact ⟨[e], .one trivial h⟩
  | none => exact ⟨[], .nil⟩

/-- A command is at most one event. -/
theorem respond_steps (R : Roster Nat Bytes) (k : Nat) (command : Bytes) :
    ∃ es, (system Nat Bytes).Steps (fun _ _ => True) R es (R.respond k command).1 := by
  unfold respond
  split
  · exact ⟨[], .nil⟩
  · change ∃ es, (system Nat Bytes).Steps _ R es (R.perform k _).1
    cases parseCommand (R.mode k) command with
    | help | gameList | unknown => exact ⟨[], .nil⟩
    | gameCreate id => exact R.attempt_steps _ _
    | user id =>
      by_cases hid : id = []
      · exact ⟨[], by simp only [perform, hid, if_true]; exact .nil⟩
      · simp only [perform, hid, if_false]
        exact R.attempt_steps _ _

theorem respond_eq {R R' : Roster Nat Bytes} {k : Nat} {mode : Mode} {command reply : Bytes} {c : Command}
    (hc : command ≠ []) (hm : R.mode k = mode) (hp : parseCommand mode command = c) (hr : R.perform k c = (R', reply)) :
    R.respond k command = (R', some reply) := by
  unfold respond
  rw [if_neg hc, hm, hp, hr]

end Roster

/-- The server, of which the lobby is a refinement. -/
structure Reference where
  roster : Roster Nat Bytes := {}
  /-- Who sent which command, and the reply to it. -/
  log : List (Nat × Bytes × Option Bytes) := []

inductive ReferenceEvent where
  | enter (k : Nat)
  | command (k : Nat) (command : Bytes)
  | leave (p : Nat → Bool)

namespace Reference

def step (R : Reference) : ReferenceEvent → Option Reference
  | .enter k => (R.roster.step (.enter k)).map fun roster => { R with roster := roster }
  | .leave p => (R.roster.step (.leave p)).map fun roster => { R with roster := roster }
  | .command k command =>
    if k ∈ R.roster.members.map Prod.fst then
      some {
        roster := (R.roster.respond k command).1
        log := R.log ++ [(k, command, (R.roster.respond k command).2)] }
    else none

def system : System Reference ReferenceEvent := ⟨{}, step⟩

/-- The roster of a reference takes the steps of a roster. -/
theorem step_roster {R R' : Reference} {e : ReferenceEvent} (h : R.step e = some R') :
    ∃ es, (Roster.system Nat Bytes).Steps (fun _ _ => True) R.roster es R'.roster := by
  cases e with
  | enter k =>
    obtain ⟨roster, hr, rfl⟩ := Option.map_eq_some_iff.1 h
    exact ⟨[.enter k], .one trivial hr⟩
  | leave p =>
    cases h
    exact ⟨[.leave p], .one trivial rfl⟩
  | command k c =>
    simp only [step] at h
    split at h
    · cases h
      exact Roster.respond_steps R.roster k c
    · cases h

/-- The names of a reference are apart. -/
theorem Run.ok {R : Reference} {ds : List ReferenceEvent} (h : system.Run ds R) : R.roster.Ok := by
  refine h.inv (fun R => R.roster.Ok) ?_ ?_
  · exact ⟨List.nodup_nil, List.nodup_nil, List.nodup_nil, List.nodup_nil⟩
  · intro R e R' hi _ hs
    obtain ⟨es, hes⟩ := step_roster hs
    exact Roster.Steps.ok hes hi

theorem step_enter {R : Reference} {roster : Roster Nat Bytes} {k : Nat}
    (h : (Roster.system Nat Bytes).step R.roster (.enter k) = some roster) :
    system.step R (.enter k) = some { R with roster := roster } := Option.map_eq_some_iff.2 ⟨roster, h, rfl⟩

theorem step_leave {R : Reference} {roster : Roster Nat Bytes} {p : Nat → Bool}
    (h : (Roster.system Nat Bytes).step R.roster (.leave p) = some roster) :
    system.step R (.leave p) = some { R with roster := roster } := by
  cases h
  rfl

end Reference

/-- What a client hears of its session. -/
def Io.talk : Io → Bool
  | .received _ | .sent _ => true
  | _ => false

/-- What is said before the first command. -/
def greeting (trace : List Io) : List Io := if .accepted false ∈ trace then [.sent (text "Zard\n1")] else []

/-- The commands of a member with the replies. -/
def dialogue (log : List (Nat × Bytes × Option Bytes)) (k : Nat) : List Io :=
  (log.filter (·.1 = k)).flatMap fun x => .received x.2.1 :: x.2.2.toList.map .sent

theorem dialogue_concat (log : List (Nat × Bytes × Option Bytes)) (k j : Nat) (c : Bytes) (reply : Option Bytes) :
    dialogue (log ++ [(k, c, reply)]) j =
      dialogue log j ++ if k = j then .received c :: reply.toList.map .sent else [] := by
  unfold dialogue
  rw [List.filter_append, List.flatMap_append]
  by_cases hk : k = j <;> simp [hk]

namespace Lobby

variable {L L' : Lobby} {s s' : Session} {e : Event} {gs : List Game} {host : Endian} {c id : Bytes} {es : List Event}
  {cs : List (Nat × Bytes)} {asked : Nat → List Io}

/-! ## The mode of a member -/

theorem substr_eq_iff {p command : Bytes} : substr command 0 p.length = p ↔ p <+: command := by
  rw [substr, List.drop_zero, List.prefix_iff_eq_take, eq_comm]

theorem mem_member (hw : L.Wf) (hs : s ∈ L.sessions) : (s.key, none) ∈ L.roster.members ↔ s.id = [] := by
  constructor
  · intro hm
    obtain ⟨x, hx, he⟩ := List.mem_map.1 hm
    obtain ⟨hk, hid⟩ := Prod.mk.inj he
    rw [← hw.keys.eq hx hs hk]
    by_contra hne
    rw [nameOf, if_neg hne] at hid
    cases hid
  · intro hid
    exact List.mem_map.2 ⟨s, hs, by rw [member, hid, nameOf_empty]⟩

theorem roster_mode (hw : L.Wf) (hr : L.Rooms) (hs : s ∈ L.sessions) : L.roster.mode s.key = s.mode := by
  have hroom : s.key ∈ L.roster.rooms.map Prod.snd ↔ s.mode = .creating_game := by
    constructor
    · intro hk
      obtain ⟨⟨n, k⟩, hmem, rfl⟩ := List.mem_map.1 hk
      obtain ⟨-, x, hx, he, hm⟩ := mem_rooms hr hmem
      rwa [hw.distinct.eq hx (mem_everyone hs) he] at hm
    · intro hm
      obtain ⟨g, hg, hp⟩ := hr.creators s (mem_everyone hs) hm
      rw [rooms_snd]
      exact List.mem_flatMap.2 ⟨g, hg, by rw [hp]; exact List.mem_singleton_self _⟩
  have hname := (mem_member hw hs).trans (hr.modes s (mem_everyone hs)).symm
  unfold Roster.mode
  simp only [hroom, hname]
  cases s.mode <;> rfl

/-! ## What the interpreters reply -/

/-- The session was answered as the reference answers it. -/
structure Responds (L : Lobby) (s : Session) (c : Bytes) (s' : Session) (gs : List Game) : Prop where
  key : s'.key = s.key
  trace : s'.trace = s.trace ++ (L.roster.respond s.key c).2.toList.map .sent
  roster : (L.answered s' gs).roster = (L.roster.respond s.key c).1

theorem answered_roster (hw : L.Wf) (hs : s ∈ L.sessions) (hk : s'.key = s.key) (hid : s'.id = s.id) :
    (L.answered s' L.games).roster = L.roster := by
  have hmem : (L.answered s' L.games).sessions.map member = L.sessions.map member :=
    Keyed.map_update member fun x hx he => by rw [hw.keys.eq hx hs (he.trans hk), member, member, hk, hid]
  unfold roster
  rw [hmem]
  rfl

/-- Receiving on shows the reference nothing. -/
theorem Responds.receive (h : Responds L s c s' gs) : Responds L s c s'.receive gs := by
  refine ⟨h.key, h.trace, ?_⟩
  rw [← h.roster]
  simp only [Lobby.roster, members_answered h.key, members_answered (show s'.receive.key = s.key from h.key)]
  rfl

theorem nothing_responds (hw : L.Wf) (hs : s ∈ L.sessions) (hc : c = []) : Responds L s c s L.games := by
  have h : L.roster.respond s.key c = (L.roster, none) := if_pos hc
  exact ⟨rfl, by simp [h], by rw [h]; exact answered_roster hw hs rfl rfl⟩

theorem send_responds (hw : L.Wf) (hs : s ∈ L.sessions) {data : Bytes}
    (h : L.roster.respond s.key c = (L.roster, some data)) : Responds L s c (s.send data) L.games :=
  ⟨rfl, by rw [h]; rfl, by rw [h]; exact answered_roster hw hs rfl rfl⟩

/-- Where a session holds the name, the reference refuses it too. -/
theorem claim_taken (k : Nat) (h : L.userScan id ≠ none) :
    L.roster.perform k (.user id) = (L.roster, text "ERROR\n") := by
  by_cases hid : id = []
  · exact if_pos hid
  · refine (if_neg hid).trans (Roster.attempt_none ?_ _)
    have htaken : id ∈ L.roster.names := by
      by_contra hfree
      apply h
      rw [userScan_eq_none]
      intro x hx he
      apply hfree
      exact Roster.mem_names.2 ⟨member x, List.mem_map_of_mem hx, nameOf_eq_some.2 ⟨he, hid⟩⟩
    simp [Roster.step, htaken]

theorem login_responds (hw : L.Wf) (hr : L.Rooms) (hs : s ∈ L.sessions) (hm : s.mode = .connected) (hc : c ≠ [])
    (hp : parseCommand .connected c = .user id) (h : L.userScan id = none) :
    Responds L s c (((s.setId id).setMode .lobby).send (text "OK\n")) L.games := by
  have hfree := userScan_eq_none.1 h
  have hne : id ≠ [] := @Rooms.login_id L s (s.setId id) hr hs hm hfree
  have hstep := @login_roster L s (((s.setId id).setMode .lobby).send (text "OK\n")) hr hs rfl hm hfree
  have hrespond := Roster.respond_eq hc ((roster_mode hw hr hs).trans hm) hp
    ((if_neg hne).trans (Roster.attempt_some hstep _))
  exact ⟨rfl, by rw [hrespond]; rfl, by rw [hrespond]⟩

theorem user_responds (hw : L.Wf) (hr : L.Rooms) (hs : s ∈ L.sessions) (hm : s.mode = .connected) (hc : c ≠ [])
    (hp : parseCommand .connected c = .user id) :
    ∃ s' gs, Responds L s c s' gs ∧ orError s.key (L.user s.key id) = L.answered s' gs := by
  have hmode := (roster_mode hw hr hs).trans hm
  unfold user
  cases h : L.userScan id with
  | some t =>
    have hrespond := Roster.respond_eq hc hmode hp (claim_taken s.key (h ▸ Option.some_ne_none t))
    exact ⟨_, _, send_responds hw hs hrespond, send_eq hw.keys hs _⟩
  | none => exact ⟨_, _, login_responds hw hr hs hm hc hp h, update_eq hw.keys hs _⟩

theorem found_taken (hr : L.Rooms) (k : Nat) (h : L.gameCreateScan id ≠ none) :
    L.roster.perform k (.gameCreate id) = (L.roster, text "ERROR\n") := by
  have htaken : id ∈ L.roster.rooms.map Prod.fst := by
    rw [rooms_fst hr]
    by_contra hfree
    apply h
    rw [gameCreateScan_eq_none]
    exact fun g hg he => hfree (List.mem_map.2 ⟨g, hg, he⟩)
  apply Roster.attempt_none
  simp only [Roster.step, htaken, not_true_eq_false, and_false, if_false]

theorem create_responds (hw : L.Wf) (hr : L.Rooms) (hs : s ∈ L.sessions) (hm : s.mode = .lobby) (hc : c ≠ [])
    (hp : parseCommand .lobby c = .gameCreate id) (h : L.gameCreateScan id = none) :
    Responds L s c (Game.create s id).2 (L.games ++ [(Game.create s id).1]) := by
  have hstep := @create_roster L s (Game.create s id).2 hw hr hs rfl hm rfl id (gameCreateScan_eq_none.1 h)
  have hrespond := Roster.respond_eq hc ((roster_mode hw hr hs).trans hm) hp (Roster.attempt_some hstep _)
  exact ⟨rfl, by rw [hrespond]; rfl, by rw [hrespond]; rfl⟩

theorem gameCreate_responds (hw : L.Wf) (hr : L.Rooms) (hs : s ∈ L.sessions) (hm : s.mode = .lobby) (hc : c ≠ [])
    (hp : parseCommand .lobby c = .gameCreate id) :
    ∃ s' gs, Responds L s c s' gs ∧ orError s.key (L.gameCreate s.key id) = L.answered s' gs := by
  have hmode := (roster_mode hw hr hs).trans hm
  unfold gameCreate
  cases h : L.gameCreateScan id with
  | some t =>
    have hrespond := Roster.respond_eq hc hmode hp (found_taken hr s.key (h ▸ Option.some_ne_none t))
    exact ⟨_, _, send_responds hw hs hrespond, send_eq hw.keys hs _⟩
  | none =>
    simp only [orError, gameCreateCommit, get?_eq hw.keys hs]
    rw [update_eq hw.keys hs]
    exact ⟨_, _, create_responds hw hr hs hm hc hp h, rfl⟩

theorem executeConnected_responds (hw : L.Wf) (hr : L.Rooms) (hs : s ∈ L.sessions) (hm : s.mode = .connected) (c : Bytes) :
    ∃ s' gs, Responds L s c s' gs ∧ L.executeConnected s.key c = L.answered s' gs := by
  have hmode := (roster_mode hw hr hs).trans hm
  unfold executeConnected
  split
  · exact ⟨s, _, nothing_responds hw hs (by assumption), (answered_self hw.keys hs).symm⟩
  · rename_i hc
    split
    · rename_i hhelp
      have hp : parseCommand .connected c = .help := if_pos hhelp
      have hperform : L.roster.perform s.key .help = (L.roster, text "OK\nNo help available.\n") := by
        simp [Roster.perform, hmode]
      exact ⟨_, _, send_responds hw hs (Roster.respond_eq hc hmode hp hperform), send_eq hw.keys hs _⟩
    · rename_i hhelp
      split
      · rename_i huser
        have hpre : text "user " <+: c := substr_eq_iff.1 huser
        have hp : parseCommand .connected c = .user (c.drop cmdUser.length) := by
          simp only [parseCommand, hhelp, hpre, if_false, if_true]
          rfl
        exact user_responds hw hr hs hm hc hp
      · rename_i huser
        have hpre : ¬ text "user " <+: c := fun h => huser (substr_eq_iff.2 h)
        have hp : parseCommand .connected c = .unknown := by
          simp only [parseCommand, hhelp, hpre, if_false]
        exact ⟨_, _, send_responds hw hs (Roster.respond_eq hc hmode hp rfl), send_eq hw.keys hs _⟩

theorem executeLobby_responds (hw : L.Wf) (hr : L.Rooms) (hs : s ∈ L.sessions) (hm : s.mode = .lobby) (c : Bytes) :
    ∃ s' gs, Responds L s c s' gs ∧ L.executeLobby s.key c = L.answered s' gs := by
  have hmode := (roster_mode hw hr hs).trans hm
  unfold executeLobby
  split
  · exact ⟨s, _, nothing_responds hw hs (by assumption), (answered_self hw.keys hs).symm⟩
  · rename_i hc
    split
    · rename_i hhelp
      have hp : parseCommand .lobby c = .help := if_pos hhelp
      have hperform : L.roster.perform s.key .help = (L.roster, text "OK\nNo help available.\n") := by
        simp [Roster.perform, hmode]
      exact ⟨_, _, send_responds hw hs (Roster.respond_eq hc hmode hp hperform), send_eq hw.keys hs _⟩
    · rename_i hhelp
      split
      · rename_i hcreate
        have hpre : text "game create " <+: c := substr_eq_iff.1 hcreate
        have hp : parseCommand .lobby c = .gameCreate (c.drop cmdGameCreate.length) := by
          simp only [parseCommand, hhelp, hpre, if_false, if_true]
          rfl
        exact gameCreate_responds hw hr hs hm hc hp
      · rename_i hcreate
        have hpre : ¬ text "game create " <+: c := fun h => hcreate (substr_eq_iff.2 h)
        split
        · rename_i hlist
          have hp : parseCommand .lobby c = .gameList := by
            simp only [parseCommand, hhelp, hpre, if_false]
            exact if_pos hlist
          have hperform : L.roster.perform s.key .gameList = (L.roster, L.gameListReply) := by
            rw [gameListReply_eq, ← rooms_fst hr]
            rfl
          exact ⟨_, _, send_responds hw hs (Roster.respond_eq hc hmode hp hperform), send_eq hw.keys hs _⟩
        · rename_i hlist
          have hp : parseCommand .lobby c = .unknown := by
            simp only [parseCommand, hhelp, hpre, if_false]
            exact if_neg hlist
          exact ⟨_, _, send_responds hw hs (Roster.respond_eq hc hmode hp rfl), send_eq hw.keys hs _⟩

theorem executeCreatingGame_responds (hw : L.Wf) (hr : L.Rooms) (hs : s ∈ L.sessions) (hm : s.mode = .creating_game)
    (c : Bytes) :
    Responds L s c (Game.executeCreatingGame s c) L.games ∧ (Game.executeCreatingGame s c).key = s.key := by
  have hmode := (roster_mode hw hr hs).trans hm
  unfold Game.executeCreatingGame
  split
  · exact ⟨nothing_responds hw hs (by assumption), rfl⟩
  · rename_i hc
    split
    · rename_i hhelp
      have hp : parseCommand .creating_game c = .help := if_pos hhelp
      have hperform : L.roster.perform s.key .help = (L.roster, text "OK\nStill no help available.\n") := by
        simp [Roster.perform, hmode]
      exact ⟨send_responds hw hs (Roster.respond_eq hc hmode hp hperform), rfl⟩
    · rename_i hhelp
      have hp : parseCommand .creating_game c = .unknown := if_neg hhelp
      exact ⟨send_responds hw hs (Roster.respond_eq hc hmode hp rfl), rfl⟩

/-- Whatever the mode, the interpreter that runs is the reference. -/
theorem command_responds (hw : L.Wf) (hr : L.Rooms) (hs : s ∈ L.sessions) (m : Message) :
    ∃ s' gs, Responds L s m.contents s' gs ∧ L.sessionReceiveHandler s false (some m) = (L.answered s' gs, none) := by
  have hh := hw.handler s hs
  unfold sessionReceiveHandler callHandler
  cases hm : s.mode with
  | creating_game =>
    have hgame : s.receiveHandler = .game := hh.2 hm
    simp only [hgame, Game.receiveHandler, Bool.false_eq_true, if_false]
    rw [update_eq hw.keys hs]
    simp only [hm]
    obtain ⟨hres, hk⟩ := executeCreatingGame_responds hw hr hs hm m.contents
    refine ⟨_, _, hres, ?_⟩
    unfold answered
    rw [hk]
    rfl
  | connected =>
    have hlobby : s.receiveHandler = .lobby := by
      cases h : s.receiveHandler with
      | lobby => rfl
      | game => rw [hh.1 h] at hm; cases hm
    obtain ⟨s', gs, hres, he⟩ := executeConnected_responds hw hr hs hm m.contents
    simp only [hlobby, receiveHandler, Bool.false_eq_true, if_false, hm, he]
    exact ⟨s', gs, hres, rfl⟩
  | lobby =>
    have hlobby : s.receiveHandler = .lobby := by
      cases h : s.receiveHandler with
      | lobby => rfl
      | game => rw [hh.1 h] at hm; cases hm
    obtain ⟨s', gs, hres, he⟩ := executeLobby_responds hw hr hs hm m.contents
    simp only [hlobby, receiveHandler, Bool.false_eq_true, if_false, hm, he]
    exact ⟨s', gs, hres, rfl⟩

/-! ## Runs -/

/-- The command that an event brings. -/
def Event.command : Event → Option (Nat × Bytes)
  | .read k (some c) => some (k, c)
  | _ => none

theorem Responds.of_answered {s₁ : Session} (hw : L.Wf) (hs : s ∈ L.sessions) (hk : s₁.key = s.key) (hid : s₁.id = s.id)
    (h : Responds (L.answered s₁ L.games) s₁ c s' gs) :
    s'.key = s.key ∧ s'.trace = s₁.trace ++ (L.roster.respond s.key c).2.toList.map .sent ∧
      (L.answered s' gs).roster = (L.roster.respond s.key c).1 := by
  have hroster := answered_roster hw hs hk hid
  have hkey := h.key.trans hk
  refine ⟨hkey, ?_, ?_⟩
  · rw [h.trace, hroster, hk]
  · have he := h.roster
    rwa [hroster, hk, answered_answered s₁ s' _ _ (hk.trans hkey.symm)] at he

/-- A session that reads does not accept. -/
theorem Wf.reading (hw : L.Wf) (hs : s ∈ L.sessions) (hreads : 0 < s.reads) : s.accepts = 0 := by
  by_contra hacc
  have hwait := (hw.accepting s hs hacc).1
  rw [Session.Waiting] at hwait
  rw [hwait] at hreads
  exact absurd hreads (Nat.lt_irrefl 0)

/-- A command that was read is handled as the reference does, and nothing is thrown. -/
theorem command_handled (hw : L.Wf) (hr : L.Rooms) (hs : s ∈ L.sessions) (hreads : 0 < s.reads) (c : Bytes) :
    ∃ s' gs, (L.update s.key fun _ => s.readEnds (some c)).asioReceiveHandler (s.readEnds (some c)) (some c) =
        (L.answered s' gs, none) ∧ s'.key = s.key ∧
      s'.trace = s.trace ++ .received c :: (L.roster.respond s.key c).2.toList.map .sent ∧
      (L.answered s' gs).roster = (L.roster.respond s.key c).1 := by
  let s₁ : Session := s.readEnds (some c)
  have hw₁ : (L.answered s₁ L.games).Wf := hw.answered hs rfl (hw.handler s hs) (show s.accepts = 0 from hw.reading hs hreads)
  have hr₁ : (L.answered s₁ L.games).Rooms := hr.moved hw hs rfl (.same rfl rfl)
  obtain ⟨s', gs, hres, he⟩ := command_responds hw₁ hr₁ (show s₁ ∈ _ from mem_answered hs rfl) ⟨.reply, 0, c⟩
  obtain ⟨hk, ht, hroster⟩ := Responds.of_answered hw hs (show s₁.key = s.key from rfl) rfl hres.receive
  have hk : s'.key = s.key := hk
  refine ⟨s'.receive, gs, ?_, hk, ?_, hroster⟩
  · change (L.answered s₁ L.games).asioReceiveHandler s₁ (some c) = _
    simp only [asioReceiveHandler, he]
    rw [answered_answered s₁ s' _ _ hk.symm, show s₁.key = s'.key from hk.symm, answered_update s' gs _ rfl]
  · rw [show s₁.trace = s.trace ++ [.received c] from rfl, List.append_assoc] at ht
    exact ht

theorem read_responds (hw : L.Wf) (hr : L.Rooms) (hs : s ∈ L.sessions) (h : L.step (.read s.key (some c)) = some L') :
    ∃ s' gs caught, L' = { L.answered s' gs with caught := caught } ∧ s'.key = s.key ∧
      s'.trace = s.trace ++ .received c :: (L.roster.respond s.key c).2.toList.map .sent ∧
      L'.roster = (L.roster.respond s.key c).1 := by
  simp only [step, get?_eq hw.keys hs] at h
  split at h
  · rename_i hreads
    cases h
    obtain ⟨s', gs, e, hk, ht, hroster⟩ := command_handled hw hr hs hreads c
    rw [e]
    exact ⟨s', gs, (L.answered s' gs).caught ++ [], rfl, hk, ht, hroster⟩
  · cases h

/-- Every other step leaves the reference alone. -/
theorem Moved.quiet (h : Moved L s e s' gs) (hc : e.command = none) :
    s'.id = s.id ∧ gs = L.games ∧ s'.trace.filter Io.talk = s.trace.filter Io.talk ∧ greeting s'.trace = greeting s.trace := by
  have hadd : ∀ x : Io, x.talk = false → x ≠ .accepted false →
      (s.trace ++ [x]).filter Io.talk = s.trace.filter Io.talk ∧ greeting (s.trace ++ [x]) = greeting s.trace := by
    intro x hx hne
    exact ⟨by simp [hx], by simp [greeting, Ne.symm hne]⟩
  cases h with
  | receiveMessage | sendMessage | transfer | wrote => exact ⟨rfl, rfl, rfl, rfl⟩
  | acceptFailed => exact ⟨rfl, rfl, hadd (.accepted true) rfl (by decide)⟩
  | readFailed => exact ⟨rfl, rfl, hadd .readFailed rfl (by decide)⟩
  | closed => exact ⟨rfl, rfl, hadd (.writeFailed true) rfl (by decide)⟩
  | threw => exact ⟨rfl, rfl, hadd (.writeFailed false) rfl (by decide)⟩
  | command => cases hc

/-- The lobby, and the reference beside it that answered the commands `cs`. What `asked` lists
has no reply yet. -/
structure Beside (cs : List (Nat × Bytes)) (asked : Nat → List Io) (L : Lobby) (R : Reference) : Prop where
  roster : R.roster = L.roster
  commands : R.log.map (fun x => (x.1, x.2.1)) = cs
  talks : ∀ s ∈ L.everyone, s.trace.filter Io.talk = greeting s.trace ++ dialogue R.log s.key ++ asked s.key
  known : ∀ x ∈ R.log, x.1 < L.nextKey

/-- Nobody has spoken under a fresh key. -/
theorem Beside.fresh {R : Reference} (h : Beside cs asked L R) {k : Nat} (hk : L.nextKey ≤ k) : dialogue R.log k = [] := by
  unfold dialogue
  rw [List.filter_eq_nil_iff.2, List.flatMap_nil]
  intro x hx he
  have hlt := h.known x hx
  have heq : x.1 = k := by simpa using he
  omega

/-- A session was answered as the reference answers it. What the session asked is what it asked
before, or what the trace tells of it now. -/
theorem Beside.answered {R : Reference} {asked' : Nat → List Io} (h : Beside cs asked L R) (hw : L.Wf)
    (hs : s ∈ L.sessions) (before : List Io) (hk : s'.key = s.key) (hbefore : asked s.key ++ before = [.received c])
    (ht : s'.trace = s.trace ++ before ++ (L.roster.respond s.key c).2.toList.map .sent)
    (hroster : (L.answered s' gs).roster = (L.roster.respond s.key c).1) (hdone : asked' s.key = [])
    (hsame : ∀ k, k ≠ s.key → asked' k = asked k) :
    ∃ R', Reference.system.step R (.command s.key c) = some R' ∧ Beside (cs ++ [(s.key, c)]) asked' (L.answered s' gs) R' := by
  have hmember : s.key ∈ R.roster.members.map Prod.fst := by
    rw [h.roster]
    exact List.mem_map.2 ⟨member s, List.mem_map_of_mem hs, rfl⟩
  -- What the session said since is talk, and no welcome.
  have htalk : ∀ x ∈ before ++ (L.roster.respond s.key c).2.toList.map Io.sent, x.talk = true ∧ x ≠ .accepted false := by
    intro x hx
    rcases List.mem_append.1 hx with hx | hx
    · obtain rfl : x = .received c := List.mem_singleton.1 (hbefore ▸ List.mem_append_right _ hx)
      exact ⟨rfl, Io.noConfusion⟩
    · obtain ⟨d, -, rfl⟩ := List.mem_map.1 hx
      exact ⟨rfl, Io.noConfusion⟩
  rw [List.append_assoc] at ht
  refine ⟨_, if_pos hmember, ?_, ?_, ?_, ?_⟩
  · rw [hroster, h.roster]
  · rw [List.map_append, h.commands]
    rfl
  · intro x hx
    rw [dialogue_concat, h.roster]
    rcases (everyone_moved hw hs hk gs x).1 hx with rfl | ⟨hx, hne⟩
    · have hgreet : greeting x.trace = greeting s.trace := by
        have hnone : .accepted false ∉ before ++ (L.roster.respond s.key c).2.toList.map Io.sent :=
          fun hmem => (htalk _ hmem).2 rfl
        simp only [greeting, ht, List.mem_append (s := s.trace), hnone, or_false]
      have hsaid : (before ++ (L.roster.respond s.key c).2.toList.map Io.sent).filter Io.talk = _ :=
        List.filter_eq_self.2 fun x hx => (htalk x hx).1
      rw [hgreet, hk, hdone, ht, List.filter_append, hsaid, h.talks s (mem_everyone hs), if_pos rfl]
      simp only [List.append_assoc, List.append_nil, List.append_cancel_left_eq]
      rw [← List.append_assoc, hbefore, List.singleton_append]
    · rw [if_neg (Ne.symm hne), List.append_nil, hsame x.key hne]
      exact h.talks x hx
  · intro x hx
    rcases List.mem_append.1 hx with hx | hx
    · exact h.known x hx
    · rw [List.mem_singleton.1 hx]
      exact hw.fresh s (List.mem_append_left _ hs)

/-- A command of a session that has its replies. -/
theorem Beside.command {R : Reference} (h : Beside cs asked L R) (hw : L.Wf) (hr : L.Rooms) (hs : s ∈ L.sessions)
    (hasked : asked s.key = []) (hstep : L.step (.read s.key (some c)) = some L') :
    ∃ R', Reference.system.step R (.command s.key c) = some R' ∧ Beside (cs ++ [(s.key, c)]) asked L' R' := by
  obtain ⟨s', gs, caught, rfl, hk, ht, hroster⟩ := read_responds hw hr hs hstep
  have ht' : s'.trace = s.trace ++ [.received c] ++ (L.roster.respond s.key c).2.toList.map .sent := by
    rw [ht, List.append_assoc]
    rfl
  obtain ⟨R', hR', hb⟩ := h.answered hw hs [.received c] hk (by rw [hasked]; rfl) ht' hroster hasked fun _ _ => rfl
  exact ⟨R', hR', hb.roster, hb.commands, hb.talks, hb.known⟩

/-- A step that brings no command is at most one of the roster. -/
theorem Beside.other {R : Reference} (h : Beside cs asked L R) (hw : L.Wf) (hfresh : asked L.nextKey = [])
    (hc : Change L e L') (hn : e.command = none) :
    ∃ ds R', Reference.system.Steps (fun _ _ => True) R ds R' ∧ Beside cs asked L' R' := by
  cases hc with
  | @moved s s' _ gs hs hm caught =>
    obtain ⟨hid, rfl, htalk, hgreet⟩ := hm.quiet hn
    refine ⟨[], R, .nil, ?_, h.commands, ?_, h.known⟩
    · rw [h.roster]
      exact (answered_roster hw hs hm.key hid).symm
    · intro x hx
      rcases (everyone_moved hw hs hm.key L.games x).1 hx with rfl | ⟨hx, -⟩
      · rw [htalk, hgreet, hm.key]
        exact h.talks s (mem_everyone hs)
      · exact h.talks x hx
  | @accepted init s hs hwait =>
    have hlast : s ∈ L.sessions := by simp [hs]
    have hstep := accept_roster hw hs
    rw [← h.roster] at hstep
    refine ⟨[.enter L.nextKey], _, .one trivial (Reference.step_enter hstep), rfl, h.commands, ?_,
      fun x hx => Nat.lt_succ_of_lt (h.known x hx)⟩
    have hbefore := h.talks s (mem_everyone hlast)
    have htrace : s.trace = [] := by
      rw [Session.Waiting] at hwait
      rw [hwait]
      rfl
    intro x hx
    rcases List.mem_append.1 hx with hx | hx
    · rcases mem_accepted hx with hx | rfl | rfl
      · exact h.talks x (mem_everyone (hs ▸ List.mem_append_left _ hx))
      · have hnone : dialogue R.log s.key = [] ∧ asked s.key = [] := by
          rw [htrace] at hbefore
          simpa [greeting] using hbefore
        have hwelcome : s.welcome.trace = [.accepted false, .sent (text "Zard\n1")] := by
          simp [Session.welcome, Session.receive, Session.send, Session.setStatus, htrace]
        change _ = _ ++ dialogue R.log s.key ++ asked s.key
        rw [hwelcome, hnone.1, hnone.2]
        rfl
      · change _ = _ ++ dialogue R.log L.nextKey ++ asked L.nextKey
        rw [h.fresh (Nat.le_refl _), hfresh]
        rfl
    · exact h.talks x (List.mem_append_right _ hx)
  | reaped timers =>
    obtain ⟨p, hp⟩ := reap_roster hw timers
    rw [← h.roster] at hp
    refine ⟨[.leave p], _, .one trivial (Reference.step_leave hp), rfl, h.commands, ?_, h.known⟩
    exact fun x hx => h.talks x ((everyone_reaped x).1 hx)
  | aborted => exact ⟨[], R, .nil, h.roster, h.commands, h.talks, h.known⟩

theorem Beside.init (host : Endian) : Beside [] (fun _ => []) (run host) { roster := (run host).roster } := by
  refine ⟨rfl, rfl, ?_, by simp⟩
  intro s hs
  rw [run_waiting hs]
  rfl

/-- The first session enters when the server starts. -/
theorem enter_init (host : Endian) : Reference.system.Steps (fun _ _ => True) {} [.enter 0] { roster := (run host).roster } := by
  apply System.Steps.one trivial
  rw [run_eq]
  rfl

theorem Run.beside (h : (system host).Run es L) :
    ∃ ds R, Reference.system.Run ds R ∧ Beside (es.filterMap Event.command) (fun _ => []) L R := by
  refine System.RunIf.inv_hist
    (fun es L => ∃ ds R, Reference.system.Run ds R ∧ Beside (es.filterMap Event.command) (fun _ => []) L R) h
    ⟨[.enter 0], _, enter_init host, Beside.init host⟩ ?_
  rintro es L e L' hrun ⟨ds, R, hR, hb⟩ - hstep
  have hw := Reachable.wf ⟨es, hrun⟩
  have hr := Reachable.rooms ⟨es, hrun⟩
  rw [List.filterMap_append]
  cases hn : e.command with
  | none =>
    obtain ⟨ds', R', hsteps, hb'⟩ := hb.other hw rfl (step_change hw hstep) hn
    refine ⟨ds ++ ds', R', System.Steps.trans hR hsteps, ?_⟩
    simpa [hn] using hb'
  | some kc =>
    obtain ⟨k, c, rfl⟩ : ∃ k c, e = .read k (some c) := by
      cases e with
      | read k contents =>
        cases contents with
        | none => cases hn
        | some c => exact ⟨k, c, rfl⟩
      | accept | receiveMessage | sendMessage | transfer | written | tick => cases hn
    obtain ⟨s, hs, rfl⟩ : ∃ s ∈ L.sessions, s.key = k := by
      cases hg : L.get? k with
      | none => simp [system, step, hg] at hstep
      | some s => exact ⟨s, get?_mem hg⟩
    obtain ⟨R', hR', hb'⟩ := hb.command hw hr hs rfl hstep
    exact ⟨ds ++ [.command s.key c], R', .snoc hR trivial hR', hb'⟩

/-- Who gave a command is there, or was. -/
theorem Run.commander (h : (system host).Run es L) : ∀ x ∈ es.filterMap Event.command, ∃ s ∈ L.everyone, s.key = x.1 := by
  refine System.RunIf.inv_hist (fun es L => ∀ x ∈ es.filterMap Event.command, ∃ s ∈ L.everyone, s.key = x.1) h (by simp) ?_
  intro es L e L' hrun hi _ hstep x hx
  have hw := Reachable.wf ⟨es, hrun⟩
  have hgrown := (step_change hw hstep).grown hw (Reachable.rooms ⟨es, hrun⟩)
  have hstay : ∀ s ∈ L.everyone, ∃ s' ∈ L'.everyone, s'.key = s.key := by
    intro s hs
    obtain ⟨s', hs', hk, -⟩ := hgrown.2 s hs
    exact ⟨s', hs', hk⟩
  rw [List.filterMap_append] at hx
  rcases List.mem_append.1 hx with hx | hx
  · obtain ⟨s, hs, hk⟩ := hi x hx
    obtain ⟨s', hs', hk'⟩ := hstay s hs
    exact ⟨s', hs', hk'.trans hk⟩
  · obtain ⟨e', he', hcommand⟩ := List.mem_filterMap.1 hx
    obtain rfl := List.mem_singleton.1 he'
    cases e' with
    | read k contents =>
      cases contents with
      | none => cases hcommand
      | some c =>
        obtain rfl := Option.some.inj hcommand
        cases hg : L.get? k with
        | none => simp [system, step, hg] at hstep
        | some s =>
          obtain ⟨hs, rfl⟩ := get?_mem hg
          exact hstay s (mem_everyone hs)
    | accept | receiveMessage | sendMessage | transfer | written | tick => cases hcommand

/-- Every run of the lobby is one of the reference, with the same commands in the same order and
the same members and rooms behind it. What was said to each session, the erased ones included,
is the greeting and the replies of the reference to its commands. -/
theorem refines_reference (h : (system host).Run es L) :
    ∃ ds R, Reference.system.Run ds R ∧ R.roster = L.roster ∧
      R.log.map (fun x => (x.1, x.2.1)) = es.filterMap Event.command ∧
      ∀ s ∈ L.everyone, s.trace.filter Io.talk = greeting s.trace ++ dialogue R.log s.key := by
  obtain ⟨ds, R, hR, hb⟩ := Run.beside h
  refine ⟨ds, R, hR, hb.roster, hb.commands, fun s hs => ?_⟩
  simpa using hb.talks s hs

/-- The second client asks for a name that is taken, and the first one goes. -/
theorem refines_reference_game : ∃ es L ds R, (system .little).Run es L ∧ Reference.system.Run ds R ∧ R.roster = L.roster ∧
    R.log.map (fun x => (x.1, x.2.1)) =
      [(0, text "user a"), (1, text "user a"), (0, text "game create g"), (1, text "user b"), (1, text "game list")] ∧
    ∀ s ∈ L.everyone, s.trace.filter Io.talk = greeting s.trace ++ dialogue R.log s.key := by
  have hexec : (system .little).exec (fun _ _ => True) (run .little)
      [.accept 0 false, .accept 1 false, .receiveMessage 0, .receiveMessage 1, .read 0 (some (text "user a")),
        .read 1 (some (text "user a")), .receiveMessage 0, .receiveMessage 1, .read 0 (some (text "game create g")),
        .read 1 (some (text "user b")), .receiveMessage 0, .receiveMessage 1, .read 0 none,
        .read 1 (some (text "game list")), .tick false] = some _ := rfl
  have hrun : (system .little).Run _ _ := System.Steps.of_exec hexec
  obtain ⟨ds, R, hR, hroster, hlog, htalk⟩ := refines_reference hrun
  exact ⟨_, _, ds, R, hrun, hR, hroster, hlog, htalk⟩

end Lobby
end Zar
