import Zar.Game.Game
import Zar.Lib.Keyed
/-!
# The lobby

`tlobby` with its reaper. The handlers of a session reach the lobby through the
key of the session. Sessions that were erased stay in the history.
-/

namespace Zar

structure Lobby where
  host : Endian
  sessions : List Session := []
  games : List Game := []
  /-- The waits of the reaper's timer that are outstanding. -/
  timers : Nat := 0
  /-- The next fresh key. -/
  nextKey : Nat := 0
  -- The history: erased sessions, and what reached the loops of the io_service.
  erased : List Session := []
  caught : List Thrown := []
  deriving DecidableEq, Repr

namespace Lobby

/-- What a reference to a session changes. -/
def update (L : Lobby) (k : Nat) (f : Session → Session) : Lobby :=
  { L with sessions := Keyed.update Session.key k f L.sessions }

def get? (L : Lobby) (k : Nat) : Option Session := Keyed.get? Session.key k L.sessions

def send (L : Lobby) (k : Nat) (data : Bytes) : Lobby := L.update k (·.send data)

/-! ## The commands

`user` and `game_create` first look for the name in a list, then change it. The
two halves are definitions of their own. -/

def userScan (L : Lobby) (id : Bytes) : Option Thrown :=
  if L.sessions.any (·.id = id) then
    some (.texception .busy (text "A user with id »" ++ id ++ text "« already logged in"))
  else none

def userCommit (L : Lobby) (k : Nat) (id : Bytes) : Lobby :=
  L.update k fun s => ((s.setId id).setMode .lobby).send (text "OK\n")

def user (L : Lobby) (k : Nat) (id : Bytes) : Lobby × Option Thrown :=
  match L.userScan id with
  | some t => (L, some t)
  | none => (L.userCommit k id, none)

def gameCreateScan (L : Lobby) (id : Bytes) : Option Thrown :=
  if L.games.any (·.id = id) then
    some (.texception .busy (text "A game with id »" ++ id ++ text "« is already created"))
  else none

def gameCreateCommit (L : Lobby) (k : Nat) (id : Bytes) : Lobby :=
  match L.get? k with
  | none => L
  | some s => { L.update k (fun s => (Game.create s id).2) with games := L.games ++ [(Game.create s id).1] }

def gameCreate (L : Lobby) (k : Nat) (id : Bytes) : Lobby × Option Thrown :=
  match L.gameCreateScan id with
  | some t => (L, some t)
  | none => (L.gameCreateCommit k id, none)

def gameList (L : Lobby) : List Bytes := L.games.map (·.id)

/-- `game_list` for a session. -/
def gameListReply (L : Lobby) : Bytes := L.games.foldl (fun result game => result ++ game.id ++ text "\n") (text "OK\n")

def cmdUser : Bytes := text "user "

def cmdGameCreate : Bytes := text "game create "

def cmdGameList : Bytes := text "game list"

/-- `catch(...) { session.send("ERROR\n"); }` -/
def orError (k : Nat) : Lobby × Option Thrown → Lobby
  | (L, none) => L
  | (L, some _) => L.send k (text "ERROR\n")

def executeConnected (L : Lobby) (k : Nat) (command : Bytes) : Lobby :=
  if command = [] then L
  else if command = text "help" then L.send k (text "OK\nNo help available.\n")
  else if substr command 0 cmdUser.length = cmdUser then orError k (L.user k (command.drop cmdUser.length))
  else L.send k (text "EINVAL\nUnknown command.\n")

def executeLobby (L : Lobby) (k : Nat) (command : Bytes) : Lobby :=
  if command = [] then L
  else if command = text "help" then L.send k (text "OK\nNo help available.\n")
  else if substr command 0 cmdGameCreate.length = cmdGameCreate then
    orError k (L.gameCreate k (command.drop cmdGameCreate.length))
  else if command = cmdGameList then L.send k L.gameListReply
  else L.send k (text "EINVAL\nUnknown command.\n")

/-! ## Handlers -/

/-- `tlobby::receive_handler` for the session `s`. -/
def receiveHandler (L : Lobby) (s : Session) (error : Bool) (message : Option Message) : Lobby × Option Thrown :=
  if error then (L, none)
  else
    match message with
    | none => (L, some (.texception .internal_failure (text "Conditional failure 'message'")))
    | some message =>
      match s.mode with
      | .connected => (L.executeConnected s.key message.contents, none)
      | .lobby => (L.executeLobby s.key message.contents, none)
      | .creating_game => (L, none)

/-- The call of `receive_handler_` of the session. -/
def callHandler (L : Lobby) (s : Session) (error : Bool) (message : Option Message) : Lobby × Option Thrown :=
  match s.receiveHandler with
  | .lobby => L.receiveHandler s error message
  | .game => (L.update s.key fun s => (Game.receiveHandler s error message).1, (Game.receiveHandler s error message).2)

/-- `eof` and any other error are only logged differently. -/
def sessionReceiveHandler (L : Lobby) (s : Session) (error : Bool) (message : Option Message) : Lobby × Option Thrown :=
  match L.callHandler s error message with
  | (L, some t) => (L, some t)
  | (L, none) => (if error then L.update s.key (·.setStatus .disconnected) else L, none)

/-- `asio_receive_handler` with `session_receive_handler` as its
`receive_handler_`: a message of these contents, or an error. -/
def asioReceiveHandler (L : Lobby) (s : Session) : Option Bytes → Lobby × Option Thrown
  | none => L.sessionReceiveHandler s true none
  | some contents =>
    match L.sessionReceiveHandler s false (some ⟨.reply, 0, contents⟩) with
    | (L, some t) => (L, some t)
    | (L, none) => (L.update s.key (·.receive), none)

/-- What is done to `sessions_.back()`. -/
def updateBack (L : Lobby) (f : Session → Session) : Lobby :=
  match L.sessions.getLast? with
  | none => L
  | some s => L.update s.key f

def listen (L : Lobby) : Lobby := L.updateBack (·.accept)

def createSession (L : Lobby) : Lobby :=
  { L with sessions := L.sessions ++ [Session.create L.host L.nextKey], nextKey := L.nextKey + 1 }

def acceptHandler (L : Lobby) (error : Bool) : Lobby :=
  let L := if !error then
      (L.updateBack fun s => ((s.setStatus .connected).send (text "Zard\n1")).receive).createSession
    else L
  L.listen

def sessionAcceptHandler (L : Lobby) (k : Nat) (error : Bool) : Lobby :=
  if error then L.update k (·.setStatus .reapable) else L.acceptHandler error

/-! ## The reaper -/

/-- Arms the timer of the reaper. -/
def runReaper (L : Lobby) : Lobby := { L with timers := L.timers + 1 }

def reap (L : Lobby) : Lobby :=
  { L with
    sessions := L.sessions.filter (·.status ≠ .reapable)
    erased := L.erased ++ L.sessions.filter (·.status = .reapable) }

def waitHandler (L : Lobby) (aborted : Bool) : Lobby := if aborted then L else L.reap.runReaper

/-! ## Steps -/

/-- `run`, up to the loop. -/
def run (host : Endian) : Lobby := (createSession { host := host }).listen.runReaper

/-- What can happen. Every event but `tick` is about the session with the key. -/
inductive Event where
  | accept (k : Nat) (error : Bool)
  /-- The strand runs `receive_message`, which starts a read. -/
  | receiveMessage (k : Nat)
  /-- The strand runs `send_message`. -/
  | sendMessage (k : Nat)
  /-- A read ends, with the contents of a message or with an error. -/
  | read (k : Nat) (contents : Option Bytes)
  | transfer (k : Nat) (error : Bool) (bytesTransferred : Nat)
  /-- The handler of a write runs; closing the socket may throw. -/
  | written (k : Nat) (throws : Bool)
  /-- The timer of the reaper ends. -/
  | tick (aborted : Bool)
  deriving DecidableEq, Repr

/-- The loop of the io_service catches what a handler throws. -/
def catching (x : Lobby × Option Thrown) : Lobby := { x.1 with caught := x.1.caught ++ x.2.toList }

def step (L : Lobby) : Event → Option Lobby
  | .accept k error =>
    match L.get? k with
    | none => none
    | some s =>
      if 0 < s.accepts then
        some ((L.update k fun s =>
          { s with accepts := s.accepts - 1, opened := !error, trace := s.trace ++ [.accepted error] }
            ).sessionAcceptHandler k error)
      else none
  | .receiveMessage k =>
    match L.get? k with
    | none => none
    | some s =>
      if 0 < s.posted then some (L.update k fun s => { s with posted := s.posted - 1, reads := s.reads + 1 }) else none
  | .sendMessage k =>
    match L.get? k with
    | none => none
    | some s => (s.sender.step .sendMessage).map fun sender => L.update k fun s => { s with sender := sender }
  | .transfer k error n =>
    match L.get? k with
    | none => none
    | some s => (s.sender.step (.transfer error n)).map fun sender => L.update k fun s => { s with sender := sender }
  | .read k contents =>
    match L.get? k with
    | none => none
    | some s =>
      if 0 < s.reads then
        some (catching ((L.update k fun _ => s.readEnds contents).asioReceiveHandler (s.readEnds contents) contents))
      else none
  | .written k throws =>
    match L.get? k with
    | none => none
    | some s =>
      match s.sender.writes with
      | .completed error n :: ws =>
        let r := ({ s with sender := { s.sender with writes := ws } }).sendQueueMessageHandler error n throws
        some (catching (L.update k fun _ => r.1, r.2))
      | _ => none
  | .tick aborted => if 0 < L.timers then some (({ L with timers := L.timers - 1 }).waitHandler aborted) else none

def system (host : Endian) : System Lobby Event := ⟨run host, step⟩

end Lobby
end Zar
