import Zar.Lobby.Session
/-!
# Games

`tgame`: creating a game takes its session over.
-/

namespace Zar

/-- `tplayer::trole`. -/
inductive Role where
  | gm | player
  deriving DecidableEq, Repr

structure Player where
  name : Bytes
  role : Role
  deriving DecidableEq, Repr

structure Game where
  id : Bytes
  /-- The map from sessions to players. -/
  players : List (Nat × Player) := []
  deriving DecidableEq, Repr

namespace Game

/-- The constructor, with what it does to the session. -/
def create (session : Session) (id : Bytes) : Game × Session :=
  ({ id := id, players := [(session.key, ⟨session.id, .gm⟩)] },
    ((session.setMode .creating_game).send (text "OK\nCreated game '" ++ id ++ text "'.\n")).setReceiveHandler .game)

def executeCreatingGame (session : Session) (command : Bytes) : Session :=
  if command = [] then session
  else if command = text "help" then session.send (text "OK\nStill no help available.\n")
  else session.send (text "EINVAL\nUnknown command.\n")

def receiveHandler (session : Session) (error : Bool) (message : Option Message) : Session × Option Thrown :=
  if error then (session, none)
  else
    match message with
    | none => (session, some (.texception .internal_failure (text "Conditional failure 'message'")))
    | some message =>
      match session.mode with
      | .connected | .lobby => (session, some (.int 0))
      | .creating_game => (executeCreatingGame session message.contents, none)

end Game
end Zar
