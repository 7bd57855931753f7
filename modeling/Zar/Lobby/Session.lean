import Zar.Communication.Sender
/-!
# Sessions

`tsession` with its socket. The handlers of the socket change the status of the
session, without looking at what it is. Of the receiver only what is
outstanding is kept: what it reads is an argument of the step, so everything
holds for every string a client can send.
-/

namespace Zar

/-- `tsession::tstatus`. -/
inductive Status where
  | wait_for_connection | connected | disconnected | reapable
  deriving DecidableEq, Repr

/-- `tsession::tmode`. -/
inductive Mode where
  | connected | lobby | creating_game
  deriving DecidableEq, Repr

/-- What `receive_handler_` is bound to. -/
inductive Handler where
  | lobby | game
  deriving DecidableEq, Repr

/-- What happened to a session: accepts and reads that completed, writes that
failed (with whether the socket could be closed), and calls of `tsession::send`. -/
inductive Io where
  | accepted (error : Bool)
  | received (contents : Bytes)
  | readFailed
  | writeFailed (closed : Bool)
  | sent (data : Bytes)
  deriving DecidableEq, Repr

structure Session where
  /-- Stands for the address of the session, which the bound handlers and the games refer to. -/
  key : Nat
  status : Status := .wait_for_connection
  mode : Mode := .connected
  id : Bytes := []
  receiveHandler : Handler := .lobby
  /-- Whether the socket is connected and not closed. -/
  opened : Bool := false
  -- What is outstanding: accepts, calls of `receive_message` in the strand, reads.
  accepts : Nat := 0
  posted : Nat := 0
  reads : Nat := 0
  sender : Sender
  trace : List Io := []
  deriving DecidableEq, Repr

namespace Session

/-- The constructor: the socket has a strand, and the protocol of a connection is
telnet. -/
def create (host : Endian) (key : Nat) : Session :=
  { key := key, sender := { host := host, protocol := .telnet, strand := true } }

/-- With a strand nothing runs here, so nothing is thrown. -/
def send (s : Session) (data : Bytes) : Session :=
  { s with sender := (s.sender.request (.action data)).1, trace := s.trace ++ [.sent data] }

def receive (s : Session) : Session := { s with posted := s.posted + 1 }

def accept (s : Session) : Session := { s with accepts := s.accepts + 1 }

def setStatus (s : Session) (status : Status) : Session := { s with status := status }

def setMode (s : Session) (mode : Mode) : Session := { s with mode := mode }

def setId (s : Session) (id : Bytes) : Session := { s with id := id }

def setReceiveHandler (s : Session) (handler : Handler) : Session := { s with receiveHandler := handler }

/-- `ttcp_socket::close`: `shutdown` throws on a closed socket, and may throw on
any other. -/
def close (s : Session) (throws : Bool) : Session × Option Thrown :=
  if s.opened && !throws then ({ s with opened := false }, none) else (s, some .system_error)

def sessionSendHandler (s : Session) (error throws : Bool) : Session × Option Thrown :=
  if error then
    match s.close throws with
    | (s, some t) => ({ s with trace := s.trace ++ [.writeFailed false] }, some t)
    | (s, none) => (setStatus { s with trace := s.trace ++ [.writeFailed true] } .reapable, none)
  else (s, none)

/-- The handler of a write, with `session_send_handler` as its `send_handler_`. -/
def sendQueueMessageHandler (s : Session) (error : Bool) (n : Nat) (throws : Bool) : Session × Option Thrown :=
  match ({ s with sender := s.sender.report error n }).sessionSendHandler error throws with
  | (s, some t) => (s, some t)
  | (s, none) => ({ s with sender := s.sender.advance.1 }, s.sender.advance.2)

/-- A read ends, with the contents of a message or with an error. -/
def readEnds (s : Session) (contents : Option Bytes) : Session :=
  { s with reads := s.reads - 1, trace := s.trace ++ [contents.elim .readFailed .received] }

@[simp] theorem readEnds_trace (s : Session) (contents : Option Bytes) :
    (s.readEnds contents).trace = s.trace ++ [contents.elim .readFailed .received] := rfl

/-- No operation of the session is outstanding, and no handler of it waits in the
strand. -/
def Idle (s : Session) : Prop :=
  s.accepts = 0 ∧ s.posted = 0 ∧ s.reads = 0 ∧ s.sender.posted = [] ∧ s.sender.writes = []

instance (s : Session) : Decidable s.Idle := by unfold Idle; infer_instance

/-- The connection ended: a read or a write completed with an error. -/
def Ended (s : Session) : Prop := Io.readFailed ∈ s.trace ∨ ∃ closed, Io.writeFailed closed ∈ s.trace

end Session
end Zar
