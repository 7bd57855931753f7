import Zar.Communication.Message
import Zar.Lib.Fifo
/-!
# The sender

`tsender`: messages queue up, and the front one is written. A message leaves
the queue after the send handler was told about its write, and the next one
starts. What the handler does is an argument of the step, so the theorems hold
for every handler.
-/

namespace Zar

/-- What a user asks of a sender: `send_action`, `send_reply`. -/
inductive Request where
  | action (message : Bytes)
  | reply (id : UInt32) (message : Bytes)
  deriving DecidableEq, Repr

/-- An `async_write` of a buffer of this size, or its handler with what it is
called with. -/
inductive Write where
  | running (size : Nat)
  | completed (error : Bool) (bytesTransferred : Nat)
  deriving DecidableEq, Repr

/-- A call of `send_handler_`. -/
structure Report where
  error : Bool
  bytesTransferred : Nat
  message : Message
  deriving DecidableEq, Repr

/-- What a send handler does: it may ask for more messages, and it may throw. -/
structure SendReaction where
  requests : List Request := []
  throws : Option Thrown := none
  deriving DecidableEq, Repr

structure Sender where
  host : Endian
  protocol : Protocol
  /-- Whether a strand is enabled. -/
  strand : Bool
  sendBuffer : Bytes := []
  messages : List Message := []
  id : UInt32 := 0
  totalBytesTransferred : Nat := 0
  /-- The calls of `send_message` that the strand still has to run. -/
  posted : List Message := []
  writes : List Write := []
  /-- What the stream accepted. -/
  stream : Bytes := []
  -- The history: the messages asked for, those put in the buffer, and the calls of the handler.
  called : List Message := []
  started : List Message := []
  reports : List Report := []
  deriving DecidableEq, Repr

/-- `while((id__ = ++id_) == 0)`. -/
def nextId (id : UInt32) : UInt32 := if id + 1 = 0 then 1 else id + 1

/-- The counter and the message of a request. -/
def Request.message (id : UInt32) : Request → UInt32 × Message
  | .action contents => (nextId id, ⟨.action, nextId id, contents⟩)
  | .reply id' contents => (id, ⟨.reply, id', contents⟩)

/-- The messages of requests in a row. -/
def messagesOf (id : UInt32) : List Request → List Message
  | [] => []
  | r :: rs => (r.message id).2 :: messagesOf (r.message id).1 rs

namespace Sender

def sendQueueMessage (s : Sender) : Sender × Option Thrown :=
  match s.messages with
  | [] => (s, none)
  | m :: _ =>
    match m.encode s.host s.protocol with
    | .error t => (s, some t)
    | .ok data =>
      ({ s with
          sendBuffer := s.sendBuffer ++ data
          writes := s.writes ++ [.running (s.sendBuffer ++ data).length]
          started := s.started ++ [m] }, none)

def sendMessage (s : Sender) (message : Message) : Sender × Option Thrown :=
  let sending := !s.messages.isEmpty
  let s := { s with messages := s.messages ++ [message] }
  if !sending then s.sendQueueMessage else (s, none)

/-- `strand_execute` of `send_message`. -/
def strandExecute (s : Sender) (message : Message) : Sender × Option Thrown :=
  if s.strand then ({ s with posted := s.posted ++ [message] }, none) else s.sendMessage message

/-- `send_action` and `send_reply`. -/
def request (s : Sender) (r : Request) : Sender × Option Thrown :=
  strandExecute { s with id := (r.message s.id).1, called := s.called ++ [(r.message s.id).2] } (r.message s.id).2

def requests (s : Sender) (rs : List Request) : Sender := rs.foldl (fun s r => (s.request r).1) s

/-- The handler of a write up to the call of `send_handler_`. -/
def report (s : Sender) (error : Bool) (bytesTransferred : Nat) : Sender :=
  match s.messages with
  | [] => s
  | m :: _ =>
    { s with
      totalBytesTransferred := (s.totalBytesTransferred + bytesTransferred) % 2 ^ 64
      reports := s.reports ++ [⟨error, bytesTransferred, m⟩] }

/-- The handler of a write behind the call of `send_handler_`. -/
def advance (s : Sender) : Sender × Option Thrown :=
  let s := { s with messages := s.messages.tail }
  if !s.messages.isEmpty then s.sendQueueMessage else (s, none)

def sendQueueMessageHandler (s : Sender) (error : Bool) (bytesTransferred : Nat) (react : SendReaction) :
    Sender × Option Thrown :=
  let s := (s.report error bytesTransferred).requests react.requests
  match react.throws with
  | some t => (s, some t)
  | none => s.advance

/-! ## Steps -/

/-- What can happen to a sender. -/
inductive Event where
  /-- A call from outside of a handler. -/
  | request (r : Request)
  /-- The strand runs the first posted `send_message`. -/
  | sendMessage
  /-- The write ends; it took the first `bytesTransferred` bytes of the buffer. -/
  | transfer (error : Bool) (bytesTransferred : Nat)
  /-- The handler of the write runs. -/
  | handler (react : SendReaction)
  | setProtocol (protocol : Protocol)
  deriving DecidableEq, Repr

def step (s : Sender) : Event → Option Sender
  | .request r => some (s.request r).1
  | .sendMessage =>
    match s.posted with
    | [] => none
    | m :: ms => some (({ s with posted := ms }).sendMessage m).1
  | .transfer error n =>
    match s.writes with
    | .running size :: ws =>
      if n ≤ size ∧ (error = false → n = size) then
        some { s with
          writes := .completed error n :: ws
          stream := s.stream ++ s.sendBuffer.take n
          sendBuffer := s.sendBuffer.drop n }
      else none
    | _ => none
  | .handler react =>
    match s.writes with
    | .completed error n :: ws => some (({ s with writes := ws }).sendQueueMessageHandler error n react).1
    | _ => none
  | .setProtocol p => some { s with protocol := p }

/-- What each event finds, and leaves. -/
inductive Stepped (s : Sender) : Event → Sender → Prop
  | request (r : Request) : Stepped s (.request r) (s.request r).1
  | sendMessage {m : Message} {ms : List Message} (hq : s.posted = m :: ms) :
      Stepped s .sendMessage (({ s with posted := ms }).sendMessage m).1
  | transfer {error : Bool} {n size : Nat} {ws : List Write} (hw : s.writes = .running size :: ws) :
      Stepped s (.transfer error n) { s with
        writes := .completed error n :: ws
        stream := s.stream ++ s.sendBuffer.take n
        sendBuffer := s.sendBuffer.drop n }
  | handler {error : Bool} {n : Nat} {ws : List Write} (react : SendReaction) (hw : s.writes = .completed error n :: ws) :
      Stepped s (.handler react) (({ s with writes := ws }).sendQueueMessageHandler error n react).1
  | setProtocol (p : Protocol) : Stepped s (.setProtocol p) { s with protocol := p }

theorem step_cases {s s' : Sender} {e : Event} (hs : s.step e = some s') : Stepped s e s' := by
  cases e with
  | request r =>
    cases hs
    exact .request r
  | sendMessage =>
    simp only [step] at hs
    split at hs
    · cases hs
    · rename_i m ms hq
      cases hs
      exact .sendMessage hq
  | transfer error n =>
    simp only [step] at hs
    split at hs
    · rename_i hw
      split at hs
      · cases hs
        exact .transfer hw
      · cases hs
    · cases hs
  | handler react =>
    simp only [step] at hs
    split at hs
    · rename_i hw
      cases hs
      exact .handler react hw
    · cases hs
  | setProtocol p =>
    cases hs
    exact .setProtocol p

def system (host : Endian) (protocol : Protocol) (strand : Bool) : System Sender Event :=
  ⟨{ host := host, protocol := protocol, strand := strand }, step⟩

/-- The protocol stays as it is and no handler throws. -/
def Plain (_ : Sender) : Event → Prop
  | .handler react => react.throws = none
  | .setProtocol _ => False
  | _ => True

end Sender

instance (s : Sender) : (e : Sender.Event) → Decidable (Sender.Plain s e)
  | .handler react => inferInstanceAs (Decidable (react.throws = none))
  | .setProtocol _ => inferInstanceAs (Decidable False)
  | .request _ | .sendMessage | .transfer _ _ => inferInstanceAs (Decidable True)

/-- What an event asks for: a call from outside of the handlers, or what a handler asks. -/
def Sender.Event.asked : Sender.Event → List Request
  | .request r => [r]
  | .handler react => react.requests
  | _ => []

/-- The runs of the handler of a write. -/
def Sender.Event.isHandler : Sender.Event → Bool
  | .handler _ => true
  | _ => false

end Zar
