import Zar.Communication.Message
import Zar.Lib.System
/-!
# The receiver

`treceiver`: a message is read, handed to the receive handler, and the next
one is read. The asio reads are modelled by what is documented of them:
`async_read_until` searches what is in the buffer before it reads more and may
read past the delimiter, `async_read` of a size appends exactly that many
bytes. What the handler does is an argument of the step.
-/

namespace Zar

/-- The handler that a read of a fixed size is started with. -/
inductive ReadHandler where
  | asioReceiveHandlerReadLength | asioReceiveHandler
  deriving DecidableEq, Repr

/-- An outstanding read: `async_read_until`, always for `asio_receive_handler`,
or `async_read` with `transfer_exactly` and what it has read so far. -/
inductive Read where
  | until (terminator : Bytes)
  | exactly (bytes transferred : Nat) (handler : ReadHandler)
  deriving DecidableEq, Repr

/-- How many bytes a read may take from the stream at once, if it goes on. -/
def Read.wants (buffer unread : Bytes) : Read → Nat
  | .until terminator => if matchEnd terminator buffer = none then unread.length else 0
  | .exactly bytes transferred _ => min (bytes - transferred) unread.length

/-- What `bytes_transferred` is for a read that is complete. -/
def Read.complete (buffer : Bytes) : Read → Option Nat
  | .until terminator => matchEnd terminator buffer
  | .exactly bytes transferred _ => if transferred = bytes then some bytes else none

theorem Read.complete_exactly {buffer : Bytes} {bytes transferred n : Nat} {handler : ReadHandler} :
    (Read.exactly bytes transferred handler).complete buffer = some n ↔ transferred = bytes ∧ bytes = n := by
  simp [Read.complete]

def Read.take (k : Nat) : Read → Read
  | .until terminator => .until terminator
  | .exactly bytes transferred handler => .exactly bytes (transferred + k) handler

/-- What `bytes_transferred` is for a read that fails. -/
def Read.transferred : Read → Nat
  | .until _ => 0
  | .exactly _ transferred _ => transferred

/-- A call of `receive_handler_`. -/
structure Call where
  error : Bool
  bytesTransferred : Nat
  message : Option Message
  deriving DecidableEq, Repr

/-- What a receive handler does: it may change the protocol of the connection,
and it may throw. -/
structure ReceiveReaction where
  protocol : Option Protocol := none
  throws : Option Thrown := none
  deriving DecidableEq, Repr

structure Receiver where
  host : Endian
  protocol : Protocol
  /-- Whether a strand is enabled. -/
  strand : Bool
  totalBytesTransferred : Nat := 0
  inputBuffer : Bytes := []
  /-- The calls of `receive_message` that the strand still has to run. -/
  posted : Nat := 0
  reads : List Read := []
  /-- What arrived and was not read from the stream yet. -/
  unread : Bytes := []
  -- The history: what arrived, the calls of the handler, and what reached the loop of the io_service.
  arrived : Bytes := []
  calls : List Call := []
  caught : List Thrown := []
  deriving DecidableEq, Repr

namespace Receiver

def receiveUntil (r : Receiver) (terminator : Bytes) : Receiver := { r with reads := r.reads ++ [.until terminator] }

/-- `receive` of a number of bytes. -/
def receiveBytes (r : Receiver) (bytes : Nat) (handler : ReadHandler) : Receiver :=
  { r with reads := r.reads ++ [.exactly bytes 0 handler] }

def receiveMessage (r : Receiver) : Receiver × Option Thrown :=
  match r.protocol with
  | .direct => (r, some NOT_IMPLEMENTED_YET)
  | .line => (r.receiveUntil (text "\n"), none)
  | .telnet => (r.receiveUntil (text "\r\n"), none)
  | .basic => (r.receiveBytes 4 .asioReceiveHandlerReadLength, none)
  | .compressed => (r, some NOT_IMPLEMENTED_YET)

def receive (r : Receiver) : Receiver × Option Thrown :=
  if r.strand then ({ r with posted := r.posted + 1 }, none) else r.receiveMessage

def consume (r : Receiver) (n : Nat) : Receiver := { r with inputBuffer := r.inputBuffer.drop n }

def count (r : Receiver) (bytesTransferred : Nat) : Receiver :=
  { r with totalBytesTransferred := (r.totalBytesTransferred + bytesTransferred) % 2 ^ 64 }

/-- The call of `receive_handler_`. -/
def callHandler (r : Receiver) (call : Call) (react : ReceiveReaction) : Receiver × Option Thrown :=
  ({ r with calls := r.calls ++ [call], protocol := react.protocol.getD r.protocol }, react.throws)

/-- Both handlers of a read that ended with an error. -/
def receiveError (r : Receiver) (bytesTransferred : Nat) (react : ReceiveReaction) : Receiver × Option Thrown :=
  match r.callHandler ⟨true, bytesTransferred, none⟩ react with
  | (r, some t) => (r, some t)
  | (r, none) => (r.consume bytesTransferred, none)

def asioReceiveHandlerReadLength (r : Receiver) (error : Bool) (bytesTransferred : Nat) (react : ReceiveReaction) :
    Receiver × Option Thrown :=
  let r := r.count bytesTransferred
  if error then r.receiveError bytesTransferred react
  else if bytesTransferred ≠ 4 then
    (r, some (.texception .internal_failure (text "Conditional failure 'bytes_transferred == 4'")))
  else
    let length := networkBufferToHost r.host r.inputBuffer
    ((r.consume bytesTransferred).receiveBytes length.toNat .asioReceiveHandler, none)

def asioReceiveHandler (r : Receiver) (error : Bool) (bytesTransferred : Nat) (react : ReceiveReaction) :
    Receiver × Option Thrown :=
  let r := r.count bytesTransferred
  if error then r.receiveError bytesTransferred react
  else
    match Message.decode r.host r.protocol (r.inputBuffer.take bytesTransferred) with
    -- The bytes of the message stay in the buffer.
    | .error t => (r, some t)
    | .ok message =>
      match (r.consume bytesTransferred).callHandler ⟨false, bytesTransferred, some message⟩ react with
      | (r, some t) => (r, some t)
      | (r, none) => r.receive

/-! ## Steps -/

/-- The loop of the io_service catches what a handler throws. -/
def catching (x : Receiver × Option Thrown) : Receiver := { x.1 with caught := x.1.caught ++ x.2.toList }

/-- The handler of a read runs. -/
def handle (r : Receiver) (read : Read) (error : Bool) (bytesTransferred : Nat) (react : ReceiveReaction) :
    Receiver × Option Thrown :=
  match read with
  | .exactly _ _ .asioReceiveHandlerReadLength => r.asioReceiveHandlerReadLength error bytesTransferred react
  | _ => r.asioReceiveHandler error bytesTransferred react

/-- What can happen to a receiver. The reads are numbered as they were started. -/
inductive Event where
  | arrive (bytes : Bytes)
  /-- A call from outside of the handlers. -/
  | receive
  /-- The strand runs a posted `receive_message`. -/
  | receiveMessage
  /-- A read takes some bytes from the stream. -/
  | readSome (i k : Nat)
  /-- The handler of a read that is complete runs. -/
  | complete (i : Nat) (react : ReceiveReaction)
  /-- A read fails, and its handler runs. -/
  | fail (i : Nat) (react : ReceiveReaction)
  | setProtocol (protocol : Protocol)
  deriving DecidableEq, Repr

def step (r : Receiver) : Event → Option Receiver
  | .arrive bs => some { r with unread := r.unread ++ bs, arrived := r.arrived ++ bs }
  | .receive => some (catching r.receive)
  | .receiveMessage => if 0 < r.posted then some (catching ({ r with posted := r.posted - 1 }).receiveMessage) else none
  | .readSome i k =>
    match r.reads[i]? with
    | none => none
    | some read =>
      if 0 < k ∧ k ≤ read.wants r.inputBuffer r.unread then
        some { r with
          inputBuffer := r.inputBuffer ++ r.unread.take k
          unread := r.unread.drop k
          reads := r.reads.set i (read.take k) }
      else none
  | .complete i react =>
    match r.reads[i]? with
    | none => none
    | some read =>
      match read.complete r.inputBuffer with
      | none => none
      | some n => some (catching (({ r with reads := r.reads.eraseIdx i }).handle read false n react))
  | .fail i react =>
    match r.reads[i]? with
    | none => none
    | some read => some (catching (({ r with reads := r.reads.eraseIdx i }).handle read true read.transferred react))
  | .setProtocol p => some { r with protocol := p }

/-- What each event finds, and leaves. -/
inductive Stepped (r : Receiver) : Event → Receiver → Prop
  | arrive (bytes : Bytes) : Stepped r (.arrive bytes) { r with unread := r.unread ++ bytes, arrived := r.arrived ++ bytes }
  | receive : Stepped r .receive (catching r.receive)
  | receiveMessage (hpost : 0 < r.posted) :
      Stepped r .receiveMessage (catching ({ r with posted := r.posted - 1 }).receiveMessage)
  | readSome {i k : Nat} {read : Read} (hi : r.reads[i]? = some read)
      (hk : 0 < k ∧ k ≤ read.wants r.inputBuffer r.unread) :
      Stepped r (.readSome i k) { r with
        inputBuffer := r.inputBuffer ++ r.unread.take k
        unread := r.unread.drop k
        reads := r.reads.set i (read.take k) }
  | complete {i n : Nat} {read : Read} (react : ReceiveReaction) (hi : r.reads[i]? = some read)
      (hn : read.complete r.inputBuffer = some n) :
      Stepped r (.complete i react) (catching (({ r with reads := r.reads.eraseIdx i }).handle read false n react))
  | fail {i : Nat} {read : Read} (react : ReceiveReaction) (hi : r.reads[i]? = some read) :
      Stepped r (.fail i react)
        (catching (({ r with reads := r.reads.eraseIdx i }).handle read true read.transferred react))
  | setProtocol (p : Protocol) : Stepped r (.setProtocol p) { r with protocol := p }

theorem step_cases {r r' : Receiver} {e : Event} (hs : r.step e = some r') : Stepped r e r' := by
  cases e with
  | arrive bytes =>
    cases hs
    exact .arrive bytes
  | receive =>
    cases hs
    exact .receive
  | setProtocol p =>
    cases hs
    exact .setProtocol p
  | receiveMessage =>
    simp only [step] at hs
    split at hs
    · rename_i hpost
      cases hs
      exact .receiveMessage hpost
    · cases hs
  | readSome i k =>
    simp only [step] at hs
    split at hs
    · cases hs
    · rename_i read hi
      split at hs
      · rename_i hk
        cases hs
        exact .readSome hi hk
      · cases hs
  | complete i react =>
    simp only [step] at hs
    split at hs
    · cases hs
    · rename_i read hi
      split at hs
      · cases hs
      · rename_i n hn
        cases hs
        exact .complete react hi hn
  | fail i react =>
    simp only [step] at hs
    split at hs
    · cases hs
    · rename_i read hi
      cases hs
      exact .fail react hi

/-- A receiver with an empty buffer on which `receive()` was called. -/
def system (host : Endian) (protocol : Protocol) (strand : Bool) : System Receiver Event :=
  ⟨catching (receive { host := host, protocol := protocol, strand := strand }), step⟩

/-- What happens without further arrivals and errors: the steps of the receiver itself, under
handlers that neither throw nor change the protocol. -/
def Internal (_ : Receiver) : Event → Prop
  | .receiveMessage => True
  | .readSome _ _ => True
  | .complete _ react => react = {}
  | _ => False

/-- Arrivals, in any pieces and at any time, and what the receiver does with them. -/
def Plain (r : Receiver) : Event → Prop
  | .arrive _ => True
  | e => Internal r e

instance (r : Receiver) : (e : Event) → Decidable (Internal r e)
  | .receiveMessage | .readSome _ _ => inferInstanceAs (Decidable True)
  | .complete _ react => inferInstanceAs (Decidable (react = {}))
  | .arrive _ | .receive | .fail _ _ | .setProtocol _ => inferInstanceAs (Decidable False)

instance (r : Receiver) : (e : Event) → Decidable (Plain r e)
  | .arrive _ | .receiveMessage | .readSome _ _ => inferInstanceAs (Decidable True)
  | .complete _ react => inferInstanceAs (Decidable (react = {}))
  | .receive | .fail _ _ | .setProtocol _ => inferInstanceAs (Decidable False)

end Receiver
end Zar
