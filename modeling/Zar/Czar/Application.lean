import Zar.Communication.Connector
import Zar.Communication.Receiver
import Zar.Communication.Sender
/-!
# The client

`tapplication`: lines of the standard input are executed, and what the server
sends is written to the standard output. The three parts of the socket share a
strand; the files have one each. What a handler does is computed here, so an
event of a part must carry the reaction that its handler has.
-/

namespace Zar

/-- The calls from outside, which belong to the owner of a receiver. -/
def Receiver.Event.outside : Receiver.Event → Bool
  | .receive | .setProtocol _ => true
  | .arrive _ | .receiveMessage | .readSome _ _ | .complete _ _ | .fail _ _ => false

def Receiver.Event.reaction : Receiver.Event → ReceiveReaction
  | .complete _ react | .fail _ react => react
  | _ => {}

/-- The call that a step made of the handler. -/
def Receiver.newCall (r r' : Receiver) : Option Call := r'.calls[r.calls.length]?

def Sender.Event.outside : Sender.Event → Bool
  | .request _ | .setProtocol _ => true
  | .sendMessage | .transfer _ _ | .handler _ => false

def Sender.Event.reaction : Sender.Event → SendReaction
  | .handler react => react
  | _ => {}

def Connector.Event.outside : Connector.Event → Bool
  | .connect _ _ => true
  | .asioResolve | .resolved _ _ | .attempt _ _ | .connected _ => false

/-- `ttcp_socket`, as far as the client uses it. -/
structure TcpSocket where
  connector : Connector
  receiver : Receiver
  sender : Sender
  deriving DecidableEq, Repr

namespace TcpSocket

def connect (s : TcpSocket) (hostname service : Bytes) : TcpSocket :=
  { s with connector := s.connector.connect hostname service }

def receive (s : TcpSocket) : TcpSocket × Option Thrown := ({ s with receiver := s.receiver.receive.1 }, s.receiver.receive.2)

def sendAction (s : TcpSocket) (message : Bytes) : TcpSocket × Option Thrown :=
  ({ s with sender := (s.sender.request (.action message)).1 }, (s.sender.request (.action message)).2)

end TcpSocket

structure Application where
  bufferingMode : Bool := false
  commandBuffer : Bytes := []
  connected : Bool := false
  /-- Of the `tfile` for the standard input the receiver is used. -/
  input : Receiver
  /-- Of the `tfile` for the standard output the sender is used. -/
  output : Sender
  socket : TcpSocket
  deriving DecidableEq, Repr

namespace Application

def beginCmd : Bytes := text "begin"

def endCmd : Bytes := text "end"

def connectCmd : Bytes := text "connect "

def executeServer (a : Application) (command : Bytes) : Application × Except Thrown Bytes :=
  if !a.connected then (a, .error (.texception .socket_error (text "Not connected")))
  else if a.bufferingMode then ({ a with commandBuffer := a.commandBuffer ++ command ++ text "\n" }, .ok [])
  else
    match a.socket.sendAction command with
    | (socket, some t) => ({ a with socket := socket }, .error t)
    | (socket, none) => ({ a with socket := socket }, .ok command)

def connect (a : Application) (server : Bytes) : Application × Option Thrown :=
  if a.connected then (a, some (.texception .internal_failure (text "Conditional failure '!connected_'")))
  else ({ a with socket := a.socket.connect server (text "2048") }, none)

def executeClient (a : Application) (command : Bytes) : Application × Except Thrown Bytes :=
  if command = beginCmd then
    if a.bufferingMode then (a, .error (.texception .busy (text "Already buffering input")))
    else ({ a with bufferingMode := true }, .ok [])
  else if command = endCmd then
    if !a.bufferingMode then (a, .error (.texception .protocol_error (text "Not in buffering mode")))
    else executeServer { a with bufferingMode := false, commandBuffer := [] } a.commandBuffer
  else if substr command 0 connectCmd.length = connectCmd then
    if a.connected then (a, .error (.texception .busy (text "Already connected")))
    else
      match a.connect (command.drop connectCmd.length) with
      | (a, some t) => (a, .error t)
      | (a, none) => (a, .ok [])
  else (a, .error (.texception .invalid_value (text "Commend »" ++ command ++ text "« is not supported")))

/-- What a call throws, without its value. -/
def thrown (x : Application × Except Thrown Bytes) : Application × Option Thrown :=
  match x with
  | (a, .ok _) => (a, none)
  | (a, .error t) => (a, some t)

/-- `execute` for the contents of a message. -/
def executeLine (a : Application) (command : Bytes) : Application × Option Thrown :=
  if command = [] then (a, none)
  else if command.headD 0 = 47 then thrown (a.executeClient (command.drop 1))
  else thrown (a.executeServer command)

def execute (a : Application) (error : Bool) (message : Option Message) : Application × Option Thrown :=
  if error then (a, none)
  else
    match message with
    | none => (a, some (.texception .internal_failure (text "Conditional failure 'message'")))
    | some message => a.executeLine message.contents

def asioCallbackSocketConnect (a : Application) (error : Bool) : Application × Option Thrown :=
  let a := if !error then { a with connected := true } else a
  ({ a with socket := a.socket.receive.1 }, a.socket.receive.2)

/-- The message is there where there is no error. -/
def asioCallbackSocketReceive (a : Application) (error : Bool) (message : Option Message) : Application × Option Thrown :=
  if error then (a, none)
  else
    match message with
    | none => (a, none)
    | some message =>
      ({ a with output := (a.output.request (.action message.contents)).1 }, (a.output.request (.action message.contents)).2)

/-! ## Steps -/

inductive Event where
  | input (e : Receiver.Event)
  | output (e : Sender.Event)
  | connector (e : Connector.Event)
  | receiver (e : Receiver.Event)
  | sender (e : Sender.Event)
  deriving DecidableEq, Repr

/-- The handler `f` runs for the call of a step, if there is one. -/
def onCall (a : Application) (f : Application → Bool → Option Message → Application × Option Thrown) :
    Option Call → Application × Option Thrown
  | none => (a, none)
  | some call => f a call.error call.message

def stepInput (a : Application) (e : Receiver.Event) : Option Application :=
  match a.input.step e with
  | none => none
  | some input =>
    let x := a.onCall execute (a.input.newCall input)
    if e.reaction = ⟨none, x.2⟩ then some { x.1 with input := input } else none

def stepReceiver (a : Application) (e : Receiver.Event) : Option Application :=
  match a.socket.receiver.step e with
  | none => none
  | some receiver =>
    let x := a.onCall asioCallbackSocketReceive (a.socket.receiver.newCall receiver)
    if e.reaction = ⟨none, x.2⟩ then some { x.1 with socket := { x.1.socket with receiver := receiver } } else none

def stepConnector (a : Application) (e : Connector.Event) : Option Application :=
  match a.socket.connector.step e with
  | none => none
  | some connector =>
    let a' := { a with socket := { a.socket with connector := connector } }
    match connector.calls[a.socket.connector.calls.length]? with
    | none => some a'
    | some error => some (a'.asioCallbackSocketConnect error).1

/-- `asio_callback_socket_send` only logs. -/
def stepSender (a : Application) (e : Sender.Event) : Option Application :=
  if e.reaction = {} then
    (a.socket.sender.step e).map fun sender => { a with socket := { a.socket with sender := sender } }
  else none

/-- No send handler is set. -/
def stepOutput (a : Application) (e : Sender.Event) : Option Application :=
  if e.reaction = {} then (a.output.step e).map fun output => { a with output := output } else none

def step (a : Application) : Event → Option Application
  | .input e => if e.outside then none else a.stepInput e
  | .output e => if e.outside then none else a.stepOutput e
  | .connector e => if e.outside then none else a.stepConnector e
  | .receiver e => if e.outside then none else a.stepReceiver e
  | .sender e => if e.outside then none else a.stepSender e

/-- The constructor and `run`, up to the loop. -/
def run (host : Endian) : Application where
  input := Receiver.catching (Receiver.receive { host := host, protocol := .line, strand := true })
  output := { host := host, protocol := .line, strand := true }
  socket :=
    { connector := { strand := true, handler := true }
      receiver := { host := host, protocol := .telnet, strand := true }
      sender := { host := host, protocol := .telnet, strand := true } }

def system (host : Endian) : System Application Event := ⟨run host, step⟩

end Application
end Zar
