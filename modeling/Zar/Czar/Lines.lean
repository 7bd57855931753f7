import Zar.Czar.Application
import Zar.Communication.Reading
/-!
# What a line does

A line is a command of the client, which it may refuse, or goes to the server.
`executeLine_eq` says what each does to the client and which are refused.
-/

namespace Zar

/-- What `execute` takes a line for. -/
inductive Line where
  | blank
  | begin
  | «end»
  | connect (server : Bytes)
  | unknown (command : Bytes)
  | server (command : Bytes)
  deriving DecidableEq, Repr

namespace Application

def parseLine (line : Bytes) : Line :=
  if line = [] then .blank
  else if line.headD 0 = 47 then
    let command := line.drop 1
    if command = beginCmd then .begin
    else if command = endCmd then .end
    else if substr command 0 connectCmd.length = connectCmd then .connect (command.drop connectCmd.length)
    else .unknown command
  else .server line

/-- The lines that are answered with an exception. -/
def Refused (a : Application) : Line → Prop
  | .blank => False
  | .begin => a.bufferingMode = true
  | .end => a.bufferingMode = false ∨ a.connected = false
  | .connect _ => a.connected = true
  | .unknown _ => True
  | .server _ => a.connected = false

instance (a : Application) : (l : Line) → Decidable (a.Refused l)
  | .blank => inferInstanceAs (Decidable False)
  | .begin => inferInstanceAs (Decidable (a.bufferingMode = true))
  | .end => inferInstanceAs (Decidable (a.bufferingMode = false ∨ a.connected = false))
  | .connect _ => inferInstanceAs (Decidable (a.connected = true))
  | .unknown _ => inferInstanceAs (Decidable True)
  | .server _ => inferInstanceAs (Decidable (a.connected = false))

/-- An action that goes to the socket. -/
def sendAction (a : Application) (action : Bytes) : Application := { a with socket := (a.socket.sendAction action).1 }

/-- What a line that is not refused does. -/
def effect (a : Application) : Line → Application
  | .blank | .unknown _ => a
  | .begin => { a with bufferingMode := true }
  | .end => sendAction { a with bufferingMode := false, commandBuffer := [] } a.commandBuffer
  | .connect server => { a with socket := a.socket.connect server (text "2048") }
  | .server command =>
    if a.bufferingMode then { a with commandBuffer := a.commandBuffer ++ command ++ text "\n" } else a.sendAction command

/-- A line that is refused changes nothing, but `/end` ends the buffering first. -/
def refusal (a : Application) : Line → Application
  | .end => { a with bufferingMode := false, commandBuffer := if a.bufferingMode then [] else a.commandBuffer }
  | _ => a

variable {a a' : Application} {line : Bytes}

/-- With a strand a message is queued, and nothing is thrown. -/
theorem request_strand {s : Sender} (hs : s.strand = true) (r : Request) :
    s.request r = ({ s with
      id := (r.message s.id).1
      called := s.called ++ [(r.message s.id).2]
      posted := s.posted ++ [(r.message s.id).2] }, none) := by
  simp [Sender.request, Sender.strandExecute, hs]

theorem executeServer_eq (hs : a.socket.sender.strand = true) (command : Bytes) :
    thrown (a.executeServer command) =
      if a.connected = false then (a, some (.texception .socket_error (text "Not connected")))
      else (a.effect (.server command), none) := by
  unfold executeServer
  cases hc : a.connected with
  | false => rfl
  | true =>
    cases hb : a.bufferingMode with
    | true => simp [thrown, effect, hc, hb]
    | false => simp [thrown, effect, hc, hb, sendAction, TcpSocket.sendAction, request_strand hs]

theorem executeClient_eq (hs : a.socket.sender.strand = true) (hne : line ≠ []) (hslash : line.headD 0 = 47) :
    if a.Refused (parseLine line) then
      ∃ t, thrown (a.executeClient (line.drop 1)) = (a.refusal (parseLine line), some t)
    else thrown (a.executeClient (line.drop 1)) = (a.effect (parseLine line), none) := by
  have hp : parseLine line =
      if line.drop 1 = beginCmd then .begin
      else if line.drop 1 = endCmd then .end
      else if substr (line.drop 1) 0 connectCmd.length = connectCmd then .connect ((line.drop 1).drop connectCmd.length)
      else .unknown (line.drop 1) := by
    simp only [parseLine, hne, hslash, if_true, if_false]
  rw [hp]
  unfold executeClient
  split
  · cases hb : a.bufferingMode <;> simp [Refused, hb, thrown, effect, refusal]
  · split
    · cases hb : a.bufferingMode with
      | false =>
        simp only [Refused, hb, true_or, if_true, Bool.not_false, thrown, refusal, Bool.false_eq_true, if_false]
        exact ⟨_, by rw [← hb]⟩
      | true =>
        have hserver := executeServer_eq (a := { a with bufferingMode := false, commandBuffer := [] }) hs a.commandBuffer
        simp only [Refused, hb, Bool.not_true, Bool.false_eq_true, if_false, Bool.true_eq_false, false_or, hserver]
        cases hc : a.connected <;> simp [effect, refusal, hc, hb, sendAction]
    · split
      · cases hc : a.connected <;> simp [Refused, hc, thrown, effect, refusal, connect]
      · simp [Refused, thrown, refusal]

/-- A line is refused with an exception, or it has its effect. -/
theorem executeLine_eq (hs : a.socket.sender.strand = true) (line : Bytes) :
    if a.Refused (parseLine line) then ∃ t, a.executeLine line = (a.refusal (parseLine line), some t)
    else a.executeLine line = (a.effect (parseLine line), none) := by
  by_cases hne : line = []
  · subst hne
    simp [executeLine, parseLine, Refused, effect]
  · by_cases hslash : line.headD 0 = 47
    · rw [executeLine, if_neg hne, if_pos hslash]
      exact executeClient_eq hs hne hslash
    · have hp : parseLine line = .server line := by simp only [parseLine, hne, hslash, if_false]
      rw [executeLine, if_neg hne, if_neg hslash, hp, executeServer_eq hs]
      cases hc : a.connected <;> simp [Refused, refusal, hc]

theorem executeLine_refused (hs : a.socket.sender.strand = true) (h : a.Refused (parseLine line)) :
    ∃ t, a.executeLine line = (a.refusal (parseLine line), some t) := by
  have heq := executeLine_eq hs line
  rwa [if_pos h] at heq

theorem executeLine_accepted (hs : a.socket.sender.strand = true) (h : ¬ a.Refused (parseLine line)) :
    a.executeLine line = (a.effect (parseLine line), none) := by
  have heq := executeLine_eq hs line
  rwa [if_neg h] at heq

end Application
end Zar
