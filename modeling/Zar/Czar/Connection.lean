import Zar.Czar.Steps
/-!
# The flag of the connection

`connected_` is set when an attempt succeeds, and nothing clears it. So it tells of a
connection that is lost only as long as there never was one.
-/

namespace Zar

def Line.isConnect : Line → Bool
  | .connect _ => true
  | .blank | .begin | .end | .unknown _ | .server _ => false

namespace Application

variable {host : Endian} {a a' b c : Application} {e : Event} {es es' : List Event}

theorem effect_connector (a : Application) (l : Line) :
    (a.effect l).socket.connector.calls = a.socket.connector.calls ∧
      a.socket.connector.Kept (a.effect l).socket.connector ∧
      (a.effect l).socket.connector.passedEnd = a.socket.connector.passedEnd ∧
      (a.effect l).socket.connector.unfinished = a.socket.connector.unfinished + if l.isConnect then 1 else 0 := by
  cases l with
  | connect server =>
    refine ⟨Connector.connect_calls _ _ _, Connector.connect_kept _ _ _, ?_, Connector.connect_unfinished _ _ _⟩
    exact Connector.connect_passedEnd _ _ _
  | blank | begin | unknown | «end» => exact ⟨rfl, ⟨rfl, rfl⟩, rfl, rfl⟩
  | server command =>
    cases hb : a.bufferingMode with
    | true =>
      have he : a.effect (.server command) = { a with commandBuffer := a.commandBuffer ++ command ++ text "\n" } := by
        simp [effect, hb]
      rw [he]
      exact ⟨rfl, ⟨rfl, rfl⟩, rfl, rfl⟩
    | false =>
      have he : a.effect (.server command) = a.sendAction command := by simp [effect, hb]
      rw [he]
      exact ⟨rfl, ⟨rfl, rfl⟩, rfl, rfl⟩

theorem effect_connected (a : Application) (l : Line) : (a.effect l).connected = a.connected := by
  cases l with
  | blank | begin | unknown | connect | «end» => rfl
  | server command => cases hb : a.bufferingMode <;> simp [effect, hb, sendAction]

/-- What a line does to the socket: it asks for a connection, if it is one of those lines and
there is none, and leaves the reads alone. -/
structure Asked (a a' : Application) (asks : Prop) [Decidable asks] : Prop where
  connected : a'.connected = a.connected
  receiver : a'.socket.receiver = a.socket.receiver
  calls : a'.socket.connector.calls = a.socket.connector.calls
  kept : a.socket.connector.Kept a'.socket.connector
  passedEnd : a'.socket.connector.passedEnd = a.socket.connector.passedEnd
  unfinished : a'.socket.connector.unfinished = a.socket.connector.unfinished + if asks then 1 else 0

theorem executeLine_asked (hst : a.Strands) (line : Bytes) :
    Asked a (a.executeLine line).1 ((parseLine line).isConnect = true ∧ a.connected = false) := by
  by_cases href : a.Refused (parseLine line)
  · obtain ⟨t, ht⟩ := executeLine_refused hst.sender href
    obtain ⟨-, hsock, hconn⟩ := refusal_parts a (parseLine line)
    have hnot : ¬ ((parseLine line).isConnect = true ∧ a.connected = false) := by
      rintro ⟨hl, hc⟩
      cases hp : parseLine line <;> simp_all [Line.isConnect, Refused]
    rw [ht]
    exact ⟨hconn, by rw [hsock], by rw [hsock], by rw [hsock]; exact ⟨rfl, rfl⟩, by rw [hsock],
      by rw [hsock, if_neg hnot]; rfl⟩
  · obtain ⟨-, hrec, -⟩ := effect_parts a (parseLine line)
    obtain ⟨hcalls, hkept, hend, hunf⟩ := effect_connector a (parseLine line)
    have hopen : (parseLine line).isConnect = true → a.connected = false := by
      intro hl
      cases hp : parseLine line <;> simp_all [Line.isConnect, Refused]
    rw [executeLine_accepted hst.sender href]
    exact ⟨effect_connected a (parseLine line), hrec, hcalls, hkept, hend, by simp only [hunf, and_iff_left_of_imp hopen]⟩

/-- The parts are set up as `run` does it. -/
structure Handled (a : Application) : Prop where
  strands : a.Strands
  strand : a.socket.connector.strand = true
  handler : a.socket.connector.handler = true

theorem Handled.change (h : Handled a) (hc : Change a e a') : Handled a' := by
  have hst := h.strands.change hc
  cases hc with
  | @line _ _ line _ _ _ _ =>
    have hkept := (executeLine_asked h.strands line).kept
    exact ⟨hst, hkept.strand.trans h.strand, hkept.handler.trans h.handler⟩
  | input | output | sender | receiver => exact ⟨hst, h.strand, h.handler⟩
  | connector hs | connected hs =>
    have hkept := Connector.step_kept hs
    exact ⟨hst, hkept.strand.trans h.strand, hkept.handler.trans h.handler⟩

theorem Handled.init (host : Endian) : Handled (run host) := ⟨⟨rfl, rfl, rfl⟩, rfl, rfl⟩

theorem Reachable.handled (h : (system host).Reachable a) : Handled a :=
  h.inv Handled (Handled.init host) fun _ _ _ hi hs => hi.change (step_change hi.strands hs)

/-! ## After the server is gone -/

/-- The event does not report that an attempt succeeded. -/
def NoSuccess (a : Application) : Event → Prop
  | .connector e => ¬ a.socket.connector.Succeeds e
  | .input _ | .output _ | .receiver _ | .sender _ => True

instance (a : Application) : (e : Event) → Decidable (NoSuccess a e)
  | .connector e => inferInstanceAs (Decidable (¬ a.socket.connector.Succeeds e))
  | .input _ | .output _ | .receiver _ | .sender _ => inferInstanceAs (Decidable True)

/-- The flag is clear, so that server commands are rejected and `/connect` is accepted. -/
structure Offline (a : Application) : Prop where
  flag : a.connected = false
  server : ∀ command, a.executeServer command = (a, .error (.texception .socket_error (text "Not connected")))
  connect : ∀ server, a.executeClient (connectCmd ++ server) =
    ({ a with socket := a.socket.connect server (text "2048") }, .ok [])

theorem offline_iff : Offline a ↔ a.connected = false := by
  refine ⟨Offline.flag, fun hc => ⟨hc, fun command => by simp [executeServer, hc], fun server => ?_⟩⟩
  have hhead : (connectCmd ++ server).headD 0 = 99 := rfl
  have hbegin : connectCmd ++ server ≠ beginCmd := by
    intro he
    rw [he] at hhead
    exact absurd hhead (by decide)
  have hend : connectCmd ++ server ≠ endCmd := by
    intro he
    rw [he] at hhead
    exact absurd hhead (by decide)
  have hsub : substr (connectCmd ++ server) 0 connectCmd.length = connectCmd := by
    simp [substr]
  rw [executeClient, if_neg hbegin, if_neg hend, if_pos hsub]
  simp [hc, connect]

/-- The flag is set by an attempt that succeeds, and never cleared. -/
theorem Change.flag (hh : Handled a) (hc : Change a e a') :
    a'.connected = false ↔ a.connected = false ∧ NoSuccess a e := by
  cases hc with
  | @line _ _ line _ _ _ _ =>
    simp only [(executeLine_asked hh.strands line).connected, NoSuccess, and_true]
  | input | output | sender | receiver => exact (and_iff_left trivial).symm
  | connector hs _ hc =>
    rcases Connector.step_succeeds hh.handler hs with ⟨-, hnot⟩ | ⟨error, hc', -⟩
    · exact (and_iff_left hnot).symm
    · simp [hc] at hc'
  | @connected _ _ error hs _ hc =>
    rcases Connector.step_succeeds hh.handler hs with ⟨hc', -⟩ | ⟨error', hc', hiff⟩
    · simp [hc] at hc'
    · obtain rfl : error = error' := by simpa [hc] using hc'
      simp only [NoSuccess, ← hiff]
      cases a.connected <;> cases error <;> simp

theorem Reachable.flag (h : (system host).Reachable a) (hs : a.step e = some a') :
    a'.connected = false ↔ a.connected = false ∧ NoSuccess a e := by
  have hh := Reachable.handled h
  exact (step_change hh.strands hs).flag hh

/-- As long as no attempt succeeds the flag stays as it is. -/
theorem Reachable.flag_steps (h : (system host).Reachable b) (hs : (system host).Steps NoSuccess b es c) :
    c.connected = false ↔ b.connected = false := by
  refine (hs.inv (fun c => (system host).Reachable c ∧ (c.connected = false ↔ b.connected = false)) ⟨h, Iff.rfl⟩ ?_).2
  rintro c e c' ⟨hr, hc⟩ ho hstep
  refine ⟨hr.steps (System.Steps.one ho hstep), ?_⟩
  rw [Reachable.flag hr hstep, and_iff_left ho, hc]

theorem Run.flag_iff (h : (system host).Run es a) : a.connected = false ↔ (system host).RunIf NoSuccess es a :=
  h.iff_runIf (fun a => a.connected = false) rfl fun _ _ _ hr hs => Reachable.flag hr hs

/-- After a failed read of the socket, and before an attempt succeeds, the client is offline
exactly where no attempt had succeeded before. -/
theorem offline_after_error (h : (system host).Run es a) {i : Nat} {react : ReceiveReaction}
    (hf : a.step (.receiver (.fail i react)) = some b) (hs : (system host).Steps NoSuccess b es' c) :
    Offline c ↔ (system host).RunIf NoSuccess es a := by
  have hstep : (system host).step a (.receiver (.fail i react)) = some b := hf
  have hb : (system host).Reachable b := ⟨_, .snoc h trivial hstep⟩
  rw [offline_iff, Reachable.flag_steps hb hs, Reachable.flag h.reachable hf, ← Run.flag_iff h]
  exact and_iff_left trivial

/-- The name is not resolved, and the read that is started all the same fails. -/
theorem offline_after_error_unresolved : ∃ a b,
    (system .little).Run [.input .receiveMessage, .input (.arrive (text "/connect x\n")), .input (.readSome 0 11),
      .input (.complete 0 {}), .connector .asioResolve, .connector (.resolved 0 none), .receiver .receiveMessage] a ∧
    a.step (.receiver (.fail 0 {})) = some b ∧
    (Offline b ↔ (system .little).RunIf NoSuccess [.input .receiveMessage, .input (.arrive (text "/connect x\n")),
      .input (.readSome 0 11), .input (.complete 0 {}), .connector .asioResolve, .connector (.resolved 0 none),
      .receiver .receiveMessage] a) ∧ Offline b := by
  have hexec : (system .little).exec NoSuccess (system .little).init [.input .receiveMessage,
      .input (.arrive (text "/connect x\n")), .input (.readSome 0 11), .input (.complete 0 {}), .connector .asioResolve,
      .connector (.resolved 0 none), .receiver .receiveMessage] = some _ := rfl
  have hrun := System.Steps.of_exec hexec
  have hiff := @offline_after_error .little _ _ _ _ _ (System.RunIf.run hrun) 0 {} rfl .nil
  exact ⟨_, _, System.RunIf.run hrun, rfl, hiff, hiff.2 hrun⟩

/-- The server accepts the connection and closes it. -/
theorem connected_after_error : ∃ a b,
    (system .little).Run [.input .receiveMessage, .input (.arrive (text "/connect x\n")), .input (.readSome 0 11),
      .input (.complete 0 {}), .connector .asioResolve, .connector (.resolved 0 (some [⟨0, 2048⟩])),
      .connector (.attempt 0 true), .connector (.connected 0), .receiver .receiveMessage] a ∧
    a.step (.receiver (.fail 0 {})) = some b ∧ ¬ Offline b ∧ (b.executeServer (text "a")).2 = .ok (text "a") ∧
    (b.executeClient (text "connect y")).2 = .error (.texception .busy (text "Already connected")) := by
  have hexec : (system .little).exec (fun _ _ => True) (system .little).init [.input .receiveMessage,
      .input (.arrive (text "/connect x\n")), .input (.readSome 0 11), .input (.complete 0 {}), .connector .asioResolve,
      .connector (.resolved 0 (some [⟨0, 2048⟩])), .connector (.attempt 0 true), .connector (.connected 0),
      .receiver .receiveMessage] = some _ := rfl
  exact ⟨_, _, System.Steps.of_exec hexec, rfl, fun h => absurd h.flag (by decide), rfl, rfl⟩

end Application
end Zar
