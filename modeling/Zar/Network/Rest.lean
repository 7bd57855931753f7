import Mathlib.Data.Prod.Lex
import Zar.Czar.Overlap
import Zar.Network.Conversation
/-!
# The network comes to rest

What is under way goes one way: from the sender of a client over its stream to the server, and
back over the stream of the session to the standard output. Each stage only fills the ones
behind it, so the steps come to an end; and where nothing failed, everything was answered.
-/

namespace Zar

/-! ## The handlers of a client -/

namespace Sender

/-- A step of a sender itself, in which the write does not fail. -/
def Event.Own : Event → Prop
  | .sendMessage | .transfer false _ | .handler _ => True
  | .request _ | .transfer true _ | .setProtocol _ => False

theorem Event.Own.silent {e : Event} (h : e.Own) (hr : e.reaction = {}) : Silent e := by
  cases e with
  | sendMessage | transfer => trivial
  | handler react =>
    obtain rfl : react = {} := hr
    rfl
  | request | setProtocol => exact h.elim

/-- A sender with nothing to write does nothing. -/
theorem Event.Own.step_none {s : Sender} {e : Event} (h : e.Own) (hw : s.writes = []) (hp : s.posted = []) : s.step e = none := by
  cases e with
  | sendMessage => simp [Sender.step, hp]
  | transfer | handler => simp [Sender.step, hw]
  | request | setProtocol => exact h.elim

end Sender

namespace Receiver

/-- A receiver whose reads wait for bytes does nothing. -/
theorem Event.Own.step_none {r : Receiver} {e : Event} (h : e.Own) (hp : r.posted = 0) (hu : r.unread = [])
    (hreads : ∀ read ∈ r.reads, read.complete r.inputBuffer = none) : r.step e = none := by
  by_contra hne
  obtain ⟨r', hs⟩ := Option.ne_none_iff_exists'.1 hne
  cases step_cases hs with
  | receiveMessage hpost => omega
  | @readSome i k read hi hk =>
    have hwants : read.wants r.inputBuffer r.unread = 0 := by
      rw [hu]
      cases read <;> simp [Read.wants]
    omega
  | complete react hi hn =>
    rw [hreads _ (List.mem_of_getElem? hi)] at hn
    cases hn
  | arrive | receive | fail | setProtocol => exact h.elim

/-- A receiver whose own steps are over, and which still reads. -/
theorem nothing_left {r : Receiver} (h : ∀ e : Event, e.Own → e.reaction = {} → r.step e = none)
    (hopen : 0 < r.posted + r.reads.length) {frames : List Bytes} (hf : Several r frames) : Idle r := by
  have hposted : r.posted = 0 := by
    by_contra hne
    have hn := h .receiveMessage trivial rfl
    simp [Receiver.step, Nat.pos_of_ne_zero hne] at hn
  have hreads : r.reads ≠ [] := by
    rintro hnil
    rw [hposted, hnil] at hopen
    exact absurd hopen (Nat.lt_irrefl 0)
  have hcomplete : ∀ read ∈ r.reads, read.complete r.inputBuffer = none := by
    intro read hmem
    obtain ⟨i, hi⟩ := List.mem_iff_getElem?.1 hmem
    cases hc : read.complete r.inputBuffer with
    | none => rfl
    | some n =>
      have hn := h (.complete i {}) rfl rfl
      simp [Receiver.step, hi, hc] at hn
  refine ⟨hposted, hreads, ?_, hcomplete⟩
  obtain ⟨read, reads, hcons⟩ := List.exists_cons_of_ne_nil hreads
  have hmem : read ∈ r.reads := by
    rw [hcons]
    exact List.mem_cons_self
  have hnone := hcomplete read hmem
  rw [hf.reads read hmem] at hnone
  -- A read that finds no line end would read on.
  by_contra hne
  have hn := h (.readSome 0 r.unread.length) trivial rfl
  have hwants : read.wants r.inputBuffer r.unread = r.unread.length := by
    rw [hf.reads read hmem]
    exact if_pos hnone
  simp [Receiver.step, hcons, hwants, List.length_pos_iff.2 hne] at hn

end Receiver

namespace Application

variable {host : Endian} {a a' : Application} {e : Event}

/-- What the socket and the standard output do by themselves. -/
def Event.Own : Event → Prop
  | .sender e | .output e => e.Own
  | .receiver e => e.Own
  | .input _ | .connector _ => False

theorem stepSender_some {e : Sender.Event} (ho : e.Own) (hr : e.reaction = {}) {sender : Sender}
    (hs : a.socket.sender.step e = some sender) : ∃ a', a.step (.sender e) = some a' := by
  have hout : e.outside = false := by
    cases e with
    | sendMessage | transfer | handler => rfl
    | request | setProtocol => exact ho.elim
  simp [step, hout, stepSender, hr, hs]

theorem stepOutput_some {e : Sender.Event} (ho : e.Own) (hr : e.reaction = {}) {output : Sender}
    (hs : a.output.step e = some output) : ∃ a', a.step (.output e) = some a' := by
  have hout : e.outside = false := by
    cases e with
    | sendMessage | transfer | handler => rfl
    | request | setProtocol => exact ho.elim
  simp [step, hout, stepOutput, hr, hs]

/-- The standard output takes every message. -/
theorem stepReceiver_some (hst : a.Strands) {e : Receiver.Event} (ho : e.outside = false) (hr : e.reaction = {})
    {receiver : Receiver} (hs : a.socket.receiver.step e = some receiver) : ∃ a', a.step (.receiver e) = some a' := by
  have hcall : (a.onCall asioCallbackSocketReceive (a.socket.receiver.newCall receiver)).2 = none := by
    rcases Receiver.step_newCall hs with ⟨hn, -⟩ | ⟨n, hn, -⟩ | ⟨n, m, hn, -⟩
    · rw [hn]
      rfl
    · rw [hn]
      rfl
    · rw [hn]
      simp only [onCall, asioCallbackSocketReceive, Bool.false_eq_true, if_false, request_strand hst.output]
  simp [step, ho, stepReceiver, hs, hr, hcall]

end Application
/-! ## What is left to do -/

namespace Network
open Channel (next next_length arrived_all)

variable {host : Endian} {hosts : List Endian} {N N' : Network} {S : Server} {a a' : Application} {x : Connection}
  {c k i n : Nat} {e : Event}

/-- The handlers of both sides, and the bytes on the way. Nobody types or connects, and nothing fails. -/
def Internal (N : Network) : Event → Prop
  | .client _ e => e.Own
  | .server e => Server.Internal N.server e
  | .toServer _ _ | .toClient _ _ => True

/-- No connection is made. -/
theorem dial_own {e : Application.Event} (h : e.Own) (c : Nat) (a : Application) : N.dial c a e = N := by
  cases e with
  | connector => exact h.elim
  | sender | output | input | receiver => rfl

def total (N : Network) (f : Application → Nat) : Nat := (N.clients.map f).sum

/-- What arrived of a connection at its session. -/
def arrived (N : Network) (x : Connection) : Bytes := (x.key.map fun k => (N.server.receiver k).arrived).getD []

/-- The bytes on the way to the server. -/
def upward (N : Network) : Nat := (N.connections.map fun x => (N.up x).length - (N.arrived x).length).sum

/-- The bytes on the way to the clients. -/
def downward (N : Network) : Nat := (N.connections.map fun x => (N.down x).length - x.received.length).sum

/-- The stages in their order. -/
def rank (N : Network) : Nat ×ₗ Nat ×ₗ Nat ×ₗ Nat ×ₗ Nat ×ₗ Nat :=
  toLex (N.total (·.socket.sender.work), toLex (N.upward, toLex (N.server.work, toLex (N.downward,
    toLex (N.total (·.socket.receiver.work), N.total (·.output.work))))))

theorem total_lt (f : Application → Nat) (hc : N.clients[c]? = some a) (h : f a' < f a) :
    (N.setClient c a').total f < N.total f := by
  have hsum := sum_map_set (f := f) hc a'
  unfold total setClient
  dsimp only
  omega

theorem total_eq (f : Application → Nat) (hc : N.clients[c]? = some a) (h : f a' = f a) :
    (N.setClient c a').total f = N.total f := by
  have hsum := sum_map_set (f := f) hc a'
  unfold total setClient
  dsimp only
  omega

theorem arrived_eq (hk : x.key = some k) : N.arrived x = (N.server.receiver k).arrived := by
  unfold arrived
  rw [hk]
  rfl

theorem upward_eq (hc : N.clients[c]? = some a) (h : a'.socket.sender.stream = a.socket.sender.stream) :
    (N.setClient c a').upward = N.upward := by
  have hup : ∀ x, (N.setClient c a').up x = N.up x := by
    intro x
    unfold up
    rw [written_set hc]
    split
    · rename_i hx
      rw [hx, written_eq hc, h]
    · rfl
  unfold upward
  simp only [hup]
  rfl

/-! ## Each step leaves less to do -/

/-- A step of a client leaves less at its own stage, and what comes before it as it was. -/
theorem client_lt {host' : Endian} (hc : N.clients[c]? = some a) (hr : (Application.system host').Reachable a)
    {e : Application.Event} (ho : e.Own) (hs : a.step e = some a') : (N.setClient c a').rank < N.rank := by
  have hst := Application.Reachable.strands hr
  have hstreams := Application.Reachable.streams hr
  unfold rank
  simp only [Prod.Lex.toLex_lt_toLex]
  cases Application.step_change hst hs with
  | @sender e sender hstep _ hreact =>
    left
    exact total_lt (fun a => a.socket.sender.work) hc (hstreams.sender.work_lt (Sender.Event.Own.silent ho hreact) hstep)
  | @receiver e receiver output hstep _ _ hout =>
    obtain ⟨frames, hf⟩ := hstreams.receiver
    right
    refine ⟨total_eq _ hc rfl, .inr ⟨upward_eq hc rfl, .inr ⟨rfl, .inr ⟨rfl, .inl ?_⟩⟩⟩⟩
    exact total_lt (fun a => a.socket.receiver.work) hc (hf.work_lt ho hstep)
  | @output e output hstep _ hreact =>
    right
    refine ⟨total_eq _ hc rfl, .inr ⟨upward_eq hc rfl, .inr ⟨rfl, .inr ⟨rfl, .inr ⟨total_eq _ hc rfl, ?_⟩⟩⟩⟩⟩
    exact total_lt (fun a => a.output.work) hc (hstreams.output.work_lt (Sender.Event.Own.silent ho hreact) hstep)
  | line | input | connector | connected => exact ho.elim

theorem server_lt (h : Linked host N) {e : Server.Event} (ho : Server.Internal N.server e) (hs : N.server.step e = some S) :
    (N.setServer S).rank < N.rank := by
  obtain ⟨hr, hagrees⟩ := Server.Reachable.agrees h.server
  have harr : ∀ k, (S.receiver k).arrived = (N.server.receiver k).arrived := by
    intro k
    rw [Server.step_arrived hs k]
    cases e with
    | arrive => exact ho.elim
    | lobby | receiveMessage | readSome | complete | fail => exact List.append_nil _
  have hup : (N.setServer S).upward = N.upward := by
    unfold upward arrived
    simp only [show ∀ k, ((N.setServer S).server.receiver k).arrived = (N.server.receiver k).arrived from harr]
    rfl
  unfold rank
  simp only [Prod.Lex.toLex_lt_toLex]
  exact .inr ⟨rfl, .inr ⟨hup, .inl (hagrees.internal_lt hr ho hs)⟩⟩

theorem toServer_lt (h : Linked host N) (hi : N.connections[i]? = some x) (hk : x.key = some k)
    (hne : next (N.up x) (N.server.receiver k).arrived n ≠ [])
    (hs : N.server.step (.arrive k (next (N.up x) (N.server.receiver k).arrived n)) = some S) :
    (N.setServer S).rank < N.rank := by
  have hx := List.mem_of_getElem? hi
  have harr := Server.step_arrived hs
  have hup : (N.setServer S).upward < N.upward := by
    unfold upward
    apply List.sum_lt_sum
    · intro y _
      cases hj : y.key with
      | none =>
        unfold arrived
        rw [hj]
        exact Nat.le_refl _
      | some j =>
        rw [arrived_eq hj, arrived_eq hj]
        change _ - (S.receiver j).arrived.length ≤ _
        rw [harr j, List.length_append]
        exact Nat.sub_le_sub_left (Nat.le_add_right _ _) _
    · refine ⟨x, hx, ?_⟩
      rw [arrived_eq hk, arrived_eq hk]
      change (N.up x).length - (S.receiver k).arrived.length < _
      rw [harr k, Server.Event.arrives, if_pos rfl]
      exact next_length (h.ups x hx k hk) hne
  unfold rank
  simp only [Prod.Lex.toLex_lt_toLex]
  exact .inr ⟨rfl, .inl hup⟩

/-- A client reads from one of the connections. -/
theorem upward_receive (hi : N.connections[i]? = some x) (bytes : Bytes) :
    (N.setConnection i (·.receive bytes)).upward = N.upward := by
  obtain ⟨before, later, hsplit, hset⟩ := setConnection_split hi (·.receive bytes)
  unfold upward
  rw [hset, hsplit]
  simp only [List.map_append, List.map_cons, List.sum_append, List.sum_cons]
  rfl

theorem downward_receive (hi : N.connections[i]? = some x) {bytes : Bytes}
    (hlt : (N.down x).length - (x.received ++ bytes).length < (N.down x).length - x.received.length) :
    (N.setConnection i (·.receive bytes)).downward < N.downward := by
  obtain ⟨before, later, hsplit, hset⟩ := setConnection_split hi (·.receive bytes)
  unfold downward
  rw [hset, hsplit]
  simp only [List.map_append, List.map_cons, List.sum_append, List.sum_cons]
  exact Nat.add_lt_add_left (Nat.add_lt_add_right hlt _) _

theorem toClient_lt (h : Linked host N) (hi : N.connections[i]? = some x) (hc : N.clients[x.client]? = some a)
    (hne : next (N.down x) x.received n ≠ []) (hs : a.step (.receiver (.arrive (next (N.down x) x.received n))) = some a') :
    ((N.setConnection i (·.receive (next (N.down x) x.received n))).setClient x.client a').rank < N.rank := by
  obtain ⟨host', hr⟩ := h.clients x.client a hc
  have hsame : a'.socket.sender = a.socket.sender := by
    cases Application.step_change (Application.Reachable.strands hr) hs with
    | receiver => rfl
  have hc' : (N.setConnection i (·.receive (next (N.down x) x.received n))).clients[x.client]? = some a := hc
  have hdown := downward_receive hi (next_length (h.downs x (List.mem_of_getElem? hi)) hne)
  unfold rank
  simp only [Prod.Lex.toLex_lt_toLex]
  refine .inr ⟨total_eq _ hc' (congrArg Sender.work hsame), .inr ⟨?_, .inr ⟨rfl, .inl hdown⟩⟩⟩
  exact (upward_eq hc' (congrArg Sender.stream hsame)).trans (upward_receive hi _)

theorem Linked.rank_lt (h : Linked host N) (ho : Internal N e) (hs : N.step e = some N') : N'.rank < N.rank := by
  cases step_cases hs with
  | @client c a a' e hc _ hstep =>
    obtain ⟨host', hr⟩ := h.clients c a hc
    rw [dial_own ho]
    exact client_lt hc hr ho hstep
  | server _ hstep => exact server_lt h ho hstep
  | accept => exact ho.elim
  | toServer hi hk hne hstep => exact toServer_lt h hi hk hne hstep
  | toClient hi hc _ hne hstep => exact toClient_lt h hi hc hne hstep

/-! ## At rest -/

theorem client_rest (hrest : (system host hosts).Rest Internal N) (hc : N.clients[c]? = some a) {e : Application.Event}
    (ho : e.Own) : a.step e = none := by
  have harr : e.arrives = [] := by
    cases e with
    | receiver e =>
      cases e with
      | receiveMessage | readSome | complete => rfl
      | arrive | receive | fail | setProtocol => exact ho.elim
    | sender | output | input | connector => rfl
  have hn := hrest (.client c e) ho
  simpa [system, Network.step, stepClient, hc, harr] using hn

theorem server_rest (hrest : (system host hosts).Rest Internal N) : (Server.system host).Rest Server.Internal N.server := by
  intro e ho
  have hn := hrest (.server e) ho
  simp only [system, Network.step, stepServer] at hn
  split at hn
  · exact ho.elim
  · exact ho.elim
  · exact Option.map_eq_none_iff.1 hn

/-- The handlers of a client are done. -/
theorem Linked.client_done (h : Linked host N) (hrest : (system host hosts).Rest Internal N) (hc : N.clients[c]? = some a) :
    (a.socket.sender.writes = [] ∧ a.socket.sender.posted = []) ∧ (a.output.writes = [] ∧ a.output.posted = []) ∧
      (0 < a.socket.receiver.posted + a.socket.receiver.reads.length → a.socket.receiver.Idle) := by
  obtain ⟨host', hr⟩ := h.clients c a hc
  have hst := Application.Reachable.strands hr
  obtain ⟨frames, hf⟩ := (Application.Reachable.streams hr).receiver
  have hsender : ∀ e : Sender.Event, e.Own → e.reaction = {} → a.socket.sender.step e = none := by
    intro e ho hreact
    by_contra hne
    obtain ⟨sender, hs⟩ := Option.ne_none_iff_exists'.1 hne
    obtain ⟨a', hstep⟩ := Application.stepSender_some ho hreact hs
    rw [client_rest hrest hc (e := .sender e) ho] at hstep
    cases hstep
  have houtput : ∀ e : Sender.Event, e.Own → e.reaction = {} → a.output.step e = none := by
    intro e ho hreact
    by_contra hne
    obtain ⟨output, hs⟩ := Option.ne_none_iff_exists'.1 hne
    obtain ⟨a', hstep⟩ := Application.stepOutput_some ho hreact hs
    rw [client_rest hrest hc (e := .output e) ho] at hstep
    cases hstep
  refine ⟨Sender.nothing_left (hsender _ trivial rfl) (fun _ => hsender _ trivial rfl) (hsender (.handler {}) trivial rfl),
    Sender.nothing_left (houtput _ trivial rfl) (fun _ => houtput _ trivial rfl) (houtput (.handler {}) trivial rfl),
    fun hopen => Receiver.nothing_left (fun e ho hreact => ?_) hopen hf⟩
  by_contra hne
  obtain ⟨receiver, hs⟩ := Option.ne_none_iff_exists'.1 hne
  have hout : e.outside = false := by
    cases e with
    | receiveMessage | readSome | complete => rfl
    | arrive | receive | fail | setProtocol => exact ho.elim
  obtain ⟨a', hstep⟩ := Application.stepReceiver_some hst hout hreact hs
  rw [client_rest hrest hc (e := .receiver e) ho] at hstep
  cases hstep

/-- The bytes for the server arrived. -/
theorem Linked.arrived_up (h : Linked host N) (hrest : (system host hosts).Rest Internal N) (hx : x ∈ N.connections)
    (hk : x.key = some k) {s : Session} (hs : s ∈ N.server.lobby.sessions) (he : s.key = k) :
    (N.server.receiver k).arrived = N.up x := by
  obtain ⟨i, hi⟩ := List.mem_iff_getElem?.1 hx
  have hw := Lobby.Reachable.wf (Server.Reachable.agrees h.server).1
  have hg : N.server.lobby.get? k = some s := he ▸ Lobby.get?_eq hw.keys hs
  apply arrived_all (h.ups x hx k hk)
  by_contra hne
  have hn := hrest (.toServer i (N.up x).length) trivial
  simp [system, Network.step, stepToServer, hi, hk, hne, Server.step, Server.moves, hg, Receiver.step] at hn

/-- The bytes for a client arrived, if its connection is open. -/
theorem Linked.arrived_down (h : Linked host N) (hrest : (system host hosts).Rest Internal N) (hx : x ∈ N.connections)
    (hopen : x.stop = none) : x.received = N.down x := by
  obtain ⟨i, hi⟩ := List.mem_iff_getElem?.1 hx
  obtain ⟨a, hc⟩ := h.known x hx
  obtain ⟨host', hr⟩ := h.clients x.client a hc
  apply arrived_all (h.downs x hx)
  by_contra hne
  have hn := hrest (.toClient i (N.down x).length) trivial
  obtain ⟨a', hstep⟩ := Application.stepReceiver_some (Application.Reachable.strands hr)
    (e := .arrive (next (N.down x) x.received (N.down x).length)) rfl rfl rfl
  simp [system, Network.step, stepToClient, hi, hc, hopen, hne, hstep] at hn

/-- The server executed what was written to a connection, if it still reads there. -/
theorem Linked.executed (h : Linked host N) (hrest : (system host hosts).Rest Internal N) (hx : x ∈ N.connections)
    {s : Session} (hs : s ∈ N.server.lobby.sessions) (hk : x.key = some s.key) (hfail : .readFailed ∉ s.trace)
    {log : List (Nat × Bytes × Option Bytes)} (ht : N.Told log) :
    commandsOf log s.key = telnetContents (N.up x) := by
  obtain ⟨hlobby, hagrees⟩ := Server.Reachable.agrees h.server
  have hw := Lobby.Reachable.wf hlobby
  have hacc : .accepted false ∈ s.trace := by
    obtain ⟨y, hy, hkey, hacc⟩ := h.session hx hk
    rwa [hw.distinct.eq hy (Lobby.mem_everyone hs) hkey] at hacc
  rw [← (ht s (Lobby.mem_everyone hs)).1, hagrees.heard_all hlobby (server_rest hrest) hs hacc hfail,
    h.arrived_up hrest hx hk hs rfl]

/-- Nothing failed at either end of a connection: it is open, no write failed, and a read still waits. -/
structure Intact (N : Network) (a : Application) (x : Connection) : Prop where
  connected : x.stop = none
  sender : ∀ y ∈ a.socket.sender.reports, y.error = false
  output : ∀ y ∈ a.output.reports, y.error = false
  reads : a.socket.receiver.failures < a.socket.connector.calls.length
  session : ∃ s ∈ N.server.lobby.sessions, x.key = some s.key ∧ ¬ s.Ended

/-- Everything that was asked was answered, and shown. -/
theorem Linked.answered (h : Linked host N) (hrest : (system host hosts).Rest Internal N) (hc : N.clients[c]? = some a)
    (hone : N.connectionsOf c = [x]) (hk : x.key = some k) (hi : N.Intact a x)
    {log : List (Nat × Bytes × Option Bytes)} (ht : N.Told log) :
    commandsOf log k = telnetContents (telnetLines a.actions) ∧
      a.output.stream = ended 10 (telnetContents (telnetLines (text "Zard\n1" :: repliesOf log k))) := by
  obtain ⟨host', hr⟩ := h.clients c a hc
  obtain ⟨hx, rfl, hstart, hreceived⟩ := h.once hc hone
  obtain ⟨hlobby, -⟩ := Server.Reachable.agrees h.server
  have hw := Lobby.Reachable.wf hlobby
  obtain ⟨s, hs, hkey, hend⟩ := hi.session
  obtain rfl : s.key = k := Option.some.inj (hkey.symm.trans hk)
  obtain ⟨hfail, hunfailed⟩ := not_or.1 hend
  have hacc : .accepted false ∈ s.trace := by
    obtain ⟨y, hy, hkey, hacc⟩ := h.session hx hk
    rwa [hw.distinct.eq hy (Lobby.mem_everyone hs) hkey] at hacc
  obtain ⟨⟨hwrites, hposted⟩, ⟨hwrites', hposted'⟩, hidle⟩ := h.client_done hrest hc
  have hopen : 0 < a.socket.receiver.posted + a.socket.receiver.reads.length := by
    have hreads := (Application.Reachable.paced hr).reads
    have hfailures := hi.reads
    unfold Receiver.weight at hreads
    omega
  constructor
  · rw [h.executed hrest hx hs hk hfail ht, up, Connection.part_open hstart hi.connected, written_eq hc,
      Application.Reachable.asked hr hi.sender hwrites hposted]
  · obtain ⟨hout, hshown⟩ := Application.Reachable.showed hr hi.output hwrites' hposted' (hidle hopen)
    obtain ⟨hdone, hdone'⟩ := Server.rest_sender hw (server_rest hrest) hs
    have hwritten := Lobby.Reachable.written hlobby (Lobby.mem_everyone hs) (not_exists.1 hunfailed) hdone hdone'
    rw [hout, hshown, hreceived, h.arrived_down hrest hx hi.connected, down_eq hk, sent_eq hw (Lobby.mem_everyone hs),
      hwritten, (ht s (Lobby.mem_everyone hs)).2, if_pos hacc]
    rfl

/-- Where no text has an end of line inside, they arrived as they were sent. -/
theorem Linked.answered_clean (h : Linked host N) (hrest : (system host hosts).Rest Internal N) (hc : N.clients[c]? = some a)
    (hone : N.connectionsOf c = [x]) (hk : x.key = some k) (hi : N.Intact a x)
    {log : List (Nat × Bytes × Option Bytes)} (ht : N.Told log)
    (hactions : ∀ action ∈ a.actions, ¬ text "\r\n" <:+: action) (hreplies : ∀ reply ∈ repliesOf log k, ¬ text "\r\n" <:+: reply) :
    commandsOf log k = a.actions ∧ a.output.stream = ended 10 (text "Zard\n1" :: repliesOf log k) := by
  obtain ⟨hcommands, hout⟩ := h.answered hrest hc hone hk hi ht
  rw [telnetContents_lines hactions] at hcommands
  rw [telnetContents_replies hreplies] at hout
  exact ⟨hcommands, hout⟩

/-- At rest every session that still reads executed the lines of its connection. Where nobody typed a carriage
return, every text of a client that connected once was answered and shown as it was sent. -/
theorem Linked.all_answered (h : Linked host N) (hrest : (system host hosts).Rest Internal N) :
    ∃ ds R, Reference.system.Run ds R ∧ R.roster = N.server.lobby.roster ∧
      (∀ x ∈ N.connections, ∀ s ∈ N.server.lobby.sessions, x.key = some s.key → .readFailed ∉ s.trace →
        commandsOf R.log s.key = telnetContents (N.up x)) ∧
      ((∀ a ∈ N.clients, 13 ∉ a.input.arrived) → ∀ c k x a, N.clients[c]? = some a → N.connectionsOf c = [x] →
        x.key = some k → N.Intact a x →
        commandsOf R.log k = a.actions ∧ a.output.stream = ended 10 (text "Zard\n1" :: repliesOf R.log k)) := by
  obtain ⟨ds, R, hR, hroster, hfrom, htold⟩ := h.reference
  refine ⟨ds, R, hR, hroster, fun x hx s hs hk hfail => h.executed hrest hx hs hk hfail htold, ?_⟩
  intro hinput c k x a hc hone hk hi
  obtain ⟨hactions, hreplies⟩ := h.plain_log hinput hR hfrom htold
  exact h.answered_clean hrest hc hone hk hi htold (hactions a (List.mem_of_getElem? hc)) (hreplies k)

/-- A session and its receiver wait. -/
def SessionQuiet (N : Network) (s : Session) : Prop :=
  s.sender.writes = [] ∧ s.sender.posted = [] ∧ s.posted = 0 ∧ (N.server.receiver s.key).unread = [] ∧
    ∀ read ∈ (N.server.receiver s.key).reads, read.complete (N.server.receiver s.key).inputBuffer = none

/-- The socket and the standard output of a client wait. -/
def ClientQuiet (a : Application) : Prop :=
  (a.socket.sender.writes = [] ∧ a.socket.sender.posted = []) ∧ (a.output.writes = [] ∧ a.output.posted = []) ∧
    a.socket.receiver.posted = 0 ∧ a.socket.receiver.unread = [] ∧
    ∀ read ∈ a.socket.receiver.reads, read.complete a.socket.receiver.inputBuffer = none

def Quiet (N : Network) : Prop :=
  (∀ s ∈ N.server.lobby.sessions, N.SessionQuiet s) ∧ (∀ a ∈ N.clients, ClientQuiet a) ∧
    ∀ x ∈ N.connections, (x.key ≠ none → N.arrived x = N.up x) ∧ (x.stop = none → x.received = N.down x)

instance (N : Network) (s : Session) : Decidable (N.SessionQuiet s) := inferInstanceAs (Decidable (_ ∧ _))

instance (a : Application) : Decidable (ClientQuiet a) := inferInstanceAs (Decidable (_ ∧ _))

instance (N : Network) : Decidable N.Quiet := inferInstanceAs (Decidable (_ ∧ _))

/-- Where every part waits, and the bytes are there, the network is at rest. -/
theorem rest_of_quiet (h : N.Quiet) : (system host hosts).Rest Internal N := by
  obtain ⟨hsessions, hclients, hbytes⟩ := h
  have hserver : (Server.system host).Rest Server.Internal N.server := Server.rest_of_waiting hsessions
  have hnext : ∀ (bytes : Bytes) n, next bytes bytes n = [] := by simp [next]
  intro e ho
  change N.step e = none
  by_contra hne
  obtain ⟨N', hs⟩ := Option.ne_none_iff_exists'.1 hne
  cases step_cases hs with
  | @client c a a' e hc _ hstep =>
    obtain ⟨⟨hw, hp⟩, ⟨hw', hp'⟩, hpost, hunread, hreads⟩ := hclients a (List.mem_of_getElem? hc)
    cases e with
    | sender e =>
      have hnone := Sender.Event.Own.step_none (s := a.socket.sender) ho hw hp
      simp [Application.step, Application.stepSender, hnone] at hstep
    | output e =>
      have hnone := Sender.Event.Own.step_none (s := a.output) ho hw' hp'
      simp [Application.step, Application.stepOutput, hnone] at hstep
    | receiver e =>
      have hnone := Receiver.Event.Own.step_none (r := a.socket.receiver) ho hpost hunread hreads
      simp [Application.step, Application.stepReceiver, hnone] at hstep
    | input | connector => exact ho.elim
  | server _ hstep =>
    have hnone : N.server.step _ = none := hserver _ ho
    rw [hnone] at hstep
    cases hstep
  | accept => exact ho.elim
  | toServer hi hk hbyte =>
    have hup := (hbytes _ (List.mem_of_getElem? hi)).1 (by rw [hk]; exact Option.some_ne_none _)
    rw [arrived_eq hk] at hup
    rw [hup] at hbyte
    exact hbyte (hnext _ _)
  | toClient hi _ hopen hbyte =>
    rw [(hbytes _ (List.mem_of_getElem? hi)).2 hopen] at hbyte
    exact hbyte (hnext _ _)

/-- No write of a client failed, and a read of it still waits. -/
def ClientIntact (a : Application) : Prop :=
  (∀ x ∈ a.socket.sender.reports, x.error = false) ∧ (∀ x ∈ a.output.reports, x.error = false) ∧
    a.socket.receiver.failures < a.socket.connector.calls.length

/-- Neither a read nor a write of a session failed. -/
def SessionIntact (s : Session) : Prop := .readFailed ∉ s.trace ∧ ∀ closed, .writeFailed closed ∉ s.trace

instance (a : Application) : Decidable (ClientIntact a) := inferInstanceAs (Decidable (_ ∧ _))

instance (s : Session) : Decidable (SessionIntact s) := inferInstanceAs (Decidable (_ ∧ _))

end Network
end Zar
