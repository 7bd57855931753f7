import Mathlib.Data.List.Pairwise
import Zar.Communication.Channel
import Zar.Lobby.Answering
import Zar.Network.Connections
/-!
# The clients and the server

The clients, the server, and the connections between them. A connection that a client made is
held until an accept of the server takes it. The bytes of a stream arrive in order, in pieces
of any size and at any time; a side whose connection breaks fails on its own.
-/

namespace Zar

structure Network where
  clients : List Application
  server : Server
  /-- The connections, the first one first. -/
  connections : List Connection := []

namespace Network
open Channel (next next_front)

inductive Event where
  /-- A step of a client, with no bytes from the server. -/
  | client (c : Nat) (e : Application.Event)
  /-- A step of the server, with no bytes from a client. -/
  | server (e : Server.Event)
  /-- The next `n` bytes that were written to the connection `i` arrive at its session. -/
  | toServer (i n : Nat)
  /-- The next `n` bytes of its session arrive at the client. -/
  | toClient (i n : Nat)
  deriving DecidableEq, Repr

/-- What a client wrote to its socket. -/
def written (N : Network) (c : Nat) : Bytes := (N.clients[c]?.map (·.socket.sender.stream)).getD []

/-- What was written to the socket of a session, also when it is gone. -/
def sent (N : Network) (k : Nat) : Bytes :=
  ((N.server.lobby.everyone.find? (·.key = k)).map (·.sender.stream)).getD []

/-- The bytes for the server. -/
def up (N : Network) (x : Connection) : Bytes := x.part (N.written x.client)

/-- The bytes for the client. -/
def down (N : Network) (x : Connection) : Bytes := (x.key.map N.sent).getD []

/-- The sessions that took a connection. -/
def keys (N : Network) : List Nat := N.connections.filterMap (·.key)

def connectionsOf (N : Network) (c : Nat) : List Connection := N.connections.filter (·.client = c)

def setClient (N : Network) (c : Nat) (a : Application) : Network := { N with clients := N.clients.set c a }

def setServer (N : Network) (S : Server) : Network := { N with server := S }

def setConnection (N : Network) (i : Nat) (f : Connection → Connection) : Network :=
  { N with connections := N.connections.modify i f }

/-- The socket of a client is closed. -/
def hangUp (N : Network) (c : Nat) : Network :=
  { N with connections := N.connections.map fun x => if x.client = c then x.close (N.written c).length else x }

def connect (N : Network) (c : Nat) : Network :=
  { N with connections := N.connections ++ [{ client := c, start := (N.written c).length }] }

/-- What a step of a client does to its connections. A socket has one connection at a time, and
`async_connect` closes it before each attempt. -/
def dial (N : Network) (c : Nat) (a : Application) : Application.Event → Network
  | .connector e =>
    if e.accepts then (N.hangUp c).connect c
    else if a.socket.connector.begins e then N.hangUp c
    else N
  | .input _ | .output _ | .receiver _ | .sender _ => N

def stepClient (N : Network) (c : Nat) (e : Application.Event) : Option Network :=
  match N.clients[c]? with
  | none => none
  | some a => if e.arrives ≠ [] then none else (a.step e).map ((N.dial c a e).setClient c)

/-- An accept that succeeds takes the first connection that waits for one. -/
def stepServer (N : Network) : Server.Event → Option Network
  | .arrive _ _ => none
  | .lobby (.accept k false) =>
    match N.connections.findIdx? (·.key.isNone) with
    | none => none
    | some i => (N.server.step (.lobby (.accept k false))).map fun S => (N.setServer S).setConnection i (·.accept k)
  | e => (N.server.step e).map N.setServer

def stepToServer (N : Network) (i n : Nat) : Option Network :=
  match N.connections[i]? with
  | none => none
  | some x =>
    match x.key with
    | none => none
    | some k =>
      let bytes := next (N.up x) (N.server.receiver k).arrived n
      if bytes ≠ [] then (N.server.step (.arrive k bytes)).map N.setServer else none

/-- A client reads from a connection as long as it is open. -/
def stepToClient (N : Network) (i n : Nat) : Option Network :=
  match N.connections[i]? with
  | none => none
  | some x =>
    match N.clients[x.client]? with
    | none => none
    | some a =>
      let bytes := next (N.down x) x.received n
      if x.stop = none ∧ bytes ≠ [] then
        (a.step (.receiver (.arrive bytes))).map ((N.setConnection i (·.receive bytes)).setClient x.client)
      else none

def step (N : Network) : Event → Option Network
  | .client c e => N.stepClient c e
  | .server e => N.stepServer e
  | .toServer i n => N.stepToServer i n
  | .toClient i n => N.stepToClient i n

/-- A server, and clients on any machines. -/
def system (host : Endian) (hosts : List Endian) : System Network Event :=
  ⟨{ clients := hosts.map Application.run, server := (Server.system host).init }, step⟩

variable {host : Endian} {hosts : List Endian} {N N' : Network} {S : Server} {a a' : Application} {x y : Connection}
  {c k i n : Nat}

/-- What each event finds, and leaves. -/
inductive Stepped (N : Network) : Event → Network → Prop
  | client {c : Nat} {a a' : Application} {e : Application.Event} (hc : N.clients[c]? = some a) (harr : e.arrives = [])
      (hs : a.step e = some a') : Stepped N (.client c e) ((N.dial c a e).setClient c a')
  | server {e : Server.Event} {S : Server} (harr : ∀ k, e.arrives k = []) (hs : N.server.step e = some S) :
      Stepped N (.server e) (N.setServer S)
  | accept {k i : Nat} {x : Connection} {S : Server} (hi : N.connections[i]? = some x) (hk : x.key = none)
      (hs : N.server.step (.lobby (.accept k false)) = some S) :
      Stepped N (.server (.lobby (.accept k false))) ((N.setServer S).setConnection i (·.accept k))
  | toServer {i k n : Nat} {x : Connection} {S : Server} (hi : N.connections[i]? = some x) (hk : x.key = some k)
      (hne : next (N.up x) (N.server.receiver k).arrived n ≠ [])
      (hs : N.server.step (.arrive k (next (N.up x) (N.server.receiver k).arrived n)) = some S) :
      Stepped N (.toServer i n) (N.setServer S)
  | toClient {i n : Nat} {x : Connection} {a a' : Application} (hi : N.connections[i]? = some x)
      (hc : N.clients[x.client]? = some a) (hopen : x.stop = none) (hne : next (N.down x) x.received n ≠ [])
      (hs : a.step (.receiver (.arrive (next (N.down x) x.received n))) = some a') :
      Stepped N (.toClient i n) ((N.setConnection i (·.receive (next (N.down x) x.received n))).setClient x.client a')

theorem step_cases {e : Event} (hs : N.step e = some N') : Stepped N e N' := by
  cases e with
  | client c e =>
    simp only [step, stepClient] at hs
    split at hs
    · cases hs
    · rename_i a hc
      obtain ⟨harr, hs⟩ := Option.ite_none_left_eq_some.1 hs
      obtain ⟨a', hstep, rfl⟩ := Option.map_eq_some_iff.1 hs
      exact .client hc (not_not.1 harr) hstep
  | server e =>
    simp only [step, stepServer] at hs
    split at hs
    · cases hs
    · split at hs
      · cases hs
      · rename_i i hfind
        obtain ⟨hlt, hkey, -⟩ := List.findIdx?_eq_some_iff_getElem.1 hfind
        obtain ⟨S, hstep, rfl⟩ := Option.map_eq_some_iff.1 hs
        exact .accept (List.getElem?_eq_getElem hlt) (Option.isNone_iff_eq_none.1 hkey) hstep
    · rename_i hne _
      obtain ⟨S, hstep, rfl⟩ := Option.map_eq_some_iff.1 hs
      refine .server (fun k => ?_) hstep
      cases e with
      | arrive j bytes => exact absurd rfl (hne j bytes)
      | lobby | receiveMessage | readSome | complete | fail => rfl
  | toServer i n =>
    simp only [step, stepToServer] at hs
    split at hs
    · cases hs
    · rename_i x hi
      split at hs
      · cases hs
      · rename_i k hk
        obtain ⟨hne, hs⟩ := Option.ite_none_right_eq_some.1 hs
        obtain ⟨S, hstep, rfl⟩ := Option.map_eq_some_iff.1 hs
        exact .toServer hi hk hne hstep
  | toClient i n =>
    simp only [step, stepToClient] at hs
    split at hs
    · cases hs
    · rename_i x hi
      split at hs
      · cases hs
      · rename_i a hc
        obtain ⟨⟨hopen, hne⟩, hs⟩ := Option.ite_none_right_eq_some.1 hs
        obtain ⟨a', hstep, rfl⟩ := Option.map_eq_some_iff.1 hs
        exact .toClient hi hc hopen hne hstep

/-! ## The two ends of a connection -/

theorem written_eq (hc : N.clients[c]? = some a) : N.written c = a.socket.sender.stream := by
  unfold written
  rw [hc]
  rfl

theorem sent_eq (hw : N.server.lobby.Wf) {s : Session} (hs : s ∈ N.server.lobby.everyone) :
    N.sent s.key = s.sender.stream := by
  unfold sent
  cases hf : N.server.lobby.everyone.find? (·.key = s.key) with
  | none => simpa using List.find?_eq_none.1 hf s hs
  | some x =>
    have hk : x.key = s.key := by simpa using List.find?_some hf
    rw [hw.distinct.eq (List.mem_of_find?_eq_some hf) hs hk]
    rfl

theorem down_eq (hk : x.key = some k) : N.down x = N.sent k := by
  unfold down
  rw [hk]
  rfl

theorem sent_mono (hw : S.lobby.Wf) (h : Lobby.Lasting Lobby.Onwritten N.server.lobby S.lobby) (k : Nat) :
    N.sent k <+: (N.setServer S).sent k := by
  cases hf : N.server.lobby.everyone.find? (·.key = k) with
  | none =>
    unfold sent
    rw [hf]
    exact List.nil_prefix
  | some s =>
    obtain rfl : s.key = k := by simpa using List.find?_some hf
    obtain ⟨s', hs', hk, hon⟩ := h s (List.mem_of_find?_eq_some hf)
    have hsent := sent_eq (N := N.setServer S) hw hs'
    rw [hk] at hsent
    rw [hsent, sent, hf]
    exact hon.1

theorem written_set (hc : N.clients[c]? = some a) (a' : Application) (d : Nat) :
    (N.setClient c a').written d = if d = c then a'.socket.sender.stream else N.written d := by
  split
  · rename_i hd
    subst hd
    exact written_eq (List.getElem?_set_self (List.getElem?_eq_some_iff.1 hc).1)
  · rename_i hd
    unfold written setClient
    rw [List.getElem?_set_ne (Ne.symm hd)]

/-- A client writes on. -/
theorem up_mono (hc : N.clients[c]? = some a) (h : a.socket.sender.stream <+: a'.socket.sender.stream) (x : Connection) :
    N.up x <+: (N.setClient c a').up x := by
  apply x.part_mono
  rw [written_set hc]
  split
  · rename_i hx
    rw [hx, written_eq hc]
    exact h
  · exact List.prefix_refl _

/-- One of the connections changes. -/
theorem setConnection_split (hi : N.connections[i]? = some x) (f : Connection → Connection) :
    ∃ before later, N.connections = before ++ x :: later ∧ (N.setConnection i f).connections = before ++ f x :: later := by
  obtain ⟨hlt, hx⟩ := List.getElem?_eq_some_iff.1 hi
  obtain ⟨before, y, later, hsplit, hlen, hmod⟩ := List.exists_of_modify f hlt
  have hy : y = x := by
    rw [← hx]
    simp [hsplit, ← hlen]
  subst hy
  exact ⟨before, later, hsplit, hmod⟩

theorem mem_setConnection (hi : N.connections[i]? = some x) {f : Connection → Connection}
    (hy : y ∈ (N.setConnection i f).connections) : y = f x ∨ y ∈ N.connections := by
  obtain ⟨before, later, hsplit, hset⟩ := setConnection_split hi f
  rw [hset, List.mem_append, List.mem_cons] at hy
  rw [hsplit, List.mem_append, List.mem_cons]
  rcases hy with hy | rfl | hy
  · exact .inr (.inl hy)
  · exact .inl rfl
  · exact .inr (.inr (.inr hy))

theorem keys_receive (hi : N.connections[i]? = some x) (bytes : Bytes) :
    (N.setConnection i (·.receive bytes)).keys = N.keys := by
  obtain ⟨before, later, hsplit, hset⟩ := setConnection_split hi (·.receive bytes)
  rw [keys, keys, hset, hsplit]
  simp [List.filterMap_append, List.filterMap_cons, Connection.receive]

theorem keys_accept (hi : N.connections[i]? = some x) (hx : x.key = none) (k : Nat) :
    List.Perm (N.setConnection i (·.accept k)).keys (k :: N.keys) := by
  obtain ⟨before, later, hsplit, hset⟩ := setConnection_split hi (·.accept k)
  have hkeys : N.keys = before.filterMap (·.key) ++ later.filterMap (·.key) := by
    rw [keys, hsplit]
    simp [hx]
  have hkeys' : (N.setConnection i (·.accept k)).keys = before.filterMap (·.key) ++ k :: later.filterMap (·.key) := by
    rw [keys, hset]
    simp [Connection.accept]
  rw [hkeys, hkeys']
  exact List.perm_middle

/-! ## The connections of each client -/

theorem connectionsOf_hangUp (c d : Nat) : (N.hangUp c).connectionsOf d =
    if d = c then (N.connectionsOf d).map (·.close (N.written c).length) else N.connectionsOf d := by
  have hclient : (fun y : Connection => decide (y.client = d)) ∘
      (fun x : Connection => if x.client = c then x.close (N.written c).length else x) = fun x => decide (x.client = d) := by
    funext x
    dsimp only [Function.comp]
    split <;> rfl
  unfold connectionsOf hangUp
  rw [List.filter_map, hclient]
  split
  · rename_i he
    refine List.map_congr_left fun x hx => if_pos ?_
    rw [← he]
    simpa using (List.mem_filter.1 hx).2
  · rename_i hne
    refine (List.map_congr_left fun x hx => if_neg ?_).trans (List.map_id _)
    rintro rfl
    exact hne (by simpa using (List.mem_filter.1 hx).2 : x.client = d).symm

theorem connectionsOf_connect (c d : Nat) : (N.connect c).connectionsOf d =
    N.connectionsOf d ++ if d = c then [{ client := c, start := (N.written c).length }] else [] := by
  unfold connectionsOf connect
  rw [List.filter_append]
  congr 1
  by_cases hd : d = c
  · simp [hd]
  · simp [hd, Ne.symm hd]

theorem connectionsOf_set (hi : N.connections[i]? = some x) (f : Connection → Connection) (hf : (f x).client = x.client)
    (d : Nat) : x.client ≠ d ∧ (N.setConnection i f).connectionsOf d = N.connectionsOf d ∨
      x.client = d ∧ ∃ before later, N.connectionsOf d = before ++ x :: later ∧
        (N.setConnection i f).connectionsOf d = before ++ f x :: later := by
  obtain ⟨before, later, hsplit, hset⟩ := setConnection_split hi f
  unfold connectionsOf
  rw [hset, hsplit]
  by_cases hd : x.client = d
  · refine .inr ⟨hd, before.filter (·.client = d), later.filter (·.client = d), ?_, ?_⟩
    · simp [hd]
    · simp [hf, hd]
  · refine .inl ⟨hd, ?_⟩
    simp [hf, hd]

/-! ## What holds in every reachable state -/

/-- What arrived at each end was written at the other. -/
structure Wired (host : Endian) (N : Network) : Prop where
  clients : ∀ (c : Nat) a, N.clients[c]? = some a → ∃ host', (Application.system host').Reachable a
  server : (Server.system host).Reachable N.server
  keys : N.keys.Nodup
  known : ∀ x ∈ N.connections, ∃ a, N.clients[x.client]? = some a
  ups : ∀ x ∈ N.connections, ∀ k ∈ x.key, (N.server.receiver k).arrived <+: N.up x
  downs : ∀ x ∈ N.connections, x.received <+: N.down x
  accepted : ∀ k ∈ N.keys, ∃ s ∈ N.server.lobby.everyone, s.key = k ∧ .accepted false ∈ s.trace
  /-- Without a connection nothing arrives. -/
  strangers : ∀ k, k ∉ N.keys → (N.server.receiver k).arrived = []

/-- Each client has its connections. -/
structure Linked (host : Endian) (N : Network) : Prop extends Wired host N where
  dialled : ∀ (c : Nat) a, N.clients[c]? = some a → a.Dialled (N.connectionsOf c)

theorem mem_keys (hx : x ∈ N.connections) (hk : x.key = some k) : k ∈ N.keys := List.mem_filterMap.2 ⟨x, hx, hk⟩

/-- A session took one connection. -/
theorem Wired.same (h : Wired host N) (hx : x ∈ N.connections) (hy : y ∈ N.connections) (hkx : x.key = some k)
    (hky : y.key = some k) : y = x := by
  have hpair : N.connections.Pairwise fun x y => ∀ j ∈ x.key, ∀ j' ∈ y.key, j ≠ j' := List.pairwise_filterMap.1 h.keys
  by_contra hne
  have hsymm : Std.Symm fun x y : Connection => ∀ j ∈ x.key, ∀ j' ∈ y.key, j ≠ j' :=
    ⟨fun x y hxy j hj j' hj' he => hxy j' hj' j hj he.symm⟩
  exact hpair.forall hy hx hne k hky k hkx rfl

theorem Linked.init (host : Endian) (hosts : List Endian) : Linked host (system host hosts).init := by
  have hclient : ∀ (c : Nat) a, (system host hosts).init.clients[c]? = some a → ∃ host', a = Application.run host' := by
    intro c a hc
    obtain ⟨host', -, rfl⟩ := List.mem_map.1 (List.mem_of_getElem? hc)
    exact ⟨host', rfl⟩
  have hwired : Wired host (system host hosts).init := by
    refine ⟨?_, System.reachable_init, List.nodup_nil, ?_, ?_, ?_, ?_, fun _ _ => rfl⟩
    · intro c a hc
      obtain ⟨host', rfl⟩ := hclient c a hc
      exact ⟨host', System.reachable_init⟩
    · rintro x ⟨⟩
    · rintro x ⟨⟩
    · rintro x ⟨⟩
    · rintro k ⟨⟩
  refine ⟨hwired, fun c a hc => ?_⟩
  obtain ⟨host', rfl⟩ := hclient c a hc
  exact ⟨rfl, rfl, by rintro _ ⟨⟩, by rintro _ ⟨⟩⟩

/-- A client does something. -/
theorem Wired.setClient (h : Wired host N) (hc : N.clients[c]? = some a) {e : Application.Event} (hs : a.step e = some a') :
    Wired host (N.setClient c a') := by
  obtain ⟨host', hr⟩ := h.clients c a hc
  have hst := Application.Reachable.strands hr
  obtain ⟨hstream, -⟩ := (Application.step_change hst hs).traffic hst
  have hlt := (List.getElem?_eq_some_iff.1 hc).1
  refine ⟨?_, h.server, h.keys, ?_, ?_, h.downs, h.accepted, h.strangers⟩
  · intro d b hd
    change (N.clients.set c a')[d]? = some b at hd
    by_cases he : c = d
    · subst he
      rw [List.getElem?_set_self hlt] at hd
      obtain rfl := Option.some.inj hd
      exact ⟨host', hr.step hs⟩
    · rw [List.getElem?_set_ne he] at hd
      exact h.clients d b hd
  · intro x hx
    obtain ⟨b, hb⟩ := h.known x hx
    have hlt' : x.client < (N.clients.set c a').length := by
      rw [List.length_set]
      exact (List.getElem?_eq_some_iff.1 hb).1
    exact ⟨_, List.getElem?_eq_getElem hlt'⟩
  · exact fun x hx k hk => (h.ups x hx k hk).trans (up_mono hc hstream x)

/-- The connections change, but not the sessions that took them. -/
theorem Wired.rewire (h : Wired host N) {connections : List Connection} (hkeys : connections.filterMap (·.key) = N.keys)
    (hmem : ∀ y ∈ connections, (∃ a, N.clients[y.client]? = some a) ∧ y.received <+: N.down y ∧
      ∀ k ∈ y.key, ∃ x ∈ N.connections, x.key = some k ∧ N.up x <+: N.up y) :
    Wired host { N with connections := connections } := by
  have hkeys' : ({ N with connections := connections } : Network).keys = N.keys := hkeys
  refine ⟨h.clients, h.server, hkeys'.symm ▸ h.keys, fun y hy => (hmem y hy).1, ?_, fun y hy => (hmem y hy).2.1, ?_, ?_⟩
  · intro y hy k hk
    obtain ⟨x, hx, hkx, hup⟩ := (hmem y hy).2.2 k hk
    exact (h.ups x hx k hkx).trans hup
  · rw [hkeys']
    exact h.accepted
  · rw [hkeys']
    exact h.strangers

theorem Wired.hangUp (h : Wired host N) (c : Nat) : Wired host (N.hangUp c) := by
  refine h.rewire ?_ fun y hy => ?_
  · rw [List.filterMap_map, Network.keys]
    refine List.filterMap_congr fun x _ => ?_
    dsimp only [Function.comp]
    split <;> rfl
  · obtain ⟨x, hx, rfl⟩ := List.mem_map.1 hy
    have hkept := And.intro (h.known x hx) (h.downs x hx)
    split
    · rename_i hc
      subst hc
      exact ⟨hkept.1, hkept.2, fun k hk => ⟨x, hx, hk, List.prefix_refl _⟩⟩
    · exact ⟨hkept.1, hkept.2, fun k hk => ⟨x, hx, hk, List.prefix_refl _⟩⟩

theorem Wired.connect (h : Wired host N) (hc : N.clients[c]? = some a) : Wired host (N.connect c) := by
  refine h.rewire ?_ fun y hy => ?_
  · rw [List.filterMap_append, Network.keys]
    exact List.append_nil _
  · rcases List.mem_append.1 hy with hy | hy
    · exact ⟨h.known y hy, h.downs y hy, fun k hk => ⟨y, hy, hk, List.prefix_refl _⟩⟩
    · obtain rfl := List.mem_singleton.1 hy
      exact ⟨⟨a, hc⟩, List.nil_prefix, by rintro _ ⟨⟩⟩

theorem Wired.dial (h : Wired host N) (hc : N.clients[c]? = some a) (e : Application.Event) : Wired host (N.dial c a e) := by
  cases e with
  | connector e =>
    simp only [Network.dial]
    split
    · exact (h.hangUp c).connect hc
    · split
      · exact h.hangUp c
      · exact h
  | input | output | receiver | sender => exact h

theorem Wired.receive (h : Wired host N) (hi : N.connections[i]? = some x) (n : Nat) :
    Wired host (N.setConnection i (·.receive (next (N.down x) x.received n))) := by
  have hx := List.mem_of_getElem? hi
  refine h.rewire (keys_receive hi _) fun y hy => ?_
  rcases mem_setConnection hi hy with rfl | hy
  · exact ⟨h.known x hx, next_front (h.downs x hx) n, fun k hk => ⟨x, hx, hk, List.prefix_refl _⟩⟩
  · exact ⟨h.known y hy, h.downs y hy, fun k hk => ⟨y, hy, hk, List.prefix_refl _⟩⟩

/-- The server does something. What arrives in the step was written by the client. -/
theorem Wired.serverStep (h : Wired host N) {e : Server.Event} (hs : N.server.step e = some S)
    (harr : ∀ x ∈ N.connections, ∀ k ∈ x.key, (N.server.receiver k).arrived ++ e.arrives k <+: N.up x)
    (hwait : ∀ k, k ∉ N.keys → e.arrives k = []) : Wired host (N.setServer S) := by
  have hr' : (Server.system host).Reachable S := h.server.step hs
  obtain ⟨hr, hagrees⟩ := Server.Reachable.agrees h.server
  have hw := Lobby.Reachable.wf hr
  have hlast : Lobby.Lasting Lobby.Onwritten N.server.lobby S.lobby := by
    rcases (hagrees.step hr hs).2 with he | ⟨e', he⟩
    · rw [he]
      exact refl_of (Lobby.Lasting Lobby.Onwritten) _
    · exact (Lobby.step_change hw he).onwritten hw
  have harrived := Server.step_arrived hs
  refine ⟨h.clients, hr', h.keys, h.known, ?_, ?_, ?_, ?_⟩
  · intro x hx k hk
    change (S.receiver k).arrived <+: _
    rw [harrived k]
    exact harr x hx k hk
  · intro x hx
    refine (h.downs x hx).trans ?_
    cases hk : x.key with
    | none => simp [down, hk]
    | some k =>
      rw [down_eq hk, down_eq hk]
      exact sent_mono (Lobby.Reachable.wf (Server.Reachable.agrees hr').1) hlast k
  · intro k hk
    obtain ⟨s, hs, rfl, hacc⟩ := h.accepted k hk
    obtain ⟨s', hs', hkey, hon⟩ := hlast s hs
    exact ⟨s', hs', hkey, hon.2.subset hacc⟩
  · intro k hk
    change (S.receiver k).arrived = []
    rw [harrived k, h.strangers k hk, hwait k hk]
    rfl

/-- An accept that succeeds is one of a session that nobody talked to. -/
theorem Wired.accepted_fresh (h : Wired host N) (hs : N.server.step (.lobby (.accept k false)) = some S) :
    k ∉ N.keys ∧ ∃ s ∈ S.lobby.everyone, s.key = k ∧ .accepted false ∈ s.trace := by
  have hw := Lobby.Reachable.wf (Server.Reachable.agrees h.server).1
  simp only [Server.step, Lobby.Event.reads, Bool.false_eq_true, if_false] at hs
  obtain ⟨L, hL, rfl⟩ := Option.map_eq_some_iff.1 hs
  cases Lobby.step_change hw hL with
  | moved _ hm => cases hm
  | @accepted init s hinit hwait =>
    constructor
    · intro hk
      obtain ⟨x, hx, hkey, hacc⟩ := h.accepted s.key hk
      have hmem : s ∈ N.server.lobby.sessions := by simp [hinit]
      rw [hw.distinct.eq hx (Lobby.mem_everyone hmem) hkey, hwait] at hacc
      cases hacc
    · refine ⟨s.welcome, Lobby.mem_everyone ?_, rfl, ?_⟩
      · simp
      · change _ ∈ s.trace ++ [.accepted false] ++ [.sent (text "Zard\n1")]
        simp

theorem Wired.accept (h : Wired host N) (hi : N.connections[i]? = some x) (hx : x.key = none)
    (hs : N.server.step (.lobby (.accept k false)) = some S) :
    Wired host ((N.setServer S).setConnection i (·.accept k)) := by
  obtain ⟨hk, hsession⟩ := h.accepted_fresh hs
  have h' : Wired host (N.setServer S) := by
    refine h.serverStep hs (fun y hy j hj => ?_) fun _ _ => rfl
    rw [Server.Event.arrives, List.append_nil]
    exact h.ups y hy j hj
  have hmem := List.mem_of_getElem? hi
  have hperm : List.Perm ((N.setServer S).setConnection i (·.accept k)).keys (k :: N.keys) :=
    keys_accept (N := N.setServer S) hi hx k
  -- The others are as they were.
  have heach : ∀ P : Connection → Prop, P (x.accept k) → (∀ y ∈ N.connections, P y) →
      ∀ y ∈ ((N.setServer S).setConnection i (·.accept k)).connections, P y := by
    intro P hnew hold y hy
    rcases mem_setConnection (N := N.setServer S) hi hy with rfl | hy
    · exact hnew
    · exact hold y hy
  refine ⟨h'.clients, h'.server, ?_, ?_, ?_, ?_, ?_, ?_⟩
  · exact hperm.symm.nodup (List.nodup_cons.2 ⟨hk, h.keys⟩)
  · exact heach (fun y => ∃ a, N.clients[y.client]? = some a) (h'.known x hmem) h'.known
  · refine heach (fun y => ∀ j ∈ y.key, (S.receiver j).arrived <+: (N.setServer S).up y) ?_ h'.ups
    rintro j ⟨⟩
    have hnone : (S.receiver k).arrived = [] := h'.strangers k hk
    rw [hnone]
    exact List.nil_prefix
  · refine heach (fun y => y.received <+: (N.setServer S).down y) ?_ h'.downs
    have hnone := h.downs x hmem
    rw [down, hx] at hnone
    rw [Connection.accept, List.prefix_nil.1 hnone]
    exact List.nil_prefix
  · intro j hj
    rcases List.mem_cons.1 (hperm.mem_iff.1 hj) with rfl | hj
    · exact hsession
    · exact h'.accepted j hj
  · intro j hj
    exact h'.strangers j fun hin => hj (hperm.mem_iff.2 (List.mem_cons_of_mem k hin))

/-- Each client keeps its connections where the one that moved does. -/
theorem dialled_set (h : ∀ d b, d ≠ c → N.clients[d]? = some b → b.Dialled (N'.connectionsOf d))
    (hclients : N'.clients = N.clients) (hc : N.clients[c]? = some a) (hd : a'.Dialled (N'.connectionsOf c)) :
    ∀ (d : Nat) b, (N'.setClient c a').clients[d]? = some b → b.Dialled ((N'.setClient c a').connectionsOf d) := by
  intro d b hb
  change (N'.clients.set c a')[d]? = some b at hb
  rw [hclients] at hb
  by_cases he : c = d
  · subst he
    rw [List.getElem?_set_self (List.getElem?_eq_some_iff.1 hc).1] at hb
    obtain rfl := Option.some.inj hb
    exact hd
  · rw [List.getElem?_set_ne he] at hb
    exact h d b (Ne.symm he) hb

/-- Only the connections change. -/
theorem dial_kept (c : Nat) (a : Application) (e : Application.Event) :
    (N.dial c a e).clients = N.clients ∧ (N.dial c a e).server = N.server := by
  cases e with
  | connector e =>
    simp only [dial]
    split
    · exact ⟨rfl, rfl⟩
    · split <;> exact ⟨rfl, rfl⟩
  | input | output | receiver | sender => exact ⟨rfl, rfl⟩

/-- The connections of a client are those it dialled. -/
theorem Linked.dialledBy (h : Linked host N) (hc : N.clients[c]? = some a) {e : Application.Event} (harr : e.arrives = [])
    (hs : a.step e = some a') : a'.Dialled ((N.dial c a e).connectionsOf c) := by
  obtain ⟨host', hr⟩ := h.clients c a hc
  have hst := Application.Reachable.strands hr
  have hd := h.dialled c a hc
  have hhung : (N.hangUp c).connectionsOf c = (N.connectionsOf c).map (·.close (N.written c).length) := by
    rw [connectionsOf_hangUp, if_pos rfl]
  cases e with
  | connector e =>
    simp only [dial]
    split
    · rename_i hyes
      rw [connectionsOf_connect, if_pos rfl, hhung]
      refine (hd.close _).connect hr hs harr hyes (fun y hy => ?_) rfl (congrArg List.length (written_eq hc))
      obtain ⟨x, -, rfl⟩ := List.mem_map.1 hy
      exact Option.some_ne_none _
    · rename_i hno
      have hquiet := hd.quiet hst hs harr (eq_false_of_ne_true hno)
      split
      · rw [hhung]
        exact hquiet.close _
      · exact hquiet
  | input | output | receiver | sender => exact hd.quiet hst hs harr rfl

theorem connectionsOf_dial {d : Nat} (hd : d ≠ c) (a : Application) (e : Application.Event) :
    (N.dial c a e).connectionsOf d = N.connectionsOf d := by
  have hhung : (N.hangUp c).connectionsOf d = N.connectionsOf d := by rw [connectionsOf_hangUp, if_neg hd]
  cases e with
  | connector e =>
    simp only [dial]
    split
    · rw [connectionsOf_connect, if_neg hd, List.append_nil, hhung]
    · split
      · exact hhung
      · rfl
  | input | output | receiver | sender => rfl

theorem Linked.step (h : Linked host N) {e : Event} (hs : N.step e = some N') : Linked host N' := by
  cases step_cases hs with
  | @client c a a' e hc harr hstep =>
    have hc' : (N.dial c a e).clients[c]? = some a := by
      rw [(dial_kept c a e).1]
      exact hc
    refine ⟨(h.toWired.dial hc e).setClient hc' hstep, ?_⟩
    refine dialled_set (fun d b hd hb => ?_) (dial_kept c a e).1 hc (h.dialledBy hc harr hstep)
    rw [connectionsOf_dial hd]
    exact h.dialled d b hb
  | server harr hstep =>
    refine ⟨h.toWired.serverStep hstep (fun x hx k hk => ?_) fun k _ => harr k, h.dialled⟩
    rw [harr, List.append_nil]
    exact h.ups x hx k hk
  | @accept k i x S hi hk hstep =>
    refine ⟨h.toWired.accept hi hk hstep, fun d b hb => ?_⟩
    have hd := h.dialled d b hb
    rcases connectionsOf_set (N := N.setServer S) hi (·.accept k) rfl d with ⟨-, hsame⟩ | ⟨-, before, later, hold, hnew⟩
    · rw [hsame]
      exact hd
    · rw [hnew]
      exact Application.Dialled.accept (hold ▸ hd) k
  | @toServer i k n x S hi hk hne hstep =>
    have hx := List.mem_of_getElem? hi
    refine ⟨h.toWired.serverStep hstep (fun y hy j hj => ?_) fun j hj => ?_, h.dialled⟩
    · by_cases he : j = k
      · subst he
        obtain rfl := h.same hx hy hk hj
        rw [Server.Event.arrives, if_pos rfl]
        exact next_front (h.ups y hy j hj) n
      · rw [Server.Event.arrives, if_neg he, List.append_nil]
        exact h.ups y hy j hj
    · exact if_neg (ne_of_mem_of_not_mem (mem_keys hx hk) hj).symm
  | @toClient i n x a a' hi hc hopen hne hstep =>
    obtain ⟨host', hr⟩ := h.clients x.client a hc
    refine ⟨(h.toWired.receive hi n).setClient hc hstep, dialled_set (fun d b hd hb => ?_) rfl hc ?_⟩
    · rcases connectionsOf_set hi (·.receive (next (N.down x) x.received n)) rfl d with ⟨-, hsame⟩ | ⟨he, -⟩
      · rw [hsame]
        exact h.dialled d b hb
      · exact absurd he.symm hd
    · rcases connectionsOf_set hi (·.receive (next (N.down x) x.received n)) rfl x.client with
        ⟨hne, -⟩ | ⟨-, before, later, hold, hnew⟩
      · exact absurd rfl hne
      · rw [hnew]
        exact Application.Dialled.receive (hold ▸ h.dialled x.client a hc) (Application.Reachable.strands hr) hopen hstep

theorem Reachable.linked (h : (system host hosts).Reachable N) : Linked host N :=
  h.inv (Linked host) (Linked.init host hosts) fun _ _ _ hi hs => hi.step hs

/-- The user types `/connect` again before the first attempt succeeds, and asks for help between the two. -/
def overlapped : List Event :=
  [.client 0 (.input .receiveMessage), .client 0 (.input (.arrive (text "/connect x
/connect x
help
"))),
    .client 0 (.input (.readSome 0 27)), .client 0 (.input (.complete 0 {})), .client 0 (.input .receiveMessage),
    .client 0 (.input (.complete 0 {})), .client 0 (.connector .asioResolve), .client 0 (.connector .asioResolve),
    .client 0 (.connector (.resolved 0 (some [⟨1, 2048⟩]))), .client 0 (.connector (.resolved 0 (some [⟨1, 2048⟩]))),
    .client 0 (.connector (.attempt 0 true)), .client 0 (.connector (.connected 0)), .client 0 (.input .receiveMessage),
    .client 0 (.input (.complete 0 {})), .client 0 (.sender .sendMessage), .client 0 (.sender (.transfer false 6)),
    .client 0 (.connector (.attempt 0 true)), .server (.lobby (.accept 0 false)), .server (.lobby (.accept 1 false))]

-- The command goes to the first session, and what is sent later to the second one.
example : ((system .little [.little]).exec (fun _ _ => True) (system .little [.little]).init overlapped).map
    (fun N => N.connections.map fun x => (x.start, x.stop, x.key)) = some [(0, some 6, some 0), (6, none, some 1)] := by
  decide +kernel

end Network
end Zar
