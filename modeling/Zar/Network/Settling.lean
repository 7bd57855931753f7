import Zar.Network.Rest
import Zar.Network.Threads
/-!
# The threads come to rest

Handlers that are between scan and commit do not wait for each other: each of them can go on. So the
network with more than one thread comes to rest, too, and at rest everything was answered.
-/

namespace Zar

namespace Server

variable {S S' : Server} {e : Event} {host : Endian} {k i : Nat} {claim : Lobby.Claim}

/-- A handler runs for a session that is there. -/
theorem strand_present (hs : S.step e = some S') (hk : e.strand = some k) : S.lobby.get? k ≠ none := by
  rcases step_lobby hs with ⟨-, hnone⟩ | ⟨e', hstrand, hstep, -⟩
  · rw [hk] at hnone
    cases hnone
  · have hk' := hstrand.trans hk
    intro hnone
    cases e' with
    | accept | transfer | tick => cases hk'
    | receiveMessage j | sendMessage j | read j | written j =>
      obtain rfl : j = k := Option.some.inj hk'
      simp [Lobby.step, hnone] at hstep

/-- A handler that is about to commit can. -/
theorem claims_step (hr : (Lobby.system host).Reachable S.lobby) (h : S.claims k i = some claim) :
    ∃ S', S.step (.complete k i) = some S' := by
  obtain ⟨m, s, hm, hscan, hs, rfl, hreads⟩ := claims_some h
  have hw := Lobby.Reachable.wf hr
  have hthrown := thrown_none hw (Lobby.Reachable.rooms hr) hs hreads (some m.contents)
  have hreceiver : ∃ r, (S.receiver s.key).step (.complete i {}) = some r := by
    unfold Receiver.message at hm
    dsimp only at hm
    split at hm
    · cases hm
    · cases hm
    · rename_i read _ hi
      obtain ⟨n, hn, -⟩ := Option.bind_eq_some_iff.1 hm
      simp [Receiver.step, hi, hn]
  obtain ⟨r, hr⟩ := hreceiver
  have hget := Lobby.get?_eq hw.keys hs
  have hstep := Lobby.step_scan hw hscan
  simp only [step, hm, handles, hget, hthrown, hr, hstep]
  exact ⟨_, rfl⟩

end Server

namespace Threads

variable {T T' : Threads} {N : Network} {e : Event} {es : List Event} {host : Endian} {hosts : List Endian}

/-- What goes on when nobody types or connects and nothing fails, while names are apart. -/
def Internal (T : Threads) : Event → Prop
  | .run e => Network.Internal T.network e ∧ T.Apart (.run e)
  | .commit _ => True

theorem Internal.apart (h : T.Internal e) : T.Apart e := by
  cases e with
  | run => exact h.2
  | commit => trivial

/-- The sessions that are not between scan and commit. -/
def idle (T : Threads) : Nat := (T.network.server.lobby.sessions.filter fun s => s.key ∉ T.pending.map Pending.key).length

def rank (T : Threads) : (Nat ×ₗ Nat ×ₗ Nat ×ₗ Nat ×ₗ Nat ×ₗ Nat) ×ₗ Nat := toLex (T.network.rank, T.idle)

theorem idle_lt {x : Pending} (h : T.network.server.claims x.key x.read = some x.claim)
    (hfree : ∀ p ∈ T.pending, x.key ≠ p.key) : ({ T with pending := T.pending ++ [x] } : Threads).idle < T.idle := by
  obtain ⟨m, s, -, -, hs, hk, -⟩ := Server.claims_some h
  have hsub : (T.network.server.lobby.sessions.filter fun s => s.key ∉ (T.pending ++ [x]).map Pending.key) =
      (T.network.server.lobby.sessions.filter fun s => s.key ∉ T.pending.map Pending.key).filter fun s => s.key ≠ x.key := by
    rw [List.filter_filter]
    apply List.filter_congr
    intro s _
    rw [List.map_append, Bool.eq_iff_iff]
    simp [not_or, and_comm]
  unfold idle
  dsimp only
  rw [hsub]
  apply List.length_filter_lt_length_iff_exists.2
  refine ⟨s, List.mem_filter.2 ⟨hs, ?_⟩, by simp [hk]⟩
  rw [decide_eq_true_eq, hk]
  intro hmem
  obtain ⟨p, hp, he⟩ := List.mem_map.1 hmem
  exact hfree p hp he.symm

theorem Ok.rank_lt (h : Ok host hosts T) (ho : T.Internal e) (hs : T.step e = some T') : T'.rank < T.rank := by
  have hlinked := Network.Reachable.linked h.reachable
  unfold rank
  simp only [Prod.Lex.toLex_lt_toLex]
  cases step_change hs with
  | whole hfree hno hN => exact .inl (hlinked.rank_lt ho.1 hN)
  | scanned hfree hx =>
    obtain ⟨rfl, hclaims⟩ := Network.scan_some hx
    exact .inr ⟨rfl, idle_lt hclaims fun p hp he => hfree p hp (congrArg some he)⟩
  | committed hp hS =>
    have hstep := (h.commit hp hS).1
    exact .inl (hlinked.rank_lt (e := .server (.complete _ _)) trivial hstep)

/-! ## At rest -/

/-- Nobody is left between scan and commit, except for sessions that are gone. -/
theorem Ok.rest_pending (h : Ok host hosts T) (hrest : (system host hosts).Rest Internal T) :
    ∀ p ∈ T.pending, T.network.server.lobby.get? p.key = none := by
  intro p hp
  by_contra hpresent
  have hclaims := h.waits p hp hpresent
  obtain ⟨S, hS⟩ := Server.claims_step h.agrees.1 hclaims
  have hget : Keyed.get? Pending.key p.key T.pending = some p := h.keys.get? hp
  have hn := hrest (.commit p.key) trivial
  simp [system, Threads.step, hget, (Server.commit_eq h.agrees.1 hclaims).trans hS] at hn

theorem Ok.rest_network (h : Ok host hosts T) (hrest : (system host hosts).Rest Internal T) :
    (Network.system host hosts).Rest Network.Internal T.network := by
  have hgone := h.rest_pending hrest
  intro e ho
  cases hs : T.network.step e with
  | none => exact hs
  | some N =>
    exfalso
    have hfree : ¬ ∃ p ∈ T.pending, e.strand = some p.key := by
      rintro ⟨p, hp, he⟩
      rcases Network.step_server hs with ⟨-, hnone⟩ | ⟨e', hstep, hstrand, -⟩
      · rw [he] at hnone
        cases hnone
      · exact Server.strand_present hstep (hstrand.trans he) (hgone p hp)
    have hn := hrest (.run e) ⟨ho, fun x _ p hp _ => hgone p hp⟩
    simp only [system, Threads.step, hfree, if_false, hs] at hn
    split at hn <;> cases hn

/-- The threads are at rest where the network is, and nobody is left who could commit. -/
theorem Ok.rest_iff (h : Ok host hosts T) : (system host hosts).Rest Internal T ↔
    (Network.system host hosts).Rest Network.Internal T.network ∧
      ∀ p ∈ T.pending, T.network.server.lobby.get? p.key = none := by
  constructor
  · exact fun hrest => ⟨h.rest_network hrest, h.rest_pending hrest⟩
  · rintro ⟨hrest, hgone⟩ e ho
    cases hs : (system host hosts).step T e with
    | none => rfl
    | some T' =>
      exfalso
      cases step_change hs with
      | whole _ _ hN =>
        have hn : T.network.step _ = none := hrest _ ho.1
        rw [hN] at hn
        cases hn
      | scanned _ hx =>
        obtain ⟨rfl, hclaims⟩ := Network.scan_some hx
        obtain ⟨S, hS⟩ := Server.claims_step h.agrees.1 hclaims
        have hn : T.network.step (.server (.complete _ _)) = none := hrest _ ho.1
        simp [Network.step, Network.stepServer, hS] at hn
      | committed hp hS =>
        simp [Server.commit, hgone _ hp] at hS

/-! ## Runs -/

/-- The client `c` is the next one that connects, as the session `c`, and its user asks for a login of this line. -/
def asks (c : Nat) (line : Bytes) : List Network.Event :=
  [.client c (.input .receiveMessage), .client c (.input (.arrive (text "/connect x\n" ++ line ++ text "\n"))),
    .client c (.input (.readSome 0 18)), .client c (.input (.complete 0 {})), .client c (.connector .asioResolve),
    .client c (.connector (.resolved 0 (some [⟨1, 2048⟩]))), .client c (.connector (.attempt 0 true)),
    .server (.lobby (.accept c false)), .client c (.connector (.connected 0)), .client c (.receiver .receiveMessage),
    .client c (.input .receiveMessage), .client c (.input (.complete 0 {})), .client c (.sender .sendMessage),
    .client c (.sender (.transfer false 8)), .client c (.sender (.handler {})), .server (.receiveMessage c),
    .toServer c 8, .server (.readSome c 0 8), .server (.complete c 0)]

/-- The greeting and the reply reach the client. -/
def answered (c : Nat) : List Network.Event :=
  [.server (.receiveMessage c), .server (.lobby (.sendMessage c)), .server (.lobby (.sendMessage c)),
    .server (.lobby (.transfer c false 8)), .server (.lobby (.written c false)), .server (.lobby (.transfer c false 5)),
    .server (.lobby (.written c false)), .toClient c 13, .client c (.receiver (.readSome 0 13)),
    .client c (.receiver (.complete 0 {})), .client c (.receiver .receiveMessage), .client c (.receiver (.complete 0 {})),
    .client c (.receiver .receiveMessage), .client c (.output .sendMessage), .client c (.output .sendMessage),
    .client c (.output (.transfer false 7)), .client c (.output (.handler {})), .client c (.output (.transfer false 4)),
    .client c (.output (.handler {}))]

/-- While the first client is between scan and commit the second one logs in. -/
def logins : List Event :=
  ((asks 0 (text "user a") ++ asks 1 (text "user b")).map .run ++ .commit 1 :: (answered 1).map .run) ++
    .commit 0 :: (answered 0).map .run

end Threads
end Zar
