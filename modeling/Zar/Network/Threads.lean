import Zar.Lobby.Concurrent
import Zar.Network.Network
/-!
# The network with more than one thread

The threads of the server run handlers of different sessions at the same time, so between the scan
for a name and its commit everybody else goes on: the other sessions, the reaper, the connections
and the clients. While no two sessions ask for one name at the same time this does not show: the
states that are reached are those of one thread.
-/

namespace Zar

/-! ## The handlers of a server -/

namespace Server

/-- The session in whose strand the handler of the event runs. -/
def Event.strand : Event → Option Nat
  | .lobby e => e.strand
  | .receiveMessage k | .complete k _ | .fail k _ => some k
  | .arrive _ _ | .readSome _ _ _ => none

/-- The name that the handler of a complete read asks for, where its scan finds it free. -/
def claims (S : Server) (k i : Nat) : Option Lobby.Claim :=
  match (S.receiver k).message (.complete i {}) with
  | none => none
  | some m => (S.lobby.scan (.read k (some m.contents))).map fun x => x.2.2

/-- The commit of the handler, and what is behind it. -/
def commit (S : Server) (k i : Nat) (claim : Lobby.Claim) : Option Server :=
  match S.lobby.get? k, (S.receiver k).message (.complete i {}), (S.receiver k).step (.complete i {}) with
  | some s, some m, some r =>
    some { S.setReceiver k r with
      lobby := (claim.commit (S.lobby.answered (s.readEnds (some m.contents)) S.lobby.games) k).update k (·.receive) }
  | _, _, _ => none

end Server

/-- A handler that is between scan and commit: its session, its read, and the name. -/
structure Pending where
  key : Nat
  read : Nat
  claim : Lobby.Claim
  deriving DecidableEq, Repr

structure Threads where
  network : Network
  pending : List Pending := []

namespace Network

def Event.strand : Event → Option Nat
  | .server e => e.strand
  | .client _ _ | .toServer _ _ | .toClient _ _ => none

/-- The handler that the event starts, if it goes on to a commit. -/
def scan (N : Network) : Event → Option Pending
  | .server (.complete k i) => (N.server.claims k i).map fun claim => ⟨k, i, claim⟩
  | _ => none

end Network

namespace Threads

inductive Event where
  /-- A step, for a handler up to the commit if its scan finds the name free. -/
  | run (e : Network.Event)
  /-- The rest of the handler, while its session is there: behind `reap` it would use an erased one. -/
  | commit (k : Nat)
  deriving DecidableEq, Repr

/-- What a handler does before its commit only its own strand sees, so it is done with the commit. -/
def step (T : Threads) : Event → Option Threads
  | .run e =>
    if ∃ p ∈ T.pending, e.strand = some p.key then none
    else
      match T.network.scan e with
      | some p => some { T with pending := T.pending ++ [p] }
      | none => (T.network.step e).map fun N => { T with network := N }
  | .commit k =>
    match Keyed.get? Pending.key k T.pending with
    | none => none
    | some p =>
      (T.network.server.commit k p.read p.claim).map fun S => ⟨T.network.setServer S, T.pending.filter (·.key ≠ k)⟩

def system (host : Endian) (hosts : List Endian) : System Threads Event := ⟨⟨(Network.system host hosts).init, []⟩, step⟩

/-- No scan finds a name free that another session is about to commit. What the handler of a session
does that the reaper erased is undefined, and it counts for nothing here. -/
def Apart (T : Threads) : Event → Prop
  | .run e => ∀ x ∈ T.network.scan e, ∀ p ∈ T.pending, p.claim = x.claim → T.network.server.lobby.get? p.key = none
  | .commit _ => True

instance (T : Threads) : (e : Event) → Decidable (T.Apart e)
  | .run e => inferInstanceAs (Decidable (∀ x ∈ T.network.scan e, ∀ p ∈ T.pending, p.claim = x.claim →
      T.network.server.lobby.get? p.key = none))
  | .commit _ => inferInstanceAs (Decidable True)

end Threads

/-! ## What other strands leave alone -/

namespace Lobby

variable {L L' : Lobby} {s s' : Session} {e : Event} {c c' : Bytes} {claim claim' : Claim} {k : Nat}

/-- A session that reads keeps its mode and its reads while other strands run. -/
theorem Change.bystander (hw : L.Wf) (hs : s ∈ L.sessions) (hreads : 0 < s.reads) (hc : Change L e L')
    (hstrand : e.strand ≠ some s.key) (hs' : s' ∈ L'.sessions) (hk : s'.key = s.key) :
    s'.mode = s.mode ∧ s'.reads = s.reads := by
  have hold : s' ∈ L.sessions → s'.mode = s.mode ∧ s'.reads = s.reads := by
    intro hx
    rw [hw.keys.eq hx hs hk]
    exact ⟨rfl, rfl⟩
  have hidle : ∀ {x : Session}, x.Waiting L.host → x ≠ s := by
    rintro x hwait rfl
    rw [hwait] at hreads
    exact absurd hreads (Nat.lt_irrefl 0)
  cases hc with
  | @moved t t' _ _ ht hm =>
    rcases mem_moved hm.key hs' with rfl | ⟨hx, -⟩
    · obtain rfl := hw.keys.eq ht hs (hm.key.symm.trans hk)
      cases hm with
      | acceptFailed hwait => exact absurd rfl (hidle hwait)
      | transfer => exact ⟨rfl, rfl⟩
      | receiveMessage | sendMessage | readFailed | command | wrote | closed | threw => exact absurd rfl hstrand
    · exact hold hx
  | @accepted init t ht hwait =>
    rcases mem_accepted hs' with hx | rfl | rfl
    · exact hold (ht ▸ List.mem_append_left _ hx)
    · have hmem : t ∈ L.sessions := by simp [ht]
      exact absurd (hw.keys.eq hmem hs hk) (hidle hwait)
    · have hlt := hw.fresh s (List.mem_append_left _ hs)
      exact absurd hk (Nat.ne_of_gt hlt)
  | reaped => exact hold (mem_reap.1 hs').1
  | aborted => exact hold hs'

theorem get?_ne_none : L.get? k ≠ none ↔ ∃ s ∈ L.sessions, s.key = k := by
  constructor
  · intro h
    obtain ⟨s, hs⟩ := Option.ne_none_iff_exists'.1 h
    exact ⟨s, get?_mem hs⟩
  · rintro ⟨s, hs, he⟩ hnone
    exact List.find?_eq_none.1 hnone s hs (by simpa using he)

/-- Keys are not used again. -/
theorem Change.keys (hc : Change L e L') :
    L.nextKey ≤ L'.nextKey ∧ ∀ x ∈ L'.sessions, x.key < L.nextKey → ∃ y ∈ L.sessions, y.key = x.key := by
  cases hc with
  | @moved t t' _ _ ht hm =>
    refine ⟨Nat.le_refl _, fun x hx _ => ?_⟩
    rcases mem_moved hm.key hx with rfl | ⟨hx, -⟩
    · exact ⟨t, ht, hm.key.symm⟩
    · exact ⟨x, hx, rfl⟩
  | @accepted init t ht =>
    refine ⟨Nat.le_succ _, fun x hx hlt => ?_⟩
    rcases mem_accepted hx with hx | rfl | rfl
    · exact ⟨x, ht ▸ List.mem_append_left _ hx, rfl⟩
    · exact ⟨t, by simp [ht], rfl⟩
    · exact absurd hlt (Nat.lt_irrefl L.nextKey)
  | reaped => exact ⟨Nat.le_refl _, fun x hx _ => ⟨x, (mem_reap.1 hx).1, rfl⟩⟩
  | aborted => exact ⟨Nat.le_refl _, fun x hx _ => ⟨x, hx, rfl⟩⟩

/-- A scan finds the name free as long as it is. -/
theorem Change.scan (hw : L.Wf) (hw' : L'.Wf) (h : L.scan (.read k (some c)) = some (s, c', claim)) (hc : Change L e L')
    (hstrand : e.strand ≠ some k) (hget : L'.get? k = some s') (hf : claim.scan L' = none) :
    L'.scan (.read k (some c)) = some (s', c, claim) := by
  obtain ⟨he, hs, hreads, hclaim, -⟩ := scan_some h
  obtain ⟨rfl, hcontents⟩ := Event.read.inj he
  obtain rfl := Option.some.inj hcontents
  obtain ⟨hs', hk⟩ := get?_mem hget
  obtain ⟨hm, hr⟩ := hc.bystander hw hs hreads hstrand hs' hk
  rw [← hk]
  exact scan_read hw' hs' (hr ▸ hreads) (hm ▸ hclaim) hf

/-- A commit leaves other names free. -/
theorem scan_committed (hw : L.Wf) (h : L.scan e = some (s, c, claim)) (hs : L.step e = some L') (hne : claim' ≠ claim)
    (hf : claim'.scan L = none) : claim'.scan L' = none := by
  obtain ⟨-, hmem, -, -, -⟩ := scan_some h
  have hmem' : s.readEnds (some c) ∈ (L.answered (s.readEnds (some c)) L.games).sessions := mem_answered hmem rfl
  have hd : (L.answered (s.readEnds (some c)) L.games).Dispatch := hw.dispatch.answered hmem rfl rfl rfl
  rw [step_scan hw h] at hs
  have hcommit := commit_eq hd.keys hmem' claim
  have hkey : (s.readEnds (some c)).key = s.key := rfl
  rw [hkey] at hcommit
  rw [← Option.some.inj hs, hcommit]
  exact grant_scan hmem' hne (scan_reading hmem rfl rfl hf)

/-- Nobody is logged in under the empty id. -/
theorem scan_named (hr : L.Rooms) (h : L.scan e = some (s, c, claim)) : claim ≠ .user [] := by
  obtain ⟨-, hs, -, hclaim, hf⟩ := scan_some h
  rintro rfl
  have hid : s.id = [] := (hr.modes s (mem_everyone hs)).1 (claimOf_mode hclaim)
  exact (scan_eq_none.1 hf).1 s hs (by rw [hid])

end Lobby

namespace Server

variable {S S' : Server} {s : Session} {r r' : Receiver} {e : Event} {host : Endian} {k i : Nat} {claim : Lobby.Claim}

theorem claims_some (h : S.claims k i = some claim) : ∃ m s, (S.receiver k).message (.complete i {}) = some m ∧
    S.lobby.scan (.read k (some m.contents)) = some (s, m.contents, claim) ∧ s ∈ S.lobby.sessions ∧ s.key = k ∧
    0 < s.reads := by
  unfold claims at h
  split at h
  · cases h
  · rename_i m hm
    obtain ⟨⟨s, c, claim'⟩, hscan, rfl⟩ := Option.map_eq_some_iff.1 h
    obtain ⟨he, hs, hreads, -⟩ := Lobby.scan_some hscan
    obtain ⟨rfl, hc⟩ := Lobby.Event.read.inj he
    obtain rfl := Option.some.inj hc
    exact ⟨m, s, hm, hscan, hs, rfl, hreads⟩

/-- With the scan just before it the commit is the step of one thread. -/
theorem commit_eq (hr : (Lobby.system host).Reachable S.lobby) (h : S.claims k i = some claim) :
    S.commit k i claim = S.step (.complete k i) := by
  obtain ⟨m, s, hm, hscan, hs, rfl, hreads⟩ := claims_some h
  have hw := Lobby.Reachable.wf hr
  have hget := Lobby.get?_eq hw.keys hs
  have hthrown := thrown_none hw (Lobby.Reachable.rooms hr) hs hreads (some m.contents)
  have hstep := Lobby.step_scan hw hscan
  simp only [commit, step, handles, hget, hm, hthrown, hstep]
  cases (S.receiver s.key).step (.complete i {}) <;> rfl

/-- A message that is complete stays as it is while other bytes come. -/
theorem Paired.message_kept (h : Paired host s r) {m : Message} (hm : r.message (.complete i {}) = some m) {j n : Nat} :
    r.step (.readSome j n) = none := by
  have hread : r.reads[i]? ≠ none := by
    intro hnone
    simp [Receiver.message, hnone] at hm
  have hempty : r.reads ≠ [] := by
    rintro hnil
    simp [hnil] at hread
  cases h.listens with
  | idle _ bytes hr =>
    rw [hr] at hempty
    exact absurd rfl hempty
  | follows _ hf =>
    cases hf.stage with
    | malformed _ _ hreads | threw _ hreads | failed _ hreads => exact absurd hreads hempty
    | reading _ _ _ hph =>
      cases hph with
      | posted _ hreads => exact absurd hreads hempty
      | length hb | payload hb => cases hb
      | @terminator d _ _ hreads =>
        obtain ⟨read, hi⟩ := Option.ne_none_iff_exists'.1 hread
        rw [hreads] at hi
        obtain ⟨rfl, rfl⟩ := Receiver.single_read hi
        -- A read that found its terminator takes no more bytes.
        have hmatch : matchEnd d r.inputBuffer ≠ none := by
          intro hnone
          simp [Receiver.message, hreads, Read.complete, hnone] at hm
        cases hs : r.step (.readSome j n) with
        | none => rfl
        | some r' =>
          cases Receiver.step_cases hs with
          | readSome hj hk =>
            rw [hreads] at hj
            obtain ⟨rfl, rfl⟩ := Receiver.single_read hj
            simp only [Read.wants, hmatch, if_false] at hk
            omega

theorem handles_some {j : Nat} {f : ReceiveReaction → Receiver.Event} {contents : Option Bytes}
    (hs : S.handles j f contents = some S') :
    S.lobby.step (.read j contents) = some S'.lobby ∧ ∀ k, k ≠ j → S'.receiver k = S.receiver k := by
  unfold handles at hs
  split at hs
  · cases hs
  · split at hs
    · rename_i r L _ hL
      cases hs
      exact ⟨hL, fun k hne => setReceiver_other S r hne⟩
    · cases hs

/-- What the lobby does in a step, in which strand, and whether it looks for a name. -/
theorem step_lobby (hs : S.step e = some S') : S'.lobby = S.lobby ∧ e.strand = none ∨ ∃ e', e'.strand = e.strand ∧
    S.lobby.step e' = some S'.lobby ∧
    (S.lobby.scan e' = none ∨ ∃ k i, e = .complete k i ∧ (S.lobby.scan e').map (·.2.2) = S.claims k i) := by
  cases e with
  | lobby e =>
    simp only [step] at hs
    split at hs
    · cases hs
    · rename_i he
      obtain ⟨L, hL, rfl⟩ := Option.map_eq_some_iff.1 hs
      refine .inr ⟨e, rfl, hL, .inl ?_⟩
      cases e with
      | read => exact absurd rfl he
      | accept | receiveMessage | sendMessage | transfer | written | tick => rfl
  | arrive j bytes =>
    simp only [step, moves] at hs
    split at hs
    · cases hs
    · obtain ⟨r, -, rfl⟩ := Option.map_eq_some_iff.1 hs
      exact .inl ⟨rfl, rfl⟩
  | readSome j i n =>
    simp only [step, moves] at hs
    split at hs
    · cases hs
    · obtain ⟨r, -, rfl⟩ := Option.map_eq_some_iff.1 hs
      exact .inl ⟨rfl, rfl⟩
  | receiveMessage j =>
    simp only [step] at hs
    split at hs
    · rename_i r L _ hL
      cases hs
      exact .inr ⟨.receiveMessage j, rfl, hL, .inl rfl⟩
    · cases hs
  | complete j i =>
    simp only [step] at hs
    split at hs
    · cases hs
    · rename_i m hm
      refine .inr ⟨.read j (some m.contents), rfl, (handles_some hs).1, .inr ⟨j, i, rfl, ?_⟩⟩
      simp only [claims, hm]
  | fail j i => exact .inr ⟨.read j none, rfl, (handles_some hs).1, .inl rfl⟩

/-- While other strands run, a read that is complete keeps its message. -/
theorem Agrees.bystander (h : Agrees host S) (hr : (Lobby.system host).Reachable S.lobby) (hs : S.step e = some S')
    (hmem : s ∈ S.lobby.sessions) (hreads : 0 < s.reads) (hstrand : e.strand ≠ some s.key) {m : Message}
    (hm : (S.receiver s.key).message (.complete i {}) = some m) :
    (S'.receiver s.key).message (.complete i {}) = some m := by
  have hw := Lobby.Reachable.wf hr
  have hother : ∀ {j : Nat}, some j ≠ some s.key → s.key ≠ j := fun hne he => hne (congrArg some he.symm)
  cases e with
  | lobby e =>
    simp only [Server.step] at hs
    split at hs
    · cases hs
    · obtain ⟨L, hL, rfl⟩ := Option.map_eq_some_iff.1 hs
      change ((S.received e).receiver s.key).message _ = _
      cases Lobby.step_change hw hL with
      | moved _ hmoved =>
        rw [received_moved hmoved]
        exact hm
      | @accepted init t ht hwait =>
        have hne : s.key ≠ t.key := by
          intro he
          obtain rfl := hw.keys.eq hmem (show t ∈ S.lobby.sessions by simp [ht]) he
          rw [hwait] at hreads
          exact absurd hreads (Nat.lt_irrefl 0)
        simp only [received, ht, List.getLast?_concat]
        rw [setReceiver_other S _ hne]
        exact hm
      | reaped | aborted => exact hm
  | arrive j bytes =>
    simp only [Server.step, Server.moves] at hs
    split at hs
    · cases hs
    · obtain ⟨r, hstep, rfl⟩ := Option.map_eq_some_iff.1 hs
      by_cases hj : s.key = j
      · subst hj
        rw [setReceiver_same]
        cases hstep
        exact hm
      · rw [setReceiver_other S r hj]
        exact hm
  | readSome j i' n =>
    simp only [Server.step, Server.moves] at hs
    split at hs
    · cases hs
    · obtain ⟨r, hstep, rfl⟩ := Option.map_eq_some_iff.1 hs
      by_cases hj : s.key = j
      · subst hj
        rw [(h.paired s (Lobby.mem_everyone hmem)).message_kept hm] at hstep
        cases hstep
      · rw [setReceiver_other S r hj]
        exact hm
  | receiveMessage j =>
    simp only [Server.step] at hs
    split at hs
    · rename_i r L _ hL
      cases hs
      change ((S.setReceiver j r).receiver s.key).message _ = _
      rw [setReceiver_other S r (hother hstrand)]
      exact hm
    · cases hs
  | complete j i' =>
    simp only [Server.step] at hs
    split at hs
    · cases hs
    · rw [(handles_some hs).2 s.key (hother hstrand)]
      exact hm
  | fail j i' =>
    rw [(handles_some hs).2 s.key (hother hstrand)]
    exact hm

/-- So its handler asks for the same name, while that is free. -/
theorem Agrees.claims_kept (h : Agrees host S) (hr : (Lobby.system host).Reachable S.lobby) (hs : S.step e = some S')
    (hc : S.claims k i = some claim) (hstrand : e.strand ≠ some k) (hpresent : S'.lobby.get? k ≠ none)
    (hfree : claim.scan S'.lobby = none) : S'.claims k i = some claim := by
  obtain ⟨m, s, hm, hscan, hmem, rfl, hreads⟩ := claims_some hc
  have hm' := h.bystander hr hs hmem hreads hstrand hm
  have hw := Lobby.Reachable.wf hr
  have hscan' : ∃ s', S'.lobby.scan (.read s.key (some m.contents)) = some (s', m.contents, claim) := by
    rcases step_lobby hs with ⟨he, -⟩ | ⟨e', hstrand', hstep, -⟩
    · rw [he]
      exact ⟨s, hscan⟩
    · obtain ⟨s', hget⟩ := Option.ne_none_iff_exists'.1 hpresent
      exact ⟨s', (Lobby.step_change hw hstep).scan hw (hw.step hstep) hscan (hstrand' ▸ hstrand) hget hfree⟩
  obtain ⟨s', hscan'⟩ := hscan'
  simp only [claims, hm', hscan', Option.map_some]

/-- A name stays free where nobody commits it. -/
theorem claim_free (hr : (Lobby.system host).Reachable S.lobby) (hs : S.step e = some S')
    (hother : ∀ j i', e = .complete j i' → S.claims j i' ≠ some claim) (hne : claim ≠ .user [])
    (hf : claim.scan S.lobby = none) : claim.scan S'.lobby = none := by
  have hw := Lobby.Reachable.wf hr
  rcases step_lobby hs with ⟨he, -⟩ | ⟨e', -, hstep, hscan⟩
  · rw [he]
    exact hf
  · cases hcase : S.lobby.scan e' with
    | none => exact ((Lobby.step_change hw hstep).frame hw hcase).scan hne hf
    | some x =>
      obtain ⟨t, c, claim'⟩ := x
      rcases hscan with hnone | ⟨j, i', rfl, hclaims⟩
      · rw [hcase] at hnone
        cases hnone
      · have hne' : claim ≠ claim' := by
          rintro rfl
          rw [hcase] at hclaims
          exact hother j i' rfl hclaims.symm
        exact Lobby.scan_committed hw hcase hstep hne' hf

theorem step_keys (hr : (Lobby.system host).Reachable S.lobby) (hs : S.step e = some S') :
    S.lobby.nextKey ≤ S'.lobby.nextKey ∧
      (k < S.lobby.nextKey → S'.lobby.get? k ≠ none → S.lobby.get? k ≠ none) := by
  rcases step_lobby hs with ⟨he, -⟩ | ⟨e', -, hstep, -⟩
  · rw [he]
    exact ⟨Nat.le_refl _, fun _ h => h⟩
  · obtain ⟨hle, hold⟩ := (Lobby.step_change (Lobby.Reachable.wf hr) hstep).keys
    refine ⟨hle, fun hlt h => ?_⟩
    obtain ⟨x, hx, rfl⟩ := Lobby.get?_ne_none.1 h
    exact Lobby.get?_ne_none.2 (hold x hx hlt)

end Server

namespace Network

variable {N N' : Network} {e : Event}

theorem scan_some {x : Pending} (h : N.scan e = some x) :
    e = .server (.complete x.key x.read) ∧ N.server.claims x.key x.read = some x.claim := by
  unfold scan at h
  split at h
  · obtain ⟨claim, hclaims, rfl⟩ := Option.map_eq_some_iff.1 h
    exact ⟨rfl, hclaims⟩
  · cases h

/-- What the server does in a step. -/
theorem step_server (hs : N.step e = some N') : N'.server = N.server ∧ e.strand = none ∨
    ∃ e', N.server.step e' = some N'.server ∧ e'.strand = e.strand ∧
      ∀ k i, e' = .complete k i → N.scan e = (N.server.claims k i).map fun claim => ⟨k, i, claim⟩ := by
  cases step_cases hs with
  | @client c a a' e => exact .inl ⟨(dial_kept c a e).2, rfl⟩
  | toClient => exact .inl ⟨rfl, rfl⟩
  | server _ hstep =>
    refine .inr ⟨_, hstep, rfl, ?_⟩
    rintro k i rfl
    rfl
  | accept _ _ hstep | toServer _ _ _ hstep => exact .inr ⟨_, hstep, rfl, by rintro _ _ ⟨⟩⟩

end Network

namespace Threads

variable {T T' : Threads} {N : Network} {e : Event} {es : List Event} {host : Endian} {hosts : List Endian}

/-! ## The names that are about to be committed -/

/-- The network is one of one thread. Every handler that is about to commit, if its session is still
there, would find its name free again, and is the only one with that name. -/
structure Ok (host : Endian) (hosts : List Endian) (T : Threads) : Prop where
  reachable : (Network.system host hosts).Reachable T.network
  keys : Keyed.Distinct Pending.key T.pending
  fresh : ∀ p ∈ T.pending, p.key < T.network.server.lobby.nextKey
  waits : ∀ p ∈ T.pending, T.network.server.lobby.get? p.key ≠ none → T.network.server.claims p.key p.read = some p.claim
  apart : ∀ p ∈ T.pending, ∀ q ∈ T.pending, T.network.server.lobby.get? p.key ≠ none →
    T.network.server.lobby.get? q.key ≠ none → p.claim = q.claim → p.key = q.key

theorem Ok.agrees (h : Ok host hosts T) :
    (Lobby.system host).Reachable T.network.server.lobby ∧ Server.Agrees host T.network.server :=
  Server.Reachable.agrees (Network.Reachable.linked h.reachable).server

/-- The server steps in the strand of none of `ps`, and commits none of their names. -/
theorem Ok.moved (h : Ok host hosts T) {ps : List Pending} (hsub : ps.Sublist T.pending)
    (hN : (Network.system host hosts).Reachable N) {e : Server.Event} (hs : T.network.server.step e = some N.server)
    (hstrand : ∀ p ∈ ps, e.strand ≠ some p.key)
    (hother : ∀ p ∈ ps, T.network.server.lobby.get? p.key ≠ none →
      ∀ j i, e = .complete j i → T.network.server.claims j i ≠ some p.claim) : Ok host hosts ⟨N, ps⟩ := by
  obtain ⟨hr, ha⟩ := h.agrees
  have hold : ∀ p ∈ ps, N.server.lobby.get? p.key ≠ none → T.network.server.lobby.get? p.key ≠ none :=
    fun p hp => (Server.step_keys hr hs).2 (h.fresh p (hsub.subset hp))
  refine ⟨hN, h.keys.sublist hsub, ?_, ?_, ?_⟩
  · intro p hp
    exact Nat.lt_of_lt_of_le (h.fresh p (hsub.subset hp)) (Server.step_keys (k := p.key) hr hs).1
  · intro p hp hpresent
    have hbefore := hold p hp hpresent
    have hclaims := h.waits p (hsub.subset hp) hbefore
    obtain ⟨m, s, -, hscan, -⟩ := Server.claims_some hclaims
    obtain ⟨-, -, -, -, hf⟩ := Lobby.scan_some hscan
    have hnamed := Lobby.scan_named (Lobby.Reachable.rooms hr) hscan
    exact ha.claims_kept hr hs hclaims (hstrand p hp) hpresent (Server.claim_free hr hs (hother p hp hbefore) hnamed hf)
  · intro p hp q hq hpp hpq he
    exact h.apart p (hsub.subset hp) q (hsub.subset hq) (hold p hp hpp) (hold q hq hpq) he

/-- The server takes no part. -/
theorem Ok.beside (h : Ok host hosts T) (hN : (Network.system host hosts).Reachable N)
    (hs : N.server = T.network.server) : Ok host hosts ⟨N, T.pending⟩ := by
  refine ⟨hN, h.keys, ?_, ?_, ?_⟩ <;> simp only [hs]
  · exact h.fresh
  · exact h.waits
  · exact h.apart

theorem Ok.run (h : Ok host hosts T) {e : Network.Event} (hfree : ∀ p ∈ T.pending, e.strand ≠ some p.key)
    (hno : T.network.scan e = none) (hs : T.network.step e = some N) : Ok host hosts ⟨N, T.pending⟩ := by
  have hN := h.reachable.step hs
  rcases Network.step_server hs with ⟨he, -⟩ | ⟨e', hstep, hstrand, hscan⟩
  · exact h.beside hN he
  · refine h.moved (List.Sublist.refl _) hN hstep ?_ ?_
    · rw [hstrand]
      exact hfree
    · intro p hp _ j i he hclaims
      have hnone := (hscan j i he).symm.trans hno
      rw [hclaims] at hnone
      cases hnone

/-- A scan that finds a name free which no other session is about to commit. -/
theorem Ok.scanned (h : Ok host hosts T) {e : Network.Event} (hfree : ∀ p ∈ T.pending, e.strand ≠ some p.key) {x : Pending}
    (hx : T.network.scan e = some x)
    (ha : ∀ p ∈ T.pending, p.claim = x.claim → T.network.server.lobby.get? p.key = none) :
    Ok host hosts { T with pending := T.pending ++ [x] } := by
  obtain ⟨rfl, hclaims⟩ := Network.scan_some hx
  obtain ⟨m, s, -, -, hs, hk, -⟩ := Server.claims_some hclaims
  have hw := Lobby.Reachable.wf h.agrees.1
  refine ⟨h.reachable, h.keys.concat fun p hp he => hfree p hp (congrArg some he.symm), ?_, ?_, ?_⟩
  · intro p hp
    rcases List.mem_append.1 hp with hp | hp
    · exact h.fresh p hp
    · obtain rfl := List.mem_singleton.1 hp
      exact hk ▸ hw.fresh s (List.mem_append_left _ hs)
  · intro p hp hpresent
    rcases List.mem_append.1 hp with hp | hp
    · exact h.waits p hp hpresent
    · obtain rfl := List.mem_singleton.1 hp
      exact hclaims
  · intro p hp q hq hpp hpq he
    rcases List.mem_append.1 hp with hp' | hp' <;> rcases List.mem_append.1 hq with hq' | hq'
    · exact h.apart p hp' q hq' hpp hpq he
    · obtain rfl := List.mem_singleton.1 hq'
      exact absurd (ha p hp' he) hpp
    · obtain rfl := List.mem_singleton.1 hp'
      exact absurd (ha q hq' he.symm) hpq
    · rw [List.mem_singleton.1 hp', List.mem_singleton.1 hq']

/-- A commit is the step of one thread in which the handler runs as a whole. -/
theorem Ok.commit (h : Ok host hosts T) {p : Pending} (hp : p ∈ T.pending) {S : Server}
    (hs : T.network.server.commit p.key p.read p.claim = some S) :
    T.network.step (.server (.complete p.key p.read)) = some (T.network.setServer S) ∧
      Ok host hosts ⟨T.network.setServer S, T.pending.filter (·.key ≠ p.key)⟩ := by
  have hpresent : T.network.server.lobby.get? p.key ≠ none := by
    intro hnone
    simp [Server.commit, hnone] at hs
  have hclaims := h.waits p hp hpresent
  rw [Server.commit_eq h.agrees.1 hclaims] at hs
  have hstep : T.network.step (.server (.complete p.key p.read)) = some (T.network.setServer S) := by
    simp only [Network.step, Network.stepServer, hs, Option.map_some]
  have hN : (Network.system host hosts).Reachable (T.network.setServer S) :=
    h.reachable.step (show (Network.system host hosts).step T.network (.server (.complete p.key p.read)) = _ from hstep)
  refine ⟨hstep, h.moved List.filter_sublist hN hs ?_ ?_⟩
  · intro q hq he
    have hne : q.key ≠ p.key := by simpa using (List.mem_filter.1 hq).2
    exact hne (Option.some.inj he).symm
  · rintro q hq hqp j i ⟨⟩ he
    have hne : q.key ≠ p.key := by simpa using (List.mem_filter.1 hq).2
    have hclaim : p.claim = q.claim := Option.some.inj (hclaims.symm.trans he)
    exact hne (h.apart p hp q (List.mem_filter.1 hq).1 hpresent hqp hclaim).symm

/-- What can happen: a whole step of one thread, a scan, or a commit. -/
inductive Change (T : Threads) : Event → Threads → Prop
  | whole {e : Network.Event} {N : Network} (hfree : ∀ p ∈ T.pending, e.strand ≠ some p.key)
      (hno : T.network.scan e = none) (h : T.network.step e = some N) : Change T (.run e) ⟨N, T.pending⟩
  | scanned {e : Network.Event} {x : Pending} (hfree : ∀ p ∈ T.pending, e.strand ≠ some p.key)
      (h : T.network.scan e = some x) : Change T (.run e) { T with pending := T.pending ++ [x] }
  | committed {p : Pending} {S : Server} (hp : p ∈ T.pending) (h : T.network.server.commit p.key p.read p.claim = some S) :
      Change T (.commit p.key) ⟨T.network.setServer S, T.pending.filter (·.key ≠ p.key)⟩

theorem step_change (hs : T.step e = some T') : Change T e T' := by
  cases e with
  | run e =>
    simp only [step] at hs
    split at hs
    · cases hs
    · rename_i hbusy
      have hfree : ∀ p ∈ T.pending, e.strand ≠ some p.key := fun p hp he => hbusy ⟨p, hp, he⟩
      split at hs
      · rename_i x hx
        cases hs
        exact .scanned hfree hx
      · rename_i hno
        obtain ⟨N, hN, rfl⟩ := Option.map_eq_some_iff.1 hs
        exact .whole hfree hno hN
  | commit k =>
    simp only [step] at hs
    split at hs
    · cases hs
    · rename_i p hp
      obtain ⟨S, hS, rfl⟩ := Option.map_eq_some_iff.1 hs
      obtain ⟨hmem, rfl⟩ := Keyed.get?_some hp
      exact .committed hmem hS

theorem Ok.init (host : Endian) (hosts : List Endian) : Ok host hosts (system host hosts).init :=
  ⟨System.reachable_init, List.nodup_nil, by rintro _ ⟨⟩, by rintro _ ⟨⟩, by rintro _ ⟨⟩⟩

theorem Ok.step (h : Ok host hosts T) (ha : T.Apart e) (hs : T.step e = some T') : Ok host hosts T' := by
  cases step_change hs with
  | whole hfree hno hN => exact h.run hfree hno hN
  | scanned hfree hx => exact h.scanned hfree hx (ha _ hx)
  | committed hp hS => exact (h.commit hp hS).2

theorem RunIf.ok (h : (system host hosts).RunIf Apart es T) : Ok host hosts T :=
  h.inv (Ok host hosts) (Ok.init host hosts) fun _ _ _ hi ha hs => hi.step ha hs

/-! ## The states of one thread -/

/-- What one thread does in a step, a handler up to its commit and on. -/
theorem whole_step {N' : Network} {e : Network.Event} (hr : (Network.system host hosts).Reachable N)
    (hs : N.step e = some N') : ∃ es, (system host hosts).Steps Apart ⟨N, []⟩ es ⟨N', []⟩ := by
  cases hscan : N.scan e with
  | none =>
    refine ⟨[.run e], System.Steps.one ?_ ?_⟩
    · intro x hx
      rw [hscan] at hx
      cases hx
    · simp [system, Threads.step, hscan, hs]
  | some x =>
    obtain ⟨rfl, hclaims⟩ := Network.scan_some hscan
    obtain ⟨S, hS, rfl⟩ : ∃ S, N.server.step (.complete x.key x.read) = some S ∧ N' = N.setServer S := by
      cases Network.step_cases hs with
      | server _ hS => exact ⟨_, hS, rfl⟩
    have hlobby := (Server.Reachable.agrees (Network.Reachable.linked hr).server).1
    have hcommit := (Server.commit_eq hlobby hclaims).trans hS
    have hfirst : (system host hosts).step ⟨N, []⟩ (.run (.server (.complete x.key x.read))) = some ⟨N, [x]⟩ := by
      simp [system, Threads.step, hscan]
    have hsecond : (system host hosts).step ⟨N, [x]⟩ (.commit x.key) = some ⟨N.setServer S, []⟩ := by
      simp [system, Threads.step, Keyed.get?, hcommit]
    have hapart : Apart ⟨N, []⟩ (.run (.server (.complete x.key x.read))) := by rintro _ _ _ ⟨⟩
    have hcommits : Apart ⟨N, [x]⟩ (.commit x.key) := trivial
    exact ⟨_, (System.Steps.one hapart hfirst).trans (System.Steps.one hcommits hsecond)⟩

/-- While no two sessions ask for one name at the same time, the threads reach the states that one
thread reaches: those without the handlers that are about to commit, and all of them. -/
theorem threads_hidden (host : Endian) (hosts : List Endian) (N : Network) :
    (∃ es T, (system host hosts).RunIf Apart es T ∧ T.network = N) ↔ (Network.system host hosts).Reachable N := by
  constructor
  · rintro ⟨es, T, h, rfl⟩
    exact (RunIf.ok h).reachable
  · rintro ⟨es, h⟩
    have hrun : ∃ es, (system host hosts).RunIf Apart es ⟨N, []⟩ := by
      refine h.inv_hist (fun _ N => ∃ es, (system host hosts).RunIf Apart es ⟨N, []⟩) ⟨[], .nil⟩ ?_
      rintro es N e N' hr ⟨es', h'⟩ - hs
      obtain ⟨es'', h''⟩ := whole_step (System.Run.reachable hr) hs
      exact ⟨es' ++ es'', System.Steps.trans h' h''⟩
    obtain ⟨es, h⟩ := hrun
    exact ⟨es, _, h, rfl⟩

end Threads
end Zar
