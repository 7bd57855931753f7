import Zar.Lobby.Names
/-!
# More than one thread

The threads of `tlobby::run` run handlers of different sessions at the same
time: only the handlers of one session wait for each other, in its strand. So
between the scan of `user` or `game_create` and its commit other sessions go on.
Names stay apart as long as nobody scans for a name that another session is
about to commit.
-/

namespace Zar
namespace Lobby

/-- What `user` and `game_create` throw before they change anything. -/
def Claim.scan (L : Lobby) : Claim → Option Thrown
  | .user id => L.userScan id
  | .gameCreate id => L.gameCreateScan id

/-- What they do then. -/
def Claim.commit (L : Lobby) (k : Nat) : Claim → Lobby
  | .user id => L.userCommit k id
  | .gameCreate id => L.gameCreateCommit k id

/-- The session in whose strand the handler of the event runs. -/
def Event.strand : Event → Option Nat
  | .receiveMessage k | .sendMessage k | .read k _ | .written k _ => some k
  | .accept _ _ | .transfer _ _ _ | .tick _ => none

/-- A command whose scan finds the name free: its session, the command, and the name. -/
def scan (L : Lobby) : Event → Option (Session × Bytes × Claim)
  | .read k (some c) =>
    match L.get? k with
    | none => none
    | some s =>
      match claimOf s.mode c with
      | none => none
      | some claim => if 0 < s.reads ∧ claim.scan L = none then some (s, c, claim) else none
  | _ => none

end Lobby

/-- The lobby, and the sessions that are between scan and commit. -/
structure Concurrent where
  lobby : Lobby
  pending : List (Nat × Lobby.Claim) := []
  deriving DecidableEq, Repr

inductive Concurrent.Event where
  /-- A handler runs, up to the commit if its scan finds the name free. -/
  | run (e : Lobby.Event)
  /-- The rest of the handler, while its session is there: behind `reap` it would use an erased one. -/
  | commit (k : Nat)
  deriving DecidableEq, Repr

namespace Concurrent

/-- A session whose name is free. -/
def scanned (C : Concurrent) (s : Session) (c : Bytes) (claim : Lobby.Claim) : Concurrent where
  lobby := C.lobby.answered (s.readEnds (some c)) C.lobby.games
  pending := C.pending ++ [(s.key, claim)]

def step (C : Concurrent) : Event → Option Concurrent
  | .run e =>
    if ∃ p ∈ C.pending, e.strand = some p.1 then none
    else
      match C.lobby.scan e with
      | some (s, c, claim) => some (C.scanned s c claim)
      | none => (C.lobby.step e).map fun L => { C with lobby := L }
  | .commit k =>
    match Keyed.get? Prod.fst k C.pending, C.lobby.get? k with
    | some (_, claim), some _ => some ⟨(claim.commit C.lobby k).update k (·.receive), C.pending.filter (·.1 ≠ k)⟩
    | _, _ => none

def system (host : Endian) : System Concurrent Event := ⟨⟨Lobby.run host, []⟩, step⟩

/-- No scan finds a name free that another session is about to commit. What the handler of a session
does that the reaper erased is undefined, and it counts for nothing here. -/
def Apart (C : Concurrent) : Event → Prop
  | .run e => ∀ x ∈ C.lobby.scan e, ∀ p ∈ C.pending, p.2 = x.2.2 → C.lobby.get? p.1 = none
  | .commit _ => True

instance (C : Concurrent) : (e : Event) → Decidable (C.Apart e)
  | .run e => inferInstanceAs (Decidable (∀ x ∈ C.lobby.scan e, ∀ p ∈ C.pending, p.2 = x.2.2 → C.lobby.get? p.1 = none))
  | .commit _ => inferInstanceAs (Decidable True)

end Concurrent

namespace Lobby

variable {L L' : Lobby} {s s' : Session} {e : Event} {gs : List Game} {host : Endian} {c : Bytes} {claim : Claim}

/-! ## Scans -/

/-- A scan finds a name free that no session and no game has. -/
theorem scan_eq_none : claim.scan L = none ↔
    (∀ x ∈ L.sessions, claim ≠ .user x.id) ∧ ∀ g ∈ L.games, claim ≠ .gameCreate g.id := by
  cases claim with
  | user id =>
    rw [Claim.scan, userScan_eq_none]
    simp [@eq_comm _ id]
  | gameCreate id =>
    rw [Claim.scan, gameCreateScan_eq_none]
    simp [@eq_comm _ id]

/-- The mode in which a command asks for such a name. -/
def Claim.mode : Claim → Mode
  | .user _ => .connected
  | .gameCreate _ => .lobby

theorem claimOf_mode {m : Mode} (h : claimOf m c = some claim) : m = claim.mode := by
  cases m with
  | connected =>
    simp only [claimOf] at h
    split at h
    · cases h
      rfl
    · cases h
  | lobby =>
    simp only [claimOf] at h
    split at h
    · cases h
      rfl
    · cases h
  | creating_game => cases h

theorem scan_some (h : L.scan e = some (s, c, claim)) :
    e = .read s.key (some c) ∧ s ∈ L.sessions ∧ 0 < s.reads ∧ claimOf s.mode c = some claim ∧ claim.scan L = none := by
  unfold scan at h
  split at h
  · split at h
    · cases h
    · rename_i x hg
      split at h
      · cases h
      · rename_i claim' hc
        split at h
        · rename_i hf
          cases h
          obtain ⟨hs, rfl⟩ := get?_mem hg
          exact ⟨rfl, hs, hf.1, hc, hf.2⟩
        · cases h
  · cases h

theorem scan_read (hw : L.Wf) (hs : s ∈ L.sessions) (hr : 0 < s.reads) (hc : claimOf s.mode c = some claim)
    (hf : claim.scan L = none) : L.scan (.read s.key (some c)) = some (s, c, claim) := by
  simp only [scan, get?_eq hw.keys hs, hc, hr, hf, and_self, if_true]

/-- Without a scan that finds its name free a step changes no id, no mode and no game. -/
theorem Moved.unclaimed (hw : L.Wf) (hs : s ∈ L.sessions) (h : Moved L s e s' gs) (hno : L.scan e = none) :
    gs = L.games ∧ s'.id = s.id ∧ s'.mode = s.mode := by
  cases h with
  | acceptFailed | receiveMessage | sendMessage | transfer | readFailed | wrote | closed | threw => exact ⟨rfl, rfl, rfl⟩
  | command hr ha =>
    cases ha with
    | nothing | reply => exact ⟨rfl, rfl, rfl⟩
    | login _ _ id hc hid =>
      rw [scan_read hw hs hr hc (userScan_eq_none.2 hid)] at hno
      cases hno
    | create _ _ id hc hid =>
      rw [scan_read hw hs hr hc (gameCreateScan_eq_none.2 hid)] at hno
      cases hno

/-- What the handlers of other sessions leave as it was. -/
structure Frame (L L' : Lobby) : Prop where
  games : L'.games = L.games
  nextKey : L.nextKey ≤ L'.nextKey
  sessions : ∀ x' ∈ L'.sessions,
    (∃ x ∈ L.sessions, x'.key = x.key ∧ x'.id = x.id ∧ x'.mode = x.mode ∧ (x.accepts = 0 → x'.accepts = 0)) ∨
      L.nextKey ≤ x'.key ∧ x'.id = [] ∧ x'.mode = .connected

theorem Frame.answered (hs : s ∈ L.sessions) (hk : s'.key = s.key) (hid : s'.id = s.id) (hm : s'.mode = s.mode)
    (hacc : s.accepts = 0 → s'.accepts = 0) : Frame L (L.answered s' L.games) := by
  refine ⟨rfl, Nat.le_refl _, fun x hx => .inl ?_⟩
  rcases mem_moved hk hx with rfl | ⟨hx, -⟩
  · exact ⟨s, hs, hk, hid, hm, hacc⟩
  · exact ⟨x, hx, rfl, rfl, rfl, id⟩

theorem Change.frame (hw : L.Wf) (h : Change L e L') (hno : L.scan e = none) : Frame L L' := by
  cases h with
  | moved hs hm =>
    obtain ⟨rfl, hid, hmode⟩ := hm.unclaimed hw hs hno
    exact { Frame.answered hs hm.key hid hmode fun _ => hw.moved_accepts hs hm with }
  | @accepted init s hs hwait =>
    refine ⟨rfl, Nat.le_succ _, fun x hx => ?_⟩
    rcases mem_accepted hx with hx | rfl | rfl
    · exact .inl ⟨x, by simp [hs, hx], rfl, rfl, rfl, id⟩
    · refine .inl ⟨s, by simp [hs], rfl, rfl, rfl, fun h0 => ?_⟩
      rw [hwait.accepts] at h0
      cases h0
    · exact .inr ⟨Nat.le_refl _, rfl, rfl⟩
  | reaped => exact ⟨rfl, Nat.le_refl _, fun x hx => .inl ⟨x, (mem_reap.1 hx).1, rfl, rfl, rfl, id⟩⟩
  | aborted => exact ⟨rfl, Nat.le_refl _, fun x hx => .inl ⟨x, hx, rfl, rfl, rfl, id⟩⟩

/-- A name stays free. -/
theorem Frame.scan (h : Frame L L') (hne : claim ≠ .user []) (hf : claim.scan L = none) : claim.scan L' = none := by
  rw [scan_eq_none] at hf ⊢
  refine ⟨fun x' hx' => ?_, fun g hg => hf.2 g (h.games ▸ hg)⟩
  rcases h.sessions x' hx' with ⟨x, hx, -, hid, -⟩ | ⟨-, hid, -⟩
  · rw [hid]
    exact hf.1 x hx
  · rw [hid]
    exact hne

/-- A session that was there before. -/
theorem Frame.old (h : Frame L L') {k : Nat} (hk : k < L.nextKey) {x' : Session} (hx' : x' ∈ L'.sessions)
    (he : x'.key = k) :
    ∃ x ∈ L.sessions, x.key = k ∧ x'.mode = x.mode ∧ (x.accepts = 0 → x'.accepts = 0) := by
  rcases h.sessions x' hx' with ⟨x, hx, hkx, -, hm, hacc⟩ | ⟨hle, -⟩
  · exact ⟨x, hx, hkx.symm.trans he, hm, hacc⟩
  · omega

/-! ## Commits -/

/-- The session and the games after a commit. -/
def Claim.grant (s : Session) (games : List Game) : Claim → Session × List Game
  | .user id => ((((s.setId id).setMode .lobby).send (text "OK\n")).receive, games)
  | .gameCreate id => ((Game.create s id).2.receive, games ++ [(Game.create s id).1])

theorem commit_eq (hd : Keyed.Distinct Session.key L.sessions) (hs : s ∈ L.sessions) (claim : Claim) :
    (claim.commit L s.key).update s.key (·.receive) = L.answered (claim.grant s L.games).1 (claim.grant s L.games).2 := by
  cases claim with
  | user id =>
    simp only [Claim.commit, userCommit, Claim.grant]
    rw [update_eq hd hs]
    exact answered_update (((s.setId id).setMode .lobby).send (text "OK\n")) L.games _ rfl
  | gameCreate id =>
    simp only [Claim.commit, gameCreateCommit, get?_eq hd hs, Claim.grant]
    rw [update_eq hd hs]
    exact answered_update (Game.create s id).2 (L.games ++ [(Game.create s id).1]) _ rfl

theorem grant_key (s : Session) (gs : List Game) (claim : Claim) : (claim.grant s gs).1.key = s.key := by
  cases claim <;> rfl

theorem grant_mode (s : Session) (gs : List Game) (claim : Claim) : (claim.grant s gs).1.mode ≠ .connected := by
  cases claim <;> rintro ⟨⟩

theorem grant_joined (hm : s.mode = claim.mode) (hf : claim.scan L = none) :
    Joined L s (claim.grant s L.games).1 (claim.grant s L.games).2 := by
  cases claim with
  | user id => exact .login hm rfl (userScan_eq_none.1 hf)
  | gameCreate id =>
    have hmode : (Game.create s id).2.receive.mode = .creating_game := rfl
    exact .create hm hmode rfl id (gameCreateScan_eq_none.1 hf)

theorem Wf.grant (hw : L.Wf) (hs : s ∈ L.sessions) (hm : s.mode = claim.mode) (h0 : s.accepts = 0) :
    (L.answered (claim.grant s L.games).1 (claim.grant s L.games).2).Wf := by
  refine hw.answered hs (grant_key s L.games claim) ?_ ?_
  · cases claim with
    | user id =>
      have hh := hw.handler s hs
      rw [hm] at hh
      constructor
      · intro hg
        cases hh.1 hg
      · rintro ⟨⟩
    | gameCreate id => exact ⟨fun _ => rfl, fun _ => rfl⟩
  · cases claim with
    | user | gameCreate => exact h0

/-- A commit takes no other name. -/
theorem grant_scan {claim' : Claim} (hs : s ∈ L.sessions) (hne : claim' ≠ claim) (hf : claim'.scan L = none) :
    claim'.scan (L.answered (claim.grant s L.games).1 (claim.grant s L.games).2) = none := by
  rw [scan_eq_none] at hf ⊢
  constructor
  · intro x hx
    rcases mem_moved (grant_key s L.games claim) hx with rfl | ⟨hx, -⟩
    · cases claim with
      | user n => exact hne
      | gameCreate n => exact hf.1 s hs
    · exact hf.1 x hx
  · intro g hg
    cases claim with
    | user n => exact hf.2 g hg
    | gameCreate n =>
      rcases List.mem_append.1 hg with hg | hg
      · exact hf.2 g hg
      · obtain rfl := List.mem_singleton.1 hg
        exact hne

end Lobby

namespace Concurrent

variable {C C' : Concurrent} {e : Event} {es : List Event} {host : Endian}

/-! ## Steps -/

inductive Change (C : Concurrent) : Event → Concurrent → Prop
  | atomic {e : Lobby.Event} {L : Lobby} (hno : C.lobby.scan e = none) (h : Lobby.Change C.lobby e L) :
      Change C (.run e) { C with lobby := L }
  | scanned {s : Session} {c : Bytes} {claim : Lobby.Claim} (hs : s ∈ C.lobby.sessions) (hr : 0 < s.reads)
      (hm : s.mode = claim.mode) (hf : claim.scan C.lobby = none) (hbusy : ∀ p ∈ C.pending, p.1 ≠ s.key)
      (h : C.lobby.scan (.read s.key (some c)) = some (s, c, claim)) :
      Change C (.run (.read s.key (some c))) (C.scanned s c claim)
  | committed {s : Session} {claim : Lobby.Claim} (hs : s ∈ C.lobby.sessions) (hp : (s.key, claim) ∈ C.pending) :
      Change C (.commit s.key)
        ⟨C.lobby.answered (claim.grant s C.lobby.games).1 (claim.grant s C.lobby.games).2,
          C.pending.filter (·.1 ≠ s.key)⟩

theorem step_change (hw : C.lobby.Wf) (h : C.step e = some C') : Change C e C' := by
  cases e with
  | run e =>
    simp only [step] at h
    split at h
    · cases h
    · rename_i hfree
      split at h
      · rename_i s c claim hscan
        cases h
        obtain ⟨rfl, hs, hr, hc, hf⟩ := Lobby.scan_some hscan
        refine .scanned hs hr (Lobby.claimOf_mode hc) hf (fun p hp he => hfree ⟨p, hp, ?_⟩) hscan
        exact congrArg some he.symm
      · rename_i hno
        obtain ⟨L, hL, rfl⟩ := Option.map_eq_some_iff.1 h
        exact .atomic hno (Lobby.step_change hw hL)
  | commit k =>
    simp only [step] at h
    split at h
    · rename_i k' claim s hp hg
      cases h
      obtain ⟨hs, rfl⟩ := Lobby.get?_mem hg
      obtain ⟨hp, hk⟩ := Keyed.get?_some hp
      have hk : k' = s.key := hk
      rw [Lobby.commit_eq hw.keys hs]
      exact .committed hs (hk ▸ hp)
    · cases h

/-! ## What holds in every run -/

/-- Who is about to commit is in the mode of its command, and is still anonymous if it logs in. -/
structure Base (C : Concurrent) : Prop where
  wf : C.lobby.Wf
  anonymous : ∀ s ∈ C.lobby.sessions, s.mode = .connected → s.id = []
  keys : Keyed.Distinct Prod.fst C.pending
  fresh : ∀ p ∈ C.pending, p.1 < C.lobby.nextKey
  waits : ∀ p ∈ C.pending, ∀ s ∈ C.lobby.sessions, s.key = p.1 → s.mode = p.2.mode ∧ s.accepts = 0
  named : ∀ p ∈ C.pending, p.2 ≠ .user []

/-- The handlers of other sessions. -/
theorem Base.frame (hb : C.Base) {L : Lobby} (hw : L.Wf) (h : Lobby.Frame C.lobby L) : Base { C with lobby := L } := by
  refine ⟨hw, ?_, hb.keys, ?_, ?_, hb.named⟩
  · intro x' hx' hm
    rcases h.sessions x' hx' with ⟨x, hx, -, hid, hm', -⟩ | ⟨-, hid, -⟩
    · rw [hid]
      exact hb.anonymous x hx (hm' ▸ hm)
    · exact hid
  · intro p hp
    exact Nat.lt_of_lt_of_le (hb.fresh p hp) h.nextKey
  · intro p hp x' hx' hk
    obtain ⟨x, hx, hkx, hm, hacc⟩ := h.old (hb.fresh p hp) hx' hk
    obtain ⟨hm', h0⟩ := hb.waits p hp x hx hkx
    exact ⟨hm.trans hm', hacc h0⟩

/-- What a scan makes of the lobby. -/
theorem Base.scanned_lobby (hb : C.Base) {s : Session} (hs : s ∈ C.lobby.sessions) (h0 : s.accepts = 0) (c : Bytes)
    (claim : Lobby.Claim) : (C.scanned s c claim).lobby.Wf ∧ Lobby.Frame C.lobby (C.scanned s c claim).lobby :=
  ⟨hb.wf.answered hs rfl (hb.wf.handler s hs) h0, .answered hs rfl rfl rfl id⟩

theorem Base.accepts (hb : C.Base) {s : Session} (hs : s ∈ C.lobby.sessions) (hr : 0 < s.reads) : s.accepts = 0 := by
  by_contra hne
  rw [(hb.wf.accepting s hs hne).1] at hr
  cases hr

/-- A session is never logged in under the empty id. -/
theorem Base.scan_named (hb : C.Base) {s : Session} (hs : s ∈ C.lobby.sessions) {claim : Lobby.Claim}
    (hm : s.mode = claim.mode) (hf : claim.scan C.lobby = none) : claim ≠ .user [] := by
  rintro rfl
  exact (Lobby.scan_eq_none.1 hf).1 s hs (by rw [hb.anonymous s hs hm])

theorem Change.base (hb : C.Base) (h : Change C e C') : C'.Base := by
  cases h with
  | atomic hno h => exact hb.frame (hb.wf.change h) (h.frame hb.wf hno)
  | @scanned s c claim hs hr hm hf hbusy h =>
    have h0 := hb.accepts hs hr
    obtain ⟨hw, hframe⟩ := hb.scanned_lobby hs h0 c claim
    have hb' := hb.frame hw hframe
    refine ⟨hw, hb'.anonymous, hb.keys.concat fun p hp => hbusy p hp, ?_, ?_, ?_⟩
    · intro p hp
      rcases List.mem_append.1 hp with hp | hp
      · exact hb'.fresh p hp
      · obtain rfl := List.mem_singleton.1 hp
        exact hb.wf.fresh s (List.mem_append_left _ hs)
    · intro p hp x hx hk
      rcases List.mem_append.1 hp with hp | hp
      · exact hb'.waits p hp x hx hk
      · obtain rfl := List.mem_singleton.1 hp
        rcases Lobby.mem_moved rfl hx with rfl | ⟨hx, hne⟩
        · exact ⟨hm, h0⟩
        · exact absurd hk hne
    · intro p hp
      rcases List.mem_append.1 hp with hp | hp
      · exact hb.named p hp
      · obtain rfl := List.mem_singleton.1 hp
        exact hb.scan_named hs hm hf
  | @committed s claim hs hp =>
    obtain ⟨hm, h0⟩ := hb.waits _ hp s hs rfl
    have hkey := Lobby.grant_key s C.lobby.games claim
    refine ⟨hb.wf.grant hs hm h0, ?_, hb.keys.sublist List.filter_sublist, ?_, ?_, ?_⟩
    · intro x hx hmx
      rcases Lobby.mem_moved hkey hx with rfl | ⟨hx, -⟩
      · exact absurd hmx (Lobby.grant_mode s C.lobby.games claim)
      · exact hb.anonymous x hx hmx
    · intro p hp
      exact hb.fresh p (List.mem_filter.1 hp).1
    · intro p hp x hx hk
      obtain ⟨hp, hne⟩ := List.mem_filter.1 hp
      rcases Lobby.mem_moved hkey hx with rfl | ⟨hx, -⟩
      · exact absurd (hk.symm.trans hkey) (by simpa using hne)
      · exact hb.waits p hp x hx hk
    · intro p hp
      exact hb.named p (List.mem_filter.1 hp).1

theorem Base.init (host : Endian) : Base ⟨Lobby.run host, []⟩ := by
  refine ⟨Lobby.Wf.init host, ?_, List.nodup_nil, by simp, by simp, by simp⟩
  intro s hs _
  rw [Lobby.run_waiting (Lobby.mem_everyone hs)]
  rfl

theorem Base.step (hb : C.Base) (h : C.step e = some C') : C'.Base := (step_change hb.wf h).base hb

theorem Reachable.base (h : (system host).Reachable C) : C.Base :=
  h.inv Base (Base.init host) fun _ _ _ hb hs => hb.step hs

/-! ## Names stay apart -/

/-- Whoever is about to commit a name finds it free, and is the only one. -/
structure Separate (C : Concurrent) : Prop where
  rooms : C.lobby.Rooms
  roster : C.lobby.roster.Ok
  free : ∀ p ∈ C.pending, (∃ s ∈ C.lobby.sessions, s.key = p.1) → p.2.scan C.lobby = none
  apart : ∀ p ∈ C.pending, ∀ q ∈ C.pending, p.2 = q.2 → (∃ s ∈ C.lobby.sessions, s.key = p.1) →
    (∃ s ∈ C.lobby.sessions, s.key = q.1) → p.1 = q.1

theorem Separate.frame (hb : C.Base) (h : C.Separate) {L : Lobby} (hr : L.Rooms) (ho : L.roster.Ok)
    (hf : Lobby.Frame C.lobby L) : Separate { C with lobby := L } := by
  have hold : ∀ p ∈ C.pending, (∃ s ∈ L.sessions, s.key = p.1) → ∃ s ∈ C.lobby.sessions, s.key = p.1 := by
    rintro p hp ⟨x, hx, hk⟩
    obtain ⟨y, hy, hky, -⟩ := hf.old (hb.fresh p hp) hx hk
    exact ⟨y, hy, hky⟩
  refine ⟨hr, ho, ?_, ?_⟩
  · intro p hp hs
    exact hf.scan (hb.named p hp) (h.free p hp (hold p hp hs))
  · intro p hp q hq he hs hs'
    exact h.apart p hp q hq he (hold p hp hs) (hold q hq hs')

/-- A step about one session that keeps or takes a name rightly. -/
theorem Separate.joined (hb : C.Base) (h : C.Separate) {s s' : Session} {gs : List Game} (hs : s ∈ C.lobby.sessions)
    (hj : Lobby.Joined C.lobby s s' gs) (hk : s'.key = s.key) :
    (C.lobby.answered s' gs).Rooms ∧ (C.lobby.answered s' gs).roster.Ok := by
  refine ⟨h.rooms.moved hb.wf hs hk hj, ?_⟩
  obtain ⟨ds, hd⟩ := Lobby.moved_roster hb.wf h.rooms hs hk hj
  exact Roster.Steps.ok hd h.roster

theorem Change.separate (hb : C.Base) (h : C.Separate) (hc : Change C e C') (ha : C.Apart e) : C'.Separate := by
  cases hc with
  | atomic hno hc =>
    obtain ⟨ds, hd⟩ := Lobby.change_roster hb.wf h.rooms hc
    exact h.frame hb (h.rooms.step hb.wf hc) (Roster.Steps.ok hd h.roster) (hc.frame hb.wf hno)
  | @scanned s c claim hs hr hm hf hbusy hscan =>
    obtain ⟨hw, hframe⟩ := hb.scanned_lobby hs (hb.accepts hs hr) c claim
    have hj : Lobby.Joined C.lobby s (s.readEnds (some c)) C.lobby.games :=
      .same rfl rfl
    obtain ⟨hrooms, hroster⟩ := h.joined hb hs hj rfl
    have h' := h.frame hb hrooms hroster hframe
    -- Whoever else is about to commit this name was erased.
    have hgone : ∀ p ∈ C.pending, p.2 = claim → ¬ ∃ x ∈ (C.scanned s c claim).lobby.sessions, x.key = p.1 := by
      rintro p hp he ⟨x, hx, hk⟩
      obtain ⟨y, hy, hky, -⟩ := hframe.old (hb.fresh p hp) hx hk
      have hnone := ha _ hscan p hp he
      rw [← hky, Lobby.get?_eq hb.wf.keys hy] at hnone
      cases hnone
    refine ⟨hrooms, hroster, ?_, ?_⟩
    · intro p hp hx
      rcases List.mem_append.1 hp with hp | hp
      · exact h'.free p hp hx
      · obtain rfl := List.mem_singleton.1 hp
        exact hframe.scan (hb.scan_named hs hm hf) hf
    · intro p hp q hq he hx hx'
      rcases List.mem_append.1 hp with hp | hp <;> rcases List.mem_append.1 hq with hq | hq
      · exact h'.apart p hp q hq he hx hx'
      · obtain rfl := List.mem_singleton.1 hq
        exact absurd hx (hgone p hp he)
      · obtain rfl := List.mem_singleton.1 hp
        exact absurd hx' (hgone q hq he.symm)
      · rw [List.mem_singleton.1 hp, List.mem_singleton.1 hq]
  | @committed s claim hs hp =>
    obtain ⟨hm, h0⟩ := hb.waits _ hp s hs rfl
    have hkey := Lobby.grant_key s C.lobby.games claim
    have hfree := h.free _ hp ⟨s, hs, rfl⟩
    obtain ⟨hrooms, hroster⟩ := h.joined hb hs (Lobby.grant_joined hm hfree) hkey
    have hold : ∀ k,
        (∃ x ∈ (C.lobby.answered (claim.grant s C.lobby.games).1 (claim.grant s C.lobby.games).2).sessions, x.key = k) →
        ∃ x ∈ C.lobby.sessions, x.key = k := by
      rintro k ⟨x, hx, hk⟩
      rcases Lobby.mem_moved hkey hx with rfl | ⟨hx, -⟩
      · exact ⟨s, hs, hkey.symm.trans hk⟩
      · exact ⟨x, hx, hk⟩
    refine ⟨hrooms, hroster, ?_, ?_⟩
    · intro p hp' hx
      obtain ⟨hp', hne⟩ := List.mem_filter.1 hp'
      refine Lobby.grant_scan hs (fun he => ?_) (h.free p hp' (hold p.1 hx))
      exact absurd (h.apart p hp' _ hp he (hold p.1 hx) ⟨s, hs, rfl⟩) (by simpa using hne)
    · intro p hp q hq he hx hx'
      exact h.apart p (List.mem_filter.1 hp).1 q (List.mem_filter.1 hq).1 he (hold p.1 hx) (hold q.1 hx')

/-- No two sessions are logged in under one id, and no two games have one id. -/
def Unique (L : Lobby) : Prop := ((L.sessions.map (·.id)).filter (· ≠ [])).Nodup ∧ L.gameList.Nodup

theorem Separate.unique (h : C.Separate) : Unique C.lobby := by
  constructor
  · rw [← Lobby.names_roster]
    exact h.roster.names
  · rw [← Lobby.rooms_fst h.rooms]
    exact h.roster.rooms

/-- Whoever is about to commit a name can, and has it then. -/
theorem commit_step (hb : C.Base) {s : Session} (hs : s ∈ C.lobby.sessions) {claim : Lobby.Claim}
    (hp : (s.key, claim) ∈ C.pending) :
    ∃ L' s', C.step (.commit s.key) = some ⟨L', C.pending.filter (·.1 ≠ s.key)⟩ ∧ s' ∈ L'.sessions ∧ s'.key = s.key ∧
      (∀ x ∈ C.lobby.sessions, x.key ≠ s.key → x ∈ L'.sessions) ∧ (∀ id, claim = .user id → s'.id = id) ∧
      ∀ id, claim = .gameCreate id → L'.gameList = C.lobby.gameList ++ [id] := by
  have hget : Keyed.get? Prod.fst s.key C.pending = some (s.key, claim) := hb.keys.get? hp
  have hkey := Lobby.grant_key s C.lobby.games claim
  refine ⟨C.lobby.answered (claim.grant s C.lobby.games).1 (claim.grant s C.lobby.games).2,
    (claim.grant s C.lobby.games).1, ?_, Lobby.mem_answered hs hkey, hkey, ?_, ?_, ?_⟩
  · simp only [step, hget, Lobby.get?_eq hb.wf.keys hs]
    rw [Lobby.commit_eq hb.wf.keys hs]
  · intro x hx hne
    exact Keyed.mem_update.2 (.inr ⟨hx, hkey.symm ▸ hne⟩)
  · rintro id rfl
    rfl
  · rintro id rfl
    simp [Lobby.gameList, Lobby.answered, Lobby.Claim.grant, Game.create]

/-- Two sessions commit one name. -/
theorem commit_twice (hb : C.Base) {x y : Session} (hx : x ∈ C.lobby.sessions) (hy : y ∈ C.lobby.sessions)
    (hne : x.key ≠ y.key) {claim : Lobby.Claim} (hpx : (x.key, claim) ∈ C.pending) (hpy : (y.key, claim) ∈ C.pending) :
    ∃ C', (system host).Steps (fun _ _ => True) C [.commit x.key, .commit y.key] C' ∧ ¬ Unique C'.lobby := by
  obtain ⟨L₁, x', h₁, hx', hkx, hkeep, hidx, hgx⟩ := commit_step hb hx hpx
  have hpy' : (y.key, claim) ∈ C.pending.filter (·.1 ≠ x.key) := List.mem_filter.2 ⟨hpy, by simpa using hne.symm⟩
  obtain ⟨L₂, y', h₂, hy', hky, hkeep', hidy, hgy⟩ := commit_step (hb.step h₁) (hkeep y hy hne.symm) hpy'
  refine ⟨_, (System.Steps.one trivial h₁).trans (System.Steps.one trivial h₂), ?_⟩
  rintro ⟨hids, hgames⟩
  cases claim with
  | user id =>
    have hx'' := hkeep' x' hx' (hkx ▸ hne)
    have hid : x'.id ≠ [] := by
      rw [hidx id rfl]
      rintro rfl
      exact hb.named _ hpx rfl
    have he := Lobby.same_id hids hx'' hy' hid ((hidy id rfl).trans (hidx id rfl).symm)
    exact hne (hkx.symm.trans ((congrArg Session.key he).symm.trans hky))
  | gameCreate id =>
    have hlist : L₂.gameList = C.lobby.gameList ++ [id] ++ [id] := by rw [hgy id rfl, ← hgx id rfl]
    change L₂.gameList.Nodup at hgames
    rw [hlist] at hgames
    simp [List.nodup_append] at hgames

/-- Behind a scan for a name that another session is about to commit two sessions are. -/
theorem both_pending (hb : C.Base) {e : Event} (hs : C.step e = some C') (ha : ¬ C.Apart e) :
    ∃ x ∈ C'.lobby.sessions, ∃ y ∈ C'.lobby.sessions, x.key ≠ y.key ∧
      ∃ claim, (x.key, claim) ∈ C'.pending ∧ (y.key, claim) ∈ C'.pending := by
  cases step_change hb.wf hs with
  | committed => exact absurd trivial ha
  | atomic hno =>
    refine absurd ?_ ha
    intro x hx
    rw [hno] at hx
    cases hx
  | @scanned s c claim hs' _ _ _ hbusy hscan =>
    obtain ⟨p, hp, rfl, hpres⟩ : ∃ p ∈ C.pending, p.2 = claim ∧ C.lobby.get? p.1 ≠ none := by
      by_contra hno
      apply ha
      intro x hx p hp he
      obtain rfl : (s, c, claim) = x := Option.some.inj (hscan.symm.trans hx)
      by_contra hpres
      exact hno ⟨p, hp, he, hpres⟩
    obtain ⟨y, hy⟩ := Option.ne_none_iff_exists'.1 hpres
    obtain ⟨hy, hky⟩ := Lobby.get?_mem hy
    have hne : y.key ≠ s.key := hky ▸ hbusy p hp
    have hpy : (y.key, p.2) ∈ C.pending := hky ▸ hp
    refine ⟨y, Keyed.mem_update.2 (.inr ⟨hy, hne⟩), s.readEnds (some c), Lobby.mem_answered hs' rfl, hne, p.2, ?_, ?_⟩
    · exact List.mem_append_left _ hpy
    · exact List.mem_append_right _ (List.mem_singleton_self _)

/-- In every run in which nobody scans for a name that another session is about to commit,
logins and games have different names. Behind every other such scan the two commits
give one name twice. -/
theorem unique_names (host : Endian) :
    (∀ es C, (system host).RunIf Apart es C → Unique C.lobby) ∧
    ∀ C e C', (system host).Reachable C → C.step e = some C' → ¬ C.Apart e →
      ∃ j k C'', j ≠ k ∧ (system host).Steps (fun _ _ => True) C' [.commit j, .commit k] C'' ∧ ¬ Unique C''.lobby := by
  constructor
  · intro es C h
    have hboth : C.Base ∧ C.Separate := by
      refine h.inv (fun C => C.Base ∧ C.Separate) ⟨Base.init host, ?_⟩ ?_
      · exact ⟨Lobby.Rooms.init host, Lobby.roster_init host, by rintro _ ⟨⟩, by rintro _ ⟨⟩⟩
      · rintro C e C' ⟨hb, hi⟩ ha hs
        have hc := step_change hb.wf hs
        exact ⟨hc.base hb, hc.separate hb hi ha⟩
    exact hboth.2.unique
  · intro C e C' hr hs ha
    have hb := Reachable.base hr
    obtain ⟨x, hx, y, hy, hne, claim, hpx, hpy⟩ := both_pending hb hs ha
    obtain ⟨C'', hsteps, hdup⟩ := commit_twice (hb.step hs) hx hy hne hpx hpy
    exact ⟨x.key, y.key, C'', hne, hsteps, hdup⟩

/-- Two clients log in at the same time, under different ids. -/
theorem unique_names_two : ∃ C, (system .little).RunIf Apart
      [.run (.accept 0 false), .run (.accept 1 false), .run (.receiveMessage 0), .run (.receiveMessage 1),
        .run (.read 0 (some (text "user a"))), .run (.read 1 (some (text "user b"))), .commit 1, .commit 0] C ∧
    C.lobby.sessions.map (·.id) = [text "a", text "b", []] ∧ Unique C.lobby := by
  have hexec : (system .little).exec Apart ⟨Lobby.run .little, []⟩
      [.run (.accept 0 false), .run (.accept 1 false), .run (.receiveMessage 0), .run (.receiveMessage 1),
        .run (.read 0 (some (text "user a"))), .run (.read 1 (some (text "user b"))), .commit 1, .commit 0] =
      some _ := rfl
  have hr : (system .little).RunIf Apart _ _ := System.Steps.of_exec hexec
  exact ⟨_, hr, by decide, (unique_names .little).1 _ _ hr⟩

/-- Two clients log in under one id, and then both create one game. -/
theorem concurrent_names_not_unique : ∃ C, (system .little).Run
      [.run (.accept 0 false), .run (.accept 1 false), .run (.receiveMessage 0), .run (.receiveMessage 1),
        .run (.read 0 (some (text "user a"))), .run (.read 1 (some (text "user a"))), .commit 0, .commit 1,
        .run (.receiveMessage 0), .run (.receiveMessage 1), .run (.read 0 (some (text "game create g"))),
        .run (.read 1 (some (text "game create g"))), .commit 0, .commit 1] C ∧
    C.lobby.sessions.map (·.id) = [text "a", text "a", []] ∧ C.lobby.gameList = [text "g", text "g"] ∧
    ¬ ((C.lobby.sessions.map (·.id)).filter (· ≠ [])).Nodup ∧ ¬ C.lobby.gameList.Nodup := by
  have hexec : (system .little).exec (fun _ _ => True) ⟨Lobby.run .little, []⟩
      [.run (.accept 0 false), .run (.accept 1 false), .run (.receiveMessage 0), .run (.receiveMessage 1),
        .run (.read 0 (some (text "user a"))), .run (.read 1 (some (text "user a"))), .commit 0, .commit 1,
        .run (.receiveMessage 0), .run (.receiveMessage 1), .run (.read 0 (some (text "game create g"))),
        .run (.read 1 (some (text "game create g"))), .commit 0, .commit 1] = some _ := rfl
  exact ⟨_, System.Steps.of_exec hexec, by decide, by decide, by decide, by decide⟩

end Concurrent

/-! ## One thread -/

namespace Lobby

variable {L L' : Lobby} {s s' : Session} {e : Event} {es : List Event} {host : Endian} {c : Bytes} {claim : Claim}

theorem scan_reading (hs : s ∈ L.sessions) (hk : s'.key = s.key) (hid : s'.id = s.id) (hf : claim.scan L = none) :
    claim.scan (L.answered s' L.games) = none := by
  rw [scan_eq_none] at hf ⊢
  refine ⟨fun x hx => ?_, hf.2⟩
  rcases mem_moved hk hx with rfl | ⟨hx, -⟩
  · rw [hid]
    exact hf.1 s hs
  · exact hf.1 x hx

theorem claimOf_command {m : Mode} (h : claimOf m c = some claim) : c ≠ [] ∧ c ≠ text "help" := by
  constructor
  · rintro rfl
    have hnone : claimOf m [] = none := by cases m <;> rfl
    rw [hnone] at h
    cases h
  · rintro rfl
    have hnone : claimOf m (text "help") = none := by cases m <;> rfl
    rw [hnone] at h
    cases h

theorem executeConnected_user {k : Nat} {id : Bytes} (h : claimOf .connected c = some (.user id)) :
    L.executeConnected k c = orError k (L.user k id) := by
  obtain ⟨hempty, hhelp⟩ := claimOf_command h
  simp only [claimOf] at h
  split at h
  · rename_i hc
    cases h
    simp only [executeConnected, hempty, hhelp, hc, if_false, if_true]
  · cases h

theorem executeLobby_gameCreate {k : Nat} {id : Bytes} (h : claimOf .lobby c = some (.gameCreate id)) :
    L.executeLobby k c = orError k (L.gameCreate k id) := by
  obtain ⟨hempty, hhelp⟩ := claimOf_command h
  simp only [claimOf] at h
  split at h
  · rename_i hc
    cases h
    simp only [executeLobby, hempty, hhelp, hc, if_false, if_true]
  · cases h

theorem catching_none (L : Lobby) : catching (L, none) = L := by simp [catching]

/-- A command whose scan finds the name free goes on to the commit. -/
theorem step_scan (hw : L.Wf) (h : L.scan e = some (s, c, claim)) :
    L.step e = some ((claim.commit
      (L.answered (s.readEnds (some c)) L.games) s.key).update s.key
        (·.receive)) := by
  obtain ⟨rfl, hs, hr, hc, hf⟩ := scan_some h
  let s₁ : Session := s.readEnds (some c)
  have hm := claimOf_mode hc
  have hf₁ : claim.scan (L.answered s₁ L.games) = none := scan_reading hs rfl rfl hf
  have hhandler : s.receiveHandler = .lobby := by
    cases hh : s.receiveHandler with
    | lobby => rfl
    | game =>
      have hcg := (hw.handler s hs).1 hh
      rw [hcg] at hc
      cases hc
  have hexec : (L.answered s₁ L.games).sessionReceiveHandler s₁ false (some ⟨.reply, 0, c⟩) =
      (claim.commit (L.answered s₁ L.games) s.key, none) := by
    have hh₁ : s₁.receiveHandler = .lobby := hhandler
    have hm₁ : s₁.mode = claim.mode := hm
    rw [hm] at hc
    cases claim with
    | user id =>
      have hf₁ : (L.answered s₁ L.games).userScan id = none := hf₁
      have hm₁ : s₁.mode = .connected := hm₁
      simp only [sessionReceiveHandler, callHandler, hh₁, receiveHandler, hm₁, Bool.false_eq_true, if_false,
        executeConnected_user hc, user, hf₁, orError, Claim.commit]
      rfl
    | gameCreate id =>
      have hf₁ : (L.answered s₁ L.games).gameCreateScan id = none := hf₁
      have hm₁ : s₁.mode = .lobby := hm₁
      simp only [sessionReceiveHandler, callHandler, hh₁, receiveHandler, hm₁, Bool.false_eq_true, if_false,
        executeLobby_gameCreate hc, gameCreate, hf₁, orError, Claim.commit]
      rfl
  have hread : ((L.answered s₁ L.games).asioReceiveHandler s₁ (some c)) =
      ((claim.commit (L.answered s₁ L.games) s.key).update s.key (·.receive), none) := by
    simp only [asioReceiveHandler, hexec]
    rfl
  simp only [step, get?_eq hw.keys hs, hr, if_true]
  change some (catching ((L.answered s₁ L.games).asioReceiveHandler s₁ (some c))) = _
  rw [hread, catching_none]

/-- With one thread the commit follows its scan, and the lobby does the same. -/
theorem one_thread (h : (system host).Run es L) : ∃ es', (Concurrent.system host).Run es' ⟨L, []⟩ := by
  refine h.simulate (T := Concurrent.system host) (fun L => ⟨L, []⟩) Wf (Wf.init host)
    (fun _ _ _ hw _ hs => hw.step hs) ?_
  intro L e L' hw _ hs
  have hs : L.step e = some L' := hs
  cases hscan : L.scan e with
  | none =>
    refine ⟨[.run e], System.Steps.one trivial ?_⟩
    simp [Concurrent.system, Concurrent.step, hscan, hs]
  | some x =>
    obtain ⟨s, c, claim⟩ := x
    obtain ⟨-, hmem, -⟩ := scan_some hscan
    have hfirst : (Concurrent.system host).step ⟨L, []⟩ (.run e) = some (Concurrent.scanned ⟨L, []⟩ s c claim) := by
      simp [Concurrent.system, Concurrent.step, hscan]
    have hsecond : (Concurrent.system host).step (Concurrent.scanned ⟨L, []⟩ s c claim) (.commit s.key) =
        some ⟨L', []⟩ := by
      let s₁ : Session := s.readEnds (some c)
      have hd : (L.answered s₁ L.games).Dispatch := hw.dispatch.answered hmem rfl rfl rfl
      have hget : (L.answered s₁ L.games).get? s.key = some s₁ := get?_eq hd.keys (mem_answered hmem rfl)
      rw [step_scan hw hscan, Option.some.injEq] at hs
      simp [Concurrent.system, Concurrent.step, Concurrent.scanned, Keyed.get?, s₁, hget, hs]
    exact ⟨_, (System.Steps.one trivial hfirst).trans (System.Steps.one trivial hsecond)⟩

end Lobby
end Zar
