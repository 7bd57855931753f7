import Zar.Lib.Roster
import Zar.Lobby.Changes
/-!
# Logins and games

The lobby is a roster: sessions are its members, the ids they logged in with
their names, and the games its rooms. So ids and games stay apart. That nobody
is logged in under the empty id is part of the invariant `Rooms`: the sessions
that did not log in hold the empty id, and `user` looks through them as well.
-/

namespace Zar
namespace Lobby

variable {L L' : Lobby} {s s' : Session} {e : Event} {gs : List Game} {host : Endian}

/-- What a step makes of the id and the mode of its session, and of the games. -/
inductive Joined (L : Lobby) (s s' : Session) : List Game → Prop
  | same (hid : s'.id = s.id) (hm : s'.mode = s.mode) : Joined L s s' L.games
  | login (hm : s.mode = .connected) (hm' : s'.mode = .lobby) (hid : ∀ x ∈ L.sessions, x.id ≠ s'.id) :
      Joined L s s' L.games
  | create (hm : s.mode = .lobby) (hm' : s'.mode = .creating_game) (hid : s'.id = s.id) (id : Bytes)
      (hfree : ∀ g ∈ L.games, g.id ≠ id) : Joined L s s' (L.games ++ [⟨id, [(s.key, ⟨s.id, .gm⟩)]⟩])

theorem Answer.joined {c : Bytes} (h : Answer L s c s' gs) : Joined L s s' gs := by
  cases h with
  | nothing => exact .same rfl rfl
  | reply => exact .same rfl rfl
  | login _ hm id _ hid => exact .login hm rfl hid
  | create _ hm id _ hid =>
    have hmode : (Game.create s id).2.mode = .creating_game := rfl
    exact .create hm hmode rfl id hid

/-- Only the key, the id and the mode count. -/
theorem Joined.congr {x x' : Session} (h : Joined L x x' gs) (hk : x.key = s.key) (hid : x.id = s.id)
    (hm : x.mode = s.mode) (hid' : x'.id = s'.id) (hm' : x'.mode = s'.mode) : Joined L s s' gs := by
  cases h with
  | same h1 h2 => exact .same (hid' ▸ hid ▸ h1) (hm' ▸ hm ▸ h2)
  | login h1 h2 h3 => exact .login (hm ▸ h1) (hm' ▸ h2) (hid' ▸ h3)
  | create h1 h2 h3 id h4 =>
    rw [hk, hid]
    exact .create (hm ▸ h1) (hm' ▸ h2) (hid' ▸ hid ▸ h3) id h4

theorem Moved.joined (h : Moved L s e s' gs) : Joined L s s' gs := by
  cases h with
  | command _ ha => exact ha.joined.congr rfl rfl rfl rfl rfl
  | acceptFailed | receiveMessage | sendMessage | transfer | readFailed | wrote | closed | threw => exact .same rfl rfl

/-! ## Ids, modes and games fit together -/

structure Rooms (L : Lobby) : Prop where
  /-- The empty id is that of the sessions that did not log in. -/
  modes : ∀ s ∈ L.everyone, s.mode = .connected ↔ s.id = []
  /-- The only player of a game is its creator. -/
  games : ∀ g ∈ L.games, ∃ s ∈ L.everyone, g.players = [(s.key, ⟨s.id, .gm⟩)] ∧ s.mode = .creating_game
  creators : ∀ s ∈ L.everyone, s.mode = .creating_game → ∃ g ∈ L.games, g.players = [(s.key, ⟨s.id, .gm⟩)]

/-- Nobody logs in under the empty id, which the session itself holds. -/
theorem Rooms.login_id (hr : L.Rooms) (hs : s ∈ L.sessions) (hm : s.mode = .connected)
    (hid : ∀ x ∈ L.sessions, x.id ≠ s'.id) : s'.id ≠ [] := by
  have h0 : s.id = [] := (hr.modes s (mem_everyone hs)).1 hm
  exact fun he => hid s hs (h0.trans he.symm)

theorem Rooms.moved (hw : L.Wf) (hr : L.Rooms) (hs : s ∈ L.sessions) (hk : s'.key = s.key) (hj : Joined L s s' gs) :
    (L.answered s' gs).Rooms := by
  have hmem := everyone_moved hw hs hk gs
  have hse := mem_everyone hs
  have hmine : ∀ x ∈ L.everyone, x.key = s.key → x = s := fun x hx he => hw.distinct.eq hx hse he
  -- A session that created a game stays as it is: it is another one, or it is `s` in its last mode.
  have hkeep : ∀ x ∈ L.everyone, x.mode = .creating_game → x ∈ (L.answered s' gs).everyone ∨
      x = s ∧ s'.id = s.id ∧ s'.mode = .creating_game := by
    intro x hx hm
    by_cases he : x.key = s.key
    · right
      obtain rfl := hmine x hx he
      cases hj with
      | same h1 h2 => exact ⟨rfl, h1, h2.trans hm⟩
      | login h1 => rw [hm] at h1; cases h1
      | create h1 => rw [hm] at h1; cases h1
    · exact .inl ((hmem x).2 (.inr ⟨hx, he⟩))
  have hold : ∀ g ∈ L.games, ∃ x ∈ (L.answered s' gs).everyone,
      g.players = [(x.key, ⟨x.id, .gm⟩)] ∧ x.mode = .creating_game := by
    intro g hg
    obtain ⟨x, hx, hp, hm⟩ := hr.games g hg
    rcases hkeep x hx hm with hx' | ⟨rfl, h1, h2⟩
    · exact ⟨x, hx', hp, hm⟩
    · exact ⟨s', (hmem s').2 (.inl rfl), by rw [hp, hk, h1], h2⟩
  have hsub : ∀ g ∈ L.games, g ∈ gs := by
    intro g hg
    cases hj with
    | same | login => exact hg
    | create => exact List.mem_append_left _ hg
  refine ⟨?_, ?_, ?_⟩
  · intro x hx
    rcases (hmem x).1 hx with rfl | ⟨hx, -⟩
    · cases hj with
      | same h1 h2 => rw [h1, h2]; exact hr.modes s hse
      | login h1 h2 h3 => simp [h2, hr.login_id hs h1 h3]
      | create h1 h2 h3 =>
        have := hr.modes s hse
        rw [h1] at this
        simpa [h2, h3] using this
    · exact hr.modes x hx
  · intro g hg
    change g ∈ gs at hg
    cases hj with
    | same | login => exact hold g hg
    | create h1 h2 h3 id =>
      rcases List.mem_append.1 hg with hg | hg
      · exact hold g hg
      · obtain rfl := List.mem_singleton.1 hg
        exact ⟨s', (hmem s').2 (.inl rfl), by rw [hk, h3], h2⟩
  · intro x hx hm
    rcases (hmem x).1 hx with rfl | ⟨hx, -⟩
    · cases hj with
      | same h1 h2 =>
        obtain ⟨g, hg, hp⟩ := hr.creators s hse (h2.symm.trans hm)
        exact ⟨g, hg, by rw [hp, hk, h1]⟩
      | login h1 h2 => rw [hm] at h2; cases h2
      | create h1 h2 h3 id => exact ⟨_, List.mem_append_right _ (List.mem_singleton_self _), by rw [hk, h3]⟩
    · obtain ⟨g, hg, hp⟩ := hr.creators x hx hm
      exact ⟨g, hsub g hg, hp⟩

/-- What others see of a session. -/
def view (s : Session) : Nat × Bytes × Mode := (s.key, s.id, s.mode)

/-- Sessions may enter and change otherwise. -/
theorem Rooms.of_view (hr : L.Rooms) (hg : L'.games = L.games)
    (hnew : ∀ x' ∈ L'.everyone, (∃ x ∈ L.everyone, view x = view x') ∨ x'.mode = .connected ∧ x'.id = [])
    (hold : ∀ x ∈ L.everyone, ∃ x' ∈ L'.everyone, view x' = view x) : L'.Rooms := by
  refine ⟨?_, ?_, ?_⟩
  · intro x' hx'
    rcases hnew x' hx' with ⟨x, hx, hv⟩ | ⟨hm, hid⟩
    · obtain ⟨-, hid, hm⟩ : x.key = x'.key ∧ x.id = x'.id ∧ x.mode = x'.mode := by simpa [view] using hv
      rw [← hid, ← hm]
      exact hr.modes x hx
    · simp [hm, hid]
  · intro g hgm
    obtain ⟨x, hx, hp, hm⟩ := hr.games g (hg ▸ hgm)
    obtain ⟨x', hx', hv⟩ := hold x hx
    obtain ⟨hk, hid, hm'⟩ : x'.key = x.key ∧ x'.id = x.id ∧ x'.mode = x.mode := by simpa [view] using hv
    exact ⟨x', hx', by rw [hp, hk, hid], hm'.trans hm⟩
  · intro x' hx' hm
    rcases hnew x' hx' with ⟨x, hx, hv⟩ | ⟨hm', -⟩
    · obtain ⟨hk, hid, hm'⟩ : x.key = x'.key ∧ x.id = x'.id ∧ x.mode = x'.mode := by simpa [view] using hv
      obtain ⟨g, hgm, hp⟩ := hr.creators x hx (hm'.trans hm)
      exact ⟨g, hg ▸ hgm, by rw [hp, hk, hid]⟩
    · rw [hm] at hm'
      cases hm'

theorem Rooms.step (hw : L.Wf) (hr : L.Rooms) (h : Change L e L') : L'.Rooms := by
  cases h with
  | moved hs hm => exact { hr.moved hw hs hm.key hm.joined with }
  | @accepted init s hs hwait =>
    refine hr.of_view rfl ?_ ?_
    · intro x hx
      rcases List.mem_append.1 hx with hx | hx
      · rcases mem_accepted hx with hx | rfl | rfl
        · exact .inl ⟨x, mem_everyone (hs ▸ List.mem_append_left _ hx), rfl⟩
        · exact .inl ⟨s, mem_everyone (by simp [hs]), rfl⟩
        · exact .inr ⟨rfl, rfl⟩
      · exact .inl ⟨x, List.mem_append_right _ hx, rfl⟩
    · intro x hx
      rcases List.mem_append.1 hx with hx | hx
      · rw [hs] at hx
        rcases List.mem_append.1 hx with hx | hx
        · exact ⟨x, mem_everyone (List.mem_append_left _ hx), rfl⟩
        · obtain rfl := List.mem_singleton.1 hx
          exact ⟨x.welcome, mem_everyone (by simp), rfl⟩
      · exact ⟨x, List.mem_append_right _ hx, rfl⟩
  | reaped =>
    refine hr.of_view rfl ?_ ?_
    · intro x hx
      exact .inl ⟨x, (everyone_reaped x).1 hx, rfl⟩
    · intro x hx
      exact ⟨x, (everyone_reaped x).2 hx, rfl⟩
  | aborted => exact { hr with }

theorem Rooms.init (host : Endian) : (run host).Rooms := by
  refine ⟨?_, ?_, ?_⟩
  · intro s hs
    rw [run_waiting hs]
    simp [Session.create, Session.accept]
  · rw [run_eq]
    simp
  · intro s hs hm
    rw [run_waiting hs] at hm
    cases hm

theorem Reachable.rooms (h : (system host).Reachable L) : L.Rooms :=
  Reachable.change Rooms h (Rooms.init host) fun _ _ _ hw hr hc => hr.step hw hc

/-! ## The lobby refines a roster -/

/-- The name that an id stands for. -/
def nameOf (id : Bytes) : Option Bytes := if id = [] then none else some id

def member (s : Session) : Nat × Option Bytes := (s.key, nameOf s.id)

def roster (L : Lobby) : Roster Nat Bytes where
  members := L.sessions.map member
  departed := L.erased.map member
  rooms := L.games.flatMap fun g => g.players.map fun p => (g.id, p.1)

@[simp] theorem nameOf_empty : nameOf [] = none := rfl

theorem nameOf_eq_some {id n : Bytes} : nameOf id = some n ↔ id = n ∧ n ≠ [] := by
  unfold nameOf
  split
  · rename_i h
    simp [h]
  · rename_i h
    constructor
    · intro he
      cases he
      exact ⟨rfl, h⟩
    · rintro ⟨rfl, -⟩
      rfl

theorem members_answered (hk : s'.key = s.key) :
    (L.answered s' gs).sessions.map member =
      Keyed.update Prod.fst s.key (fun _ => member s') (L.sessions.map member) := by
  rw [← hk]
  exact Keyed.map_update_map member (fun _ _ => rfl) fun _ _ _ => rfl

theorem login_roster (hr : L.Rooms) (hs : s ∈ L.sessions) (hk : s'.key = s.key) (hm : s.mode = .connected)
    (hid : ∀ x ∈ L.sessions, x.id ≠ s'.id) :
    (Roster.system Nat Bytes).step L.roster (.claim s.key s'.id) = some (L.answered s' L.games).roster := by
  have h0 : s.id = [] := (hr.modes s (mem_everyone hs)).1 hm
  have hn : nameOf s'.id = some s'.id := nameOf_eq_some.2 ⟨rfl, hr.login_id hs hm hid⟩
  have hanon : (s.key, none) ∈ L.roster.members := List.mem_map.2 ⟨s, hs, by rw [member, h0, nameOf_empty]⟩
  have hfree : s'.id ∉ L.roster.names := by
    intro hc
    obtain ⟨m, hm, he⟩ := Roster.mem_names.1 hc
    obtain ⟨x, hx, rfl⟩ := List.mem_map.1 hm
    exact hid x hx (nameOf_eq_some.1 he).1
  have hmem : (L.answered s' L.games).sessions.map member = _ := members_answered hk
  rw [member, hk, hn] at hmem
  simp only [Roster.system, Roster.step, hanon, hfree, not_false_eq_true, and_self, if_true, Option.some.injEq]
  unfold roster
  rw [hmem]
  rfl

theorem mem_rooms (hr : L.Rooms) {n : Bytes} {k : Nat} (h : (n, k) ∈ L.roster.rooms) :
    (∃ g ∈ L.games, g.id = n) ∧ ∃ x ∈ L.everyone, x.key = k ∧ x.mode = .creating_game := by
  obtain ⟨g, hg, hp⟩ := List.mem_flatMap.1 h
  obtain ⟨p, hp, he⟩ := List.mem_map.1 hp
  obtain ⟨x, hx, hplayers, hm⟩ := hr.games g hg
  rw [hplayers] at hp
  obtain rfl := List.mem_singleton.1 hp
  obtain ⟨rfl, rfl⟩ := Prod.mk.inj he
  exact ⟨⟨g, hg, rfl⟩, x, hx, rfl, hm⟩

theorem create_roster (hw : L.Wf) (hr : L.Rooms) (hs : s ∈ L.sessions) (hk : s'.key = s.key) (hm : s.mode = .lobby)
    (hid : s'.id = s.id) {id : Bytes} (hfree : ∀ g ∈ L.games, g.id ≠ id) :
    (Roster.system Nat Bytes).step L.roster (.found s.key id) =
      some (L.answered s' (L.games ++ [⟨id, [(s.key, ⟨s.id, .gm⟩)]⟩])).roster := by
  have hne : s.id ≠ [] := by
    rw [Ne, ← hr.modes s (mem_everyone hs), hm]
    decide
  have hnamed : ∃ m ∈ L.roster.members, m.1 = s.key ∧ m.2.isSome := by
    refine ⟨member s, List.mem_map_of_mem hs, rfl, ?_⟩
    rw [member, nameOf_eq_some.2 ⟨rfl, hne⟩]
    rfl
  have hnone : s.key ∉ L.roster.rooms.map Prod.snd := by
    intro hc
    obtain ⟨⟨n, k⟩, hmem, rfl⟩ := List.mem_map.1 hc
    obtain ⟨-, x, hx, he, hmx⟩ := mem_rooms hr hmem
    rw [hw.distinct.eq hx (mem_everyone hs) he, hm] at hmx
    cases hmx
  have hnew : id ∉ L.roster.rooms.map Prod.fst := by
    intro hc
    obtain ⟨⟨n, k⟩, hmem, rfl⟩ := List.mem_map.1 hc
    obtain ⟨⟨g, hg, he⟩, -⟩ := mem_rooms hr hmem
    exact hfree g hg he
  have hsame : member s' = member s := by rw [member, member, hk, hid]
  have hmem : (L.answered s' (L.games ++ [⟨id, [(s.key, ⟨s.id, .gm⟩)]⟩])).sessions.map member = L.sessions.map member :=
    Keyed.map_update member fun x hx he => by rw [hw.keys.eq hx hs (he.trans hk), hsame]
  simp only [Roster.system, Roster.step, hnamed, hnone, hnew, not_false_eq_true, and_self, if_true, Option.some.injEq]
  unfold roster
  rw [hmem]
  simp [answered, update]

theorem moved_roster (hw : L.Wf) (hr : L.Rooms) (hs : s ∈ L.sessions) (hk : s'.key = s.key) (hj : Joined L s s' gs) :
    ∃ ds, (Roster.system Nat Bytes).Steps (fun _ _ => True) L.roster ds (L.answered s' gs).roster := by
  cases hj with
  | same hid hm =>
    have hsame : member s' = member s := by rw [member, member, hk, hid]
    have hmem : (L.answered s' L.games).sessions.map member = L.sessions.map member :=
      Keyed.map_update member fun x hx he => by rw [hw.keys.eq hx hs (he.trans hk), hsame]
    have he : (L.answered s' L.games).roster = L.roster := by
      unfold roster
      rw [hmem]
      rfl
    rw [he]
    exact ⟨[], .nil⟩
  | login hm hm' hid => exact ⟨_, .one trivial (login_roster hr hs hk hm hid)⟩
  | create hm hm' hid id hfree => exact ⟨_, .one trivial (create_roster hw hr hs hk hm hid hfree)⟩

theorem accept_roster {init : List Session} (hw : L.Wf) (hs : L.sessions = init ++ [s]) :
    (Roster.system Nat Bytes).step L.roster (.enter L.nextKey) = some ({ L with
      sessions := init ++ [s.welcome, (Session.create L.host L.nextKey).accept]
      nextKey := L.nextKey + 1 } : Lobby).roster := by
  have hfresh : L.nextKey ∉ (L.roster.members ++ L.roster.departed).map Prod.fst := by
    intro hc
    have hc' : L.nextKey ∈ (L.sessions ++ L.erased).map Session.key := by
      simpa [roster, member, Function.comp_def] using hc
    obtain ⟨x, hx, he⟩ := List.mem_map.1 hc'
    exact absurd he (Nat.ne_of_lt (hw.fresh x hx))
  simp only [Roster.system, Roster.step, hfresh, not_false_eq_true, if_true, Option.some.injEq]
  simp [roster, hs, member, Session.welcome, Session.create, Session.accept, Session.setStatus, Session.send,
    Session.receive]

theorem reap_roster (hw : L.Wf) (timers : Nat) :
    ∃ p, (Roster.system Nat Bytes).step L.roster (.leave p) = some ({ L.reap with timers := timers } : Lobby).roster := by
  let p : Nat → Bool := fun k => L.sessions.any fun s => s.key = k ∧ s.status = .reapable
  have hp : ∀ s ∈ L.sessions, p s.key = decide (s.status = .reapable) := by
    intro s hs
    rw [Bool.eq_iff_iff]
    simp only [p, List.any_eq_true, decide_eq_true_eq]
    constructor
    · rintro ⟨x, hx, he, hst⟩
      rw [← hw.keys.eq hx hs he, hst]
    · exact fun hst => ⟨s, hs, rfl, hst⟩
  refine ⟨p, ?_⟩
  have hgo : (L.sessions.map member).filter (fun m => p m.1) = (L.sessions.filter (·.status = .reapable)).map member := by
    rw [List.filter_map]
    exact congrArg _ (List.filter_congr fun s hs => hp s hs)
  have hstay : (L.sessions.map member).filter (fun m => !p m.1) =
      (L.sessions.filter (·.status ≠ .reapable)).map member := by
    rw [List.filter_map]
    exact congrArg _ (List.filter_congr fun s hs => by simp [member, hp s hs])
  simp only [Roster.system, Roster.step, roster, reap, hgo, hstay, List.map_append]

/-- Every step of the lobby is one of the roster, or none. -/
theorem change_roster (hw : L.Wf) (hr : L.Rooms) (h : Change L e L') :
    ∃ ds, (Roster.system Nat Bytes).Steps (fun _ _ => True) L.roster ds L'.roster := by
  cases h with
  | moved hs hm => exact moved_roster hw hr hs hm.key hm.joined
  | accepted hs => exact ⟨_, .one trivial (accept_roster hw hs)⟩
  | reaped timers =>
    obtain ⟨p, hp⟩ := reap_roster hw timers
    exact ⟨_, .one trivial hp⟩
  | aborted => exact ⟨[], .nil⟩

theorem roster_init (host : Endian) : (run host).roster.Ok := by
  rw [run_eq]
  refine ⟨?_, ?_, ?_, ?_⟩ <;> simp [roster, Keyed.Distinct, Roster.names, member, Session.create, Session.accept]

theorem Reachable.roster (h : (system host).Reachable L) : L.roster.Ok := by
  obtain ⟨es, hrun⟩ := h
  obtain ⟨ds, hd⟩ := hrun.simulate (T := Roster.system Nat Bytes) Lobby.roster (fun L => L.Wf ∧ L.Rooms)
    ⟨Wf.init host, Rooms.init host⟩ (fun _ _ _ hi _ hs => ⟨hi.1.step hs, hi.2.step hi.1 (step_change hi.1 hs)⟩)
    (fun _ _ _ hi _ hs => change_roster hi.1 hi.2 (step_change hi.1 hs))
  exact Roster.Steps.ok hd (roster_init host)

/-! ## The invariant of the lobby -/

theorem filterMap_nameOf (ids : List Bytes) : ids.filterMap nameOf = ids.filter (· ≠ []) := by
  induction ids with
  | nil => rfl
  | cons id ids ih =>
    by_cases h : id = []
    · rw [h, List.filterMap_cons_none nameOf_empty, ih]
      rfl
    · rw [List.filterMap_cons_some (nameOf_eq_some.2 ⟨rfl, h⟩), ih, List.filter_cons_of_pos (by simpa using h)]

theorem names_roster (L : Lobby) : L.roster.names = (L.sessions.map (·.id)).filter (· ≠ []) := by
  rw [← filterMap_nameOf]
  simp [Roster.names, roster, List.filterMap_map, Function.comp_def, member]

theorem same_id (hn : ((L.sessions.map (·.id)).filter (· ≠ [])).Nodup) (hs : s ∈ L.sessions) (hs' : s' ∈ L.sessions)
    (hne : s.id ≠ []) (he : s'.id = s.id) : s' = s := by
  rw [List.filter_map] at hn
  have hmem : ∀ x ∈ L.sessions, x.id ≠ [] → x ∈ L.sessions.filter ((fun id => decide (id ≠ [])) ∘ fun s => s.id) :=
    fun x hx hid => List.mem_filter.2 ⟨hx, by simpa using hid⟩
  exact List.inj_on_of_nodup_map hn (hmem s' hs' (he ▸ hne)) (hmem s hs hne) he

/-- Two sessions that are logged in have different ids. -/
theorem Reachable.same_id (h : (system host).Reachable L) (hs : s ∈ L.sessions) (hs' : s' ∈ L.sessions) (hne : s.id ≠ [])
    (he : s'.id = s.id) : s' = s := by
  have hn := (Reachable.roster h).names
  rw [names_roster] at hn
  exact Lobby.same_id hn hs hs' hne he

/-- The games a session created, by the players of the games. -/
def gamesOf (L : Lobby) (s : Session) : List Game := L.games.filter fun g => s.key ∈ g.players.map Prod.fst

theorem length_gamesOf {games : List Game} (h : ∀ g ∈ games, ∃ p, g.players = [p]) (k : Nat) :
    (games.filter fun g => k ∈ g.players.map Prod.fst).length =
      (games.flatMap fun g => g.players.map Prod.fst).count k := by
  induction games with
  | nil => rfl
  | cons g games ih =>
    obtain ⟨p, hp⟩ := h g (by simp)
    have ih' := ih fun g' hg' => h g' (by simp [hg'])
    rw [List.flatMap_cons, List.count_append, ← ih', List.filter_cons]
    by_cases hk : k = p.1
    · simp [hp, hk, Nat.add_comm]
    · simp [hp, hk, Ne.symm hk]

theorem rooms_snd (L : Lobby) : L.roster.rooms.map Prod.snd = L.games.flatMap fun g => g.players.map Prod.fst := by
  simp [roster, List.map_flatMap, Function.comp_def]

theorem rooms_fst (hr : L.Rooms) : L.roster.rooms.map Prod.fst = L.gameList := by
  have h : ∀ g ∈ L.games, g.players.map (fun _ => g.id) = [g.id] := by
    intro g hg
    obtain ⟨x, -, hp, -⟩ := hr.games g hg
    rw [hp]
    rfl
  have he : L.roster.rooms.map Prod.fst = L.games.flatMap fun g => g.players.map fun _ => g.id := by
    simp [roster, List.map_flatMap, Function.comp_def]
  rw [he, gameList, List.map_eq_flatMap]
  exact List.flatMap_congr h

/-- In every reachable state: ids are taken once (a), the sessions without an id are
those that did not log in (b), game names are taken once (c), the only player of a
game is its creator, as the master, under the creator's id (d), and who is
creating a game created one game, and nobody else did (e). -/
theorem lobby_invariant (h : (system host).Reachable L) :
    ((L.sessions.map (·.id)).filter (· ≠ [])).Nodup ∧
    (∀ s ∈ L.sessions, s.mode = .connected ↔ s.id = []) ∧
    L.gameList.Nodup ∧
    (∀ g ∈ L.games, ∃ s ∈ L.everyone, g.players = [(s.key, ⟨s.id, .gm⟩)] ∧ s.id ≠ [] ∧
      ∀ x ∈ L.everyone, x.key = s.key → x = s) ∧
    ∀ s ∈ L.sessions, (L.gamesOf s).length = if s.mode = .creating_game then 1 else 0 := by
  have hw := Reachable.wf h
  have hr := Reachable.rooms h
  have ho := Reachable.roster h
  refine ⟨names_roster L ▸ ho.names, fun s hs => hr.modes s (mem_everyone hs), ?_, ?_, ?_⟩
  · rw [← rooms_fst hr]
    exact ho.rooms
  · intro g hg
    obtain ⟨s, hs, hp, hm⟩ := hr.games g hg
    refine ⟨s, hs, hp, ?_, fun x hx he => hw.distinct.eq hx hs he⟩
    rw [Ne, ← hr.modes s hs, hm]
    decide
  · intro s hs
    have hsingle : ∀ g ∈ L.games, ∃ p, g.players = [p] := by
      intro g hg
      obtain ⟨x, -, hp, -⟩ := hr.games g hg
      exact ⟨_, hp⟩
    have hn : (L.games.flatMap fun g => g.players.map Prod.fst).Nodup := rooms_snd L ▸ ho.founders
    rw [gamesOf, length_gamesOf hsingle, hn.count]
    refine if_congr ?_ rfl rfl
    constructor
    · intro hk
      obtain ⟨g, hg, hk⟩ := List.mem_flatMap.1 hk
      obtain ⟨x, hx, hp, hm⟩ := hr.games g hg
      rw [hp] at hk
      rw [hw.distinct.eq (mem_everyone hs) hx (List.mem_singleton.1 hk), hm]
    · intro hm
      obtain ⟨g, hg, hp⟩ := hr.creators s (mem_everyone hs) hm
      exact List.mem_flatMap.2 ⟨g, hg, by rw [hp]; exact List.mem_singleton_self _⟩

/-- A client logs in and creates a game. -/
theorem lobby_invariant_game : ∃ L, (system .little).Reachable L ∧ L.gameList.Nodup ∧ L.gameList = [text "g"] ∧
    ∀ s ∈ L.sessions, (L.gamesOf s).length = if s.mode = .creating_game then 1 else 0 := by
  have hexec : (system .little).exec (fun _ _ => True) (run .little)
      [.accept 0 false, .receiveMessage 0, .read 0 (some (text "user a")), .receiveMessage 0,
        .read 0 (some (text "game create g"))] = some _ := rfl
  have hr : (system .little).Reachable _ := ⟨_, System.Steps.of_exec hexec⟩
  have h := lobby_invariant hr
  exact ⟨_, hr, h.2.2.1, by decide, h.2.2.2.2⟩

end Lobby
end Zar
