import Mathlib.Logic.Function.Basic
import Zar.Lobby.Names
/-!
# The objects behind the games

Every `tgame` object has an identity: the temporary that `game_create` constructs,
the element that it is moved into, and the elements that a reallocation moves all
others into. The constructor binds `this` to the receive handler of the session, and
moving an object does not bind the handler again.
-/

namespace Zar

/-- The lobby, with the identities of the games. -/
structure Objects where
  lobby : Lobby
  /-- The identity of the next object. -/
  next : Nat := 0
  /-- The elements of `games_`. -/
  stored : List Nat := []
  /-- The capacity of `games_`. -/
  capacity : Nat := 0
  /-- What the receive handler of a session is bound to. -/
  target : Nat → Option Nat := fun _ => none

namespace Objects

variable {grow : Nat → Nat} {host : Endian} {o o' : Objects} {k : Nat} {e : Lobby.Event} {es : List Lobby.Event}

/-- The constructor `tgame::tgame` for the session with the key. -/
def construct (o : Objects) (k : Nat) : Objects :=
  { o with next := o.next + 1, target := Function.update o.target k (some o.next) }

/-- `push_back` moves an object into a new element. Where the capacity does not suffice it
moves all elements. -/
def pushBack (grow : Nat → Nat) (o : Objects) : Objects :=
  if o.stored.length < o.capacity then { o with next := o.next + 1, stored := o.stored ++ [o.next] }
  else { o with
    next := o.next + (o.stored.length + 1)
    stored := List.range' o.next (o.stored.length + 1)
    capacity := grow o.stored.length }

/-- `games_.push_back(game::tgame(session, id))`. Behind it the temporary is gone. -/
def gameCreate (grow : Nat → Nat) (o : Objects) (k : Nat) : Objects := (o.construct k).pushBack grow

/-- The session that a step created a game for. -/
def creator (L L' : Lobby) (e : Lobby.Event) : Option Nat := if L.games.length < L'.games.length then e.about else none

def step (grow : Nat → Nat) (o : Objects) (e : Lobby.Event) : Option Objects :=
  match o.lobby.step e with
  | none => none
  | some L =>
    match creator o.lobby L e with
    | none => some { o with lobby := L }
    | some k => some { o.gameCreate grow k with lobby := L }

/-- The capacity behind a reallocation is `grow` of the number of elements before it. -/
def system (grow : Nat → Nat) (host : Endian) : System Objects Lobby.Event := ⟨{ lobby := Lobby.run host }, step grow⟩

/-- The handler of a session that created a game is bound to the element of `games_` whose
master the session is. -/
def Dispatched (o : Objects) : Prop :=
  ∀ s ∈ o.lobby.sessions, s.mode = .creating_game →
    ∃ (i t : Nat) (g : Game) (name : Bytes), o.target s.key = some t ∧ o.stored[i]? = some t ∧
      o.lobby.games[i]? = some g ∧ (s.key, ⟨name, .gm⟩) ∈ g.players

/-! ## The lobby does not see the identities -/

theorem step_lobby (grow : Nat → Nat) (o : Objects) (e : Lobby.Event) :
    (o.step grow e).map lobby = o.lobby.step e := by
  unfold step
  cases o.lobby.step e with
  | none => rfl
  | some L =>
    dsimp only
    split <;> rfl

/-- The runs are those of the lobby. -/
theorem run_iff {L : Lobby} :
    (∃ o, (system grow host).Run es o ∧ o.lobby = L) ↔ (Lobby.system host).Run es L := by
  constructor
  · rintro ⟨o, h, rfl⟩
    apply h.inv_hist (fun es (o : Objects) => (Lobby.system host).Run es o.lobby) .nil
    intro es o e o' _ hi _ hs
    have hstep : o.lobby.step e = some o'.lobby := by
      rw [← step_lobby grow, show o.step grow e = some o' from hs]
      rfl
    exact .snoc hi trivial hstep
  · intro h
    refine h.inv_hist (fun es L => ∃ o, (system grow host).Run es o ∧ o.lobby = L) ⟨_, .nil, rfl⟩ ?_
    rintro es L e L' - ⟨o, hr, rfl⟩ - hs
    have hmap : (o.step grow e).map lobby = some L' := (step_lobby grow o e).trans hs
    obtain ⟨o', hstep, rfl⟩ := Option.map_eq_some_iff.1 hmap
    exact ⟨o', .snoc hr trivial hstep, rfl⟩

/-! ## No handler is bound to an element -/

/-- What `push_back` stores are elements that were there or new objects. -/
theorem pushBack_mem {t : Nat} (h : t ∈ (o.pushBack grow).stored) :
    t ∈ o.stored ∨ o.next ≤ t ∧ t < (o.pushBack grow).next := by
  unfold pushBack at h ⊢
  split at h
  · rename_i hc
    simp only [hc, if_true]
    rcases List.mem_append.1 h with h | h
    · exact .inl h
    · obtain rfl := List.mem_singleton.1 h
      exact .inr ⟨le_rfl, Nat.lt_succ_self _⟩
  · rename_i hc
    simp only [hc, if_false]
    obtain ⟨i, hi, rfl⟩ := List.mem_range'.1 h
    exact .inr ⟨by omega, by omega⟩

theorem pushBack_next (grow : Nat → Nat) (o : Objects) : o.next ≤ (o.pushBack grow).next := by
  unfold pushBack
  split
  · exact Nat.le_succ _
  · exact Nat.le_add_right _ _

theorem pushBack_length (grow : Nat → Nat) (o : Objects) : (o.pushBack grow).stored.length = o.stored.length + 1 := by
  unfold pushBack
  split
  · exact List.length_append
  · exact List.length_range'

theorem pushBack_target (grow : Nat → Nat) (o : Objects) : (o.pushBack grow).target = o.target := by
  unfold pushBack
  split <;> rfl

/-- A step creates no game, or one for a session, which alone may enter the mode. -/
theorem creator_cases {L L' : Lobby} (hw : L.Wf) (h : L.step e = some L') :
    (creator L L' e = none ∧ L'.games = L.games ∧
      ∀ x ∈ L'.sessions, x.mode = .creating_game → ∃ y ∈ L.sessions, y.key = x.key ∧ y.mode = .creating_game) ∨
    ∃ k g, creator L L' e = some k ∧ L'.games = L.games ++ [g] ∧
      ∀ x ∈ L'.sessions, x.mode = .creating_game →
        x.key = k ∨ ∃ y ∈ L.sessions, y.key = x.key ∧ y.mode = .creating_game := by
  have hsame : ∀ {L' : Lobby}, L'.games = L.games → creator L L' e = none := by
    intro L' hg
    simp [creator, hg]
  cases Lobby.step_change hw h with
  | @moved s s' _ gs hs hm =>
    have hother : ∀ x ∈ (L.answered s' gs).sessions, x.mode = .creating_game →
        x = s' ∨ ∃ y ∈ L.sessions, y.key = x.key ∧ y.mode = .creating_game := by
      intro x hx hmode
      rcases Lobby.mem_moved hm.key hx with rfl | ⟨hx, -⟩
      · exact .inl rfl
      · exact .inr ⟨x, hx, rfl, hmode⟩
    cases hm.joined with
    | same hid hmode =>
      refine .inl ⟨hsame rfl, rfl, fun x hx hx' => ?_⟩
      rcases hother x hx hx' with rfl | hy
      · exact ⟨s, hs, hm.key.symm, hmode.symm.trans hx'⟩
      · exact hy
    | login hmode hmode' =>
      refine .inl ⟨hsame rfl, rfl, fun x hx hx' => ?_⟩
      rcases hother x hx hx' with rfl | hy
      · rw [hmode'] at hx'
        cases hx'
      · exact hy
    | create hmode hmode' hid id hfree =>
      refine .inr ⟨s.key, _, ?_, rfl, fun x hx hx' => ?_⟩
      · simp [creator, Lobby.answered, hm.about]
      · rcases hother x hx hx' with rfl | hy
        · exact .inl hm.key
        · exact .inr hy
  | @accepted init s hs hwait =>
    refine .inl ⟨hsame rfl, rfl, fun x hx hmode => ?_⟩
    rcases Lobby.mem_accepted hx with hx | rfl | rfl
    · exact ⟨x, by simp [hs, hx], rfl, hmode⟩
    · exact ⟨s, by simp [hs], rfl, hmode⟩
    · cases hmode
  | reaped => exact .inl ⟨hsame rfl, rfl, fun x hx hmode => ⟨x, (Lobby.mem_reap.1 hx).1, rfl, hmode⟩⟩
  | aborted => exact .inl ⟨hsame rfl, rfl, fun x hx hmode => ⟨x, hx, rfl, hmode⟩⟩

/-- The identities in use, and that no handler has that of an element. -/
structure Sound (o : Objects) : Prop where
  wf : o.lobby.Wf
  elements : o.stored.length = o.lobby.games.length
  stored : ∀ t ∈ o.stored, t < o.next
  target : ∀ k t, o.target k = some t → t < o.next ∧ t ∉ o.stored
  bound : ∀ s ∈ o.lobby.sessions, s.mode = .creating_game → ∃ t, o.target s.key = some t

/-- The handler of the session is bound to the temporary, and none of the others to an element. -/
theorem Sound.gameCreate (h : Sound o) (grow : Nat → Nat) (k : Nat) :
    (o.gameCreate grow k).stored.length = o.stored.length + 1 ∧
    (∀ t ∈ (o.gameCreate grow k).stored, t < (o.gameCreate grow k).next) ∧
    (∀ k' t, (o.gameCreate grow k).target k' = some t →
      t < (o.gameCreate grow k).next ∧ t ∉ (o.gameCreate grow k).stored) ∧
    (o.gameCreate grow k).target = Function.update o.target k (some o.next) := by
  have hnext : o.next < (o.gameCreate grow k).next := pushBack_next grow (o.construct k)
  have htarget : (o.gameCreate grow k).target = Function.update o.target k (some o.next) := pushBack_target grow _
  refine ⟨pushBack_length grow _, fun t ht => ?_, fun k' t hk => ?_, htarget⟩
  · rcases pushBack_mem ht with ht | ⟨-, hlt⟩
    · exact (h.stored t ht).trans hnext
    · exact hlt
  · rw [htarget] at hk
    -- Up to here every object is older than the elements that `push_back` adds.
    have hold : t ≤ o.next ∧ t ∉ o.stored := by
      by_cases he : k' = k
      · subst he
        rw [Function.update_self, Option.some.injEq] at hk
        exact ⟨hk.ge, fun hm => absurd (h.stored t hm) (by omega)⟩
      · rw [Function.update_of_ne he] at hk
        obtain ⟨hlt, hnot⟩ := h.target k' t hk
        exact ⟨hlt.le, hnot⟩
    refine ⟨hold.1.trans_lt hnext, fun hm => ?_⟩
    rcases pushBack_mem hm with hm | ⟨hge, -⟩
    · exact hold.2 hm
    · exact absurd hge (Nat.not_le.2 (Nat.lt_succ_of_le hold.1))

theorem Sound.step (h : Sound o) (hs : o.step grow e = some o') : Sound o' := by
  unfold Objects.step at hs
  split at hs
  · cases hs
  · rename_i L hL
    have hw := h.wf.step hL
    rcases creator_cases h.wf hL with ⟨hc, hg, hmode⟩ | ⟨k, g, hc, hg, hmode⟩ <;> rw [hc] at hs <;> cases hs
    · refine ⟨hw, by rw [hg]; exact h.elements, h.stored, h.target, fun x hx hx' => ?_⟩
      obtain ⟨y, hy, hk, hy'⟩ := hmode x hx hx'
      exact hk ▸ h.bound y hy hy'
    · obtain ⟨hlen, hstored, htarget, hupdate⟩ := h.gameCreate grow k
      refine ⟨hw, ?_, hstored, htarget, fun x hx hx' => ?_⟩
      · rw [hg, List.length_append, ← h.elements]
        exact hlen
      · change ∃ t, (o.gameCreate grow k).target x.key = some t
        rw [hupdate]
        by_cases he : x.key = k
        · exact ⟨o.next, by rw [he, Function.update_self]⟩
        · obtain ⟨y, hy, hk, hy'⟩ := (hmode x hx hx').resolve_left he
          obtain ⟨t, ht⟩ := h.bound y hy hy'
          exact ⟨t, by rw [Function.update_of_ne he, ← hk, ht]⟩

theorem Reachable.sound (h : (system grow host).Reachable o) : Sound o := by
  refine h.inv Sound ?_ fun _ _ _ hi hs => hi.step hs
  refine ⟨Lobby.Wf.init host, ?_, ?_, ?_, ?_⟩
  · change 0 = (Lobby.run host).games.length
    rw [Lobby.run_eq]
    rfl
  · rintro t ⟨⟩
  · rintro k t ⟨⟩
  · intro s hs hmode
    rw [Lobby.run_waiting (Lobby.mem_everyone hs)] at hmode
    cases hmode

/-- The handlers of the sessions that created a game are bound to the games exactly where
there is no such session. The handler of each is bound to an object that is gone. -/
theorem dispatched_iff (h : (system grow host).Reachable o) :
    (o.Dispatched ↔ ∀ s ∈ o.lobby.sessions, s.mode ≠ .creating_game) ∧
    ∀ s ∈ o.lobby.sessions, s.mode = .creating_game → ∃ t, o.target s.key = some t ∧ t < o.next ∧ t ∉ o.stored := by
  have hsound := Reachable.sound h
  refine ⟨⟨fun hd s hs hmode => ?_, fun hno s hs hmode => absurd hmode (hno s hs)⟩, fun s hs hmode => ?_⟩
  · obtain ⟨i, t, g, name, ht, hi, -, -⟩ := hd s hs hmode
    exact (hsound.target s.key t ht).2 (List.mem_of_getElem? hi)
  · obtain ⟨t, ht⟩ := hsound.bound s hs hmode
    exact ⟨t, ht, hsound.target s.key t ht⟩

/-- A client logs in and creates a game. -/
theorem dispatched_iff_login : ∃ o, (system (fun n => 2 * n + 1) .little).Reachable o ∧
    (o.Dispatched ↔ ∀ s ∈ o.lobby.sessions, s.mode ≠ .creating_game) ∧ o.Dispatched ∧
    o.lobby.sessions.map (·.mode) = [.lobby, .connected] := by
  have hexec : (system (fun n => 2 * n + 1) .little).exec (fun _ _ => True)
      (system (fun n => 2 * n + 1) .little).init
      [.accept 0 false, .receiveMessage 0, .read 0 (some (text "user a"))] = some _ := rfl
  have hr : (system (fun n => 2 * n + 1) .little).Reachable _ := ⟨_, System.Steps.of_exec hexec⟩
  have hiff := (dispatched_iff hr).1
  exact ⟨_, hr, hiff, hiff.2 (by decide), by decide⟩

/-- Two clients create a game each. The second one moves the first one, too. -/
theorem bound_to_temporaries : ∃ o, (system (fun n => 2 * n + 1) .little).Reachable o ∧
    o.lobby.games.map (fun g => (g.id, g.players.map Prod.fst)) = [(text "g", [0]), (text "h", [1])] ∧
    o.stored = [3, 4] ∧ o.target 0 = some 0 ∧ o.target 1 = some 2 ∧ ¬ o.Dispatched := by
  have hexec : (system (fun n => 2 * n + 1) .little).exec (fun _ _ => True)
      (system (fun n => 2 * n + 1) .little).init
      [.accept 0 false, .receiveMessage 0, .read 0 (some (text "user a")), .receiveMessage 0,
        .read 0 (some (text "game create g")), .accept 1 false, .receiveMessage 1, .read 1 (some (text "user b")),
        .receiveMessage 1, .read 1 (some (text "game create h"))] = some _ := rfl
  refine ⟨_, ⟨_, System.Steps.of_exec hexec⟩, by decide, rfl, rfl, rfl, fun hd => ?_⟩
  obtain ⟨i, t, g, name, ht, hi, -, -⟩ := hd _ (List.mem_cons_self) rfl
  obtain rfl : 0 = t := Option.some.inj ht
  exact absurd (List.mem_of_getElem? hi) (by decide)

end Objects
end Zar
