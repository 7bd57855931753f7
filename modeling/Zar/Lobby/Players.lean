import Zar.Lobby.Names
/-!
# Players and sessions

A game refers to the session that created it, and games are never erased. So the
reaper must not erase a session that created a game, but it looks at the status only.
-/

namespace Zar
namespace Lobby

variable {L L' : Lobby} {e : Event} {es : List Event} {host : Endian}

/-- The players of the games are sessions that are there. -/
def PlayersStored (L : Lobby) : Prop := ∀ g ∈ L.games, ∀ p ∈ g.players, ∃ s ∈ L.sessions, s.key = p.1

/-- The reaper meets no session that created a game. -/
def Spared (L : Lobby) : Event → Prop
  | .tick false => ∀ s ∈ L.sessions, s.status = .reapable → s.mode ≠ .creating_game
  | _ => True

instance (L : Lobby) : (e : Event) → Decidable (L.Spared e)
  | .tick false => inferInstanceAs (Decidable (∀ s ∈ L.sessions, s.status = .reapable → s.mode ≠ .creating_game))
  | .accept _ _ | .receiveMessage _ | .sendMessage _ | .read _ _ | .transfer _ _ _ | .written _ _ | .tick true =>
    inferInstanceAs (Decidable True)

/-- Every session that created a game is the player of one. -/
theorem playersStored_iff (hw : L.Wf) (hr : L.Rooms) : L.PlayersStored ↔ ∀ s ∈ L.erased, s.mode ≠ .creating_game := by
  constructor
  · intro hp s hs hm
    obtain ⟨g, hg, hplayers⟩ := hr.creators s (List.mem_append_right _ hs) hm
    obtain ⟨x, hx, hk⟩ := hp g hg (s.key, ⟨s.id, .gm⟩) (by simp [hplayers])
    have hd := hw.distinct
    rw [Keyed.Distinct, List.map_append, List.nodup_append] at hd
    exact hd.2.2 _ (List.mem_map_of_mem hx) _ (List.mem_map_of_mem hs) hk
  · intro he g hg p hp
    obtain ⟨s, hs, hplayers, hm⟩ := hr.games g hg
    rw [hplayers] at hp
    obtain rfl := List.mem_singleton.1 hp
    rcases List.mem_append.1 hs with hs | hs
    · exact ⟨s, hs, rfl⟩
    · exact absurd hm (he s hs)

/-- Only the reaper erases. -/
theorem Change.spared (h : Change L e L') :
    (∀ s ∈ L'.erased, s.mode ≠ .creating_game) ↔ (∀ s ∈ L.erased, s.mode ≠ .creating_game) ∧ L.Spared e := by
  cases h with
  | moved hs hm =>
    refine (and_iff_left ?_).symm
    cases hm with
    | acceptFailed | receiveMessage | sendMessage | transfer | readFailed | command | wrote | closed | threw => trivial
  | accepted | aborted => exact (and_iff_left trivial).symm
  | reaped => simp [reap, Spared, or_imp, forall_and]

/-- The players of the games are sessions that are there exactly in the runs in which the
reaper met no session that had created a game. -/
theorem players_stored (h : (system host).Run es L) : L.PlayersStored ↔ (system host).RunIf Spared es L := by
  rw [playersStored_iff (Reachable.wf h.reachable) (Reachable.rooms h.reachable)]
  refine h.iff_runIf (fun L => ∀ s ∈ L.erased, s.mode ≠ .creating_game) ?_ ?_
  · change ∀ s ∈ (run host).erased, s.mode ≠ .creating_game
    rw [run_eq]
    rintro s ⟨⟩
  · exact fun L e L' hr hs => (step_change (Reachable.wf hr) hs).spared

/-- The reaper erases another session. The creator of the game stays. -/
theorem players_stored_login : ∃ L, (system .little).Run
      [.accept 0 false, .receiveMessage 0, .read 0 (some (text "user a")), .receiveMessage 0,
        .read 0 (some (text "game create g")), .accept 1 false, .sendMessage 1, .transfer 1 true 0, .written 1 false,
        .tick false] L ∧
    (L.PlayersStored ↔ (system .little).RunIf Spared
      [.accept 0 false, .receiveMessage 0, .read 0 (some (text "user a")), .receiveMessage 0,
        .read 0 (some (text "game create g")), .accept 1 false, .sendMessage 1, .transfer 1 true 0, .written 1 false,
        .tick false] L) ∧
    L.PlayersStored ∧ L.games.length = 1 ∧ L.erased.map (·.key) = [1] := by
  have hexec : (system .little).exec Spared (run .little)
      [.accept 0 false, .receiveMessage 0, .read 0 (some (text "user a")), .receiveMessage 0,
        .read 0 (some (text "game create g")), .accept 1 false, .sendMessage 1, .transfer 1 true 0, .written 1 false,
        .tick false] = some _ := rfl
  have hspared : (system .little).RunIf Spared _ _ := System.Steps.of_exec hexec
  have hiff := players_stored hspared.run
  exact ⟨_, hspared.run, hiff, hiff.2 hspared, rfl, rfl⟩

/-- A write fails for the session that created the game. -/
theorem player_erased : ∃ L, (system .little).Run
      [.accept 0 false, .receiveMessage 0, .read 0 (some (text "user a")), .receiveMessage 0,
        .read 0 (some (text "game create g")), .sendMessage 0, .transfer 0 true 0, .written 0 false, .tick false] L ∧
    L.games.map (·.players) = [[(0, ⟨text "a", .gm⟩)]] ∧ L.sessions.map (·.key) = [1] ∧ ¬ L.PlayersStored := by
  have hexec : (system .little).exec (fun _ _ => True) (run .little)
      [.accept 0 false, .receiveMessage 0, .read 0 (some (text "user a")), .receiveMessage 0,
        .read 0 (some (text "game create g")), .sendMessage 0, .transfer 0 true 0, .written 0 false, .tick false] =
      some _ := rfl
  refine ⟨_, System.Steps.of_exec hexec, by decide, by decide, fun h => ?_⟩
  obtain ⟨s, hs, hk⟩ := h ⟨text "g", [(0, ⟨text "a", .gm⟩)]⟩ (by decide) (0, ⟨text "a", .gm⟩) (by decide)
  obtain rfl := List.mem_singleton.1 hs
  exact absurd hk (by decide)

end Lobby
end Zar
