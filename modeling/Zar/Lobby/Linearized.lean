import Zar.Lobby.Concurrent
import Zar.Lobby.Reference
/-!
# The lobby with more than one thread

While no two sessions ask for one name at the same time the threads do not show: the lobby is the
reference, which handles one command after the other. A command takes its place when its handler
ends. For a name that was found free that is the commit.
-/

namespace Zar
namespace Lobby

variable {L L' : Lobby} {s s' : Session} {e : Event} {c id : Bytes} {claim : Claim} {m : Mode} {pending : List (Nat × Claim)}
  {cs : List (Nat × Bytes)} {R : Reference}

/-! ## Commands that ask for a name -/

/-- How a claim reads. -/
def Claim.command : Claim → Bytes
  | .user id => cmdUser ++ id
  | .gameCreate id => cmdGameCreate ++ id

theorem claimOf_eq (h : claimOf m c = some claim) : c = claim.command := by
  cases m with
  | connected =>
    simp only [claimOf, substr_eq_iff] at h
    split at h
    · rename_i hpre
      cases h
      obtain ⟨id, rfl⟩ := hpre
      rw [List.drop_left, Claim.command]
    · cases h
  | lobby =>
    simp only [claimOf, substr_eq_iff] at h
    split at h
    · rename_i hpre
      cases h
      obtain ⟨id, rfl⟩ := hpre
      rw [List.drop_left, Claim.command]
    · cases h
  | creating_game => cases h

theorem claimOf_command_self (claim : Claim) : claimOf claim.mode claim.command = some claim := by
  cases claim with
  | user id => simp only [Claim.mode, Claim.command, claimOf, substr_eq_iff, List.prefix_append, if_true, List.drop_left]
  | gameCreate id =>
    simp only [Claim.mode, Claim.command, claimOf, substr_eq_iff, List.prefix_append, if_true, List.drop_left]

theorem parse_user (id : Bytes) : parseCommand .connected (cmdUser ++ id) = .user id := by
  have hhelp : cmdUser ++ id ≠ text "help" := (claimOf_command (claimOf_command_self (.user id))).2
  have hpre : text "user " <+: cmdUser ++ id := List.prefix_append cmdUser id
  simp only [parseCommand, hhelp, hpre, if_false, if_true]
  rfl

theorem parse_gameCreate (id : Bytes) : parseCommand .lobby (cmdGameCreate ++ id) = .gameCreate id := by
  have hhelp : cmdGameCreate ++ id ≠ text "help" := (claimOf_command (claimOf_command_self (.gameCreate id))).2
  have hpre : text "game create " <+: cmdGameCreate ++ id := List.prefix_append cmdGameCreate id
  simp only [parseCommand, hhelp, hpre, if_false, if_true]
  rfl

/-- A commit that still finds its name free is the reply of the reference. -/
theorem grant_responds (hw : L.Wf) (hr : L.Rooms) (hs : s ∈ L.sessions) (hm : s.mode = claim.mode)
    (hf : claim.scan L = none) : Responds L s claim.command (claim.grant s L.games).1 (claim.grant s L.games).2 := by
  have hc := (claimOf_command (claimOf_command_self claim)).1
  cases claim with
  | user id => exact (login_responds hw hr hs hm hc (parse_user id) hf).receive
  | gameCreate id => exact (create_responds hw hr hs hm hc (parse_gameCreate id) hf).receive

end Lobby

namespace Concurrent

variable {C C' : Concurrent} {e : Event} {es : List Event} {host : Endian} {pending : List (Nat × Lobby.Claim)} {k : Nat}
  {cs : List (Nat × Bytes)} {R : Reference}

/-- The command of a session that is between scan and commit. -/
def asked (pending : List (Nat × Lobby.Claim)) (k : Nat) : List Io :=
  ((Keyed.get? Prod.fst k pending).map fun p => Io.received p.2.command).toList

/-- The command whose handler ends in the step. -/
def ends (C : Concurrent) : Event → Option (Nat × Bytes)
  | .run e =>
    match C.lobby.scan e with
    | some _ => none
    | none => e.command
  | .commit k => (Keyed.get? Prod.fst k C.pending).map fun p => (k, p.2.command)

theorem asked_absent (h : ∀ p ∈ pending, p.1 ≠ k) : asked pending k = [] := by
  rw [asked, Keyed.get?_absent h]
  rfl

theorem asked_mem (hd : Keyed.Distinct Prod.fst pending) {claim : Lobby.Claim} (h : (k, claim) ∈ pending) :
    asked pending k = [.received claim.command] := by
  rw [asked, hd.get? h]
  rfl

theorem asked_filter {j : Nat} (h : j ≠ k) : asked (pending.filter (·.1 ≠ k)) j = asked pending j := by
  unfold asked
  rw [Keyed.get?_filter h]

/-! ## Steps -/

/-- A handler that is not about to commit runs as with one thread. -/
theorem step_run {e : Lobby.Event} (h : C.step (.run e) = some C') (hno : C.lobby.scan e = none) :
    (∀ p ∈ C.pending, e.strand ≠ some p.1) ∧ ∃ L, C.lobby.step e = some L ∧ C' = { C with lobby := L } := by
  simp only [step, hno] at h
  split at h
  · cases h
  · rename_i hfree
    obtain ⟨L, hL, rfl⟩ := Option.map_eq_some_iff.1 h
    exact ⟨fun p hp he => hfree ⟨p, hp, he⟩, L, hL, rfl⟩

/-- The reference beside the lobby. -/
abbrev Beside (C : Concurrent) (cs : List (Nat × Bytes)) (R : Reference) : Prop :=
  Lobby.Beside cs (asked C.pending) C.lobby R

theorem Beside.run {e : Lobby.Event} (h : C.Beside cs R) (hb : C.Base) (hi : C.Separate) (hs : C.step (.run e) = some C')
    (hno : C.lobby.scan e = none) :
    ∃ ds R', Reference.system.Steps (fun _ _ => True) R ds R' ∧ C'.Beside (cs ++ e.command.toList) R' := by
  obtain ⟨hfree, L, hL, rfl⟩ := step_run hs hno
  cases hn : e.command with
  | none =>
    have hfresh : asked C.pending C.lobby.nextKey = [] := asked_absent fun p hp => Nat.ne_of_lt (hb.fresh p hp)
    obtain ⟨ds, R', hds, h'⟩ := Lobby.Beside.other h hb.wf hfresh (Lobby.step_change hb.wf hL) hn
    exact ⟨ds, R', hds, by simpa using h'⟩
  | some kc =>
    obtain ⟨k, c, rfl⟩ : ∃ k c, e = .read k (some c) := by
      cases e with
      | read k contents =>
        cases contents with
        | none => cases hn
        | some c => exact ⟨k, c, rfl⟩
      | accept | receiveMessage | sendMessage | transfer | written | tick => cases hn
    obtain ⟨s, hs', rfl⟩ : ∃ s ∈ C.lobby.sessions, s.key = k := by
      cases hg : C.lobby.get? k with
      | none => simp [Lobby.step, hg] at hL
      | some s => exact ⟨s, Lobby.get?_mem hg⟩
    obtain rfl : (s.key, c) = kc := Option.some.inj hn
    have hasked : asked C.pending s.key = [] := asked_absent fun p hp he => hfree p hp (congrArg some he.symm)
    obtain ⟨R', hR', h'⟩ := Lobby.Beside.command h hb.wf hi.rooms hs' hasked hL
    exact ⟨_, R', .one trivial hR', h'⟩

/-- A handler that is about to commit has asked, and nothing else shows. -/
theorem Beside.scanned (h : C.Beside cs R) (hb : C.Base) {s : Session} (hs : s ∈ C.lobby.sessions)
    (hbusy : ∀ p ∈ C.pending, p.1 ≠ s.key) (claim : Lobby.Claim) : (C.scanned s claim.command claim).Beside cs R := by
  have hasked : ∀ k, asked (C.scanned s claim.command claim).pending k =
      if s.key = k then [.received claim.command] else asked C.pending k := by
    intro k
    change asked (C.pending ++ [(s.key, claim)]) k = _
    unfold asked
    rw [Keyed.get?_concat hbusy]
    split <;> rfl
  have hkey : (s.readEnds (some claim.command)).key = s.key := rfl
  refine ⟨?_, h.commands, ?_, h.known⟩
  · rw [h.roster]
    exact (Lobby.answered_roster hb.wf hs hkey rfl).symm
  · intro x hx
    rw [hasked]
    rcases (Lobby.everyone_moved hb.wf hs hkey C.lobby.games x).1 hx with rfl | ⟨hx, hne⟩
    · have htalks := h.talks s (Lobby.mem_everyone hs)
      rw [asked_absent hbusy, List.append_nil] at htalks
      have htrace : (s.readEnds (some claim.command)).trace = s.trace ++ [.received claim.command] := rfl
      have hgreet : greeting (s.trace ++ [.received claim.command]) = greeting s.trace := by simp [greeting]
      rw [htrace, hgreet, List.filter_append, htalks]
      exact congrArg _ (if_pos rfl).symm
    · rw [if_neg (Ne.symm hne)]
      exact h.talks x hx

/-- The reference handles a command when the lobby commits it. -/
theorem Beside.committed (h : C.Beside cs R) (hb : C.Base) (hi : C.Separate) {s : Session} (hs : s ∈ C.lobby.sessions)
    {claim : Lobby.Claim} (hp : (s.key, claim) ∈ C.pending) :
    ∃ R', Reference.system.step R (.command s.key claim.command) = some R' ∧
      Beside ⟨C.lobby.answered (claim.grant s C.lobby.games).1 (claim.grant s C.lobby.games).2,
        C.pending.filter (·.1 ≠ s.key)⟩ (cs ++ [(s.key, claim.command)]) R' := by
  have hm := (hb.waits _ hp s hs rfl).1
  have hfree := hi.free _ hp ⟨s, hs, rfl⟩
  have hres := Lobby.grant_responds hb.wf hi.rooms hs hm hfree
  have hdone : asked (C.pending.filter (·.1 ≠ s.key)) s.key = [] :=
    asked_absent fun p hp => by simpa using (List.mem_filter.1 hp).2
  refine Lobby.Beside.answered h hb.wf hs [] hres.key ?_ ?_ hres.roster hdone fun k hne => asked_filter hne
  · rw [asked_mem hb.keys hp]
    rfl
  · rw [List.append_nil]
    exact hres.trace

theorem Beside.step (h : C.Beside cs R) (hb : C.Base) (hi : C.Separate) (hs : C.step e = some C') :
    ∃ ds R', Reference.system.Steps (fun _ _ => True) R ds R' ∧ C'.Beside (cs ++ (C.ends e).toList) R' := by
  cases step_change hb.wf hs with
  | atomic hno =>
    simp only [ends, hno]
    exact h.run hb hi hs hno
  | @scanned s c claim hs' hr hm hf hbusy hscan =>
    obtain ⟨-, -, -, hc, -⟩ := Lobby.scan_some hscan
    obtain rfl := Lobby.claimOf_eq hc
    refine ⟨[], R, .nil, ?_⟩
    simp only [ends, hscan, Option.toList_none, List.append_nil]
    exact h.scanned hb hs' hbusy claim
  | @committed s claim hs' hp =>
    obtain ⟨R', hR', h'⟩ := h.committed hb hi hs' hp
    refine ⟨_, R', .one trivial hR', ?_⟩
    simp only [ends, hb.keys.get? hp, Option.map_some, Option.toList_some]
    exact h'

/-! ## Names that are not apart -/

/-- Every game has one player. -/
def Single (C : Concurrent) : Prop := ∀ g ∈ C.lobby.games, ∃ p, g.players = [p]

theorem Single.step (h : C.Single) (hb : C.Base) (hs : C.step e = some C') : C'.Single := by
  cases step_change hb.wf hs with
  | atomic hno hc =>
    cases hc with
    | moved hs' hm =>
      change ∀ g ∈ _, _
      cases hm.joined with
      | same | login => exact h
      | create _ _ _ id _ =>
        intro g hg
        rcases List.mem_append.1 hg with hg | hg
        · exact h g hg
        · obtain rfl := List.mem_singleton.1 hg
          exact ⟨_, rfl⟩
    | accepted | reaped | aborted => exact h
  | scanned => exact h
  | @committed s claim =>
    cases claim with
    | user => exact h
    | gameCreate id =>
      intro g hg
      rcases List.mem_append.1 hg with hg | hg
      · exact h g hg
      · obtain rfl := List.mem_singleton.1 hg
        exact ⟨_, rfl⟩

theorem Reachable.single (h : (system host).Reachable C) : C.Single := by
  have hboth : C.Base ∧ C.Single := by
    refine h.inv (fun C => C.Base ∧ C.Single) ⟨Base.init host, ?_⟩ ?_
    · rintro g ⟨⟩
    · rintro C e C' ⟨hb, hi⟩ hs
      exact ⟨hb.step hs, hi.step hb hs⟩
  exact hboth.2

/-- The roster of such a lobby is that of a reference only where its names are apart. -/
theorem Single.unique (h : C.Single) (ho : C.lobby.roster.Ok) : Unique C.lobby := by
  refine ⟨Lobby.names_roster C.lobby ▸ ho.names, ?_⟩
  have hone : ∀ g ∈ C.lobby.games, g.players.map (fun _ => g.id) = [g.id] := by
    intro g hg
    obtain ⟨p, hp⟩ := h g hg
    rw [hp]
    rfl
  have hrooms : C.lobby.roster.rooms.map Prod.fst = C.lobby.gameList := by
    have he : C.lobby.roster.rooms.map Prod.fst = C.lobby.games.flatMap fun g => g.players.map fun _ => g.id := by
      simp [Lobby.roster, List.map_flatMap, Function.comp_def]
    rw [he, Lobby.gameList, List.map_eq_flatMap]
    exact List.flatMap_congr hone
  exact hrooms ▸ ho.rooms

/-! ## Runs -/

/-- In every run in which nobody scans for a name that another session is about to commit, the
lobby is the reference that handles the commands in the order in which their handlers end. What was
said to each session is the greeting and the replies of the reference, and at last a command that is
not answered yet. Behind every other such scan the two commits lead to a lobby that no reference is. -/
theorem linearized (host : Endian) :
    (∀ es C, (system host).RunIf Apart es C → ∃ ds R, Reference.system.Run ds R ∧ R.roster = C.lobby.roster ∧
      R.log.map (fun x => (x.1, x.2.1)) = (system host).outputs ends (system host).init es ∧
      ∀ s ∈ C.lobby.everyone,
        s.trace.filter Io.talk = greeting s.trace ++ dialogue R.log s.key ++ asked C.pending s.key) ∧
    ∀ C e C', (system host).Reachable C → C.step e = some C' → ¬ C.Apart e →
      ∃ j k C'', j ≠ k ∧ (system host).Steps (fun _ _ => True) C' [.commit j, .commit k] C'' ∧
        ∀ ds R, Reference.system.Run ds R → R.roster ≠ C''.lobby.roster := by
  constructor
  · intro es C h
    have hall : (C.Base ∧ C.Separate) ∧
        ∃ ds R, Reference.system.Run ds R ∧ C.Beside ((system host).outputs ends (system host).init es) R := by
      refine h.inv_hist (fun es C => (C.Base ∧ C.Separate) ∧
        ∃ ds R, Reference.system.Run ds R ∧ C.Beside ((system host).outputs ends (system host).init es) R) ?_ ?_
      · refine ⟨⟨Base.init host, ?_⟩, [.enter 0], _, Lobby.enter_init host, Lobby.Beside.init host⟩
        exact ⟨Lobby.Rooms.init host, Lobby.roster_init host, by rintro _ ⟨⟩, by rintro _ ⟨⟩⟩
      · rintro es C e C' hr ⟨⟨hb, hi⟩, ds, R, hR, h⟩ ha hs
        have hc := step_change hb.wf hs
        obtain ⟨ds', R', hds, h'⟩ := h.step hb hi hs
        rw [System.Steps.outputs_concat hr hs]
        exact ⟨⟨hc.base hb, hc.separate hb hi ha⟩, ds ++ ds', R', System.Steps.trans hR hds, h'⟩
    obtain ⟨-, ds, R, hR, hb⟩ := hall
    exact ⟨ds, R, hR, hb.roster, hb.commands, hb.talks⟩
  · intro C e C' hr hs ha
    have hb := Reachable.base hr
    obtain ⟨x, hx, y, hy, hne, claim, hpx, hpy⟩ := both_pending hb hs ha
    obtain ⟨C'', hsteps : (system host).Steps _ _ _ _, hdup⟩ := commit_twice (hb.step hs) hx hy hne hpx hpy
    refine ⟨x.key, y.key, C'', hne, hsteps, fun ds R hR he => hdup ?_⟩
    have hsingle := Reachable.single ((hr.step hs).steps hsteps)
    exact hsingle.unique (he ▸ Reference.Run.ok hR)

/-- While the first client is between scan and commit the second one logs in and asks for the games.
With the name of the first client it would have got that name, too. -/
theorem linearized_two :
    (∃ (C : Concurrent) (ds : List ReferenceEvent) (R : Reference), Reference.system.Run ds R ∧ R.roster = C.lobby.roster ∧
      R.log.map (fun x => (x.1, x.2.1)) = [(1, text "user b"), (1, text "game list"), (0, text "user a")] ∧
      ∀ s ∈ C.lobby.everyone,
        s.trace.filter Io.talk = greeting s.trace ++ dialogue R.log s.key ++ asked C.pending s.key) ∧
    ∃ C, (system .little).Reachable C ∧ ∀ ds R, Reference.system.Run ds R → R.roster ≠ C.lobby.roster := by
  constructor
  · have hexec : (system .little).exec Apart ⟨Lobby.run .little, []⟩
        [.run (.accept 0 false), .run (.accept 1 false), .run (.receiveMessage 0), .run (.receiveMessage 1),
          .run (.read 0 (some (text "user a"))), .run (.read 1 (some (text "user b"))), .commit 1, .run (.receiveMessage 1),
          .run (.read 1 (some (text "game list"))), .commit 0] = some _ := rfl
    have hr : (system .little).RunIf Apart _ _ := System.Steps.of_exec hexec
    obtain ⟨ds, R, hR, hroster, hlog, htalk⟩ := (linearized .little).1 _ _ hr
    exact ⟨_, ds, R, hR, hroster, hlog.trans (by decide), htalk⟩
  · have hexec : (system .little).exec (fun _ _ => True) ⟨Lobby.run .little, []⟩
        [.run (.accept 0 false), .run (.accept 1 false), .run (.receiveMessage 0), .run (.receiveMessage 1),
          .run (.read 0 (some (text "user a")))] = some _ := rfl
    have hr : (system .little).Reachable _ := ⟨_, System.Steps.of_exec hexec⟩
    obtain ⟨j, k, C, -, hsteps, hno⟩ := (linearized .little).2 _ (.run (.read 1 (some (text "user a")))) _ hr rfl (by decide)
    exact ⟨C, (hr.step (e := .run (.read 1 (some (text "user a")))) rfl).steps hsteps, hno⟩

end Concurrent
end Zar
