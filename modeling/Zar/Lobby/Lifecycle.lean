import Zar.Lobby.Names
/-!
# The life of a session

The handlers of the socket assign the status of a session whatever it was, and the
reaper looks for one status only. So the order in which a read and a write fail
decides whether a session is ever erased, and an accept that fails was the last
one. The theorems say which orders go well.
-/

namespace Zar

/-- The order of `tsession::tstatus`. -/
def Status.rank : Status → Nat
  | .wait_for_connection => 0
  | .connected => 1
  | .disconnected => 2
  | .reapable => 3

theorem Status.rank_le_reapable (x : Status) : x.rank ≤ Status.reapable.rank := by cases x <;> decide

theorem Status.rank_le_disconnected {x : Status} (h : x ≠ .reapable) : x.rank ≤ Status.disconnected.rank := by
  cases x <;> first | decide | exact absurd rfl h

/-- The last completion of a read or a write with an error whose handler assigned a status. -/
def Session.lastFailure (s : Session) : Option Io :=
  (s.trace.filter fun x => x = .readFailed ∨ x = .writeFailed true).getLast?

namespace Lobby

variable {L L' : Lobby} {s s' : Session} {e : Event} {es : List Event} {gs : List Game} {host : Endian} {c : Bytes}

/-! ## The status only goes forward -/

/-- No session goes back to an earlier status. -/
def Forward (L L' : Lobby) : Prop :=
  ∀ s ∈ L.everyone, ∀ s' ∈ L'.everyone, s'.key = s.key → s.status.rank ≤ s'.status.rank

/-- A read fails of a session that waits for the reaper. -/
def LateFailure (L : Lobby) (e : Event) : Prop := ∃ s ∈ L.sessions, s.status = .reapable ∧ e = .read s.key none

instance (L : Lobby) (e : Event) : Decidable (L.LateFailure e) := by unfold LateFailure; infer_instance

def NotBehind (s s' : Session) : Prop := s.status.rank ≤ s'.status.rank

instance : Std.Refl NotBehind where
  refl _ := Nat.le_refl _

instance : IsTrans Session NotBehind where
  trans _ _ _ := Nat.le_trans

theorem Answer.status (h : Answer L s c s' gs) : s'.status = s.status := by cases h <;> rfl

theorem Moved.forward (h : Moved L s e s' gs) (hs : s ∈ L.sessions) (hl : ¬ L.LateFailure e) : NotBehind s s' := by
  cases h with
  | acceptFailed | closed => exact s.status.rank_le_reapable
  | readFailed =>
    apply Status.rank_le_disconnected
    intro hst
    exact hl ⟨s, hs, hst, rfl⟩
  | command _ ha =>
    apply Nat.le_of_eq
    exact congrArg Status.rank ha.status.symm
  | receiveMessage | sendMessage | transfer | wrote | threw => exact Nat.le_refl _

theorem Change.forward (hw : L.Wf) (h : Change L e L') (hl : ¬ L.LateFailure e) : Lasting NotBehind L L' := by
  refine h.lasting NotBehind hw ?_ fun s s' gs hs hm => hm.forward hs hl
  intro s hs
  rw [NotBehind, hs.status]
  exact Nat.zero_le _

theorem Moved.readFailed_status {k : Nat} (h : Moved L s e s' gs) (he : e = .read k none) :
    s'.status = .disconnected := by
  cases h with
  | readFailed => rfl
  | acceptFailed | receiveMessage | sendMessage | transfer | command | wrote | closed | threw => cases he

/-- A late failure takes the session back. -/
theorem LateFailure.not_forward (hw : L.Wf) (hl : L.LateFailure e) (h : Change L e L') : ¬ Forward L L' := by
  obtain ⟨s, hs, hst, he⟩ := hl
  intro hf
  cases h with
  | @moved x x' _ gs hx hm =>
    have hk : x.key = s.key := by simpa [he, Event.about] using hm.about.symm
    obtain rfl := hw.keys.eq hx hs hk
    have hx' : x' ∈ (L.answered x' gs).sessions := mem_answered hx hm.key
    have hle := hf x (mem_everyone hx) x' (mem_everyone hx') hm.key
    rw [hst, hm.readFailed_status he] at hle
    exact absurd hle (by decide)
  | accepted | reaped | aborted => cases he

/-- A step takes a session back exactly when it is the failure of a read of a session that
waits for the reaper. In every run without such steps the status of every session
only goes forward. -/
theorem status_forward (h : (system host).Reachable L) :
    (∀ e L', L.step e = some L' → (Forward L L' ↔ ¬ L.LateFailure e)) ∧
    ∀ es L', (system host).Steps (fun L e => ¬ L.LateFailure e) L es L' → Forward L L' := by
  constructor
  · intro e L' hs
    have hw := Reachable.wf h
    have hc := step_change hw hs
    constructor
    · intro hf hl
      exact hl.not_forward hw hc hf
    · intro hl x hx x' hx' hk
      exact (hc.forward hw hl).rel (hw.step hs) hx hx' hk
  · intro es L' hs x hx x' hx' hk
    have hlast : Lasting NotBehind L L' := hs.rel (Lasting NotBehind) h fun L e L' hr hl hstep =>
      (step_change (Reachable.wf hr) hstep).forward (Reachable.wf hr) hl
    exact hlast.rel (Reachable.wf (h.steps hs)) hx hx' hk

/-- A read fails, and then the write of the greeting. -/
theorem status_forward_write_last : ∃ L, (system .little).Steps (fun L e => ¬ L.LateFailure e) (run .little)
      [.accept 0 false, .receiveMessage 0, .sendMessage 0, .transfer 0 true 0, .read 0 none, .written 0 false] L ∧
    L.sessions.map (·.status) = [.reapable, .wait_for_connection] ∧ Forward (run .little) L := by
  have hexec : (system .little).exec (fun L e => ¬ L.LateFailure e) (run .little)
      [.accept 0 false, .receiveMessage 0, .sendMessage 0, .transfer 0 true 0, .read 0 none, .written 0 false] =
        some _ := rfl
  have hs := System.Steps.of_exec hexec
  exact ⟨_, hs, rfl, (status_forward (System.reachable_init (S := system .little))).2 _ _ hs⟩

/-- The write fails first, and closing the socket aborts the read. -/
theorem aborted_read_not_forward : ∃ L L', (system .little).Run
      [.accept 0 false, .receiveMessage 0, .sendMessage 0, .transfer 0 true 0, .written 0 false] L ∧
    L.step (.read 0 none) = some L' ∧ L.sessions.map (·.status) = [.reapable, .wait_for_connection] ∧
    L'.sessions.map (·.status) = [.disconnected, .wait_for_connection] ∧ ¬ Forward L L' := by
  have hexec : (system .little).exec (fun _ _ => True) (run .little)
      [.accept 0 false, .receiveMessage 0, .sendMessage 0, .transfer 0 true 0, .written 0 false] = some _ := rfl
  refine ⟨_, _, System.Steps.of_exec hexec, rfl, rfl, rfl, fun hf => ?_⟩
  have hle := hf _ (mem_everyone (List.mem_cons_self ..)) _ (mem_everyone (List.mem_cons_self ..)) rfl
  exact absurd hle (by decide)

/-! ## Sessions with nothing outstanding -/

theorem Moved.not_idle (h : Moved L s e s' gs) : ¬ s.Idle := by
  rintro ⟨ha, hp, hr, hsp, hw⟩
  cases h with
  | acceptFailed h =>
    rw [h.accepts] at ha
    cases ha
  | receiveMessage h => omega
  | readFailed h => omega
  | command h => omega
  | sendMessage h => simp [Sender.step, hsp] at h
  | transfer h => simp [Sender.step, hw] at h
  | wrote h | closed h | threw h => simp [hw] at h

/-- Only the reaper touches a session with nothing outstanding. -/
theorem Change.stays (hw : L.Wf) (h : Change L e L') (hs : s ∈ L.sessions) (hi : s.Idle)
    (hst : e = .tick false → s.status ≠ .reapable) : s ∈ L'.sessions := by
  cases h with
  | moved hs' hm =>
    refine Keyed.mem_update.2 (.inr ⟨hs, fun he => ?_⟩)
    obtain rfl := hw.keys.eq hs hs' (he.trans hm.key)
    exact hm.not_idle hi
  | @accepted init x hinit hwait =>
    rw [hinit] at hs
    rcases List.mem_append.1 hs with hs | hs
    · exact List.mem_append_left _ hs
    · obtain rfl := List.mem_singleton.1 hs
      have h0 := hi.1
      rw [hwait.accepts] at h0
      cases h0
  | reaped => exact mem_reap.2 ⟨hs, hst rfl⟩
  | aborted => exact hs

theorem steps_stay {ok : Lobby → Event → Prop} (h : (system host).Reachable L) (hs : s ∈ L.sessions) (hi : s.Idle)
    (hok : ∀ L e, ok L e → e = .tick false → s.status ≠ .reapable) (hsteps : (system host).Steps ok L es L') :
    s ∈ L'.sessions := by
  have hboth : L'.Wf ∧ s ∈ L'.sessions := by
    refine hsteps.inv (fun L => L.Wf ∧ s ∈ L.sessions) ⟨Reachable.wf h, hs⟩ ?_
    rintro L e L' ⟨hw, hmem⟩ ho hstep
    exact ⟨hw.step hstep, (step_change hw hstep).stays hw hmem hi (hok L e ho)⟩
  exact hboth.2

/-! ## The reaper looks at the last failure -/

theorem lastFailure_append {xs : List Io} (ht : s'.trace = s.trace ++ xs)
    (hx : ∀ x ∈ xs, x ≠ .readFailed ∧ x ≠ .writeFailed true) : s'.lastFailure = s.lastFailure := by
  have hnil : (xs.filter fun x => decide (x = .readFailed ∨ x = .writeFailed true)) = [] := by
    rw [List.filter_eq_nil_iff]
    intro x hm
    simpa using hx x hm
  unfold Session.lastFailure
  rw [ht, List.filter_append, hnil, List.append_nil]

theorem lastFailure_concat {x : Io} (ht : s'.trace = s.trace ++ [x]) (hx : x = .readFailed ∨ x = .writeFailed true) :
    s'.lastFailure = some x := by
  unfold Session.lastFailure
  rw [ht, List.filter_append]
  simp [hx]

/-- The reaper looks at whether the last failure is that of a write. -/
def FailureStatus (s : Session) : Prop := s.status = .reapable ↔ s.lastFailure = some (.writeFailed true)

theorem FailureStatus.congr (h : FailureStatus s) (hst : s'.status = s.status) {xs : List Io}
    (ht : s'.trace = s.trace ++ xs) (hx : ∀ x ∈ xs, x ≠ .readFailed ∧ x ≠ .writeFailed true) : FailureStatus s' := by
  unfold FailureStatus
  rw [hst, lastFailure_append ht hx]
  exact h

theorem Moved.failureStatus (h : Moved L s e s' gs) (hacc : ¬ s.Waiting L.host) (hf : FailureStatus s) :
    FailureStatus s' := by
  cases h with
  | acceptFailed h => exact absurd h hacc
  | receiveMessage | sendMessage | transfer | wrote => exact hf.congr rfl (List.append_nil _).symm (by simp)
  | threw => exact hf.congr rfl rfl (by simp)
  | readFailed =>
    rw [FailureStatus, lastFailure_concat rfl (.inl rfl)]
    simp [Session.setStatus]
  | closed =>
    rw [FailureStatus, lastFailure_concat rfl (.inr rfl)]
    simp [Session.setStatus]
  | @command c s'' _ _ ha =>
    obtain ⟨replies, ht, -⟩ := ha.trace
    have hxs : s''.receive.trace = s.trace ++ (.received c :: replies.map .sent) := by
      change s''.trace = _
      simp [ht]
    exact hf.congr ha.status hxs (by simp)

theorem Reachable.failureStatus (h : (system host).Reachable L) :
    ∀ s ∈ L.everyone, s.Waiting host ∨ s.Failed host ∨ FailureStatus s := by
  refine Reachable.accepted FailureStatus h ?_ fun L s e s' gs _ _ hacc hp hm => hm.failureStatus hacc hp
  intro s hs
  rw [Session.Waiting] at hs
  rw [hs]
  simp [FailureStatus, Session.lastFailure, Session.create, Session.accept, Session.welcome, Session.setStatus,
    Session.send, Session.receive]

theorem ended_accepted (he : s.Ended) : ¬ s.Waiting host ∧ ¬ s.Failed host := by
  constructor
  · intro hw
    rw [Session.Waiting] at hw
    rw [hw] at he
    simp [Session.Ended, Session.create, Session.accept] at he
  · intro hf
    rw [Session.Failed] at hf
    rw [hf] at he
    simp [Session.Ended, Session.setStatus] at he

/-- Whenever the reaper runs next, it erases the session, and then the id of the session
is free. -/
def Released (host : Endian) (L : Lobby) (s : Session) : Prop :=
  ∀ es L', (system host).Steps (fun _ e => e ≠ .tick false) L es L' →
    (∀ x ∈ L'.reap.sessions, x.key ≠ s.key) ∧ (s.id ≠ [] → L'.reap.userScan s.id = none)

/-- A session that ended, with nothing outstanding: the next run of the reaper releases it
exactly when its last failure is that of a write. Otherwise it is never erased,
and whoever asks for its id is refused. -/
theorem released_iff (h : (system host).Reachable L) (hs : s ∈ L.sessions) (he : s.Ended) (hi : s.Idle) :
    (Released host L s ↔ s.lastFailure = some (.writeFailed true)) ∧
    (s.lastFailure ≠ some (.writeFailed true) →
      ∀ es L', (system host).Steps (fun _ _ => True) L es L' → s ∈ L'.sessions ∧ L'.userScan s.id ≠ none) := by
  have hst : FailureStatus s := by
    rcases Reachable.failureStatus h s (mem_everyone hs) with hw | hf | hst
    · exact absurd hw (ended_accepted he).1
    · exact absurd hf (ended_accepted he).2
    · exact hst
  refine ⟨⟨fun hr => ?_, fun hl => ?_⟩, fun hl => ?_⟩
  · by_contra hl
    have hmem : s ∈ L.reap.sessions := mem_reap.2 ⟨hs, fun hre => hl (hst.1 hre)⟩
    exact (hr [] L .nil).1 s hmem rfl
  · intro es L' hsteps
    have hreach := h.steps hsteps
    have hs' : s ∈ L'.sessions := steps_stay h hs hi (fun _ _ ho htick => absurd htick ho) hsteps
    have hgone : ∀ x ∈ L'.reap.sessions, x ≠ s := by
      rintro x hx rfl
      exact (mem_reap.1 hx).2 (hst.2 hl)
    constructor
    · intro x hx hk
      exact hgone x hx ((Reachable.wf hreach).keys.eq (mem_reap.1 hx).1 hs' hk)
    · intro hne
      rw [userScan_eq_none]
      intro x hx hid
      exact hgone x hx (Reachable.same_id hreach hs' (mem_reap.1 hx).1 hne hid)
  · intro es L' hsteps
    have hs' : s ∈ L'.sessions := steps_stay h hs hi (fun _ _ _ _ hre => hl (hst.1 hre)) hsteps
    refine ⟨hs', fun hnone => ?_⟩
    exact userScan_eq_none.1 hnone s hs' rfl

/-- The read of a client that logged in fails, and then the write of the reply. -/
theorem released_iff_write_last : ∃ L s, (system .little).Reachable L ∧ s ∈ L.sessions ∧ s.id = text "a" ∧
    Released .little L s := by
  have hexec : (system .little).exec (fun _ _ => True) (run .little)
      [.accept 0 false, .receiveMessage 0, .sendMessage 0, .transfer 0 false 8, .written 0 false,
        .read 0 (some (text "user a")), .receiveMessage 0, .sendMessage 0, .transfer 0 true 0, .read 0 none,
        .written 0 false] = some _ := rfl
  have hr : (system .little).Reachable _ := ⟨_, System.Steps.of_exec hexec⟩
  refine ⟨_, _, hr, List.mem_cons_self .., rfl, ?_⟩
  exact (released_iff hr (List.mem_cons_self ..) (.inl (by decide)) (by decide)).1.2 (by decide)

/-- A client logs in, gets its reply and disconnects. Its session stays, and the next client
cannot have the id. -/
theorem disconnected_not_released : ∃ L s L', (system .little).Reachable L ∧ s ∈ L.sessions ∧ s.Ended ∧ s.Idle ∧
    s.id = text "a" ∧ ¬ Released .little L s ∧
    (system .little).Steps (fun _ _ => True) L
      [.tick false, .accept 1 false, .receiveMessage 1, .read 1 (some (text "user a")), .tick false] L' ∧
    s ∈ L'.sessions ∧ (L'.get? 1).map (fun x => (x.id, x.trace.getLast?)) = some ([], some (.sent (text "ERROR\n"))) := by
  have hexec : (system .little).exec (fun _ _ => True) (run .little)
      [.accept 0 false, .receiveMessage 0, .sendMessage 0, .transfer 0 false 8, .written 0 false,
        .read 0 (some (text "user a")), .receiveMessage 0, .sendMessage 0, .transfer 0 false 5, .written 0 false,
        .read 0 none] = some _ := rfl
  refine ⟨_, _, _, ⟨_, System.Steps.of_exec hexec⟩, List.mem_cons_self .., .inl (by decide), by decide, rfl, ?_,
    System.Steps.of_exec rfl, by decide, by decide⟩
  intro hr
  exact (hr [] _ .nil).1 _ (by decide) rfl

/-! ## The accept -/

/-- The last session accepts and waits for its connection, no other session accepts, and
the reaper leaves the last one. -/
def Listening (L : Lobby) : Prop :=
  ∃ init back, L.sessions = init ++ [back] ∧ back.accepts = 1 ∧ back.status = .wait_for_connection ∧
    (∀ x ∈ init ++ L.erased, x.accepts = 0) ∧ back ∈ L.reap.sessions

/-- Whether a session accepts. -/
def Accepting (L : Lobby) : Prop := ∃ s ∈ L.sessions, s.accepts ≠ 0

theorem Reachable.accepts (h : (system host).Reachable L) :
    ∀ s ∈ L.everyone, s.accepts ≠ 0 → s.Waiting host := by
  intro s hs hne
  have hacc := Reachable.accepted (fun s => s.accepts = 0) h ?_ ?_ s hs
  · rcases hacc with hw | hf | h0
    · exact hw
    · rw [hf] at hne
      exact absurd rfl hne
    · exact absurd h0 hne
  · intro s hs
    rw [Session.Waiting] at hs
    rw [hs]
    rfl
  · intro L s e s' gs hr hs _ _ hm
    exact (Reachable.wf hr).moved_accepts hs hm

theorem Reachable.erased (h : (system host).Reachable L) : ∀ s ∈ L.erased, s.status = .reapable := by
  refine Reachable.change (fun L => ∀ s ∈ L.erased, s.status = .reapable) h ?_ ?_
  · rw [run_eq]
    rintro s ⟨⟩
  · intro L e L' _ hi hc
    cases hc with
    | moved | accepted | aborted => exact hi
    | reaped =>
      intro x hx
      rcases List.mem_append.1 hx with hx | hx
      · exact hi x hx
      · simpa using (List.mem_filter.1 hx).2

theorem listening_iff (h : (system host).Reachable L) : L.Listening ↔ L.Accepting := by
  constructor
  · rintro ⟨init, back, hs, ha, -⟩
    exact ⟨back, by simp [hs], by omega⟩
  · rintro ⟨s, hs, hne⟩
    have hw := Reachable.wf h
    obtain ⟨hwait, hlast⟩ := hw.accepting s hs hne
    obtain ⟨init, hinit⟩ := List.getLast?_eq_some_iff.1 hlast
    have hst : s.status = .wait_for_connection := hwait.status
    refine ⟨init, s, hinit, hwait.accepts, hst, ?_, mem_reap.2 ⟨hs, by simp [hst]⟩⟩
    intro x hx
    by_contra hx0
    rcases List.mem_append.1 hx with hx | hx
    · -- Another one that accepts is the last one, too.
      have hx' : x ∈ L.sessions := by simp [hinit, hx]
      have hxs := (hw.accepting x hx' hx0).2
      rw [hlast, Option.some.injEq] at hxs
      have hd := hw.keys
      rw [hinit, Keyed.Distinct, List.map_append, List.nodup_append] at hd
      exact hd.2.2 _ (List.mem_map_of_mem hx) s.key (by simp) (by rw [hxs])
    · have hxw := Reachable.accepts h x (List.mem_append_right _ hx) hx0
      have hre := Reachable.erased h x hx
      rw [hxw.status] at hre
      cases hre

/-- A step keeps the accept going, but for one that fails. -/
theorem Change.accepting (hw : L.Wf) (h : Change L e L') : L'.Accepting ↔ L.Accepting ∧ ∀ k, e ≠ .accept k true := by
  cases h with
  | @moved s s' _ gs hs hm =>
    have hiff : (∃ x ∈ (L.answered s' gs).sessions, x.accepts ≠ 0) ↔ ∃ x ∈ L.sessions, x.key ≠ s.key ∧ x.accepts ≠ 0 := by
      constructor
      · rintro ⟨x, hx, hne⟩
        rcases mem_moved hm.key hx with rfl | ⟨hx, hk⟩
        · exact absurd (hw.moved_accepts hs hm) hne
        · exact ⟨x, hx, hk, hne⟩
      · rintro ⟨x, hx, hk, hne⟩
        exact ⟨x, Keyed.mem_update.2 (.inr ⟨hx, hm.key.symm ▸ hk⟩), hne⟩
    apply hiff.trans
    rcases hm.accepts with ⟨he, hwait, -⟩ | ⟨he, hacc⟩
    · -- The session that accepts is `s` itself.
      constructor
      · rintro ⟨x, hx, hk, hne⟩
        have hsne : s.accepts ≠ 0 := by
          rw [hwait.accepts]
          decide
        have hsx := (hw.accepting x hx hne).2.symm.trans (hw.accepting s hs hsne).2
        exact absurd (congrArg Session.key (Option.some.inj hsx)) hk
      · rintro ⟨-, hne⟩
        exact absurd he (hne _)
    · constructor
      · rintro ⟨x, hx, -, hne⟩
        exact ⟨⟨x, hx, hne⟩, he⟩
      · rintro ⟨⟨x, hx, hne⟩, -⟩
        refine ⟨x, hx, fun hk => ?_, hne⟩
        obtain rfl := hw.keys.eq hx hs hk
        exact hne (hacc.symm.trans (hw.moved_accepts hs hm))
  | @accepted init s hs hwait =>
    constructor
    · intro _
      refine ⟨⟨s, by simp [hs], ?_⟩, by rintro _ ⟨⟩⟩
      rw [hwait.accepts]
      decide
    · intro _
      exact ⟨(Session.create L.host L.nextKey).accept, by simp, by simp [Session.accept]⟩
  | reaped =>
    constructor
    · rintro ⟨x, hx, hne⟩
      exact ⟨⟨x, (mem_reap.1 hx).1, hne⟩, by rintro _ ⟨⟩⟩
    · rintro ⟨⟨x, hx, hne⟩, -⟩
      refine ⟨x, mem_reap.2 ⟨hx, ?_⟩, hne⟩
      rw [(hw.accepting x hx hne).1.status]
      decide
  | aborted => exact ⟨fun ha => ⟨ha, by rintro _ ⟨⟩⟩, fun ha => ha.1⟩

/-- In every run the lobby is listening at the end exactly when no accept failed in it. -/
theorem keeps_listening (h : (system host).Run es L) : L.Listening ↔ ∀ k, .accept k true ∉ es := by
  rw [listening_iff h.reachable]
  refine h.inv_hist (fun es L => L.Accepting ↔ ∀ k, .accept k true ∉ es) ?_ ?_
  · constructor
    · simp
    · intro _
      change (run host).Accepting
      rw [run_eq]
      exact ⟨_, List.mem_singleton_self _, by simp [Session.accept]⟩
  · intro es L e L' hrun hi _ hs
    have hw := Reachable.wf ⟨es, hrun⟩
    rw [(step_change hw hs).accepting hw, hi, ← forall_and]
    apply forall_congr'
    intro k
    rw [List.mem_append, List.mem_singleton, not_or]
    exact and_congr_right fun _ => ne_comm

/-- Two clients come, the first one disconnects, and the reaper runs. -/
theorem keeps_listening_two : ∃ L, (system .little).Run
    [.accept 0 false, .accept 1 false, .receiveMessage 0, .read 0 none, .tick false] L ∧ L.Listening := by
  have hexec : (system .little).exec (fun _ _ => True) (run .little)
      [.accept 0 false, .accept 1 false, .receiveMessage 0, .read 0 none, .tick false] = some _ := rfl
  have hr : (system .little).Run _ _ := System.Steps.of_exec hexec
  exact ⟨_, hr, (keeps_listening hr).2 (by simp)⟩

/-- The first accept fails. Nobody accepts any more, and the reaper empties the list. -/
theorem failed_accept_not_listening : ∃ L L', (system .little).Run [.accept 0 true] L ∧ ¬ L.Listening ∧
    (system .little).Run [.accept 0 true, .tick false] L' ∧ L'.sessions = [] ∧ ¬ L'.Listening := by
  have hexec : (system .little).exec (fun _ _ => True) (run .little) [.accept 0 true] = some _ := rfl
  have hexec' : (system .little).exec (fun _ _ => True) (run .little) [.accept 0 true, .tick false] = some _ := rfl
  refine ⟨_, _, System.Steps.of_exec hexec, ?_, System.Steps.of_exec hexec', by decide, ?_⟩
  · rintro ⟨init, back, hs, ha, -⟩
    have hall : ∀ x ∈ init ++ [back], x.accepts = 0 := by
      rw [← hs]
      decide
    rw [hall back (by simp)] at ha
    cases ha
  · rintro ⟨init, back, hs, -⟩
    exact absurd (show [] = init ++ [back] from hs) (by simp)

end Lobby
end Zar
