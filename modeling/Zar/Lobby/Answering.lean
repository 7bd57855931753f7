import Mathlib.Algebra.GroupWithZero.Nat
import Mathlib.Algebra.Order.BigOperators.Group.List
import Mathlib.Algebra.Order.Group.Nat
import Zar.Lobby.Server
/-!
# What the server makes of the streams

Of every connection the bytes that arrive and the bytes that are written. Whatever clients
send, and however the steps of the server interleave: the commands that `Reference` answers
are the lines at the front of what arrived, and its replies are what is written. When the
server is at rest, every line was answered.
-/

namespace Zar

/-- What a member asked. -/
def commandsOf (log : List (Nat × Bytes × Option Bytes)) (k : Nat) : List Bytes := (log.filter (·.1 = k)).map (·.2.1)

/-- What a member was told. -/
def repliesOf (log : List (Nat × Bytes × Option Bytes)) (k : Nat) : List Bytes := (log.filter (·.1 = k)).filterMap (·.2.2)

theorem dialogue_heard (log : List (Nat × Bytes × Option Bytes)) (k : Nat) :
    (dialogue log k).filterMap Io.heard = commandsOf log k := by
  unfold dialogue commandsOf
  induction log.filter (·.1 = k) with
  | nil => rfl
  | cons x xs ih =>
    rw [List.flatMap_cons, List.filterMap_append, ih]
    simp [Io.heard, List.filterMap_map, Function.comp_def]

theorem dialogue_data (log : List (Nat × Bytes × Option Bytes)) (k : Nat) :
    (dialogue log k).filterMap Io.data = repliesOf log k := by
  unfold dialogue repliesOf
  induction log.filter (·.1 = k) with
  | nil => rfl
  | cons x xs ih =>
    rw [List.flatMap_cons, List.filterMap_append, ih]
    obtain ⟨j, c, reply | reply⟩ := x <;> rfl

/-- Commands and replies are talk. -/
theorem filterMap_talk {f : Io → Option Bytes} (hf : ∀ x : Io, x.talk = false → f x = none) (trace : List Io) :
    (trace.filter Io.talk).filterMap f = trace.filterMap f := by
  induction trace with
  | nil => rfl
  | cons x xs ih =>
    cases hx : x.talk with
    | true => simp [hx, List.filterMap_cons, ih]
    | false => simp [hx, hf x hx, ih]

theorem talk_heard {x : Io} (h : x.talk = false) : x.heard = none := by
  cases x <;> first | rfl | cases h

theorem talk_data {x : Io} (h : x.talk = false) : x.data = none := by
  cases x <;> first | rfl | cases h

theorem greeting_heard (trace : List Io) : (greeting trace).filterMap Io.heard = [] := by
  unfold greeting
  split <;> rfl

theorem greeting_data (trace : List Io) :
    (greeting trace).filterMap Io.data = if .accepted false ∈ trace then [text "Zard\n1"] else [] := by
  unfold greeting
  split <;> rfl

namespace Receiver

variable {r : Receiver} {host : Endian} {T : Thrown → Prop} {F : Prop} {frames : List Bytes} {rest : Bytes}
  {calls : List Call}

theorem contents_calls (hd : frames.mapM (Protocol.telnet.call host) = some calls) :
    (calls.filterMap fun call => call.message.map (·.contents)) =
      frames.map fun frame => substr frame 0 (sizeSub frame.length 2) := by
  rw [calls_total (call_telnet host) hd, List.filterMap_map]
  exact congrFun List.filterMap_eq_map frames

/-- What the handler was called with are the first lines of what arrived. -/
theorem Follows.telnet (h : Follows (fun _ => .telnet) T F host r frames rest calls) :
    r.contents = frames.map (fun frame => substr frame 0 (sizeSub frame.length 2)) ∧
      r.contents <+: telnetContents r.arrived := by
  have hc : r.contents = frames.map fun frame => substr frame 0 (sizeSub frame.length 2) := by
    rw [← contents_calls h.mapM]
    unfold contents
    cases h.stage with
    | reading _ hcalls | malformed _ _ _ hcalls | threw _ _ hcalls => rw [hcalls]
    | failed _ _ hcalls => simp [hcalls]
  refine ⟨hc, ?_⟩
  have hreads : (Protocol.telnet.format .little).Reads r.arrived frames rest := Format.readsFrom_const.1 h.reads
  unfold Format.Reads at hreads
  rw [hc, telnetContents, hreads, List.map_append]
  exact List.prefix_append _ _

/-- At rest they are all of them. -/
theorem Undisturbed.telnet (h : Undisturbed host .telnet r) {strand : Bool}
    (hrest : (system host .telnet strand).Rest Internal r) : r.contents = telnetContents r.arrived := by
  obtain ⟨frames, rest, hd, hend⟩ := h.framed.at_rest hrest
  have hnone : (Protocol.telnet.format host).next rest = none := by
    rcases hend with ⟨hnone, -⟩ | ⟨frame, -, -, hbad⟩
    · exact hnone
    · rw [call_telnet] at hbad
      cases hbad
  have hparse : (Protocol.telnet.format .little).parse r.arrived = (frames, rest) := hd.reads.rest hnone
  rw [telnetContents, hparse]
  exact contents_calls hd.calls

end Receiver

namespace Server

variable {S S' : Server} {L L' : Lobby} {s s' : Session} {r r' : Receiver} {e : Event} {es : List Event} {gs : List Game}
  {host : Endian}

theorem Paired.telnet (h : Paired host s r) : s.trace.filterMap Io.heard <+: telnetContents r.arrived := by
  rw [h.heard]
  cases h.listens with
  | idle _ bytes hr =>
    rw [hr]
    exact List.nil_prefix
  | follows _ hf => exact hf.telnet.2

/-! ## At rest -/

/-- What the server does by itself: nothing new arrives, nobody connects, and no operation fails. -/
def Internal (_ : Server) : Event → Prop
  | .lobby (.sendMessage _) | .lobby (.transfer _ false _) | .lobby (.written _ false) => True
  | .receiveMessage _ | .readSome _ _ _ | .complete _ _ => True
  | _ => False

/-- While something is outstanding, the receiver goes on. -/
theorem Paired.undisturbed (h : Paired host s r) (hout : 0 < s.posted ∨ 0 < s.reads) :
    Receiver.Undisturbed host .telnet r := by
  have hp := h.posted
  have hr := h.reads
  cases h.listens with
  | idle _ bytes hidle =>
    have h0 : r.posted = 0 := by rw [hidle]
    have h1 : r.reads.length = 0 := by rw [hidle]; rfl
    omega
  | @follows _ frames rest calls hf =>
    have hstop : ¬ (r.posted = 0 ∧ r.reads = []) := by
      rintro ⟨h0, h1⟩
      rw [h1, List.length_nil] at hr
      omega
    refine ⟨frames, rest, calls, hf.toHeard, ?_⟩
    cases hf.stage with
    | reading hp hcalls hc hph => exact .reading hp hcalls hc hph
    | malformed _ hpost hreads | threw hpost hreads | failed hpost hreads => exact absurd ⟨hpost, hreads⟩ hstop

/-- The only read of a telnet receiver, and its message when it is complete. -/
theorem complete_message (h : Receiver.Undisturbed host .telnet r) {i : Nat} (hs : r.step (.complete i {}) = some r') :
    ∃ m, r.message (.complete i {}) = some m := by
  obtain ⟨frames, rest, calls, hf⟩ := h
  cases Receiver.step_cases hs with
  | @complete i n read react hi hn =>
    cases hf.stage with
    | malformed _ _ hreads | threw _ hreads | failed _ hreads => simp [hreads] at hi
    | reading hp _ _ hph =>
      cases hph with
      | posted _ hreads => simp [hreads] at hi
      | length hb | payload hb => cases hb
      | terminator _ _ hreads =>
        rw [hreads] at hi
        obtain ⟨rfl, rfl⟩ := Receiver.single_read hi
        simp [Receiver.message, hreads, hn, Message.decode, show r.protocol = .telnet from hp, Except.toOption]

/-- With nothing left for the server, there is nothing left for the receiver of a session. -/
theorem Agrees.rest (h : Agrees host S) (hr : (Lobby.system host).Reachable S.lobby)
    (hrest : (system host).Rest Internal S) (hs : s ∈ S.lobby.sessions) (hu : Receiver.Undisturbed host .telnet (S.receiver s.key)) :
    (Receiver.system host .telnet true).Rest Receiver.Internal (S.receiver s.key) := by
  have hw := Lobby.Reachable.wf hr
  have hg := Lobby.get?_eq hw.keys hs
  have hp := h.paired s (Lobby.mem_everyone hs)
  intro e ho
  cases hstep : (Receiver.system host .telnet true).step (S.receiver s.key) e with
  | none => rfl
  | some r =>
    exfalso
    have hstep' : (S.receiver s.key).step e = some r := hstep
    cases e with
    | receiveMessage =>
      have hn := hrest (.receiveMessage s.key) trivial
      cases Receiver.step_cases hstep' with
      | receiveMessage hpost =>
        have hposted : 0 < s.posted := by rw [hp.posted]; exact hpost
        simp [system, Server.step, hstep', Lobby.step, hg, hposted] at hn
    | readSome i n =>
      have hn := hrest (.readSome s.key i n) trivial
      simp [system, Server.step, Server.moves, hg, hstep'] at hn
    | complete i react =>
      obtain rfl : react = {} := ho
      have hn := hrest (.complete s.key i) trivial
      obtain ⟨m, hm⟩ := complete_message hu hstep'
      have hreads : 0 < s.reads := by
        rw [hp.reads]
        cases Receiver.step_cases hstep' with
        | complete _ hi => exact List.length_pos_of_mem (List.mem_of_getElem? hi)
      have hthrown := thrown_none hw (Lobby.Reachable.rooms hr) hs hreads (some m.contents)
      simp only [system, Server.step, hm, Server.handles, hg, hthrown, hstep'] at hn
      simp [Lobby.step, hg, hreads] at hn
    | arrive | receive | fail | setProtocol => exact ho.elim

/-- The sender of a session has nothing left. -/
theorem rest_sender (hw : S.lobby.Wf) (hrest : (system host).Rest Internal S) (hs : s ∈ S.lobby.sessions) :
    s.sender.writes = [] ∧ s.sender.posted = [] := by
  have hg := Lobby.get?_eq hw.keys hs
  constructor
  · cases hwrites : s.sender.writes with
    | nil => rfl
    | cons w ws =>
      cases w with
      | running n =>
        have hn := hrest (.lobby (.transfer s.key false n)) trivial
        simp [system, Server.step, Lobby.Event.reads, Lobby.step, hg, Sender.step, hwrites] at hn
      | completed error n =>
        have hn := hrest (.lobby (.written s.key false)) trivial
        simp [system, Server.step, Lobby.Event.reads, Lobby.step, hg, hwrites] at hn
  · cases hp : s.sender.posted with
    | nil => rfl
    | cons m ms =>
      have hn := hrest (.lobby (.sendMessage s.key)) trivial
      simp [system, Server.step, Lobby.Event.reads, Lobby.step, hg, Sender.step, hp] at hn

/-- Where no session has anything to write, and every read waits for bytes, the server is at rest. -/
theorem rest_of_waiting (h : ∀ s ∈ S.lobby.sessions, s.sender.writes = [] ∧ s.sender.posted = [] ∧ s.posted = 0 ∧
    (S.receiver s.key).unread = [] ∧ ∀ read ∈ (S.receiver s.key).reads, read.complete (S.receiver s.key).inputBuffer = none) :
    (system host).Rest Internal S := by
  intro e ho
  cases e with
  | lobby e =>
    have hstep : ∀ k s, S.lobby.get? k = some s → s.sender.writes = [] ∧ s.sender.posted = [] := by
      intro k s hg
      exact ⟨(h s (Lobby.get?_mem hg).1).1, (h s (Lobby.get?_mem hg).1).2.1⟩
    cases e with
    | sendMessage k =>
      cases hg : S.lobby.get? k with
      | none => simp [system, Server.step, Lobby.step, hg, Lobby.Event.reads]
      | some s => simp [system, Server.step, Lobby.step, hg, Lobby.Event.reads, Sender.step, (hstep k s hg).2]
    | transfer k error n =>
      cases hg : S.lobby.get? k with
      | none => simp [system, Server.step, Lobby.step, hg, Lobby.Event.reads]
      | some s => simp [system, Server.step, Lobby.step, hg, Lobby.Event.reads, Sender.step, (hstep k s hg).1]
    | written k throws =>
      cases hg : S.lobby.get? k with
      | none => simp [system, Server.step, Lobby.step, hg, Lobby.Event.reads]
      | some s => simp [system, Server.step, Lobby.step, hg, Lobby.Event.reads, (hstep k s hg).1]
    | accept | receiveMessage | read | tick => exact ho.elim
  | receiveMessage k =>
    cases hg : S.lobby.get? k with
    | none => simp [system, Server.step, Lobby.step, hg]
    | some s => simp [system, Server.step, Lobby.step, hg, (h s (Lobby.get?_mem hg).1).2.2.1]
  | readSome k i n =>
    cases hg : S.lobby.get? k with
    | none => simp [system, Server.step, Server.moves, hg]
    | some s =>
      obtain ⟨hmem, rfl⟩ := Lobby.get?_mem hg
      have hunread := (h s hmem).2.2.2.1
      cases hread : (S.receiver s.key).reads[i]? with
      | none => simp [system, Server.step, Server.moves, hg, Receiver.step, hread]
      | some read =>
        have hwants : read.wants (S.receiver s.key).inputBuffer [] = 0 := by cases read <;> simp [Read.wants]
        simp only [system, Server.step, Server.moves, hg, Receiver.step, hread, hunread, hwants]
        rw [if_neg (by omega)]
        rfl
  | complete k i =>
    cases hm : (S.receiver k).message (.complete i {}) with
    | none => simp [system, Server.step, hm]
    | some m =>
      cases hg : S.lobby.get? k with
      | none => simp [system, Server.step, hm, Server.handles, hg]
      | some s =>
        obtain ⟨hmem, rfl⟩ := Lobby.get?_mem hg
        cases hread : (S.receiver s.key).reads[i]? with
        | none => simp [Receiver.message, hread] at hm
        | some read =>
          have hnone := (h s hmem).2.2.2.2 read (List.mem_of_getElem? hread)
          simp [system, Server.step, hm, Server.handles, hg, Receiver.step, hread, hnone]
  | arrive | fail => exact ho.elim

/-- An accepted session that did not end heard all that arrived. -/
theorem Agrees.heard_all (h : Agrees host S) (hr : (Lobby.system host).Reachable S.lobby)
    (hrest : (system host).Rest Internal S) (hs : s ∈ S.lobby.sessions) (hacc : .accepted false ∈ s.trace)
    (hfail : .readFailed ∉ s.trace) :
    s.trace.filterMap Io.heard = telnetContents (S.receiver s.key).arrived := by
  have hp := h.paired s (Lobby.mem_everyone hs)
  have hu : Receiver.Undisturbed host .telnet (S.receiver s.key) := by
    cases hp.listens with
    | idle hn => exact absurd hacc hn
    | follows _ hf => exact ⟨_, _, _, hf.mono fun hmem => hfail hmem⟩
  rw [hp.heard]
  exact hu.telnet (h.rest hr hrest hs hu)

/-! ## The server comes to rest -/

/-- What a session has left to do: every line that is read takes a reply. -/
def weight (r : Receiver) (s : Session) : Nat := 6 * r.work + s.sender.work

/-- What is left to do for the server. -/
def work (S : Server) : Nat := (S.lobby.sessions.map fun s => weight (S.receiver s.key) s).sum

/-- Less is left where a session has less left. -/
theorem work_lt (hw : S.lobby.Wf) (hs : s ∈ S.lobby.sessions) (hk : s'.key = s.key)
    (hlt : weight r s' < weight (S.receiver s.key) s) (gs : List Game) (caught : List Thrown) :
    ({ S.setReceiver s.key r with lobby := { S.lobby.answered s' gs with caught := caught } } : Server).work < S.work := by
  have hmap : ((S.lobby.answered s' gs).sessions.map fun x => weight ((S.setReceiver s.key r).receiver x.key) x) =
      S.lobby.sessions.map fun x => if x.key = s.key then weight r s' else weight (S.receiver x.key) x := by
    change (S.lobby.sessions.map _).map _ = _
    rw [List.map_map]
    apply List.map_congr_left
    intro x _
    by_cases hx : x.key = s.key
    · simp [hx, hk]
    · simp [hx, hk, setReceiver_other S r hx]
  unfold work
  change ((S.lobby.answered s' gs).sessions.map _).sum < _
  rw [hmap]
  apply List.sum_lt_sum
  · intro x hx
    split
    · rename_i he
      obtain rfl := hw.keys.eq hx hs he
      exact Nat.le_of_lt hlt
    · exact Nat.le_refl _
  · exact ⟨s, hs, by rw [if_pos rfl]; exact hlt⟩

theorem answer_work {c : Bytes} (h : Lobby.Answer L s c s' gs) : s'.sender.work ≤ s.sender.work + 5 := by
  have hsend : ∀ (x : Session) (data : Bytes), (x.send data).sender.work ≤ x.sender.work + 5 := by
    intro x data
    change (x.sender.request (.action data)).1.work ≤ _
    unfold Sender.request Sender.strandExecute
    dsimp only
    split
    · simp only [Sender.work, List.length_append, List.length_singleton]
      omega
    · exact Nat.le_trans (Sender.sendMessage_work _ _) (Nat.add_le_add_left (by decide) _)
  cases h with
  | nothing => exact Nat.le_add_right _ _
  | reply _ data => exact hsend s data
  | login _ _ id => exact hsend ((s.setId id).setMode .lobby) _
  | create _ _ id => exact hsend (s.setMode .creating_game) _

/-- A step of the sender leaves less to do. -/
theorem sender_lt (h : Lobby.Writes host s) {e : Sender.Event} (ho : Sender.Silent e)
    (hs : s.sender.step e = some s'.sender) : weight r s' < weight r s := by
  obtain ⟨es, hrun, -⟩ := h
  have hlt := Sender.Lone.work_lt (Sender.reachable_lone hrun.run.reachable) ho hs
  unfold weight
  omega

/-- What is left to do without the receivers. -/
theorem moved_weight {e : Lobby.Event} (hm : Lobby.Moved L s e s' gs) (hwrites : Lobby.Writes host s)
    (ho : e.reads = false) (ha : ∀ error, e ≠ .accept s.key error) : weight r s' < weight r s := by
  cases hm with
  | acceptFailed => exact absurd rfl (ha true)
  | sendMessage h => exact sender_lt hwrites (e := .sendMessage) trivial h
  | @transfer _ error n h => exact sender_lt hwrites (e := .transfer error n) trivial h
  | wrote hw => exact sender_lt hwrites (e := .handler {}) rfl (Lobby.written_step hw).1
  | closed hw => exact sender_lt hwrites (e := .handler {}) rfl (Lobby.written_step hw).1
  | threw hw => exact sender_lt hwrites (e := .handler { throws := some .system_error }) rfl ((Lobby.written_step hw).2 .system_error)
  | receiveMessage | readFailed | command => cases ho

theorem Agrees.internal_lt (h : Agrees host S) (hr : (Lobby.system host).Reachable S.lobby) (ho : Internal S e)
    (hs : S.step e = some S') : S'.work < S.work := by
  have hw := Lobby.Reachable.wf hr
  cases e with
  | lobby e =>
    simp only [Server.step] at hs
    split at hs
    · cases hs
    · rename_i he
      obtain ⟨L, hL, rfl⟩ := Option.map_eq_some_iff.1 hs
      cases Lobby.step_change hw hL with
      | @moved s s' _ gs hmem hm caught =>
        rw [received_moved hm]
        have hself : S.setReceiver s.key (S.receiver s.key) = S := by
          unfold setReceiver
          rw [Function.update_eq_self]
        have hlt := work_lt hw hmem hm.key (moved_weight (r := S.receiver s.key) hm
          (Lobby.Reachable.writes hr s (Lobby.mem_everyone hmem)) (by simpa using he) (by rintro error rfl; exact ho.elim)) gs caught
        rwa [hself] at hlt
      | accepted | reaped | aborted => exact ho.elim
  | readSome k i n =>
    simp only [Server.step, Server.moves] at hs
    split at hs
    · cases hs
    · rename_i s hg
      obtain ⟨hmem, rfl⟩ := Lobby.get?_mem hg
      obtain ⟨r, hstep, rfl⟩ := Option.map_eq_some_iff.1 hs
      have hp := h.paired s (Lobby.mem_everyone hmem)
      have hreads : 0 < s.reads := by
        rw [hp.reads]
        cases Receiver.step_cases hstep with
        | readSome hi => exact List.length_pos_of_mem (List.mem_of_getElem? hi)
      have hlt := (hp.undisturbed (.inr hreads)).framed.work_lt (.inr (.inl rfl)) (e := .readSome i n) trivial hstep
      have hless : weight r s < weight (S.receiver s.key) s := by
        unfold weight
        omega
      have hwork := work_lt hw hmem rfl hless S.lobby.games S.lobby.caught
      rwa [Lobby.answered_self hw.keys hmem] at hwork
  | receiveMessage k =>
    simp only [Server.step] at hs
    split at hs
    · rename_i r L hstep hlobby
      cases hs
      cases Lobby.step_change hw hlobby with
      | @moved s s' _ gs hmem hm caught =>
        have hp := h.paired s (Lobby.mem_everyone hmem)
        have hkey := hm.key
        cases hm with
        | receiveMessage hposted =>
          have hlt := (hp.undisturbed (.inl hposted)).framed.work_lt (.inr (.inl rfl)) (e := .receiveMessage) trivial hstep
          exact work_lt hw hmem hkey (by unfold weight; dsimp only; omega) S.lobby.games caught
    · cases hs
  | complete k i =>
    simp only [Server.step] at hs
    split at hs
    · cases hs
    · rename_i m hm
      unfold Server.handles at hs
      split at hs
      · cases hs
      · rename_i s hg
        obtain ⟨hmem, rfl⟩ := Lobby.get?_mem hg
        split at hs
        · rename_i r L hstep hlobby
          cases hs
          have hp := h.paired s (Lobby.mem_everyone hmem)
          cases Lobby.step_change hw hlobby with
          | @moved x x' _ gs hx hmoved caught =>
            have hk : x.key = s.key := by simpa [Lobby.Event.about] using hmoved.about.symm
            obtain rfl := hw.keys.eq hx hmem hk
            have hkey := hmoved.key
            cases hmoved with
            | command hreads ha =>
              rw [thrown_none hw (Lobby.Reachable.rooms hr) hmem hreads] at hstep
              have hlt := (hp.undisturbed (.inr hreads)).framed.work_lt (.inr (.inl rfl)) (e := .complete i {}) rfl hstep
              have hle := answer_work ha
              refine work_lt hw hmem hkey ?_ gs caught
              change _ ≤ x.sender.work + 5 at hle
              change 6 * r.work + _ < 6 * (S.receiver x.key).work + x.sender.work
              exact Nat.lt_of_le_of_lt (Nat.add_le_add_left hle _) (by omega)
        · cases hs
  | arrive | fail => exact ho.elim

/-! ## The main results -/

/-- The reference beside the server, and what of it the traces of the sessions tell. -/
theorem Reachable.reference (h : (Lobby.system host).Reachable L) :
    ∃ ds R, Reference.system.Run ds R ∧ R.roster = L.roster ∧ (∀ x ∈ R.log, ∃ s ∈ L.everyone, s.key = x.1) ∧
      ∀ s ∈ L.everyone, s.trace.filterMap Io.heard = commandsOf R.log s.key ∧
        s.trace.filterMap Io.data =
          (if .accepted false ∈ s.trace then [text "Zard\n1"] else []) ++ repliesOf R.log s.key := by
  obtain ⟨es, hrun⟩ := h
  obtain ⟨ds, R, hR, hb⟩ := Lobby.Run.beside hrun
  refine ⟨ds, R, hR, hb.roster, ?_, fun s hs => ⟨?_, ?_⟩⟩
  · intro x hx
    refine Lobby.Run.commander hrun (x.1, x.2.1) ?_
    rw [← hb.commands]
    exact List.mem_map_of_mem hx
  · rw [← filterMap_talk (fun _ => talk_heard), hb.talks s hs, List.append_nil, List.filterMap_append, greeting_heard,
      dialogue_heard]
    rfl
  · rw [← filterMap_talk (fun _ => talk_data), hb.talks s hs, List.append_nil, List.filterMap_append, greeting_data,
      dialogue_data]

/-- A client logs in and asks for help, in two pieces. -/
def helping : List Event :=
  [.lobby (.accept 0 false), .receiveMessage 0, .arrive 0 (text "user a\r\nhe"), .readSome 0 0 10, .complete 0 0,
    .lobby (.sendMessage 0), .lobby (.sendMessage 0), .arrive 0 (text "lp\r\n"), .receiveMessage 0, .readSome 0 0 4,
    .complete 0 0, .receiveMessage 0, .lobby (.sendMessage 0), .lobby (.transfer 0 false 8), .lobby (.written 0 false),
    .lobby (.transfer 0 false 5), .lobby (.written 0 false), .lobby (.transfer 0 false 24), .lobby (.written 0 false)]

/-- In every reachable state the server is a reference, to which each session, also one that is
gone, gave the lines at the front of what arrived as commands. What is written to it is the
greeting and the replies of the reference, as far as it gets. -/
theorem answers_streams (h : (system host).Reachable S) :
    ∃ ds R, Reference.system.Run ds R ∧ R.roster = S.lobby.roster ∧ ∀ s ∈ S.lobby.everyone,
      commandsOf R.log s.key <+: telnetContents (S.receiver s.key).arrived ∧
      s.sender.stream <+: telnetLines (text "Zard\n1" :: repliesOf R.log s.key) := by
  obtain ⟨hr, ha⟩ := Reachable.agrees h
  obtain ⟨ds, R, hR, hroster, -, htold⟩ := Reachable.reference hr
  refine ⟨ds, R, hR, hroster, fun s hs => ?_⟩
  obtain ⟨hheard, hdata⟩ := htold s hs
  refine ⟨hheard ▸ (ha.paired s hs).telnet, ?_⟩
  have hstream := Lobby.Reachable.stream hr hs
  rw [hdata] at hstream
  split at hstream
  · exact hstream
  · rename_i hacc
    -- Nobody speaks before the accept.
    have hnone : repliesOf R.log s.key = [] := by
      have hheard' : commandsOf R.log s.key = [] := by
        rw [← hheard, (ha.paired s hs).heard]
        cases (ha.paired s hs).listens with
        | idle _ bytes hidle => rw [hidle]; rfl
        | follows hmem => exact absurd hmem hacc
      have hfilter : R.log.filter (·.1 = s.key) = [] := List.map_eq_nil_iff.1 hheard'
      rw [repliesOf, hfilter]
      rfl
    rw [hnone] at hstream
    rw [List.prefix_nil.1 hstream]
    exact List.nil_prefix

theorem answers_streams_help : ∃ S, (system .little).Run helping S ∧
    ∃ ds R, Reference.system.Run ds R ∧ R.roster = S.lobby.roster ∧ ∃ s ∈ S.lobby.everyone,
      commandsOf R.log s.key <+: telnetContents (S.receiver s.key).arrived ∧
      s.sender.stream <+: telnetLines (text "Zard\n1" :: repliesOf R.log s.key) ∧
      telnetContents (S.receiver s.key).arrived = [text "user a", text "help"] := by
  obtain ⟨S, hrun, s, hs, harrived⟩ := System.Run.exists_of_exec (system .little) helping
    (fun S => ∃ s ∈ S.lobby.everyone, telnetContents (S.receiver s.key).arrived = [text "user a", text "help"])
    (by decide +kernel)
  obtain ⟨ds, R, hR, hroster, hall⟩ := answers_streams (System.Run.reachable hrun)
  obtain ⟨hcommands, hstream⟩ := hall s hs
  exact ⟨S, hrun, ds, R, hR, hroster, s, hs, hcommands, hstream, harrived⟩

/-- From every reachable state the server comes to rest: its own steps are no more than it has
left to do. At rest every line that arrived on a connection that did not fail was answered, and
the greeting and all the replies are written. -/
theorem answers_everything (h : (system host).Reachable S) :
    (∀ es S', (system host).Steps Internal S es S' → es.length ≤ S.work) ∧
    (∃ es S', (system host).Steps Internal S es S' ∧ (system host).Rest Internal S') ∧
    ((system host).Rest Internal S → ∃ ds R, Reference.system.Run ds R ∧ R.roster = S.lobby.roster ∧
      ∀ s ∈ S.lobby.sessions, .accepted false ∈ s.trace → ¬ s.Ended →
        commandsOf R.log s.key = telnetContents (S.receiver s.key).arrived ∧
        s.sender.stream = telnetLines (text "Zard\n1" :: repliesOf R.log s.key)) := by
  have hlt : ∀ S e S', (system host).Reachable S → Internal S e → (system host).step S e = some S' →
      (system host).Reachable S' ∧ S'.work < S.work := by
    intro S e S' hS ho hs
    obtain ⟨hr, ha⟩ := Reachable.agrees hS
    exact ⟨hS.step hs, ha.internal_lt hr ho hs⟩
  refine ⟨?_, System.exists_rest work _ hlt h, ?_⟩
  · intro es S' hs
    have hle := hs.length_le work _ h hlt
    omega
  · intro hrest
    obtain ⟨hr, ha⟩ := Reachable.agrees h
    obtain ⟨ds, R, hR, hroster, -, htold⟩ := Reachable.reference hr
    refine ⟨ds, R, hR, hroster, fun s hs hacc hend => ?_⟩
    have hmem := Lobby.mem_everyone hs
    obtain ⟨hheard, hdata⟩ := htold s hmem
    obtain ⟨hfail, hunfailed⟩ := not_or.1 hend
    constructor
    · rw [← hheard]
      exact ha.heard_all hr hrest hs hacc hfail
    · obtain ⟨hwrites, hposted⟩ := rest_sender (Lobby.Reachable.wf hr) hrest hs
      rw [Lobby.Reachable.written hr hmem (not_exists.1 hunfailed) hwrites hposted, hdata, if_pos hacc]
      rfl

theorem answers_everything_help : ∃ S, (system .little).Run helping S ∧ (system .little).Rest Internal S ∧
    ∃ ds R, Reference.system.Run ds R ∧ R.roster = S.lobby.roster ∧
      ∃ s ∈ S.lobby.sessions, commandsOf R.log s.key = telnetContents (S.receiver s.key).arrived ∧
        s.sender.stream = telnetLines (text "Zard\n1" :: repliesOf R.log s.key) ∧
        s.sender.stream = text "Zard\n1\r\nOK\n\r\nOK\nNo help available.\n\r\n" := by
  obtain ⟨S, hrun, hwaiting, s, hs, hacc, hfail, hunfailed, hstream⟩ :=
    System.Run.exists_of_exec (system .little) helping
      (fun S => (∀ s ∈ S.lobby.sessions, s.sender.writes = [] ∧ s.sender.posted = [] ∧ s.posted = 0 ∧
          (S.receiver s.key).unread = [] ∧
          ∀ read ∈ (S.receiver s.key).reads, read.complete (S.receiver s.key).inputBuffer = none) ∧
        ∃ s ∈ S.lobby.sessions, .accepted false ∈ s.trace ∧ .readFailed ∉ s.trace ∧ (∀ closed, .writeFailed closed ∉ s.trace) ∧
          s.sender.stream = text "Zard\n1\r\nOK\n\r\nOK\nNo help available.\n\r\n") (by decide +kernel)
  have hrest : (system .little).Rest Internal S := rest_of_waiting hwaiting
  obtain ⟨ds, R, hR, hroster, hall⟩ := (answers_everything (System.Run.reachable hrun)).2.2 hrest
  obtain ⟨hcommands, hwritten⟩ := hall s hs hacc (not_or.2 ⟨hfail, not_exists.2 hunfailed⟩)
  exact ⟨S, hrun, hrest, ds, R, hR, hroster, s, hs, hcommands, hwritten, hstream⟩

end Server
end Zar
