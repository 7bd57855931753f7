import Mathlib.Logic.Function.Basic
import Zar.Communication.Several
import Zar.Lobby.Reference
import Zar.Lobby.Writing
/-!
# The server on its connections

The lobby with the receivers of its sessions. A read that completes hands its message to
`session_receive_handler`, and what that throws is what the receiver sees. `Session` only
counts what is outstanding; `Paired` says that the receiver agrees.
-/

namespace Zar

structure Server where
  lobby : Lobby
  /-- The receivers of the sockets, by the keys of the sessions. -/
  receiver : Nat → Receiver

namespace Lobby

/-- A receiver takes part in the event. -/
def Event.reads : Event → Bool
  | .receiveMessage _ | .read _ _ => true
  | .accept _ _ | .sendMessage _ | .transfer _ _ _ | .written _ _ | .tick _ => false

/-- What `session_receive_handler` throws. -/
def thrown (L : Lobby) (s : Session) (contents : Option Bytes) : Option Thrown :=
  ((L.update s.key fun _ => s.readEnds contents).asioReceiveHandler (s.readEnds contents) contents).2

end Lobby

namespace Server

inductive Event where
  /-- A step of the lobby that no receiver takes part in. -/
  | lobby (e : Lobby.Event)
  | arrive (k : Nat) (bytes : Bytes)
  | receiveMessage (k : Nat)
  | readSome (k i n : Nat)
  /-- The read `i` of a socket is complete, or it fails. -/
  | complete (k i : Nat)
  | fail (k i : Nat)
  deriving DecidableEq, Repr

def setReceiver (S : Server) (k : Nat) (r : Receiver) : Server := { S with receiver := Function.update S.receiver k r }

/-- The socket of `sessions_.back()` starts to receive when the accept succeeded. -/
def received (S : Server) : Lobby.Event → Server
  | .accept _ false =>
    match S.lobby.sessions.getLast? with
    | none => S
    | some s => S.setReceiver s.key (S.receiver s.key).receive.1
  | _ => S

/-- What the receiver does without its handler. -/
def moves (S : Server) (k : Nat) (e : Receiver.Event) : Option Server :=
  match S.lobby.get? k with
  | none => none
  | some _ => ((S.receiver k).step e).map (S.setReceiver k)

/-- The handler of a read, with `session_receive_handler` as its `receive_handler_`. -/
def handles (S : Server) (k : Nat) (e : ReceiveReaction → Receiver.Event) (contents : Option Bytes) : Option Server :=
  match S.lobby.get? k with
  | none => none
  | some s =>
    match (S.receiver k).step (e ⟨none, S.lobby.thrown s contents⟩), S.lobby.step (.read k contents) with
    | some r, some L => some { S.setReceiver k r with lobby := L }
    | _, _ => none

def step (S : Server) : Event → Option Server
  | .lobby e => if e.reads then none else (S.lobby.step e).map fun L => { S.received e with lobby := L }
  | .arrive k bytes => S.moves k (.arrive bytes)
  | .receiveMessage k =>
    match (S.receiver k).step .receiveMessage, S.lobby.step (.receiveMessage k) with
    | some r, some L => some { S.setReceiver k r with lobby := L }
    | _, _ => none
  | .readSome k i n => S.moves k (.readSome i n)
  | .complete k i =>
    match (S.receiver k).message (.complete i {}) with
    | none => none
    | some m => S.handles k (.complete i) (some m.contents)
  | .fail k i => S.handles k (.fail i) none

/-- The sockets have a strand, and read telnet. -/
def system (host : Endian) : System Server Event :=
  ⟨⟨Lobby.run host, fun _ => { host := host, protocol := .telnet, strand := true }⟩, step⟩

@[simp] theorem setReceiver_lobby (S : Server) (k : Nat) (r : Receiver) : (S.setReceiver k r).lobby = S.lobby := rfl

@[simp] theorem setReceiver_same (S : Server) (k : Nat) (r : Receiver) : (S.setReceiver k r).receiver k = r :=
  Function.update_self ..

theorem setReceiver_other (S : Server) {k j : Nat} (r : Receiver) (h : j ≠ k) :
    (S.setReceiver k r).receiver j = S.receiver j := Function.update_of_ne h ..

end Server

/-! ## The receiver of a session -/

/-- What a client asked, in a trace. -/
def Io.heard : Io → Option Bytes
  | .received contents => some contents
  | _ => none

namespace Receiver

variable {r r' : Receiver} {host : Endian} {q : Nat → Protocol} {T : Thrown → Prop} {F F' : Prop} {frames : List Bytes}
  {rest : Bytes} {calls : List Call}

theorem Follows.mono (h : Follows q T F host r frames rest calls) (hf : F → F') :
    Follows q T F' host r frames rest calls := by
  refine ⟨h.toHeard, ?_⟩
  cases h.stage with
  | reading hp hcalls hc hph => exact .reading hp hcalls hc hph
  | malformed hp hpost hreads hcalls hc hn hbad => exact .malformed hp hpost hreads hcalls hc hn hbad
  | threw hpost hreads hcalls hc ht => exact .threw hpost hreads hcalls hc ht
  | failed hpost hreads hcalls hc hfail => exact .failed hpost hreads hcalls hc (hf hfail)

/-- What a step of a telnet receiver in a strand changes of what is outstanding. -/
structure Counts (r r' : Receiver) (posted reads : Int) : Prop where
  strand : r'.strand = true
  protocol : r'.protocol = .telnet
  posted : (r'.posted : Int) = r.posted + posted
  reads : (r'.reads.length : Int) = r.reads.length + reads

theorem eraseIdx_length {i : Nat} {read : Read} (hi : r.reads[i]? = some read) :
    ((r.reads.eraseIdx i).length : Int) = r.reads.length + -1 := by
  obtain ⟨hlt, -⟩ := List.getElem?_eq_some_iff.1 hi
  rw [List.length_eraseIdx_of_lt hlt]
  omega

variable (hst : r.strand = true) (hp : r.protocol = .telnet)
include hst hp

theorem arrive_counts {bytes : Bytes} (hs : r.step (.arrive bytes) = some r') : Counts r r' 0 0 := by
  cases hs
  exact ⟨hst, hp, by simp, by simp⟩

theorem readSome_counts {i n : Nat} (hs : r.step (.readSome i n) = some r') : Counts r r' 0 0 := by
  cases step_cases hs with
  | readSome => exact ⟨hst, hp, by simp, by simp⟩

theorem receiveMessage_counts (hs : r.step .receiveMessage = some r') : Counts r r' (-1) 1 := by
  cases step_cases hs with
  | receiveMessage hpost =>
    simp only [receiveMessage, hp, catching, receiveUntil]
    exact ⟨hst, rfl, by simp only; omega, by simp⟩

theorem fail_counts {i : Nat} (hs : r.step (.fail i {}) = some r') : Counts r r' 0 (-1) := by
  cases step_cases hs with
  | fail react hi =>
    rw [handle_fail _ _ _ rfl]
    exact ⟨hst, hp, by simp [catching, consume, callHandler, count], eraseIdx_length hi⟩

/-- The message of a read is handled, and the next one is asked for. -/
theorem complete_counts {i : Nat} {m : Message} (hm : r.message (.complete i {}) = some m)
    (hs : r.step (.complete i {}) = some r') : Counts r r' 1 (-1) := by
  cases step_cases hs with
  | @complete i n read react hi hn =>
    have hhandle : ∀ x : Receiver, x.handle read false n {} = x.asioReceiveHandler false n {} := by
      intro x
      cases read with
      | «until» d => rfl
      | exactly bytes k handler =>
        cases handler with
        | asioReceiveHandler => rfl
        | asioReceiveHandlerReadLength => simp [message, hi] at hm
    rw [hhandle]
    simp only [asioReceiveHandler, count, Message.decode, hp, callHandler, consume, receive, hst, catching,
      Bool.false_eq_true, if_false, if_true]
    exact ⟨rfl, rfl, by simp, eraseIdx_length hi⟩

end Receiver

namespace Server

variable {S S' : Server} {L L' : Lobby} {s s' : Session} {r r' : Receiver} {e : Event} {es : List Event} {gs : List Game}
  {host : Endian}

/-- Before the accept bytes may arrive, but nothing is read. Behind it the receiver follows the
stream, and reads on unless the trace tells that a read failed. -/
inductive Listens (host : Endian) (s : Session) (r : Receiver) : Prop
  | idle (h : .accepted false ∉ s.trace) (bytes : Bytes)
      (hr : r = { host := host, protocol := .telnet, strand := true, unread := bytes, arrived := bytes })
  | follows (h : .accepted false ∈ s.trace) {frames : List Bytes} {rest : Bytes} {calls : List Call}
      (hf : r.Follows (fun _ => .telnet) (fun _ => False) (.readFailed ∈ s.trace) host frames rest calls)

/-- A session and the receiver of its socket. -/
structure Paired (host : Endian) (s : Session) (r : Receiver) : Prop where
  strand : r.strand = true
  protocol : r.protocol = .telnet
  posted : s.posted = r.posted
  reads : s.reads = r.reads.length
  heard : s.trace.filterMap Io.heard = r.contents
  listens : Listens host s r

/-- What happens to the receivers of the server. -/
def Plain : Receiver.Event → Prop
  | .arrive _ | .receiveMessage | .readSome _ _ => True
  | .complete _ react | .fail _ react => react = {}
  | .receive | .setProtocol _ => False

/-- The receiver takes no part. -/
theorem Paired.other (h : Paired host s r) (hposted : s'.posted = s.posted) (hreads : s'.reads = s.reads) {io : List Io}
    (ht : s'.trace = s.trace ++ io) (hio : ∀ x ∈ io, x.heard = none ∧ x ≠ .accepted false ∧ x ≠ .readFailed) :
    Paired host s' r := by
  have hacc : .accepted false ∈ s'.trace ↔ .accepted false ∈ s.trace := by
    rw [ht, List.mem_append]
    exact or_iff_left fun hmem => (hio _ hmem).2.1 rfl
  refine ⟨h.strand, h.protocol, hposted.trans h.posted, hreads.trans h.reads, ?_, ?_⟩
  · rw [ht, List.filterMap_append, h.heard]
    simpa using fun x hx => (hio x hx).1
  · cases h.listens with
    | idle hn bytes hr => exact .idle (fun hmem => hn (hacc.1 hmem)) bytes hr
    | follows hmem hf => exact .follows (hacc.2 hmem) (hf.mono fun hfail => ht ▸ List.mem_append_left _ hfail)

theorem Follows.plain {frames : List Bytes} {rest : Bytes} {calls : List Call} {F : Prop} {e : Receiver.Event}
    (h : r.Follows (fun _ => .telnet) (fun _ => False) F host frames rest calls) (ho : Plain e)
    (hfail : ∀ i react, e = .fail i react → F) (hs : r.step e = some r') :
    ∃ frames rest calls, r'.Follows (fun _ => .telnet) (fun _ => False) F host frames rest calls := by
  refine h.step (fun _ => .inr (.inl rfl)) ?_ ?_ hs
  · cases e with
    | arrive | receiveMessage | readSome => trivial
    | complete i react =>
      cases (show react = {} from ho)
      exact ⟨rfl, by simp⟩
    | fail i react =>
      cases (show react = {} from ho)
      exact ⟨rfl, hfail i {} rfl⟩
    | receive | setProtocol => exact ho.elim
  · cases e with
    | complete => exact fun _ _ he => by cases he
    | arrive | receive | receiveMessage | readSome | fail | setProtocol => trivial

/-- Before the accept only bytes arrive. -/
theorem idle_step {bytes : Bytes} {e : Receiver.Event} (ho : Plain e)
    (hs : Receiver.step { host := host, protocol := .telnet, strand := true, unread := bytes, arrived := bytes } e = some r') :
    ∃ more, r' = { host := host, protocol := .telnet, strand := true, unread := bytes ++ more, arrived := bytes ++ more } := by
  cases Receiver.step_cases hs with
  | arrive more => exact ⟨more, rfl⟩
  | receiveMessage hpost => exact absurd hpost (Nat.lt_irrefl 0)
  | readSome hi | complete _ hi | fail _ hi => cases hi
  | receive | setProtocol => exact ho.elim

/-- A step of the receiver, with what the session makes of it. -/
theorem Paired.step (h : Paired host s r) {e : Receiver.Event} (ho : Plain e) (hs : r.step e = some r') {posted reads : Int}
    (hcounts : r.Counts r' posted reads) (hp : (s'.posted : Int) = s.posted + posted)
    (hr : (s'.reads : Int) = s.reads + reads) (io : List Io) (ht : s'.trace = s.trace ++ io)
    (hheard : io.filterMap Io.heard = ((r.message e).map (·.contents)).toList) (hacc : .accepted false ∉ io)
    (hfail : ∀ i react, e = .fail i react → .readFailed ∈ io) : Paired host s' r' := by
  have hsame : .accepted false ∈ s'.trace ↔ .accepted false ∈ s.trace := by
    rw [ht, List.mem_append]
    exact or_iff_left hacc
  have hposted := hcounts.posted
  have hreads := hcounts.reads
  have hp₀ := h.posted
  have hr₀ := h.reads
  refine ⟨hcounts.strand, hcounts.protocol, by omega, by omega, ?_, ?_⟩
  · rw [ht, List.filterMap_append, h.heard, hheard, Receiver.step_contents hs]
  · cases h.listens with
    | idle hn bytes hidle =>
      rw [hidle] at hs
      obtain ⟨more, hr'⟩ := idle_step ho hs
      exact .idle (fun hmem => hn (hsame.1 hmem)) (bytes ++ more) hr'
    | follows hmem hf =>
      have hkeep : .readFailed ∈ s.trace → .readFailed ∈ s'.trace := fun hmem => ht ▸ List.mem_append_left _ hmem
      have hf' := hf.mono hkeep
      obtain ⟨frames, rest, calls, hf''⟩ := Follows.plain hf' ho (fun i react he => ht ▸ List.mem_append_right _ (hfail i react he)) hs
      exact .follows (hsame.2 hmem) hf''

theorem Paired.welcome (h : Paired host s r) (hw : s.Waiting host) : Paired host s.welcome r.receive.1 := by
  have htrace : s.trace = [] := by
    rw [Session.Waiting] at hw
    rw [hw]
    rfl
  cases h.listens with
  | follows hmem =>
    rw [htrace] at hmem
    cases hmem
  | idle hn bytes hr =>
    subst hr
    have hposted : s.posted = 0 := h.posted
    have hreads : s.reads = 0 := h.reads
    refine ⟨rfl, rfl, ?_, hreads, ?_, ?_⟩
    · change s.posted + 1 = 1
      omega
    · change (s.trace ++ [Io.accepted false] ++ [Io.sent (text "Zard\n1")]).filterMap Io.heard = []
      rw [htrace]
      rfl
    · have hacc : .accepted false ∈ s.welcome.trace := by
        change _ ∈ s.trace ++ [.accepted false] ++ [.sent (text "Zard\n1")]
        simp
      refine @Listens.follows host _ _ hacc [] bytes [] ⟨⟨rfl, rfl, rfl⟩, ?_⟩
      refine .reading rfl rfl ⟨0, rfl, ?_⟩ (.posted rfl rfl fun he => by cases he)
      exact Nat.zero_add _

/-! ## All sessions -/

structure Agrees (host : Endian) (S : Server) : Prop where
  paired : ∀ s ∈ S.lobby.everyone, Paired host s (S.receiver s.key)
  fresh : ∀ k, S.lobby.nextKey ≤ k → S.receiver k = { host := host, protocol := .telnet, strand := true }

theorem Paired.init (host : Endian) (k : Nat) :
    Paired host (Session.create host k).accept { host := host, protocol := .telnet, strand := true } :=
  ⟨rfl, rfl, rfl, rfl, rfl, .idle (by simp [Session.create, Session.accept]) [] rfl⟩

theorem Agrees.init (host : Endian) : Agrees host (system host).init := by
  refine ⟨fun s hs => ?_, fun k _ => rfl⟩
  rw [Lobby.run_waiting hs]
  exact Paired.init host s.key

/-- A session moves, with its receiver. -/
theorem Agrees.moved (h : Agrees host S) (hw : S.lobby.Wf) (hs : s ∈ S.lobby.sessions) (hk : s'.key = s.key)
    (hp : Paired host s' r) (gs : List Game) (caught : List Thrown) :
    Agrees host { S.setReceiver s.key r with lobby := { S.lobby.answered s' gs with caught := caught } } := by
  constructor
  · intro x hx
    rcases (Lobby.everyone_moved hw hs hk gs x).1 hx with rfl | ⟨hx, hne⟩
    · change Paired host x ((S.setReceiver s.key r).receiver x.key)
      rw [hk, setReceiver_same]
      exact hp
    · change Paired host x ((S.setReceiver s.key r).receiver x.key)
      rw [setReceiver_other S r hne]
      exact h.paired x hx
  · intro k hle
    have hlt : s.key < S.lobby.nextKey := hw.fresh s (List.mem_append_left _ hs)
    have hne : k ≠ s.key := by
      rintro rfl
      exact absurd hle (Nat.not_le.2 hlt)
    change (S.setReceiver s.key r).receiver k = _
    rw [setReceiver_other S r hne]
    exact h.fresh k hle

/-- No receiver takes part in the event. -/
theorem unread {L : Lobby} {e : Lobby.Event} (h : Lobby.Moved L s e s' gs) (he : e.reads = false) :
    s'.posted = s.posted ∧ s'.reads = s.reads ∧
      ∃ io, s'.trace = s.trace ++ io ∧ ∀ x ∈ io, x.heard = none ∧ x ≠ .accepted false ∧ x ≠ .readFailed := by
  cases h with
  | sendMessage | transfer | wrote => exact ⟨rfl, rfl, [], (List.append_nil _).symm, by simp⟩
  | acceptFailed => exact ⟨rfl, rfl, [.accepted true], rfl, by simp [Io.heard]⟩
  | closed => exact ⟨rfl, rfl, [.writeFailed true], rfl, by simp [Io.heard]⟩
  | threw => exact ⟨rfl, rfl, [.writeFailed false], rfl, by simp [Io.heard]⟩
  | receiveMessage | readFailed | command => cases he

theorem received_moved {e : Lobby.Event} (h : Lobby.Moved S.lobby s e s' gs) : S.received e = S := by
  cases h <;> rfl

/-- The session that is welcomed starts to receive. -/
theorem Agrees.accepted {init : List Session} (h : Agrees host S) (hw : S.lobby.Wf) (hhost : S.lobby.host = host)
    (hs : S.lobby.sessions = init ++ [s]) (hwait : s.Waiting host) :
    Agrees host { S.setReceiver s.key (S.receiver s.key).receive.1 with lobby := { S.lobby with
      sessions := init ++ [s.welcome, (Session.create S.lobby.host S.lobby.nextKey).accept]
      nextKey := S.lobby.nextKey + 1 } } := by
  have hlast : s ∈ S.lobby.sessions := by simp [hs]
  have hlt : s.key < S.lobby.nextKey := hw.fresh s (List.mem_append_left _ hlast)
  have hother : ∀ x ∈ S.lobby.everyone, x.key ≠ s.key →
      Paired host x ((S.setReceiver s.key (S.receiver s.key).receive.1).receiver x.key) := by
    intro x hx hne
    rw [setReceiver_other S _ hne]
    exact h.paired x hx
  constructor
  · intro x hx
    rcases List.mem_append.1 hx with hx | hx
    · rcases Lobby.mem_accepted hx with hx | rfl | rfl
      · refine hother x (Lobby.mem_everyone (hs ▸ List.mem_append_left _ hx)) fun he => ?_
        have hd := hw.keys
        rw [hs, Keyed.Distinct, List.map_append, List.nodup_append] at hd
        exact hd.2.2 _ (List.mem_map_of_mem hx) s.key (by simp) he
      · change Paired host s.welcome ((S.setReceiver s.key _).receiver s.key)
        rw [setReceiver_same]
        exact (h.paired s (Lobby.mem_everyone hlast)).welcome hwait
      · change Paired host _ ((S.setReceiver s.key _).receiver S.lobby.nextKey)
        rw [setReceiver_other S _ (Nat.ne_of_gt hlt), h.fresh _ (Nat.le_refl _), hhost]
        exact Paired.init host S.lobby.nextKey
    · refine hother x (List.mem_append_right _ hx) fun he => ?_
      have hd := hw.distinct
      rw [Keyed.Distinct, List.map_append, List.nodup_append] at hd
      exact hd.2.2 _ (List.mem_map_of_mem hlast) _ (List.mem_map_of_mem hx) he.symm
  · intro k hle
    have hle' : S.lobby.nextKey + 1 ≤ k := hle
    change (S.setReceiver s.key _).receiver k = _
    rw [setReceiver_other S _ (by omega)]
    exact h.fresh k (by omega)

theorem Agrees.lobby (h : Agrees host S) (hr : (Lobby.system host).Reachable S.lobby) {e : Lobby.Event}
    (he : e.reads = false) (hs : S.lobby.step e = some L) : Agrees host { S.received e with lobby := L } := by
  have hw := Lobby.Reachable.wf hr
  have hhost := Lobby.Reachable.host hr
  cases Lobby.step_change hw hs with
  | @moved s s' _ gs hs' hm caught =>
    rw [received_moved hm]
    obtain ⟨hposted, hreads, io, ht, hio⟩ := unread hm he
    have hp := (h.paired s (Lobby.mem_everyone hs')).other hposted hreads ht hio
    have hself : S.setReceiver s.key (S.receiver s.key) = S := by
      unfold setReceiver
      rw [Function.update_eq_self]
    have hmoved := h.moved hw hs' hm.key hp gs caught
    rwa [hself] at hmoved
  | @accepted init s hinit hwait =>
    have hback : S.received (.accept s.key false) = S.setReceiver s.key (S.receiver s.key).receive.1 := by
      simp only [received, hinit, List.getLast?_concat]
    rw [hback]
    exact h.accepted hw hhost hinit (hhost ▸ hwait)
  | reaped timers => exact ⟨fun s hs => h.paired s ((Lobby.everyone_reaped s).1 hs), h.fresh⟩
  | aborted timers => exact ⟨h.paired, h.fresh⟩

/-- What the receiver does on its own. -/
theorem Agrees.moves (h : Agrees host S) (hw : S.lobby.Wf) {k : Nat} {e : Receiver.Event}
    (ho : (∃ bytes, e = .arrive bytes) ∨ ∃ i n, e = .readSome i n) (hs : S.moves k e = some S') :
    Agrees host S' ∧ S'.lobby = S.lobby := by
  unfold Server.moves at hs
  split at hs
  · cases hs
  · rename_i s hg
    obtain ⟨hmem, rfl⟩ := Lobby.get?_mem hg
    obtain ⟨r, hr, rfl⟩ := Option.map_eq_some_iff.1 hs
    have hp := h.paired s (Lobby.mem_everyone hmem)
    have hp' : Paired host s r := by
      rcases ho with ⟨bytes, rfl⟩ | ⟨i, n, rfl⟩
      · exact hp.step (e := .arrive bytes) trivial hr (Receiver.arrive_counts hp.strand hp.protocol hr) (by omega) (by omega)
          [] (List.append_nil _).symm rfl (by simp) (by rintro _ _ ⟨⟩)
      · exact hp.step (e := .readSome i n) trivial hr (Receiver.readSome_counts hp.strand hp.protocol hr) (by omega) (by omega)
          [] (List.append_nil _).symm rfl (by simp) (by rintro _ _ ⟨⟩)
    have hmoved := h.moved hw hmem rfl hp' S.lobby.games S.lobby.caught
    rw [Lobby.answered_self hw.keys hmem] at hmoved
    exact ⟨hmoved, rfl⟩

/-- The handlers of the lobby throw nothing. -/
theorem thrown_none (hw : L.Wf) (hr : L.Rooms) (hs : s ∈ L.sessions) (hreads : 0 < s.reads) (contents : Option Bytes) :
    L.thrown s contents = none := by
  unfold Lobby.thrown
  cases contents with
  | none =>
    simp only [Lobby.asioReceiveHandler, Lobby.sessionReceiveHandler, Lobby.callHandler]
    cases (s.readEnds none).receiveHandler <;> simp [Lobby.receiveHandler, Game.receiveHandler]
  | some c =>
    obtain ⟨s', gs, he, -⟩ := Lobby.command_handled hw hr hs hreads c
    rw [he]

theorem answer_outstanding {c : Bytes} (h : Lobby.Answer L s c s' gs) : s'.posted = s.posted ∧ s'.reads = s.reads := by
  cases h <;> exact ⟨rfl, rfl⟩

/-- A read failed. -/
theorem Paired.fail (h : Paired host s r) (hreads : 0 < s.reads) {i : Nat} (hs : r.step (.fail i {}) = some r') :
    Paired host ((s.readEnds none).setStatus .disconnected) r' := by
  refine h.step (e := .fail i {}) rfl hs (Receiver.fail_counts h.strand h.protocol hs) ?_ ?_ [.readFailed] rfl rfl
    (by simp) (by simp)
  · exact (Int.add_zero _).symm
  · change ((s.reads - 1 : Nat) : Int) = s.reads + -1
    omega

/-- A command was read and answered. -/
theorem Paired.command {m : Message} (h : Paired host s r) (hreads : 0 < s.reads)
    (ha : Lobby.Answer L (s.readEnds (some m.contents)) m.contents s' gs) {i : Nat}
    (hm : r.message (.complete i {}) = some m) (hs : r.step (.complete i {}) = some r') : Paired host s'.receive r' := by
  obtain ⟨hposted, hreads'⟩ := answer_outstanding ha
  obtain ⟨replies, ht, -⟩ := ha.trace
  refine h.step (e := .complete i {}) rfl hs (Receiver.complete_counts h.strand h.protocol hm hs) ?_ ?_
    (.received m.contents :: replies.map .sent) ?_ ?_ (by simp) (by simp)
  · change ((s'.posted + 1 : Nat) : Int) = s.posted + 1
    rw [hposted]
    rfl
  · change (s'.reads : Int) = s.reads + -1
    rw [hreads']
    change ((s.reads - 1 : Nat) : Int) = s.reads + -1
    omega
  · change s'.trace = _
    simp [ht]
  · rw [hm]
    simp [Io.heard, List.filterMap_map, Function.comp_def]

/-- The handler of a read runs. -/
theorem Agrees.handles (h : Agrees host S) (hr : (Lobby.system host).Reachable S.lobby) {k : Nat}
    {e : ReceiveReaction → Receiver.Event} {contents : Option Bytes}
    (he : (∃ i, e = .fail i ∧ contents = none) ∨
      ∃ i m, e = .complete i ∧ (S.receiver k).message (.complete i {}) = some m ∧ contents = some m.contents)
    (hs : S.handles k e contents = some S') :
    Agrees host S' ∧ S.lobby.step (.read k contents) = some S'.lobby := by
  have hw := Lobby.Reachable.wf hr
  have hrooms := Lobby.Reachable.rooms hr
  unfold Server.handles at hs
  split at hs
  · cases hs
  · rename_i s hg
    obtain ⟨hmem, rfl⟩ := Lobby.get?_mem hg
    split at hs
    · rename_i r L hreceiver hlobby
      cases hs
      refine ⟨?_, hlobby⟩
      have hp := h.paired s (Lobby.mem_everyone hmem)
      cases Lobby.step_change hw hlobby with
      | @moved x x' _ gs hx hm caught =>
        have hk : x.key = s.key := by simpa [Lobby.Event.about] using hm.about.symm
        obtain rfl := hw.keys.eq hx hmem hk
        have hkey := hm.key
        rcases he with ⟨i, rfl, rfl⟩ | ⟨i, m, rfl, hmsg, rfl⟩
        · cases hm with
          | readFailed hreads =>
            rw [thrown_none hw hrooms hmem hreads] at hreceiver
            exact h.moved hw hmem hkey (hp.fail hreads hreceiver) S.lobby.games caught
        · cases hm with
          | command hreads ha =>
            rw [thrown_none hw hrooms hmem hreads] at hreceiver
            exact h.moved hw hmem hkey (hp.command hreads ha hmsg hreceiver) gs caught
    · cases hs

/-- `receive_message` of a session runs in the strand. -/
theorem Agrees.receiveMessage (h : Agrees host S) (hr : (Lobby.system host).Reachable S.lobby) {k : Nat}
    (hs : S.step (.receiveMessage k) = some S') :
    Agrees host S' ∧ S.lobby.step (.receiveMessage k) = some S'.lobby := by
  have hw := Lobby.Reachable.wf hr
  simp only [Server.step] at hs
  split at hs
  · rename_i r L hreceiver hlobby
    cases hs
    refine ⟨?_, hlobby⟩
    cases Lobby.step_change hw hlobby with
    | @moved s s' _ gs hmem hm caught =>
      have hp := h.paired s (Lobby.mem_everyone hmem)
      have hkey := hm.key
      cases hm with
      | receiveMessage hposted =>
        refine h.moved hw hmem hkey ?_ S.lobby.games caught
        refine hp.step (e := .receiveMessage) trivial hreceiver
          (Receiver.receiveMessage_counts hp.strand hp.protocol hreceiver) ?_ ?_ [] (List.append_nil _).symm rfl (by simp)
          (by rintro _ _ ⟨⟩)
        · change ((s.posted - 1 : Nat) : Int) = s.posted + -1
          omega
        · exact rfl
  · cases hs

/-- A step of the server is one of the lobby, or none of it. -/
theorem Agrees.step (h : Agrees host S) (hr : (Lobby.system host).Reachable S.lobby) (hs : S.step e = some S') :
    Agrees host S' ∧ (S'.lobby = S.lobby ∨ ∃ e', S.lobby.step e' = some S'.lobby) := by
  have hw := Lobby.Reachable.wf hr
  cases e with
  | lobby e =>
    simp only [Server.step] at hs
    split at hs
    · cases hs
    · rename_i he
      obtain ⟨L, hL, rfl⟩ := Option.map_eq_some_iff.1 hs
      exact ⟨h.lobby hr (by simpa using he) hL, .inr ⟨e, hL⟩⟩
  | arrive k bytes =>
    obtain ⟨h', he⟩ := h.moves hw (.inl ⟨bytes, rfl⟩) hs
    exact ⟨h', .inl he⟩
  | readSome k i n =>
    obtain ⟨h', he⟩ := h.moves hw (.inr ⟨i, n, rfl⟩) hs
    exact ⟨h', .inl he⟩
  | receiveMessage k =>
    obtain ⟨h', he⟩ := h.receiveMessage hr hs
    exact ⟨h', .inr ⟨_, he⟩⟩
  | complete k i =>
    simp only [Server.step] at hs
    split at hs
    · cases hs
    · rename_i m hm
      obtain ⟨h', he⟩ := h.handles hr (.inr ⟨i, m, rfl, hm, rfl⟩) hs
      exact ⟨h', .inr ⟨_, he⟩⟩
  | fail k i =>
    obtain ⟨h', he⟩ := h.handles hr (.inl ⟨i, rfl, rfl⟩) hs
    exact ⟨h', .inr ⟨_, he⟩⟩

/-! ## What arrives -/

/-- The bytes that a step brings to the session with the key `k`. -/
def Event.arrives : Event → Nat → Bytes
  | .arrive j bytes, k => if k = j then bytes else []
  | .lobby _, _ | .receiveMessage _, _ | .readSome _ _ _, _ | .complete _ _, _ | .fail _ _, _ => []

theorem setReceiver_arrived {j : Nat} {bytes : Bytes} (h : r.arrived = (S.receiver j).arrived ++ bytes) (k : Nat) :
    ((S.setReceiver j r).receiver k).arrived = (S.receiver k).arrived ++ if k = j then bytes else [] := by
  by_cases hk : k = j
  · subst hk
    rw [setReceiver_same, h, if_pos rfl]
  · rw [setReceiver_other S r hk, if_neg hk, List.append_nil]

theorem setReceiver_quiet {j : Nat} (h : r.arrived = (S.receiver j).arrived) (k : Nat) :
    ((S.setReceiver j r).receiver k).arrived = (S.receiver k).arrived := by
  rw [setReceiver_arrived (h.trans (List.append_nil _).symm) k]
  simp

/-- The handler of a read takes nothing from the network. -/
theorem handles_arrived {k : Nat} {e : ReceiveReaction → Receiver.Event} {contents : Option Bytes}
    (he : ∀ react, (e react).arrives = []) (hs : S.handles k e contents = some S') (j : Nat) :
    (S'.receiver j).arrived = (S.receiver j).arrived := by
  unfold Server.handles at hs
  split at hs
  · cases hs
  · split at hs
    · rename_i r L hreceiver hlobby
      cases hs
      have harr := Receiver.step_arrived hreceiver
      rw [he, List.append_nil] at harr
      exact setReceiver_quiet harr j
    · cases hs

theorem moves_arrived {k : Nat} {e : Receiver.Event} (hs : S.moves k e = some S') (j : Nat) :
    (S'.receiver j).arrived = (S.receiver j).arrived ++ if j = k then e.arrives else [] := by
  unfold Server.moves at hs
  split at hs
  · cases hs
  · obtain ⟨r, hr, rfl⟩ := Option.map_eq_some_iff.1 hs
    exact setReceiver_arrived (Receiver.step_arrived hr) j

theorem step_arrived (hs : S.step e = some S') (k : Nat) :
    (S'.receiver k).arrived = (S.receiver k).arrived ++ e.arrives k := by
  cases e with
  | lobby e =>
    simp only [Server.step] at hs
    split at hs
    · cases hs
    · obtain ⟨L, -, rfl⟩ := Option.map_eq_some_iff.1 hs
      rw [show Event.arrives (.lobby e) k = [] from rfl, List.append_nil]
      unfold received
      dsimp only
      split
      · split
        · rfl
        · exact setReceiver_quiet (Receiver.receive_kept _).arrived k
      · rfl
  | arrive j bytes => exact moves_arrived hs k
  | readSome j i n =>
    have harr := moves_arrived hs k
    simpa [Receiver.Event.arrives, Event.arrives] using harr
  | receiveMessage j =>
    simp only [Server.step] at hs
    split at hs
    · rename_i r L hreceiver _
      cases hs
      have harr := Receiver.step_arrived hreceiver
      rw [show Receiver.Event.arrives .receiveMessage = [] from rfl, List.append_nil] at harr
      rw [show Event.arrives (.receiveMessage j) k = [] from rfl, List.append_nil]
      exact setReceiver_quiet harr k
    · cases hs
  | complete j i =>
    simp only [Server.step] at hs
    split at hs
    · cases hs
    · rw [show Event.arrives (.complete j i) k = [] from rfl, List.append_nil]
      exact handles_arrived (fun _ => rfl) hs k
  | fail j i =>
    rw [show Event.arrives (.fail j i) k = [] from rfl, List.append_nil]
    exact handles_arrived (fun _ => rfl) hs k

/-- What the server does is a run of the lobby, and the receivers agree with it. -/
theorem Reachable.agrees (h : (system host).Reachable S) :
    (Lobby.system host).Reachable S.lobby ∧ Agrees host S := by
  refine h.inv (fun S => (Lobby.system host).Reachable S.lobby ∧ Agrees host S)
    ⟨System.reachable_init, Agrees.init host⟩ ?_
  rintro S e S' ⟨hr, ha⟩ hs
  obtain ⟨ha', he⟩ := ha.step hr hs
  refine ⟨?_, ha'⟩
  rcases he with he | ⟨e', he⟩
  · rw [he]
    exact hr
  · exact hr.step he

end Server
end Zar
