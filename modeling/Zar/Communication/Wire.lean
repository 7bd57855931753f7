import Zar.Communication.Accounting
import Zar.Communication.Throwing
/-!
# What reaches the stream, whatever fails

Handlers may throw and writes may fail at any time. The stream still takes the messages
that were asked for, each once and in order, as far as it gets. Where nothing failed and
nothing is outstanding, it took all of them.
-/

namespace Zar

/-- Messages on a telnet connection. -/
def telnetLines (messages : List Bytes) : Bytes := messages.flatMap fun message => message ++ text "\r\n"

namespace Sender

variable {host : Endian} {p : Protocol} {strand : Bool} {s s' : Sender} {m : Message} {ms : List Message} {e : Event}
  {es : List Event}

/-- The protocol stays as it is. -/
def Kept (_ : Sender) : Event → Prop
  | .setProtocol _ => False
  | .request _ | .sendMessage | .transfer _ _ | .handler _ => True

instance (s : Sender) : (e : Event) → Decidable (Kept s e)
  | .setProtocol _ => inferInstanceAs (Decidable False)
  | .request _ | .sendMessage | .transfer _ _ | .handler _ => inferInstanceAs (Decidable True)

/-- With a protocol that can be written, only a handler throws. -/
theorem Kept.calm (hc : s.protocol ≠ .compressed) (ho : Kept s e) (h : ∀ react, e = .handler react → react.throws = none) :
    Calm s e := by
  cases e with
  | request r => exact fun _ _ => hc
  | sendMessage => exact fun _ => hc
  | handler react => exact ⟨h react rfl, fun _ => hc⟩
  | transfer => trivial
  | setProtocol => exact ho.elim

theorem Wired.step (hp : p.Streamed) (hl : Lone s) (h : Wired host p s) (ho : Kept s e) (hs : s.step e = some s') :
    Wired host p s' := by
  cases step_cases hs with
  | request r => exact h.request hp r
  | @sendMessage m ms => exact Wired.sendMessage (s := { s with posted := ms }) hp { h with } m
  | transfer =>
    have hwire := h.wire
    exact { h with wire := by simpa using hwire }
  | @handler error n ws react hw =>
    obtain ⟨-, m, ms, hm⟩ := write_front hl hw
    exact Wired.handler (s := { s with writes := ws }) hp { h with } hm error n react
  | setProtocol p => exact ho.elim

/-! ## The messages on the stream -/

/-- What was asked for stays asked for. -/
theorem step_called (hl : Lone s) (hs : s.step e = some s') : s.called <+: s'.called := by
  cases step_cases hs with
  | request r =>
    obtain ⟨b, w, st, h⟩ := request_change s r
    rw [h]
    exact List.prefix_append _ _
  | @sendMessage m ms =>
    obtain ⟨b, w, st, h⟩ := sendMessage_change { s with posted := ms } m
    rw [h]
  | transfer | setProtocol => exact List.prefix_refl _
  | @handler error n ws react hw =>
    obtain ⟨-, m, ms, hm⟩ := write_front hl hw
    unfold sendQueueMessageHandler
    rw [report_requests (s := { s with writes := ws }) hm]
    cases react.throws with
    | some t => exact List.prefix_append _ _
    | none =>
      obtain ⟨b, w, st, h⟩ := advance_change { s with
        writes := ws
        totalBytesTransferred := (s.totalBytesTransferred + n) % 2 ^ 64
        reports := s.reports ++ [⟨error, n, m⟩]
        id := idAfter s.id react.requests
        called := s.called ++ messagesOf s.id react.requests
        messages := m :: (ms ++ if s.strand then [] else messagesOf s.id react.requests)
        posted := s.posted ++ (if s.strand then messagesOf s.id react.requests else []) }
      dsimp only at h ⊢
      rw [h]
      exact List.prefix_append _ _

/-- A handler that throws starts nothing. -/
theorem throw_started (hl : Lone s) {react : SendReaction} {t : Thrown} (ht : react.throws = some t)
    (hs : s.step (.handler react) = some s') : s'.started = s.started := by
  cases step_cases hs with
  | @handler error n ws react hw =>
    obtain ⟨-, m, ms, hm⟩ := write_front hl hw
    unfold sendQueueMessageHandler
    rw [report_requests (s := { s with writes := ws }) hm, ht]

theorem Queued.first (hq : Queued s) (hc : s.called = s.reports.map (·.message) ++ (s.messages ++ s.posted)) :
    s.started <+: s.called := by
  rw [hq.started, hc, List.prefix_append_right_inj]
  exact (List.take_prefix 1 s.messages).trans (List.prefix_append _ _)

/-- What was started are the first messages that were asked for, and the stream takes them. -/
theorem RunIf.onWire (hp : p.Streamed) (h : (system host p strand).RunIf Kept es s) :
    Wired host p s ∧ s.started <+: s.called := by
  refine h.inv_hist (fun _ s => Wired host p s ∧ s.started <+: s.called) ⟨⟨rfl, rfl, rfl⟩, List.prefix_refl _⟩ ?_
  rintro es s e s' hrun ⟨hw, hfirst⟩ ho hs
  have hl := reachable_lone hrun.run.reachable
  refine ⟨hw.step hp hl ho hs, ?_⟩
  by_cases hsend : Sending s'
  · -- Nothing threw so far.
    have hcalm := (sending_iff_calm (hrun.run.snoc trivial hs)).1 hsend
    obtain ⟨hq, hc⟩ := RunIf.queued hcalm
    exact hq.first hc
  · have hsame : s'.started = s.started := by
      by_cases hbefore : Sending s
      · have hnot : ¬ Calm s e := fun hc => hsend ((hl.step hs).2.2 ⟨hbefore, hc⟩)
        have hc : s.protocol ≠ .compressed := by
          rw [hw.sameProtocol]
          exact hp.ne_compressed
        obtain ⟨react, rfl, t, ht⟩ : ∃ react, e = .handler react ∧ ∃ t, react.throws = some t := by
          by_contra hn
          apply hnot
          apply Kept.calm hc ho
          rintro react rfl
          cases ht : react.throws with
          | none => rfl
          | some t => exact absurd ⟨react, rfl, t, ht⟩ hn
        exact throw_started hl ht hs
      · exact (hl.stays_stopped hbefore hs).2
    rw [hsame]
    exact hfirst.trans (step_called hl hs)

/-- The stream takes what was asked for, in order, as far as it gets. -/
theorem RunIf.stream (hp : p.Streamed) (h : (system host p strand).RunIf Kept es s) :
    s.stream <+: s.called.flatMap (·.encoding host p) := by
  obtain ⟨hw, later, hl⟩ := RunIf.onWire hp h
  rw [← hl, List.flatMap_append, ← hw.wire, List.append_assoc]
  exact List.prefix_append _ _

/-! ## What is left in the buffer -/

/-- Only a write that goes on or failed leaves something in the buffer. -/
def Settled (s : Sender) : Prop :=
  s.sendBuffer = [] ∨ (∃ n, .running n ∈ s.writes) ∨ (∃ n, .completed true n ∈ s.writes) ∨ ∃ x ∈ s.reports, x.error = true

theorem Settled.sendQueueMessage (hc : s.protocol ≠ .compressed) (h : Settled s) : Settled s.sendQueueMessage.1 := by
  cases hm : s.messages with
  | nil =>
    have he : s.sendQueueMessage.1 = s := by simp [Sender.sendQueueMessage, hm]
    rwa [he]
  | cons m ms =>
    rw [sendQueueMessage_eq hc hm]
    exact .inr (.inl ⟨_, List.mem_append_right _ (List.mem_singleton_self _)⟩)

theorem Settled.sendMessage (hc : s.protocol ≠ .compressed) (h : Settled s) (m : Message) : Settled (s.sendMessage m).1 := by
  unfold Sender.sendMessage
  dsimp only
  split
  · exact Settled.sendQueueMessage (s := { s with messages := s.messages ++ [m] }) hc h
  · exact h

theorem Settled.request (hc : s.protocol ≠ .compressed) (h : Settled s) (r : Request) : Settled (s.request r).1 := by
  unfold Sender.request strandExecute
  dsimp only
  split
  · exact h
  · exact Settled.sendMessage (s := { s with id := (r.message s.id).1, called := s.called ++ [(r.message s.id).2] }) hc h
      (r.message s.id).2

theorem Settled.advance (hc : s.protocol ≠ .compressed) (h : Settled s) : Settled s.advance.1 := by
  unfold Sender.advance
  dsimp only
  split
  · exact Settled.sendQueueMessage (s := { s with messages := s.messages.tail }) hc h
  · exact h

/-- The handler of a write: a failed one is reported, and any other one took the whole buffer. -/
theorem Settled.handler (hc : s.protocol ≠ .compressed) (hl : Lone s) (h : Settled s) {error : Bool} {n : Nat} {ws : List Write}
    (hw : s.writes = .completed error n :: ws) (react : SendReaction) :
    Settled (({ s with writes := ws }).sendQueueMessageHandler error n react).1 := by
  obtain ⟨rfl, m, ms, hm⟩ := write_front hl hw
  have hbuf : s.sendBuffer = [] ∨ ∃ x ∈ s.reports ++ [⟨error, n, m⟩], x.error = true := by
    cases error with
    | true => exact .inr ⟨_, List.mem_append_right _ (List.mem_singleton_self _), rfl⟩
    | false =>
      rcases h with h | ⟨n', h⟩ | ⟨n', h⟩ | ⟨x, hx, he⟩
      · exact .inl h
      · simp [hw] at h
      · simp [hw] at h
      · exact .inr ⟨x, List.mem_append_left _ hx, he⟩
  unfold sendQueueMessageHandler
  rw [report_requests (s := { s with writes := [] }) hm]
  cases react.throws with
  | some t => exact hbuf.imp_right fun hr => .inr (.inr hr)
  | none => exact Settled.advance hc (hbuf.imp_right fun hr => .inr (.inr hr))

theorem RunIf.settled (hp : p.Streamed) (h : (system host p strand).RunIf Kept es s) : Settled s := by
  refine h.inv_hist (fun _ s => Settled s) (.inl rfl) ?_
  intro es s e s' hrun hset ho hs
  have hl := reachable_lone hrun.run.reachable
  have hc : s.protocol ≠ .compressed := by
    rw [(RunIf.onWire hp hrun).1.sameProtocol]
    exact hp.ne_compressed
  cases step_cases hs with
  | request r => exact hset.request hc r
  | @sendMessage m ms => exact Settled.sendMessage (s := { s with posted := ms }) hc hset m
  | @transfer error n size ws hw =>
    cases error with
    | true => exact .inr (.inr (.inl ⟨n, List.mem_cons_self ..⟩))
    | false =>
      -- A write that is running covers the whole buffer.
      obtain ⟨rfl, -⟩ := write_front hl hw
      have hsend : Sending s := fun _ => by rw [hw]; rfl
      have hq := (RunIf.queued ((sending_iff_calm hrun.run).1 hsend)).1
      have hsize := hq.size size (by rw [hw]; exact List.mem_cons_self ..)
      have hn : n = size := by
        obtain ⟨size', ws', hw', -, hn⟩ := transfer_size hs
        rw [hw] at hw'
        cases hw'
        exact hn rfl
      left
      rw [hn, hsize]
      exact List.drop_length
  | handler react hw => exact hset.handler hc hl hw react
  | setProtocol p => exact ho.elim

/-- Where nothing threw, no write failed and nothing is outstanding, the stream took everything. -/
theorem RunIf.written (hp : p.Streamed) (h : (system host p strand).RunIf Kept es s)
    (hcalm : (system host p strand).RunIf Calm es s) (herror : ∀ x ∈ s.reports, x.error = false) (hw : s.writes = [])
    (hposted : s.posted = []) : s.stream = s.called.flatMap (·.encoding host p) := by
  have hsend := (sending_iff_calm h.run).2 hcalm
  have hall := (((never_wedged h.run).2.1 hsend [] s .nil).1 hw hposted).1
  have hwire := (RunIf.onWire hp h).1.wire
  have hbuf : s.sendBuffer = [] := by
    rcases RunIf.settled hp h with hb | ⟨n, hn⟩ | ⟨n, hn⟩ | ⟨x, hx, he⟩
    · exact hb
    · simp [hw] at hn
    · simp [hw] at hn
    · simp [herror x hx] at he
  rwa [hbuf, List.append_nil, hall] at hwire

/-! ## A sender whose handler does nothing -/

/-- A step only adds to the stream. -/
theorem step_stream (hs : s.step e = some s') : s.stream <+: s'.stream := by
  have hrequests : ∀ (rs : List Request) (x : Sender), (x.requests rs).stream = x.stream := by
    intro rs
    induction rs with
    | nil => exact fun _ => rfl
    | cons r rs ih =>
      intro x
      obtain ⟨b, w, st, h⟩ := request_change x r
      exact (ih (x.request r).1).trans (by rw [h])
  cases step_cases hs with
  | request r =>
    obtain ⟨b, w, st, h⟩ := request_change s r
    rw [h]
  | @sendMessage m ms =>
    obtain ⟨b, w, st, h⟩ := sendMessage_change { s with posted := ms } m
    rw [h]
  | transfer => exact List.prefix_append _ _
  | setProtocol => exact List.prefix_refl _
  | @handler error n ws react =>
    obtain ⟨t, rs, hreport⟩ := report_change { s with writes := ws } error n
    have hsame : ((({ s with writes := ws }).report error n).requests react.requests).stream = s.stream := by
      rw [hrequests, hreport]
    unfold sendQueueMessageHandler
    cases react.throws with
    | some t =>
      dsimp only
      rw [hsame]
    | none =>
      obtain ⟨b, w, st, h⟩ := advance_change ((({ s with writes := ws }).report error n).requests react.requests)
      dsimp only
      rw [h, hsame]

/-- In a strand, with one protocol, and a handler that does not throw. -/
def Served (host : Endian) (p : Protocol) (s : Sender) : Prop :=
  ∃ es, (system host p true).RunIf Kept es s ∧ (system host p true).RunIf Calm es s

theorem Served.init (host : Endian) (p : Protocol) : Served host p { host := host, protocol := p, strand := true } :=
  ⟨[], .nil, .nil⟩

theorem Served.step (hp : p.Streamed) (h : Served host p s) (ho : Kept s e)
    (hthrow : ∀ react, e = .handler react → react.throws = none) (hs : s.step e = some s') : Served host p s' := by
  obtain ⟨es, hrun, hcalm⟩ := h
  have hc : s.protocol ≠ .compressed := by
    rw [(RunIf.onWire hp hrun).1.sameProtocol]
    exact hp.ne_compressed
  exact ⟨es ++ [e], hrun.snoc ho hs, hcalm.snoc (ho.calm hc hthrow) hs⟩

theorem Served.request (hp : p.Streamed) (h : Served host p s) (r : Request) : Served host p (s.request r).1 :=
  h.step hp (e := .request r) trivial (by rintro _ ⟨⟩) rfl

theorem Served.stream (hp : p.Streamed) (h : Served host p s) : s.stream <+: s.called.flatMap (·.encoding host p) := by
  obtain ⟨es, hrun, -⟩ := h
  exact RunIf.stream hp hrun

theorem Served.written (hp : p.Streamed) (h : Served host p s) (herror : ∀ x ∈ s.reports, x.error = false)
    (hw : s.writes = []) (hposted : s.posted = []) : s.stream = s.called.flatMap (·.encoding host p) := by
  obtain ⟨es, hrun, hcalm⟩ := h
  exact RunIf.written hp hrun hcalm herror hw hposted

theorem encoded_telnet (ms : List Message) :
    ms.flatMap (·.encoding host .telnet) = telnetLines (ms.map (·.contents)) := by
  rw [telnetLines, List.flatMap_map]
  rfl

/-! ## The sender comes to an end -/

/-- Nobody asks for a message. -/
def Silent : Event → Prop
  | .sendMessage | .transfer _ _ => True
  | .handler react => react.requests = []
  | .request _ | .setProtocol _ => False

theorem report_work (s : Sender) (error : Bool) (n : Nat) : (s.report error n).work = s.work := by
  obtain ⟨t, rs, h⟩ := report_change s error n
  rw [h]
  rfl

/-- Every such step leaves less to do, also one that throws. -/
theorem Lone.work_lt (hl : Lone s) (ho : Silent e) (hs : s.step e = some s') : s'.work < s.work := by
  cases step_cases hs with
  | request | setProtocol => exact ho.elim
  | @sendMessage m ms hp =>
    have hle := sendMessage_work { s with posted := ms } m
    have hpost : ({ s with posted := ms }).work + 5 = s.work := by
      simp only [work, hp, List.length_cons]
      omega
    omega
  | transfer hw =>
    simp only [work, hw, List.length_cons, List.countP_cons, isRunning, if_true, Bool.false_eq_true, if_false]
    omega
  | @handler error n ws react hw =>
    obtain ⟨-, m, ms, hm⟩ := write_front hl hw
    have hdone : ({ s with writes := ws }).work + 1 = s.work := by
      simp only [work, hw, List.length_cons, List.countP_cons, isRunning, Bool.false_eq_true, if_false]
      omega
    have hreport := report_work { s with writes := ws } error n
    obtain ⟨t, rs, he⟩ := report_change { s with writes := ws } error n
    have hle := advance_work (s := ({ s with writes := ws }).report error n) (m := m) (by rw [he]; exact hm)
    unfold sendQueueMessageHandler
    rw [show react.requests = [] from ho]
    simp only [requests, List.foldl_nil]
    cases react.throws with
    | some t =>
      dsimp only
      omega
    | none =>
      dsimp only
      omega

theorem Served.work_lt (h : Served host p s) (ho : Silent e) (hs : s.step e = some s') : s'.work < s.work := by
  obtain ⟨es, hrun, -⟩ := h
  exact (reachable_lone hrun.run.reachable).work_lt ho hs

/-! ## Taken as asked -/

/-- A sender whose own steps are over has no write and nothing to run. -/
theorem nothing_left (hsend : s.step .sendMessage = none) (htransfer : ∀ n, s.step (.transfer false n) = none)
    (hhandler : s.step (.handler {}) = none) : s.writes = [] ∧ s.posted = [] := by
  constructor
  · cases hwrites : s.writes with
    | nil => rfl
    | cons w ws =>
      cases w with
      | running n =>
        have hn := htransfer n
        simp [Sender.step, hwrites] at hn
      | completed error n => simp [Sender.step, hwrites] at hhandler
  · cases hp : s.posted with
    | nil => rfl
    | cons m ms => simp [Sender.step, hp] at hsend

theorem RunIf.unthrown (hp : p.Streamed) (h : (system host p strand).RunIf Kept es s)
    (hthrow : ∀ react, .handler react ∈ es → react.throws = none) : (system host p strand).RunIf Calm es s := by
  induction h with
  | nil => exact .nil
  | @snoc es s e s' h ho hs ih =>
    have hc : s.protocol ≠ .compressed := by
      rw [(RunIf.onWire hp h).1.sameProtocol]
      exact hp.ne_compressed
    refine .snoc (ih fun react hmem => hthrow react (List.mem_append_left _ hmem)) (ho.calm hc ?_) hs
    rintro react rfl
    exact hthrow react (List.mem_append_right _ (List.mem_singleton_self _))

/-- Whatever the handlers throw and wherever writes fail, the stream takes the messages in the order
they were asked for, as far as it gets. Where no more is asked for, the sender comes to rest, and it
took everything unless a handler threw or a write failed. -/
theorem stream_takes_calls (hp : p.Streamed) (h : (system host p strand).RunIf Kept es s) :
    s.stream <+: s.called.flatMap (·.encoding host p) ∧
    (∀ fs s', (system host p strand).Steps (fun _ => Silent) s fs s' → fs.length ≤ s.work) ∧
    (∃ fs s', (system host p strand).Steps (fun _ => Silent) s fs s' ∧ (system host p strand).Rest (fun _ => Silent) s') ∧
    ((system host p strand).Rest (fun _ => Silent) s → (∀ react, .handler react ∈ es → react.throws = none) →
      (∀ x ∈ s.reports, x.error = false) → s.stream = s.called.flatMap (·.encoding host p)) := by
  have hlone := reachable_lone h.run.reachable
  have hlt : ∀ s e s', Lone s → Silent e → (system host p strand).step s e = some s' → Lone s' ∧ s'.work < s.work := by
    intro s e s' hl ho hs
    exact ⟨(hl.step hs).1, hl.work_lt ho hs⟩
  refine ⟨RunIf.stream hp h, ?_, System.exists_rest work Lone hlt hlone, ?_⟩
  · intro fs s' hsteps
    have hle := hsteps.length_le work Lone hlone hlt
    omega
  · intro hrest hthrow herror
    obtain ⟨hw, hposted⟩ := nothing_left (hrest .sendMessage trivial) (fun n => hrest (.transfer false n) trivial)
      (hrest (.handler {}) rfl)
    exact RunIf.written hp h (RunIf.unthrown hp h hthrow) herror hw hposted

/-- The handler throws, and the second message stays behind. -/
theorem stream_takes_calls_thrown : ∃ es s, (system .little .line false).RunIf Kept es s ∧
    s.stream <+: s.called.flatMap (·.encoding .little .line) ∧ s.stream = text "a\n" ∧
      s.called.flatMap (·.encoding .little .line) = text "a\nb\n" := by
  have hexec : (system .little .line false).exec Kept { host := .little, protocol := .line, strand := false }
      [.request (.action (text "a")), .request (.action (text "b")), .transfer false 2,
        .handler { throws := some (.int 0) }] = some _ := rfl
  have hrun := System.Steps.of_exec hexec
  exact ⟨_, _, hrun, (stream_takes_calls (.inl rfl) hrun).1, rfl, rfl⟩

end Sender
end Zar
