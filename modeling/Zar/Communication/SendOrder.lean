import Zar.Communication.Sender
/-!
# Nothing is lost, repeated or reordered by the sender

`Good` ties the queue, the buffer, the outstanding write and the stream
together. With it the sender refines a first-in first-out queue: a message is
pushed when it is asked for and popped when its write was reported.
-/

namespace Zar
namespace Sender

variable {host : Endian} {p : Protocol} {strand : Bool} {s s' : Sender} {m : Message} {ms : List Message}

/-! ## What the functions change -/

/-- A message is started, except in the compressed protocol, where `encode` throws. -/
theorem sendQueueMessage_eq (hp : s.protocol ≠ .compressed) (h : s.messages = m :: ms) :
    s.sendQueueMessage.1 = { s with
      sendBuffer := s.sendBuffer ++ m.encoding s.host s.protocol
      writes := s.writes ++ [.running (s.sendBuffer ++ m.encoding s.host s.protocol).length]
      started := s.started ++ [m] } := by
  unfold sendQueueMessage
  simp only [h, encode_ok hp]

theorem sendQueueMessage_compressed (hp : s.protocol = .compressed) : s.sendQueueMessage.1 = s := by
  unfold sendQueueMessage
  split
  · rfl
  · rw [hp]
    rfl

/-- Whether or not it throws, a write that starts changes no more than this. -/
theorem sendQueueMessage_change (s : Sender) :
    ∃ b w st, s.sendQueueMessage.1 = { s with sendBuffer := b, writes := w, started := st } := by
  unfold sendQueueMessage
  split
  · exact ⟨_, _, _, rfl⟩
  · split
    · exact ⟨_, _, _, rfl⟩
    · exact ⟨_, _, _, rfl⟩

theorem sendMessage_change (s : Sender) (m : Message) :
    ∃ b w st, (s.sendMessage m).1 =
      { s with messages := s.messages ++ [m], sendBuffer := b, writes := w, started := st } := by
  unfold sendMessage
  dsimp only
  split
  · exact sendQueueMessage_change _
  · exact ⟨_, _, _, rfl⟩

theorem advance_change (s : Sender) :
    ∃ b w st, s.advance.1 =
      { s with messages := s.messages.tail, sendBuffer := b, writes := w, started := st } := by
  unfold advance
  dsimp only
  split
  · exact sendQueueMessage_change _
  · exact ⟨_, _, _, rfl⟩

theorem report_change (s : Sender) (error : Bool) (n : Nat) :
    ∃ t rs, s.report error n = { s with totalBytesTransferred := t, reports := rs } := by
  unfold report
  split
  · exact ⟨_, _, rfl⟩
  · exact ⟨_, _, rfl⟩

/-- A request is appended to the queue, or to what the strand has to run. -/
theorem request_change (s : Sender) (r : Request) :
    ∃ b w st, (s.request r).1 = { s with
      id := (r.message s.id).1
      called := s.called ++ [(r.message s.id).2]
      messages := s.messages ++ (if s.strand then [] else [(r.message s.id).2])
      posted := s.posted ++ (if s.strand then [(r.message s.id).2] else [])
      sendBuffer := b, writes := w, started := st } := by
  unfold request strandExecute
  dsimp only
  cases hs : s.strand with
  | true => exact ⟨s.sendBuffer, s.writes, s.started, by simp⟩
  | false =>
    obtain ⟨b, w, st, e⟩ := sendMessage_change
      { s with id := (r.message s.id).1, called := s.called ++ [(r.message s.id).2] } (r.message s.id).2
    exact ⟨b, w, st, by simpa [hs] using e⟩

theorem sendMessage_busy (h : s.messages ≠ []) : s.sendMessage m = ({ s with messages := s.messages ++ [m] }, none) := by
  simp [sendMessage, h]

/-- The counter after requests in a row. -/
def idAfter (id : UInt32) (rs : List Request) : UInt32 := rs.foldl (fun id r => (r.message id).1) id

theorem messagesOf_append (id : UInt32) (rs rs' : List Request) :
    messagesOf id (rs ++ rs') = messagesOf id rs ++ messagesOf (idAfter id rs) rs' := by
  induction rs generalizing id with
  | nil => rfl
  | cons r rs ih => simp only [List.cons_append, messagesOf, ih, idAfter, List.foldl_cons]

/-- While a message is on its way, requests only queue up. -/
theorem requests_busy (h : s.messages ≠ []) (rs : List Request) :
    s.requests rs = { s with
      id := idAfter s.id rs
      called := s.called ++ messagesOf s.id rs
      messages := s.messages ++ (if s.strand then [] else messagesOf s.id rs)
      posted := s.posted ++ (if s.strand then messagesOf s.id rs else []) } := by
  induction rs generalizing s with
  | nil => simp [requests, idAfter, messagesOf]
  | cons r rs ih =>
    rw [requests, List.foldl_cons, ← requests]
    cases hs : s.strand with
    | true =>
      simp only [request, strandExecute, hs, if_true]
      rw [ih (by simpa using h)]
      simp [idAfter, messagesOf]
    | false =>
      simp only [request, strandExecute, hs, Bool.false_eq_true, if_false]
      rw [sendMessage_busy (by simpa using h), ih (by simp)]
      simp [idAfter, messagesOf]

/-- What the handler of a write leaves to `advance`. -/
theorem report_requests (hm : s.messages = m :: ms) (error : Bool) (n : Nat) (rs : List Request) :
    (s.report error n).requests rs = { s with
      totalBytesTransferred := (s.totalBytesTransferred + n) % 2 ^ 64
      reports := s.reports ++ [⟨error, n, m⟩]
      id := idAfter s.id rs
      called := s.called ++ messagesOf s.id rs
      messages := m :: (ms ++ if s.strand then [] else messagesOf s.id rs)
      posted := s.posted ++ (if s.strand then messagesOf s.id rs else []) } := by
  have he : s.report error n = { s with
      totalBytesTransferred := (s.totalBytesTransferred + n) % 2 ^ 64
      reports := s.reports ++ [⟨error, n, m⟩] } := by
    unfold report
    simp only [hm]
  rw [he, requests_busy (by simp [hm])]
  simp only [hm, List.cons_append]

/-- The handler of a write reports the front message, takes it off the queue and
appends what was asked for. -/
theorem handler_change (hm : s.messages = m :: ms) (error : Bool) (n : Nat) {react : SendReaction}
    (ht : react.throws = none) :
    ∃ b w st, (s.sendQueueMessageHandler error n react).1 = { s with
      totalBytesTransferred := (s.totalBytesTransferred + n) % 2 ^ 64
      reports := s.reports ++ [⟨error, n, m⟩]
      id := idAfter s.id react.requests
      called := s.called ++ messagesOf s.id react.requests
      messages := ms ++ (if s.strand then [] else messagesOf s.id react.requests)
      posted := s.posted ++ (if s.strand then messagesOf s.id react.requests else [])
      sendBuffer := b, writes := w, started := st } := by
  unfold sendQueueMessageHandler
  rw [report_requests hm, ht]
  exact advance_change _

/-! ## The queue and the write -/

/-- The handler does not throw, and no message is encoded in the compressed protocol. -/
def Calm (s : Sender) : Event → Prop
  | .request _ => s.strand = false → s.messages = [] → s.protocol ≠ .compressed
  | .sendMessage => s.messages = [] → s.protocol ≠ .compressed
  | .handler react =>
    react.throws = none ∧ (s.messages.tail ≠ [] ∨ s.strand = false ∧ react.requests ≠ [] → s.protocol ≠ .compressed)
  | .transfer _ _ | .setProtocol _ => True

/-- A write belongs to the front message, and there is no other. -/
theorem write_front (hb : s.writes.length ≤ (s.messages.take 1).length) {w : Write} {ws : List Write}
    (hw : s.writes = w :: ws) : ws = [] ∧ ∃ m ms, s.messages = m :: ms := by
  rw [hw] at hb
  cases hm : s.messages with
  | nil => simp [hm] at hb
  | cons m ms => exact ⟨by simpa [hm] using hb, m, ms, rfl⟩

structure Queued (s : Sender) : Prop where
  /-- A write is outstanding exactly while a message is in the queue. -/
  busy : s.writes.length = (s.messages.take 1).length
  /-- The write covers the whole buffer. -/
  size : ∀ n, .running n ∈ s.writes → n = s.sendBuffer.length
  started : s.started = s.reports.map (·.message) ++ s.messages.take 1
  /-- Without a strand nothing waits for it. -/
  direct : s.strand = false → s.posted = []

theorem Queued.init (host : Endian) (p : Protocol) (strand : Bool) : Queued (system host p strand).init :=
  ⟨rfl, by simp [system], rfl, fun _ => rfl⟩

/-- The front message goes to the buffer, and its write starts. -/
theorem Queued.sendQueueMessage (hc : s.protocol ≠ .compressed) (hm : s.messages ≠ []) (hw : s.writes = [])
    (hst : s.started = s.reports.map (·.message)) (hd : s.strand = false → s.posted = []) :
    Queued s.sendQueueMessage.1 := by
  obtain ⟨m, ms, h⟩ := List.exists_cons_of_ne_nil hm
  rw [sendQueueMessage_eq hc h]
  refine ⟨?_, ?_, ?_, hd⟩
  · simp [hw, h]
  · simp [hw]
  · simp [hst, h]

theorem Queued.sendMessage (hq : Queued s) (m : Message) (hc : s.messages = [] → s.protocol ≠ .compressed) :
    Queued (s.sendMessage m).1 := by
  by_cases h : s.messages = []
  · have hw : s.writes = [] := by simpa [h] using hq.busy
    have hs : s.started = s.reports.map (·.message) := by simpa [h] using hq.started
    simp only [Sender.sendMessage, h, List.isEmpty_nil, Bool.not_true, Bool.not_false, if_true]
    exact Queued.sendQueueMessage (hc h) (by simp) hw hs hq.direct
  · obtain ⟨m', ms, hm⟩ := List.exists_cons_of_ne_nil h
    have hb := hq.busy
    have hst := hq.started
    rw [sendMessage_busy h]
    refine { hq with busy := ?_, started := ?_ }
    · simpa [hm] using hb
    · simpa [hm] using hst

theorem Queued.request (hq : Queued s) (r : Request) (hc : s.strand = false → s.messages = [] → s.protocol ≠ .compressed) :
    Queued (s.request r).1 := by
  have hq' : Queued { s with id := (r.message s.id).1, called := s.called ++ [(r.message s.id).2] } := { hq with }
  unfold Sender.request strandExecute
  split
  · rename_i hs
    exact { hq' with direct := fun h => absurd (hs.symm.trans h) (by decide) }
  · rename_i hs
    exact hq'.sendMessage _ (hc (by simpa using hs))

/-- A write is outstanding for the front message, and it is the only one. -/
theorem Queued.front (hq : Queued s) {w : Write} {ws : List Write} (hw : s.writes = w :: ws) :
    ws = [] ∧ ∃ m ms, s.messages = m :: ms := write_front (Nat.le_of_eq hq.busy) hw

/-- Behind the handler, where everything started was reported. -/
theorem Queued.advance (hw : s.writes = []) (hst : s.started = s.reports.map (·.message))
    (hd : s.strand = false → s.posted = []) (hc : s.messages.tail ≠ [] → s.protocol ≠ .compressed) :
    Queued s.advance.1 := by
  unfold Sender.advance
  dsimp only
  split
  · rename_i he
    have hne : s.messages.tail ≠ [] := by simpa using he
    exact Queued.sendQueueMessage (hc hne) hne hw hst hd
  · rename_i he
    have hn : s.messages.tail = [] := by simpa using he
    refine ⟨?_, ?_, ?_, hd⟩
    · simp [hw, hn]
    · simp [hw]
    · simp [hst, hn]

/-- The messages in front of the next write: without a strand those of the requests are among them. -/
theorem tail_ne_nil (s : Sender) (rs : List Request) (ms : List Message) :
    ms ++ (if s.strand then [] else messagesOf s.id rs) ≠ [] ↔ ms ≠ [] ∨ s.strand = false ∧ rs ≠ [] := by
  cases hs : s.strand with
  | true => simp
  | false => cases rs <;> simp [messagesOf, or_iff_not_imp_left]

/-- The handler of the write: the front message is reported, and the next one goes. -/
theorem Queued.handler (hq : Queued s) {error : Bool} {n : Nat} {ws : List Write} (hw : s.writes = .completed error n :: ws)
    {react : SendReaction} (ho : Calm s (.handler react)) :
    Queued (({ s with writes := ws }).sendQueueMessageHandler error n react).1 := by
  obtain ⟨rfl, m, ms, hm⟩ := hq.front hw
  obtain ⟨ht, hc⟩ := ho
  have hst := hq.started
  rw [hm, List.take_succ_cons, List.take_zero] at hst
  rw [hm, List.tail_cons] at hc
  unfold sendQueueMessageHandler
  rw [report_requests (s := { s with writes := [] }) hm, ht]
  refine Queued.advance rfl ?_ ?_ fun hne => hc ((tail_ne_nil s react.requests ms).1 hne)
  · simpa using hst
  · intro h
    simp [show s.strand = false from h, hq.direct h]

theorem Queued.step (hq : Queued s) {e : Event} (ho : Calm s e) (hs : s.step e = some s') : Queued s' := by
  cases step_cases hs with
  | request r => exact hq.request r ho
  | @sendMessage m ms hp =>
    refine Queued.sendMessage (s := { s with posted := ms }) { hq with direct := fun h => ?_ } m ho
    rw [hq.direct h] at hp
    cases hp
  | transfer hw =>
    obtain ⟨rfl, m, ms, hm⟩ := hq.front hw
    have hb := hq.busy
    refine { hq with busy := ?_, size := ?_ }
    · simpa [hw] using hb
    · simp
  | handler react hw => exact hq.handler hw ho
  | setProtocol p => exact { hq with }

/-! ## The buffer and the stream -/

/-- What the stream accepted and what is in the buffer are the messages started so far. -/
structure Wired (host : Endian) (p : Protocol) (s : Sender) : Prop where
  sameHost : s.host = host
  sameProtocol : s.protocol = p
  wire : s.stream ++ s.sendBuffer = s.started.flatMap (·.encoding host p)

theorem Wired.sendQueueMessage (hp : p.Streamed) (h : Wired host p s) : Wired host p s.sendQueueMessage.1 := by
  obtain ⟨hh, hpr, hwire⟩ := h
  subst hh hpr
  cases hm : s.messages with
  | nil =>
    unfold Sender.sendQueueMessage
    rw [hm]
    exact ⟨rfl, rfl, hwire⟩
  | cons m ms =>
    rw [sendQueueMessage_eq hp.ne_compressed hm]
    exact ⟨rfl, rfl, by simp [← List.append_assoc, hwire]⟩

theorem Wired.sendMessage (hp : p.Streamed) (h : Wired host p s) (m : Message) : Wired host p (s.sendMessage m).1 := by
  unfold Sender.sendMessage
  dsimp only
  split
  · exact Wired.sendQueueMessage hp { h with }
  · exact { h with }

theorem Wired.request (hp : p.Streamed) (h : Wired host p s) (r : Request) : Wired host p (s.request r).1 := by
  have h' : Wired host p { s with id := (r.message s.id).1, called := s.called ++ [(r.message s.id).2] } := { h with }
  unfold Sender.request strandExecute
  split
  · exact { h' with }
  · exact h'.sendMessage hp _

theorem Wired.advance (hp : p.Streamed) (h : Wired host p s) : Wired host p s.advance.1 := by
  unfold Sender.advance
  dsimp only
  split
  · exact Wired.sendQueueMessage hp { h with }
  · exact { h with }

theorem Wired.handler (hp : p.Streamed) (h : Wired host p s) (hm : s.messages = m :: ms) (error : Bool) (n : Nat)
    (react : SendReaction) : Wired host p (s.sendQueueMessageHandler error n react).1 := by
  unfold sendQueueMessageHandler
  rw [report_requests hm]
  cases react.throws with
  | some t => exact { h with }
  | none => exact Wired.advance hp { h with }

/-! ## The invariant -/

structure Good (host : Endian) (p : Protocol) (s : Sender) : Prop where
  sameHost : s.host = host
  sameProtocol : s.protocol = p
  /-- A write is outstanding exactly while a message is in the queue. -/
  busy : s.writes.length = (s.messages.take 1).length
  /-- The write covers the whole buffer. -/
  size : ∀ n, .running n ∈ s.writes → n = s.sendBuffer.length
  started : s.started = s.reports.map (·.message) ++ s.messages.take 1
  wire : s.stream ++ s.sendBuffer = s.started.flatMap (·.encoding host p)
  /-- Without a strand nothing waits for it. -/
  direct : s.strand = false → s.posted = []

theorem good_iff : Good host p s ↔ Queued s ∧ Wired host p s := by
  constructor
  · rintro ⟨hh, hp, hb, hsize, hst, hwire, hd⟩
    exact ⟨⟨hb, hsize, hst, hd⟩, ⟨hh, hp, hwire⟩⟩
  · rintro ⟨⟨hb, hsize, hst, hd⟩, ⟨hh, hp, hwire⟩⟩
    exact ⟨hh, hp, hb, hsize, hst, hwire, hd⟩

theorem Good.queued (hg : Good host p s) : Queued s := (good_iff.1 hg).1

theorem Good.wired (hg : Good host p s) : Wired host p s := (good_iff.1 hg).2

theorem Good.init : Good host p (system host p strand).init := good_iff.2 ⟨Queued.init host p strand, rfl, rfl, rfl⟩

/-- Where the protocol can be written and no handler throws, nothing does. -/
theorem Good.calm (hp : p.Streamed) (hg : Good host p s) {e : Event} (ho : Plain s e) : Calm s e := by
  have hc : s.protocol ≠ .compressed := by
    rw [hg.sameProtocol]
    exact hp.ne_compressed
  cases e with
  | request r => exact fun _ _ => hc
  | sendMessage => exact fun _ => hc
  | handler react => exact ⟨ho, fun _ => hc⟩
  | transfer | setProtocol => trivial

theorem Good.step (hp : p.Streamed) (hg : Good host p s) {e : Event} (ho : Plain s e) (hs : s.step e = some s') :
    Good host p s' := by
  have hwired := hg.wired
  refine good_iff.2 ⟨hg.queued.step (hg.calm hp ho) hs, ?_⟩
  cases step_cases hs with
  | request r => exact hwired.request hp r
  | @sendMessage m ms => exact Wired.sendMessage (s := { s with posted := ms }) hp { hwired with } m
  | transfer =>
    have hwire := hwired.wire
    exact { hwired with wire := by simpa using hwire }
  | @handler error n ws react hw =>
    obtain ⟨-, m, ms, hm⟩ := hg.queued.front hw
    exact Wired.handler (s := { s with writes := ws }) hp { hwired with } hm error n react
  | setProtocol p => exact ho.elim

theorem RunIf.good (hp : p.Streamed) {es : List Event} (h : (system host p strand).RunIf Plain es s) : Good host p s :=
  h.inv (Good host p) Good.init fun _ _ _ hg ho hs => hg.step hp ho hs

/-! ## The sender refines a queue -/

/-- A message is in the queue from the request until its write was reported. -/
def fifo (s : Sender) : Fifo Message := ⟨s.messages ++ s.posted, s.called, s.reports.map (·.message)⟩

theorem request_fifo (hd : s.strand = false → s.posted = []) (r : Request) :
    (s.request r).1.fifo =
      { s.fifo with queue := s.fifo.queue ++ [(r.message s.id).2], pushed := s.fifo.pushed ++ [(r.message s.id).2] } := by
  obtain ⟨b, w, st, e⟩ := request_change s r
  rw [e]
  cases hs : s.strand with
  | true => simp [fifo]
  | false => simp [fifo, hd hs]

/-- The handler pushes what it asks for, and pops the message it was told about. -/
theorem handler_fifo (hd : s.strand = false → s.posted = []) (hm : s.messages = m :: ms) (error : Bool) (n : Nat)
    {react : SendReaction} (ht : react.throws = none) :
    ∃ ds, (Fifo.system Message).Steps (fun _ _ => True) s.fifo ds (s.sendQueueMessageHandler error n react).1.fifo := by
  obtain ⟨b, w, st, e⟩ := handler_change hm error n ht
  rw [e]
  have hq : s.fifo.queue ++ messagesOf s.id react.requests =
      m :: (ms ++ (if s.strand then [] else messagesOf s.id react.requests) ++
        (s.posted ++ if s.strand then messagesOf s.id react.requests else [])) := by
    cases hs : s.strand with
    | true => simp [fifo, hm]
    | false => simp [fifo, hm, hd hs]
  have hrun := (Fifo.pushes s.fifo (messagesOf s.id react.requests)).trans (Fifo.pop _ hq)
  exact ⟨(messagesOf s.id react.requests).map .push ++ [.pop], by simpa [fifo] using hrun⟩

theorem step_fifo (hq : Queued s) {e : Event} (ho : Calm s e) (hs : s.step e = some s') :
    ∃ ds, (Fifo.system Message).Steps (fun _ _ => True) s.fifo ds s'.fifo := by
  cases step_cases hs with
  | request r =>
    rw [request_fifo hq.direct]
    exact ⟨_, Fifo.pushes s.fifo [(r.message s.id).2]⟩
  | @sendMessage m ms hp =>
    have he : (({ s with posted := ms }).sendMessage m).1.fifo = s.fifo := by
      obtain ⟨b, w, st, e⟩ := sendMessage_change { s with posted := ms } m
      rw [e]
      simp [fifo, hp]
    rw [he]
    exact ⟨[], .nil⟩
  | transfer | setProtocol => exact ⟨[], .nil⟩
  | @handler error n ws react hw =>
    obtain ⟨-, m, ms, hm⟩ := hq.front hw
    exact handler_fifo (s := { s with writes := ws }) hq.direct hm error n ho.1

/-- As long as nothing throws, nothing is lost, repeated or reordered between the calls and the
reports. -/
theorem RunIf.queued {es : List Event} (h : (system host p strand).RunIf Calm es s) :
    Queued s ∧ s.called = s.reports.map (·.message) ++ (s.messages ++ s.posted) := by
  have hi : ∀ s e s', Queued s → Calm s e → (system host p strand).step s e = some s' → Queued s' :=
    fun _ _ _ hq ho hs => hq.step ho hs
  obtain ⟨ds, hd⟩ := h.simulate (T := Fifo.system Message) fifo Queued (Queued.init host p strand) hi
    (fun _ _ _ hq ho hs => step_fifo hq ho hs)
  exact ⟨h.inv Queued (Queued.init host p strand) hi, Fifo.exact hd⟩

/-- A plain run is one in which nothing throws. -/
theorem RunIf.calm (hp : p.Streamed) {es : List Event} (h : (system host p strand).RunIf Plain es s) :
    (system host p strand).RunIf Calm es s :=
  h.mono_inv (Good host p) Good.init (fun _ _ _ hg ho hs => hg.step hp ho hs) fun _ _ _ hg ho _ => hg.calm hp ho

/-! ## The history is that of the events -/

/-- What a step adds to the history: the messages that the event asks for, and a
report where it is the handler of a write. -/
theorem step_history (hg : Good host p s) {e : Event} (ho : Plain s e) (hs : s.step e = some s') :
    s'.called = s.called ++ messagesOf s.id e.asked ∧ s'.id = idAfter s.id e.asked ∧
      s'.reports.length = s.reports.length + [e].countP Event.isHandler := by
  cases step_cases hs with
  | request r =>
    obtain ⟨b, w, st, e⟩ := request_change s r
    rw [e]
    exact ⟨rfl, rfl, rfl⟩
  | @sendMessage m ms =>
    obtain ⟨b, w, st, e⟩ := sendMessage_change { s with posted := ms } m
    rw [e]
    exact ⟨(List.append_nil _).symm, rfl, rfl⟩
  | transfer => exact ⟨(List.append_nil _).symm, rfl, rfl⟩
  | @handler error n ws react hw =>
    obtain ⟨-, m, ms, hm⟩ := hg.queued.front hw
    obtain ⟨b, w, st, e⟩ := handler_change (s := { s with writes := ws }) hm error n ho
    rw [e]
    exact ⟨rfl, rfl, by simp [Event.isHandler]⟩
  | setProtocol p => exact ho.elim

/-- The history of a run, read off its events. -/
theorem RunIf.history (hp : p.Streamed) {es : List Event} (h : (system host p strand).RunIf Plain es s) :
    s.called = messagesOf 0 (es.flatMap Event.asked) ∧ s.id = idAfter 0 (es.flatMap Event.asked) ∧
      s.reports.length = es.countP Event.isHandler := by
  refine h.inv_hist (fun es s => s.called = messagesOf 0 (es.flatMap Event.asked) ∧
    s.id = idAfter 0 (es.flatMap Event.asked) ∧ s.reports.length = es.countP Event.isHandler) ⟨rfl, rfl, rfl⟩ ?_
  rintro es s e s' hr ⟨hc, hid, hn⟩ ho hs
  obtain ⟨hc', hid', hn'⟩ := step_history (RunIf.good hp hr) ho hs
  rw [hid] at hc' hid'
  rw [List.flatMap_append, List.flatMap_singleton, messagesOf_append, List.countP_append, hc', hc, hid', hn', hn]
  exact ⟨rfl, by simp [idAfter, List.foldl_append], rfl⟩

/-! ## The main result -/

/-- In every state of every run whose handlers do not throw: exactly one write is
outstanding while the queue is not empty, and none otherwise. What the stream
accepted and what is in the buffer are the encodings of the messages started so
far. The reports are one for each run of the handler of a write, and tell of the
messages in the order of the calls. -/
theorem sends_in_order (hp : p.Streamed) {es : List Event} (h : (system host p strand).RunIf Plain es s) :
    (s.messages ≠ [] ↔ s.writes.length = 1) ∧ s.writes.length ≤ 1 ∧
    s.stream ++ s.sendBuffer = s.started.flatMap (·.encoding host p) ∧
    s.started = s.reports.map (·.message) ++ s.messages.take 1 ∧
    s.called = s.reports.map (·.message) ++ (s.messages ++ s.posted) ∧
    s.called = messagesOf 0 (es.flatMap Event.asked) ∧
    s.reports.length = es.countP Event.isHandler := by
  have hg := RunIf.good hp h
  obtain ⟨hc, -, hn⟩ := RunIf.history hp h
  refine ⟨?_, ?_, hg.wire, hg.started, (RunIf.queued (RunIf.calm hp h)).2, hc, hn⟩
  · rw [hg.busy]
    cases s.messages <;> simp
  · rw [hg.busy]
    exact (List.length_take_le _ _)

/-- A write fails after one byte, and its handler asks for a reply. -/
theorem sends_in_order_failed_write : ∃ s,
    (system .little .line true).RunIf Plain [.request (.action [97]), .sendMessage, .transfer true 1,
      .handler { requests := [.reply 7 [98]] }, .sendMessage, .transfer false 3] s ∧
    (s.messages ≠ [] ↔ s.writes.length = 1) ∧ s.stream ++ s.sendBuffer = s.started.flatMap (·.encoding .little .line) ∧
    s.stream = [97, 10, 98, 10] ∧ s.reports = [⟨true, 1, ⟨.action, 1, [97]⟩⟩] := by
  have hexec : (system .little .line true).exec Plain (system .little .line true).init
      [.request (.action [97]), .sendMessage, .transfer true 1, .handler { requests := [.reply 7 [98]] },
        .sendMessage, .transfer false 3] = some _ := rfl
  have hrun := System.Steps.of_exec hexec
  have h := sends_in_order (.inl rfl) hrun
  exact ⟨_, hrun, h.1, h.2.2.1, rfl, rfl⟩

end Sender
end Zar
