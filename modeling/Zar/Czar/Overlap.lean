import Zar.Czar.Connection
import Zar.Czar.Input
/-!
# Attempts that overlap

`connected_` is the only guard of `connect`, and it is not set before an attempt ends.
So a second `/connect` behind one that is not finished is let through. Every attempt
that ends starts a read of the socket, with success or not.
-/

namespace Zar

/-! ## Reads of the socket -/

namespace Receiver

variable {r r' : Receiver}

/-- The reads that failed. -/
def failures (r : Receiver) : Nat := r.calls.countP (·.error)

/-- The calls of `receive` from outside: each is posted, a read, or failed. -/
def weight (r : Receiver) : Nat := r.posted + r.reads.length + r.failures

/-- The receiver of a connection that stays with the telnet protocol, which decodes everything. -/
structure Telnet (r : Receiver) : Prop where
  protocol : r.protocol = .telnet
  reads : ∀ read ∈ r.reads, ∃ terminator, read = .until terminator

theorem Telnet.receiveMessage (h : r.Telnet) : r.receiveMessage.1.Telnet ∧ r.receiveMessage.1.weight = r.weight + 1 := by
  have he : r.receiveMessage = (r.receiveUntil (text "\r\n"), none) := by
    unfold Receiver.receiveMessage
    rw [h.protocol]
  rw [he]
  refine ⟨⟨h.protocol, ?_⟩, ?_⟩
  · intro read hr
    rcases List.mem_append.1 hr with hr | hr
    · exact h.reads read hr
    · exact ⟨_, List.mem_singleton.1 hr⟩
  · simp only [receiveUntil, weight, failures, List.length_append, List.length_singleton]
    omega

theorem Telnet.receive (h : r.Telnet) : r.receive.1.Telnet ∧ r.receive.1.weight = r.weight + 1 := by
  unfold Receiver.receive
  split
  · refine ⟨⟨h.protocol, h.reads⟩, ?_⟩
    simp only [weight, failures]
    omega
  · exact h.receiveMessage

/-- The handler of a read receives again, or reports that the read failed. -/
theorem Telnet.handle (h : r.Telnet) (terminator : Bytes) (error : Bool) (n : Nat) :
    (r.handle (.until terminator) error n {}).1.Telnet ∧ (r.handle (.until terminator) error n {}).1.weight = r.weight + 1 := by
  have hdecode : ∀ frame, ∃ m, Message.decode r.host r.protocol frame = .ok m := by
    intro frame
    rw [h.protocol]
    exact ⟨_, rfl⟩
  cases error with
  | true =>
    refine ⟨⟨h.protocol, h.reads⟩, ?_⟩
    simp only [Receiver.handle, asioReceiveHandler, receiveError, callHandler, consume, count, weight, failures, if_true,
      List.countP_append, List.countP_singleton]
    omega
  | false =>
    obtain ⟨m, hm⟩ := hdecode (r.inputBuffer.take n)
    have he : r.handle (.until terminator) false n {} =
        (((r.count n).consume n).callHandler ⟨false, n, some m⟩ {}).1.receive := by
      simp only [Receiver.handle, asioReceiveHandler, count, callHandler, Bool.false_eq_true, if_false, hm]
    have hcall : (((r.count n).consume n).callHandler ⟨false, n, some m⟩ {}).1.weight = r.weight := by
      simp [callHandler, consume, count, weight, failures]
    have ht : (((r.count n).consume n).callHandler ⟨false, n, some m⟩ {}).1.Telnet := ⟨h.protocol, h.reads⟩
    rw [he, ← hcall]
    exact ht.receive

/-- The receiver itself starts a read exactly behind one that ended well. -/
theorem Telnet.step (h : r.Telnet) {e : Event} (hs : r.step e = some r') (ho : e.outside = false) (hr : e.reaction = {}) :
    r'.Telnet ∧ r'.weight = r.weight := by
  -- A read that ended leaves one less.
  have herase : ∀ {i : Nat} {read : Read}, r.reads[i]? = some read → Telnet { r with reads := r.reads.eraseIdx i } ∧
      weight { r with reads := r.reads.eraseIdx i } + 1 = r.weight := by
    intro i read hi
    have hlt := (List.getElem?_eq_some_iff.1 hi).1
    refine ⟨⟨h.protocol, fun read hm => h.reads read (List.mem_of_mem_eraseIdx hm)⟩, ?_⟩
    simp only [weight, failures, List.length_eraseIdx_of_lt hlt]
    omega
  cases step_cases hs with
  | receive | setProtocol => cases ho
  | arrive => exact ⟨⟨h.protocol, h.reads⟩, rfl⟩
  | receiveMessage hpost =>
    have hposted : Telnet { r with posted := r.posted - 1 } := ⟨h.protocol, h.reads⟩
    obtain ⟨ht, heq⟩ := hposted.receiveMessage
    refine ⟨⟨ht.protocol, ht.reads⟩, ?_⟩
    simp only [catching, weight, failures] at heq ⊢
    omega
  | readSome hi =>
    refine ⟨⟨h.protocol, fun read' hm => ?_⟩, by simp only [weight, failures, List.length_set]⟩
    rcases List.mem_or_eq_of_mem_set hm with hm | rfl
    · exact h.reads read' hm
    · obtain ⟨terminator, rfl⟩ := h.reads _ (List.mem_of_getElem? hi)
      exact ⟨terminator, rfl⟩
  | complete react hi =>
    cases (show react = {} from hr)
    obtain ⟨terminator, rfl⟩ := h.reads _ (List.mem_of_getElem? hi)
    obtain ⟨ht, heq⟩ := (herase hi).1.handle terminator false _
    exact ⟨⟨ht.protocol, ht.reads⟩, heq.trans (herase hi).2⟩
  | fail react hi =>
    cases (show react = {} from hr)
    obtain ⟨terminator, rfl⟩ := h.reads _ (List.mem_of_getElem? hi)
    obtain ⟨ht, heq⟩ := (herase hi).1.handle terminator true _
    exact ⟨⟨ht.protocol, ht.reads⟩, heq.trans (herase hi).2⟩

theorem step_failures {e : Event} (hs : r.step e = some r') : r.failures ≤ r'.failures := by
  unfold failures
  rcases step_calls hs with ⟨hc, -⟩ | ⟨n, hc, -⟩ | ⟨n, m, hc, -⟩ <;> rw [hc]
  · rw [List.countP_append]
    exact Nat.le_add_right _ _
  · rw [List.countP_append]
    exact Nat.le_add_right _ _

end Receiver

/-! ## The lines that were executed -/

namespace Application

variable {host : Endian} {a a' b : Application} {e : Event} {es : List Event}

theorem Change.executed (hc : Change a e a') : a'.executed = a.executed ++ (a.lineOf e).toList := by
  -- Errors and what is not a call leave no line.
  have hcalls : ∀ {e : Receiver.Event} {input : Receiver}, a.input.step e = some input →
      (input.calls.filterMap fun call => call.message.map (·.contents)) = a.executed ++ (a.lineOf (.input e)).toList := by
    intro e input hs
    rcases Receiver.step_calls hs with ⟨hc, hm⟩ | ⟨n, hc, hm⟩ | ⟨n, m, hc, hm⟩ <;>
      simp [hc, lineOf, hm, Application.executed]
  cases hc with
  | line hs _ _ _ => exact hcalls hs
  | input hs _ _ _ => exact hcalls hs
  | output | sender | receiver | connector | connected => exact (List.append_nil _).symm

/-! ## One attempt at a time -/

/-- The `/connect` lines that were executed. -/
def connectLines (a : Application) : Nat := a.executed.countP fun line => (parseLine line).isConnect

/-- A `/connect` line that is executed while the client is not connected comes when as many
reads of the socket have failed as there were such lines before it. -/
def Alone (a : Application) (e : Event) : Prop :=
  ∀ line ∈ a.lineOf e, (parseLine line).isConnect = true → a.connected = false →
    a.socket.receiver.failures = a.connectLines

instance (a : Application) (e : Event) : Decidable (Alone a e) :=
  inferInstanceAs (Decidable (∀ line ∈ a.lineOf e, _ → _ → _))

/-- At most one connect request is unfinished, and at most one read is outstanding. A
request that is started while one is unfinished makes it two. -/
structure NoOverlap (a : Application) : Prop where
  requests : a.socket.connector.unfinished ≤ 1
  reads : a.socket.receiver.posted + a.socket.receiver.reads.length ≤ 1

/-- The requests that are unfinished, or ended with a call of the handler. -/
def requests (a : Application) : Nat := a.socket.connector.unfinished + a.socket.connector.calls.length

/-- The requests that the event starts, none or one. -/
def asks (a : Application) (e : Event) : Nat :=
  (a.lineOf e).toList.countP fun line => (parseLine line).isConnect && !a.connected

/-- Before the client is connected every `/connect` line starts a request. -/
theorem Change.connectLines (hc : Change a e a') :
    a.connectLines + a.asks e ≤ a'.connectLines ∧ (a.connected = false → a'.connectLines = a.connectLines + a.asks e) := by
  rw [Application.connectLines, Application.connectLines, hc.executed, List.countP_append, asks]
  refine ⟨Nat.add_le_add_left (List.countP_mono_left fun line _ h => (Bool.and_eq_true_iff.1 h).1) _, fun hconn => ?_⟩
  simp [hconn]

/-- No request is lost unless the resolver found nothing. -/
theorem Change.requests (hh : Handled a) (hc : Change a e a') :
    a'.requests ≤ a.requests + a.asks e ∧
      (a'.connected = false → a'.socket.connector.passedEnd = false →
        a.connected = false ∧ a.socket.connector.passedEnd = false ∧ a'.requests = a.requests + a.asks e) := by
  unfold Application.requests
  cases hc with
  | @line e input line hs _ hline hr =>
    obtain ⟨hconn, -, hcalls, -, hend, hunf⟩ := executeLine_asked hh.strands line
    simp only [asks, hline, Option.toList_some, List.countP_singleton, hconn, hcalls, hend, hunf]
    refine ⟨?_, fun hc hp => ⟨hc, hp, ?_⟩⟩
    · cases (parseLine line).isConnect <;> cases a.connected <;> simp
      omega
    · simp only [hc, and_true, Bool.not_false, Bool.and_true]
      omega
  | input | output | sender | receiver => exact ⟨Nat.le_add_right _ _, fun hc hp => ⟨hc, hp, by simp_all [asks, lineOf]⟩⟩
  | @connector e connector hs hout hc =>
    rcases Connector.step_requests hs (by rintro _ _ rfl; cases hout) with ⟨-, heq, hpe⟩ | ⟨⟨error, hc'⟩, -⟩ | ⟨-, heq, hpe⟩
    · refine ⟨by simp only [hc, heq]; omega, fun hconn hp => ⟨hconn, hpe.symm.trans hp, by simp only [hc, heq]; rfl⟩⟩
    · simp [hc] at hc'
    · refine ⟨by simp only [hc]; omega, fun _ hp => ?_⟩
      rw [hpe hh.handler] at hp
      cases hp
  | @connected e connector error hs hout hc =>
    rcases Connector.step_requests hs (by rintro _ _ rfl; cases hout) with ⟨hc', -⟩ | ⟨-, heq, hpe⟩ | ⟨hc', -⟩
    · simp [hc] at hc'
    · have hsum : connector.unfinished + connector.calls.length =
          a.socket.connector.unfinished + a.socket.connector.calls.length := by
        rw [hc, List.length_append, List.length_singleton]
        omega
      refine ⟨hsum.le.trans (Nat.le_add_right _ _), fun hconn hp => ?_⟩
      exact ⟨(Bool.or_eq_false_iff.1 hconn).1, hpe.symm.trans hp, hsum⟩
    · simp [hc] at hc'

/-- Every attempt that ends starts one read. -/
theorem Change.reads (hh : Handled a) (ht : a.socket.receiver.Telnet) (hc : Change a e a') :
    a'.socket.receiver.Telnet ∧
      a'.socket.receiver.weight + a.socket.connector.calls.length =
        a.socket.receiver.weight + a'.socket.connector.calls.length := by
  cases hc with
  | @line _ _ line _ _ _ _ =>
    obtain ⟨-, hrec, hcalls, -⟩ := executeLine_asked hh.strands line
    exact ⟨by rw [hrec]; exact ht, by simp only [hrec, hcalls]⟩
  | input | output | sender => exact ⟨ht, rfl⟩
  | receiver hs hout hr _ =>
    obtain ⟨ht', heq⟩ := ht.step hs hout hr
    exact ⟨ht', by simp only [heq]⟩
  | connector _ _ hc => exact ⟨ht, by simp only [hc]⟩
  | connected _ _ hc =>
    obtain ⟨ht', heq⟩ := ht.receive
    refine ⟨ht', ?_⟩
    simp only [heq, hc, List.length_append, List.length_singleton]
    omega

/-- Requests against lines, and reads against requests. -/
structure Paced (a : Application) : Prop where
  handled : Handled a
  telnet : a.socket.receiver.Telnet
  requests : a.requests ≤ a.connectLines
  all : a.connected = false → a.socket.connector.passedEnd = false → a.requests = a.connectLines
  reads : a.socket.receiver.weight = a.socket.connector.calls.length

theorem Paced.change (h : Paced a) (hc : Change a e a') : Paced a' := by
  obtain ⟨hle, hall⟩ := hc.requests h.handled
  obtain ⟨ht, hreads⟩ := hc.reads h.handled h.telnet
  have hlines := hc.connectLines
  refine ⟨h.handled.change hc, ht, ?_, fun hconn hp => ?_, ?_⟩
  · exact (hle.trans (Nat.add_le_add_right h.requests _)).trans hlines.1
  · obtain ⟨hconn, hp, heq⟩ := hall hconn hp
    rw [heq, hlines.2 hconn, h.all hconn hp]
  · have heq := h.reads
    omega

theorem Reachable.paced (h : (system host).Reachable a) : Paced a := by
  refine h.inv Paced ?_ fun _ _ _ hi hs => hi.change (step_change hi.handled.strands hs)
  exact ⟨Handled.init host, ⟨rfl, by rintro read ⟨⟩⟩, le_rfl, fun _ _ => rfl, rfl⟩

/-- What is open: the requests that are unfinished, and the reads that did not fail. -/
theorem Paced.opened (h : Paced a) :
    a.socket.connector.unfinished + (a.socket.receiver.posted + a.socket.receiver.reads.length) +
      a.socket.receiver.failures = a.requests := by
  rw [Application.requests, ← h.reads, Receiver.weight]
  omega

theorem Change.failures (hst : a.Strands) (hc : Change a e a') :
    a.socket.receiver.failures ≤ a'.socket.receiver.failures := by
  cases hc with
  | @line _ _ line _ _ _ _ => rw [(executeLine_asked hst line).receiver]
  | input | output | sender | connector => exact le_rfl
  | receiver hs => exact Receiver.step_failures hs
  | connected => exact (congrArg (List.countP _) (Receiver.receive_calls _)).ge

/-- At most one request or read is open where every line finds none. -/
theorem Paced.single (h : Paced a) (ho : Alone a e) (hone : a.requests ≤ a.socket.receiver.failures + 1)
    (hc : Change a e a') : a'.requests ≤ a'.socket.receiver.failures + 1 := by
  have hfail := hc.failures h.handled.strands
  have hreq := (hc.requests h.handled).1
  by_cases hasks : a.asks e = 0
  · omega
  · obtain ⟨line, hline, hl⟩ := List.countP_pos_iff.1 (Nat.pos_of_ne_zero hasks)
    obtain ⟨hl, hconn⟩ := Bool.and_eq_true_iff.1 hl
    have heq := ho line (Option.mem_toList.1 hline) hl (by simpa using hconn)
    have hle : a.asks e ≤ 1 := by
      apply List.countP_le_length.trans
      cases a.lineOf e <;> simp
    have hrequests := h.requests
    omega

/-- What was started completes, and nobody types. -/
def Completes (_ : Application) : Event → Prop
  | .connector _ => True
  | .input _ | .output _ | .receiver _ | .sender _ => False

/-- A request that waits in the strand can fail at once, and starts a read all the same. -/
theorem resolve_fails (host : Endian) (h : Handled b) (hq : b.socket.connector.posted ≠ []) :
    ∃ es c, (system host).Steps Completes b es c ∧ c.socket.receiver = b.socket.receiver.receive.1 := by
  obtain ⟨q, qs, hq⟩ := List.exists_cons_of_ne_nil hq
  let resolving : Connector := ({ b.socket.connector with posted := qs }).asioResolve q.1 q.2
  have hresolve : (system host).step b (.connector .asioResolve) =
      some { b with socket := { b.socket with connector := resolving } } := by
    simp [resolving, system, step, Connector.Event.outside, stepConnector, Connector.step, hq, Connector.asioResolve]
  have hlast : resolving.resolves[b.socket.connector.resolves.length]? = some q := List.getElem?_concat_length
  have hfail : (system host).step { b with socket := { b.socket with connector := resolving } }
      (.connector (.resolved b.socket.connector.resolves.length none)) =
      some ((Application.asioCallbackSocketConnect { b with socket := { b.socket with
        connector := { resolving with
          resolves := resolving.resolves.eraseIdx b.socket.connector.resolves.length
          calls := resolving.calls ++ [true] } } } true).1) := by
    have hh : resolving.handler = true := h.handler
    simp [system, step, Connector.Event.outside, stepConnector, Connector.step, hlast, Connector.asioResolveHandler,
      Connector.callHandler, hh]
  have hfirst : (system host).Steps Completes b [.connector .asioResolve]
      { b with socket := { b.socket with connector := resolving } } := System.Steps.one trivial hresolve
  exact ⟨_, _, .snoc hfirst (show Completes _ (.connector _) from trivial) hfail, rfl⟩

theorem executeLine_posted (h : Handled a) {line : Bytes} (hl : (parseLine line).isConnect = true) (hconn : a.connected = false) :
    (a.executeLine line).1.socket.connector.posted ≠ [] := by
  cases hp : parseLine line with
  | connect server =>
    have hacc : ¬ a.Refused (parseLine line) := by simp [hp, Refused, hconn]
    rw [executeLine_accepted h.strands.sender hacc, hp]
    simp [effect, TcpSocket.connect, Connector.connect, h.strand]
  | blank | begin | «end» | unknown | server =>
    rw [hp] at hl
    cases hl

/-- In every run in which a `/connect` line finds no earlier attempt or its read, requests and
reads never overlap. Behind a line that does find one they do when its own request completes in an
order that can happen, unless the resolver found nothing before. -/
theorem never_overlaps (host : Endian) :
    (∀ es a, (system host).RunIf Alone es a → NoOverlap a) ∧
    ∀ a e b, (system host).Reachable a → a.socket.connector.passedEnd = false → a.step e = some b → ¬ Alone a e →
      ∃ es c, (system host).Steps Completes b es c ∧ ¬ NoOverlap c := by
  constructor
  · intro es a h
    obtain ⟨hp, hone⟩ : Paced a ∧ a.requests ≤ a.socket.receiver.failures + 1 := by
      refine h.inv (fun a => Paced a ∧ a.requests ≤ a.socket.receiver.failures + 1)
        ⟨Reachable.paced System.reachable_init, Nat.zero_le _⟩ ?_
      rintro a e a' ⟨hp, hone⟩ ho hs
      have hc := step_change hp.handled.strands hs
      exact ⟨hp.change hc, hp.single ho hone hc⟩
    have hopen := hp.opened
    exact ⟨by omega, by omega⟩
  · intro a e b hr hend hs hnot
    have hp := Reachable.paced hr
    have hc := step_change hp.handled.strands hs
    have hb := hp.change hc
    obtain ⟨line, hline, hl, hconn, hne⟩ : ∃ line, a.lineOf e = some line ∧ (parseLine line).isConnect = true ∧
        a.connected = false ∧ a.socket.receiver.failures ≠ a.connectLines := by
      simpa [Alone] using hnot
    by_cases hb' : NoOverlap b
    · cases hc with
      | @line e input line' hs' ho hline' hr' =>
        obtain rfl : line = line' := Option.some.inj (hline.symm.trans hline')
        obtain ⟨-, hrec, -, -, -, hunf⟩ := executeLine_asked hp.handled.strands line
        -- Of the first attempt nothing is left but a read, and the new one ends at once.
        have hopen := hp.opened
        have hall := hp.all hconn hend
        have hle := hb'.requests
        rw [if_pos ⟨hl, hconn⟩] at hunf
        obtain ⟨es, c, hsteps, hc⟩ := resolve_fails host hb.handled (executeLine_posted hp.handled hl hconn)
        refine ⟨es, c, hsteps, fun hno => ?_⟩
        have hread := hno.reads
        simp only [hc, hrec, Receiver.receive, hp.handled.strands.receiver, if_true] at hread
        simp only [hunf] at hle
        omega
      | input _ _ hnone _ =>
        rw [hnone] at hline
        cases hline
      | output | sender | receiver | connector | connected => cases hline
    · exact ⟨[], b, .nil, hb'⟩

/-- The second line comes when the read that the first attempt started has failed. -/
theorem never_overlaps_retry : ∃ a,
    (system .little).RunIf Alone [.input .receiveMessage, .input (.arrive (text "/connect x\n/connect y\n")),
      .input (.readSome 0 22), .input (.complete 0 {}), .connector .asioResolve, .connector (.resolved 0 none),
      .receiver .receiveMessage, .receiver (.fail 0 {}), .input .receiveMessage, .input (.complete 0 {})] a ∧
    NoOverlap a ∧ a.connectLines = 2 ∧ a.socket.connector.unfinished = 1 := by
  have hexec : (system .little).exec Alone (system .little).init [.input .receiveMessage,
      .input (.arrive (text "/connect x\n/connect y\n")), .input (.readSome 0 22), .input (.complete 0 {}),
      .connector .asioResolve, .connector (.resolved 0 none), .receiver .receiveMessage, .receiver (.fail 0 {}),
      .input .receiveMessage, .input (.complete 0 {})] = some _ := rfl
  have hrun := System.Steps.of_exec hexec
  exact ⟨_, hrun, (never_overlaps .little).1 _ _ hrun, rfl, rfl⟩

/-- Two lines at once: the second request is started before the first one is resolved, and
both attempts start a read. -/
theorem connect_overlaps :
    (∃ a, (system .little).Run [.input .receiveMessage, .input (.arrive (text "/connect x\n/connect y\n")),
        .input (.readSome 0 22), .input (.complete 0 {}), .input .receiveMessage, .input (.complete 0 {})] a ∧
      a.socket.connector.unfinished = 2 ∧ ¬ NoOverlap a) ∧
    ∃ a, (system .little).Run [.input .receiveMessage, .input (.arrive (text "/connect x\n/connect y\n")),
        .input (.readSome 0 22), .input (.complete 0 {}), .input .receiveMessage, .input (.complete 0 {}),
        .connector .asioResolve, .connector .asioResolve, .connector (.resolved 0 none), .connector (.resolved 0 none),
        .receiver .receiveMessage, .receiver .receiveMessage] a ∧
      a.socket.receiver.reads.length = 2 ∧ ¬ NoOverlap a := by
  constructor
  · have hexec : (system .little).exec (fun _ _ => True) (system .little).init [.input .receiveMessage,
        .input (.arrive (text "/connect x\n/connect y\n")), .input (.readSome 0 22), .input (.complete 0 {}),
        .input .receiveMessage, .input (.complete 0 {})] = some _ := rfl
    exact ⟨_, System.Steps.of_exec hexec, rfl, fun h => absurd h.requests (by decide)⟩
  · have hexec : (system .little).exec (fun _ _ => True) (system .little).init [.input .receiveMessage,
        .input (.arrive (text "/connect x\n/connect y\n")), .input (.readSome 0 22), .input (.complete 0 {}),
        .input .receiveMessage, .input (.complete 0 {}), .connector .asioResolve, .connector .asioResolve,
        .connector (.resolved 0 none), .connector (.resolved 0 none), .receiver .receiveMessage,
        .receiver .receiveMessage] = some _ := rfl
    exact ⟨_, System.Steps.of_exec hexec, rfl, fun h => absurd h.reads (by decide)⟩

end Application
end Zar
