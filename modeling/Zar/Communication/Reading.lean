import Zar.Communication.Receiver
/-!
# Where a receiver stands

A receiver that goes on stands in a `Phase`: which read is outstanding, and how
much of the frame is in the buffer. `Follows` adds what was delivered. The frame
`k` is read in the protocol `q k`, so the handlers may change the protocol; they
may also throw, and reads may fail. Where the protocol becomes the basic one, the
buffer has to be empty, since a read of a size waits for new bytes.
-/

namespace Zar

variable {host : Endian} {p : Protocol} {r r' : Receiver} {rest rest' frame : Bytes}

/-- The terminator that `receive_message` waits for. -/
def Protocol.terminator : Protocol → Option Bytes
  | .line => some (text "\n")
  | .telnet => some (text "\r\n")
  | _ => none

theorem next_terminator {d : Bytes} (hd : p.terminator = some d) (host : Endian) (xs : Bytes) :
    (p.format host).next xs = (matchEnd d xs).map fun n => (xs.take n, xs.drop n) := by
  cases p <;> cases hd <;> rfl

theorem next_basic (host : Endian) (xs : Bytes) :
    (Protocol.basic.format host).next xs =
      if 4 ≤ xs.length ∧ 4 + (networkBufferToHost host (xs.take 4)).toNat ≤ xs.length then
        some ((xs.drop 4).take (networkBufferToHost host (xs.take 4)).toNat,
          xs.drop (4 + (networkBufferToHost host (xs.take 4)).toNat))
      else none := rfl

/-- The call of the handler for a frame, where the frame can be decoded. -/
def Protocol.call (host : Endian) (p : Protocol) (frame : Bytes) : Option Call :=
  match Message.decode host p frame with
  | .ok m => some ⟨false, frame.length, some m⟩
  | .error _ => none

namespace Receiver

/-! ## Phases -/

/-- What the receiver does next, and what is left of the stream: from the first byte
of the frame it reads. -/
inductive Phase (p : Protocol) (r : Receiver) : Bytes → Prop
  | posted (hpost : r.posted = 1) (hreads : r.reads = []) (hbuf : p = .basic → r.inputBuffer = []) :
      Phase p r (r.inputBuffer ++ r.unread)
  | terminator {d : Bytes} (hd : p.terminator = some d) (hpost : r.posted = 0) (hreads : r.reads = [.until d]) :
      Phase p r (r.inputBuffer ++ r.unread)
  | length (hp : p = .basic) (hpost : r.posted = 0)
      (hreads : r.reads = [.exactly 4 r.inputBuffer.length .asioReceiveHandlerReadLength])
      (hle : r.inputBuffer.length ≤ 4) : Phase p r (r.inputBuffer ++ r.unread)
  | payload (hp : p = .basic) {h : Bytes} {n : Nat} (hpost : r.posted = 0) (hlen : h.length = 4)
      (hn : (networkBufferToHost r.host h).toNat = n)
      (hreads : r.reads = [.exactly n r.inputBuffer.length .asioReceiveHandler])
      (hle : r.inputBuffer.length ≤ n) : Phase p r (h ++ (r.inputBuffer ++ r.unread))

/-- The only read is the first one. -/
theorem single_read {read read' : Read} {i : Nat} (h : [read][i]? = some read') : i = 0 ∧ read' = read := by
  cases i with
  | zero => exact ⟨rfl, (Option.some.inj h).symm⟩
  | succ i => cases h

theorem Phase.read (h : Phase p r rest) {i : Nat} {read : Read} (hi : r.reads[i]? = some read) :
    i = 0 ∧ r.reads = [read] ∧ r.posted = 0 := by
  cases h with
  | posted _ hreads => simp [hreads] at hi
  | terminator _ hpost hreads | length _ hpost hreads | payload _ hpost _ _ hreads =>
    rw [hreads] at hi ⊢
    obtain ⟨rfl, rfl⟩ := single_read hi
    exact ⟨rfl, rfl, hpost⟩

/-- There is one read, or one waits to start. -/
theorem Phase.outstanding (h : Phase p r rest) : r.posted + r.reads.length = 1 := by
  cases h with
  | posted hpost hreads | terminator _ hpost hreads | length _ hpost hreads | payload _ hpost _ _ hreads =>
    simp [hpost, hreads]

theorem Phase.arrive (h : Phase p r rest) (bs : Bytes) :
    Phase p { r with unread := r.unread ++ bs, arrived := r.arrived ++ bs } (rest ++ bs) := by
  cases h with
  | posted hpost hreads hbuf => rw [List.append_assoc]; exact .posted hpost hreads hbuf
  | terminator ht hpost hreads => rw [List.append_assoc]; exact .terminator ht hpost hreads
  | length hp hpost hreads hle => rw [List.append_assoc]; exact .length hp hpost hreads hle
  | payload hp hpost hlen hn hreads hle =>
    rw [List.append_assoc, List.append_assoc]
    exact .payload hp hpost hlen hn hreads hle

/-- Reading starts with an empty buffer, but for what `async_read_until` read too
much. -/
theorem receiveMessage_phase (hp : p.Streamed) (hpr : r.protocol = p) (hpost : r.posted = 0) (hreads : r.reads = [])
    (hbuf : p = .basic → r.inputBuffer = []) : Phase p (catching r.receiveMessage) (r.inputBuffer ++ r.unread) := by
  rcases hp with rfl | rfl | rfl
  · rw [receiveMessage, hpr]
    exact .terminator rfl hpost (by simp [catching, receiveUntil, hreads])
  · rw [receiveMessage, hpr]
    exact .terminator rfl hpost (by simp [catching, receiveUntil, hreads])
  · rw [receiveMessage, hpr]
    exact .length rfl hpost (by simp [catching, receiveBytes, hreads, hbuf]) (by simp [catching, receiveBytes, hbuf])

theorem receive_phase (hp : p.Streamed) (hpr : r.protocol = p) (hpost : r.posted = 0) (hreads : r.reads = [])
    (hbuf : p = .basic → r.inputBuffer = []) : Phase p (catching r.receive) (r.inputBuffer ++ r.unread) := by
  unfold receive
  split
  · exact .posted (by simp [catching, hpost]) hreads hbuf
  · exact receiveMessage_phase hp hpr hpost hreads hbuf

theorem receiveMessage_streamed (hp : r.protocol.Streamed) : ∃ reads, r.receiveMessage = ({ r with reads := reads }, none) := by
  unfold receiveMessage
  split
  · rename_i h
    simp [Protocol.Streamed, h] at hp
  · exact ⟨_, rfl⟩
  · exact ⟨_, rfl⟩
  · exact ⟨_, rfl⟩
  · rename_i h
    simp [Protocol.Streamed, h] at hp

/-- With a protocol that can be read, nothing is thrown. -/
theorem receive_streamed (hp : r.protocol.Streamed) :
    ∃ posted reads, catching r.receive = { r with posted := posted, reads := reads } := by
  unfold receive
  split
  · exact ⟨r.posted + 1, r.reads, by simp [catching]⟩
  · obtain ⟨reads, e⟩ := receiveMessage_streamed hp
    exact ⟨r.posted, reads, by simp [e, catching]⟩

/-- Reading moves bytes from the stream to the buffer, which leaves what is left. -/
theorem Phase.readSome (h : Phase p r rest) {i k : Nat} {read : Read} (hi : r.reads[i]? = some read)
    (hk : k ≤ read.wants r.inputBuffer r.unread) :
    Phase p { r with
      inputBuffer := r.inputBuffer ++ r.unread.take k
      unread := r.unread.drop k
      reads := r.reads.set i (read.take k) } rest := by
  have hsplit : r.inputBuffer ++ r.unread = (r.inputBuffer ++ r.unread.take k) ++ r.unread.drop k := by simp
  cases h with
  | posted _ hreads => simp [hreads] at hi
  | terminator ht hpost hreads =>
    rw [hreads] at hi ⊢
    obtain ⟨rfl, rfl⟩ := single_read hi
    rw [hsplit]
    exact .terminator ht hpost rfl
  | length hp hpost hreads hle =>
    rw [hreads] at hi ⊢
    obtain ⟨rfl, rfl⟩ := single_read hi
    have hlen : (r.unread.take k).length = k := by simp only [Read.wants] at hk; simp; omega
    rw [hsplit]
    refine .length hp hpost ?_ ?_
    · simp [Read.take, hlen]
    · simp only [Read.wants] at hk
      simp only [List.length_append, hlen]
      omega
  | payload hp hpost hh hn hreads hle =>
    rw [hreads] at hi ⊢
    obtain ⟨rfl, rfl⟩ := single_read hi
    have hlen : (r.unread.take k).length = k := by simp only [Read.wants] at hk; simp; omega
    rw [hsplit]
    refine .payload hp hpost hh hn ?_ ?_
    · simp [Read.take, hlen]
    · simp only [Read.wants] at hk
      simp only [List.length_append, hlen]
      omega

/-- A read that is complete read the length of a frame, or a whole frame. -/
theorem Phase.complete (h : Phase p r rest) {i n : Nat} {read : Read} (hi : r.reads[i]? = some read)
    (hc : read.complete r.inputBuffer = some n) :
    (p = .basic ∧ read = .exactly 4 4 .asioReceiveHandlerReadLength ∧ n = 4 ∧ r.inputBuffer.length = 4 ∧
      rest = r.inputBuffer ++ r.unread) ∨
    ((∀ (x : Receiver) error m react, x.handle read error m react = x.asioReceiveHandler error m react) ∧
      n ≤ r.inputBuffer.length ∧ (p = .basic ∨ 0 < n) ∧ (p = .basic → r.inputBuffer.drop n = []) ∧
      (p.format r.host).next rest = some (r.inputBuffer.take n, r.inputBuffer.drop n ++ r.unread)) := by
  cases h with
  | posted _ hreads => simp [hreads] at hi
  | terminator ht hpost hreads =>
    rw [hreads] at hi
    obtain ⟨rfl, rfl⟩ := single_read hi
    have hm : matchEnd _ r.inputBuffer = some n := hc
    have hle := (matchEnd_some hm).2.1
    refine .inr ⟨fun _ _ _ _ => rfl, hle, .inr ?_, ?_, ?_⟩
    · exact matchEnd_pos (by cases p <;> cases ht <;> decide) hm
    · rintro rfl
      cases ht
    · rw [next_terminator ht, matchEnd_append _ hm]
      simp [List.take_append_of_le_length hle, List.drop_append_of_le_length hle]
  | length hb hpost hreads hle =>
    rw [hreads] at hi
    obtain ⟨rfl, rfl⟩ := single_read hi
    obtain ⟨hlen, rfl⟩ := Read.complete_exactly.1 hc
    exact .inl ⟨hb, by rw [hlen], rfl, hlen, rfl⟩
  | @payload hb h n' hpost hh hn hreads hle =>
    rw [hreads] at hi
    obtain ⟨rfl, rfl⟩ := single_read hi
    obtain ⟨hlen, rfl⟩ := Read.complete_exactly.1 hc
    subst hb
    have hdrop : r.inputBuffer.drop n' = [] := by simp [← hlen]
    have ht : (h ++ (r.inputBuffer ++ r.unread)).take 4 = h := by rw [← hh, List.take_left]
    have e1 : (h ++ (r.inputBuffer ++ r.unread)).drop 4 = r.inputBuffer ++ r.unread := by rw [← hh, List.drop_left]
    have e2 : (h ++ (r.inputBuffer ++ r.unread)).drop (4 + n') = r.unread := by
      rw [← List.drop_drop, e1, ← hlen, List.drop_left]
    refine .inr ⟨fun _ _ _ _ => rfl, Nat.le_of_eq hlen.symm, .inl rfl, fun _ => hdrop, ?_⟩
    rw [next_basic, ht, hn, if_pos (by simp only [List.length_append]; omega), e1, e2,
      List.take_append_of_le_length (by omega), hdrop, List.nil_append]

/-- With a read that waits for more, and nothing more in the stream, no frame is complete. -/
theorem Phase.waiting (h : Phase p r rest) {i : Nat} {read : Read} (hi : r.reads[i]? = some read)
    (hc : read.complete r.inputBuffer = none) (hu : r.unread = []) :
    (p.format r.host).next rest = none ∧ (rest = [] → r.inputBuffer = []) := by
  obtain ⟨-, hr, -⟩ := h.read hi
  cases h with
  | posted _ hreads => simp [hreads] at hi
  | terminator ht _ hreads =>
    obtain rfl : _ = read := List.singleton_inj.1 (hreads.symm.trans hr)
    have hm : matchEnd _ r.inputBuffer = none := hc
    rw [next_terminator ht, hu, List.append_nil, hm]
    exact ⟨rfl, id⟩
  | length hb _ hreads hle =>
    subst hb
    obtain rfl : _ = read := List.singleton_inj.1 (hreads.symm.trans hr)
    have hlt : r.inputBuffer.length ≠ 4 := by simpa [Read.complete] using hc
    rw [next_basic, hu, List.append_nil, if_neg (by omega)]
    exact ⟨rfl, id⟩
  | @payload hb h n _ hh hn hreads hle =>
    subst hb
    obtain rfl : _ = read := List.singleton_inj.1 (hreads.symm.trans hr)
    have hlt : r.inputBuffer.length ≠ n := by simpa [Read.complete] using hc
    have ht : (h ++ (r.inputBuffer ++ r.unread)).take 4 = h := by rw [← hh, List.take_left]
    rw [next_basic, ht, hn, hu, if_neg (by simp only [List.length_append, List.length_nil]; omega)]
    refine ⟨rfl, fun he => ?_⟩
    rw [List.append_eq_nil_iff] at he
    rw [he.1] at hh
    cases hh

/-- All that arrived was read from the stream, and the outstanding read waits for more. -/
def Waits (r : Receiver) : Prop := r.unread = [] ∧ ∃ read, r.reads = [read] ∧ read.complete r.inputBuffer = none

/-- At rest the read waits for more, and nothing more is in the stream. -/
theorem Phase.at_rest (h : Phase p r rest) {strand : Bool} (hrest : (system host p strand).Rest Internal r) :
    ∃ read, r.reads[0]? = some read ∧ read.complete r.inputBuffer = none ∧ r.unread = [] := by
  have hread : ∀ read, r.reads = [read] → (∀ bytes k handler, read = .exactly bytes k handler → k ≤ bytes) →
      ∃ read, r.reads[0]? = some read ∧ read.complete r.inputBuffer = none ∧ r.unread = [] := by
    intro read hr hle
    have hc := hrest (.complete 0 {}) rfl
    have hs := hrest (.readSome 0 1) trivial
    simp only [system, Receiver.step, hr, List.getElem?_cons_zero] at hc hs
    have hnone : read.complete r.inputBuffer = none := by
      cases hn : read.complete r.inputBuffer with
      | none => rfl
      | some n => simp [hn] at hc
    have hw : ¬ 1 ≤ read.wants r.inputBuffer r.unread := by
      intro hk
      rw [if_pos ⟨Nat.zero_lt_one, hk⟩] at hs
      cases hs
    refine ⟨read, by rw [hr]; rfl, hnone, ?_⟩
    by_contra hu
    have hlen := List.length_pos_iff.2 hu
    cases read with
    | «until» d =>
      have hm : matchEnd d r.inputBuffer = none := hnone
      simp only [Read.wants, hm, if_true] at hw
      omega
    | exactly bytes k handler =>
      have hk := hle bytes k handler rfl
      have hne : k ≠ bytes := by simpa [Read.complete] using hnone
      simp only [Read.wants] at hw
      omega
  cases h with
  | posted hpost =>
    have hn := hrest .receiveMessage trivial
    simp [system, Receiver.step, hpost] at hn
  | terminator _ _ hreads => exact hread _ hreads (by rintro _ _ _ ⟨⟩)
  | length _ _ hreads hle => exact hread _ hreads (by rintro _ _ _ ⟨⟩; exact hle)
  | payload _ _ _ _ hreads hle => exact hread _ hreads (by rintro _ _ _ ⟨⟩; exact hle)

/-- The handler of the length starts the read of the rest of the frame. -/
theorem Phase.readLength (hp : p = .basic) (hpost : r.posted = 0) (hlen : r.inputBuffer.length = 4) (react : ReceiveReaction) :
    ∃ reads, catching (({ r with reads := [] }).asioReceiveHandlerReadLength false 4 react) = { r with
        totalBytesTransferred := (r.totalBytesTransferred + 4) % 2 ^ 64, inputBuffer := [], reads := reads } ∧
      Phase p { r with
        totalBytesTransferred := (r.totalBytesTransferred + 4) % 2 ^ 64, inputBuffer := [], reads := reads }
        (r.inputBuffer ++ r.unread) := by
  refine ⟨[.exactly (networkBufferToHost r.host r.inputBuffer).toNat 0 .asioReceiveHandler], ?_, ?_⟩
  · simp [asioReceiveHandlerReadLength, catching, count, consume, receiveBytes, hlen]
  · exact .payload hp hpost hlen rfl rfl (Nat.zero_le _)

/-- `asio_receive_handler` with the bytes of a frame: they cannot be decoded, or they are
consumed and the handler is called. -/
theorem asioReceiveHandler_frame (r : Receiver) (n : Nat) (react : ReceiveReaction) (hle : n ≤ r.inputBuffer.length) :
    (∃ t, r.protocol.call r.host (r.inputBuffer.take n) = none ∧
      r.asioReceiveHandler false n react = (r.count n, some t)) ∨
    ∃ call, r.protocol.call r.host (r.inputBuffer.take n) = some call ∧
      r.asioReceiveHandler false n react =
        match react.throws with
        | some t => ((((r.count n).consume n).callHandler call react).1, some t)
        | none => (((r.count n).consume n).callHandler call react).1.receive := by
  unfold asioReceiveHandler Protocol.call
  simp only [count, Bool.false_eq_true, if_false]
  cases hd : Message.decode r.host r.protocol (r.inputBuffer.take n) with
  | error t => exact .inl ⟨t, rfl, rfl⟩
  | ok m =>
    refine .inr ⟨⟨false, n, some m⟩, by simp [hle], ?_⟩
    cases ht : react.throws <;> simp [consume, callHandler, ht]

/-- A read that fails is reported, and its bytes are consumed. -/
theorem handle_fail (r : Receiver) (read : Read) (n : Nat) {react : ReceiveReaction} (ht : react.throws = none) :
    r.handle read true n react = (((r.count n).callHandler ⟨true, n, none⟩ react).1.consume n, none) := by
  unfold handle
  split <;> simp [asioReceiveHandlerReadLength, asioReceiveHandler, receiveError, callHandler, ht]

theorem Phase.transferred (h : Phase p r rest) {i : Nat} {read : Read} (hi : r.reads[i]? = some read) :
    read.transferred ≤ r.inputBuffer.length := by
  obtain ⟨-, hr, -⟩ := h.read hi
  cases h with
  | posted _ hreads => simp [hreads] at hi
  | terminator _ _ hreads | length _ _ hreads | payload _ _ _ _ hreads =>
    obtain rfl : _ = read := List.singleton_inj.1 (hreads.symm.trans hr)
    simp [Read.transferred]

/-! ## What arrives -/

def Event.arrives : Event → Bytes
  | .arrive bytes => bytes
  | _ => []

/-- What no handler changes. -/
structure Kept (r r' : Receiver) : Prop where
  host : r'.host = r.host
  strand : r'.strand = r.strand
  arrived : r'.arrived = r.arrived

theorem receiveMessage_kept (r : Receiver) : r.Kept r.receiveMessage.1 := by
  unfold receiveMessage
  split <;> exact ⟨rfl, rfl, rfl⟩

theorem receive_kept (r : Receiver) : r.Kept r.receive.1 := by
  unfold receive
  split
  · exact ⟨rfl, rfl, rfl⟩
  · exact receiveMessage_kept r

theorem receiveError_kept (r : Receiver) (n : Nat) (react : ReceiveReaction) : r.Kept (r.receiveError n react).1 := by
  unfold receiveError callHandler
  cases react.throws <;> exact ⟨rfl, rfl, rfl⟩

theorem handle_kept (r : Receiver) (read : Read) (error : Bool) (n : Nat) (react : ReceiveReaction) :
    r.Kept (r.handle read error n react).1 := by
  have herror : r.Kept ((r.count n).receiveError n react).1 :=
    ⟨(receiveError_kept _ n react).host, (receiveError_kept _ n react).strand, (receiveError_kept _ n react).arrived⟩
  unfold handle asioReceiveHandlerReadLength asioReceiveHandler
  split
  · dsimp only
    split
    · exact herror
    · split <;> exact ⟨rfl, rfl, rfl⟩
  · dsimp only
    split
    · exact herror
    · split
      · exact ⟨rfl, rfl, rfl⟩
      · unfold callHandler
        cases react.throws with
        | some t => exact ⟨rfl, rfl, rfl⟩
        | none => exact ⟨(receive_kept _).host, (receive_kept _).strand, (receive_kept _).arrived⟩

/-- Only an arrival changes what arrived. -/
theorem step_kept {e : Event} (hs : r.step e = some r') :
    r'.host = r.host ∧ r'.strand = r.strand ∧ r'.arrived = r.arrived ++ e.arrives := by
  have hkept : ∀ {x : Receiver} {y : Receiver × Option Thrown}, x.Kept y.1 →
      x.host = r.host → x.strand = r.strand → x.arrived = r.arrived →
      (catching y).host = r.host ∧ (catching y).strand = r.strand ∧ (catching y).arrived = r.arrived ++ [] := by
    intro x y h hh hst ha
    exact ⟨h.host.trans hh, h.strand.trans hst, by rw [← ha, List.append_nil]; exact h.arrived⟩
  cases step_cases hs with
  | arrive => exact ⟨rfl, rfl, rfl⟩
  | receive => exact hkept (receive_kept r) rfl rfl rfl
  | setProtocol | readSome => exact ⟨rfl, rfl, (List.append_nil _).symm⟩
  | receiveMessage => exact hkept (receiveMessage_kept { r with posted := r.posted - 1 }) rfl rfl rfl
  | @complete i _ _ react => exact hkept (handle_kept { r with reads := r.reads.eraseIdx i } _ false _ react) rfl rfl rfl
  | @fail i _ react => exact hkept (handle_kept { r with reads := r.reads.eraseIdx i } _ true _ react) rfl rfl rfl

theorem step_arrived {e : Event} (hs : r.step e = some r') : r'.arrived = r.arrived ++ e.arrives := (step_kept hs).2.2

/-! ## What was delivered -/

/-- The bytes that left the buffer were counted, and `surplus` more. -/
def Counted (r : Receiver) (surplus : Nat) : Prop :=
  ∃ n, r.totalBytesTransferred = (n + surplus) % 2 ^ 64 ∧ n + r.inputBuffer.length + r.unread.length = r.arrived.length

theorem Counted.consumed {surplus : Nat} (h : r.Counted surplus) {n : Nat} (hle : n ≤ r.inputBuffer.length)
    (ht : r'.totalBytesTransferred = (r.totalBytesTransferred + n) % 2 ^ 64) (hb : r'.inputBuffer = r.inputBuffer.drop n)
    (hu : r'.unread = r.unread) (ha : r'.arrived = r.arrived) : r'.Counted surplus := by
  obtain ⟨c, hc, hl⟩ := h
  refine ⟨c + n, ?_, ?_⟩
  · rw [ht, hc]
    omega
  · rw [hb, hu, ha, List.length_drop]
    omega

section
variable (q : Nat → Protocol) (T : Thrown → Prop) (F : Prop)

/-- Frames were delivered with `calls`, and `rest` is left of the stream. The receiver goes
on, or it stopped: at a frame that cannot be decoded, behind a handler that threw
(only what `T` allows), or at a read that failed (only where `F` allows it). -/
inductive Stage (host : Endian) (p : Protocol) (r : Receiver) (rest : Bytes) (calls : List Call) : Prop
  | reading (hp : r.protocol = p) (hcalls : r.calls = calls) (hc : r.Counted 0) (h : Phase p r rest)
  | malformed {frame rest' : Bytes} (hp : r.protocol = p) (hpost : r.posted = 0) (hreads : r.reads = [])
      (hcalls : r.calls = calls) (hc : r.Counted frame.length)
      (hn : (p.format host).next rest = some (frame, rest')) (hbad : p.call host frame = none)
  | threw {t : Thrown} (hpost : r.posted = 0) (hreads : r.reads = []) (hcalls : r.calls = calls) (hc : r.Counted 0) (ht : T t)
  | failed {n : Nat} (hpost : r.posted = 0) (hreads : r.reads = []) (hcalls : r.calls = calls ++ [⟨true, n, none⟩])
      (hc : r.Counted 0) (hf : F)

/-- Of what arrived, `frames` were read and `rest` is left; `calls` are the calls for the frames. -/
structure Heard (host : Endian) (r : Receiver) (frames : List Bytes) (rest : Bytes) (calls : List Call) : Prop where
  sameHost : r.host = host
  reads : Format.ReadsFrom (fun k => (q k).format host) r.arrived frames rest
  decoded : (frames.mapIdx fun k frame => (q k).call host frame) = calls.map some

structure Follows (host : Endian) (r : Receiver) (frames : List Bytes) (rest : Bytes) (calls : List Call) : Prop
    extends Heard q host r frames rest calls where
  stage : Stage T F host (q frames.length) r rest calls

/-- The handler leaves the connection in the protocol of the next frame. Nobody else calls
`receive` or `set_protocol`. -/
def Scheduled (r : Receiver) : Event → Prop
  | .arrive _ | .receiveMessage | .readSome _ _ => True
  | .complete _ react =>
    react.protocol.getD (q r.calls.length) = q (r.calls.length + 1) ∧ ∀ t, react.throws = some t → T t
  | .fail _ react => react.throws = none ∧ F
  | .receive | .setProtocol _ => False

/-- Where the basic protocol takes over, nothing is left in the buffer behind the message. Behind a
handler that throws nothing is read, so its buffer does not matter. -/
def Emptied (r : Receiver) : Event → Prop
  | .complete i react =>
    react.throws = none → q r.calls.length ≠ .basic → q (r.calls.length + 1) = .basic →
      ∀ read ∈ r.reads[i]?, ∀ n ∈ read.complete r.inputBuffer, r.inputBuffer.drop n = []
  | _ => True

end

variable {q : Nat → Protocol} {T : Thrown → Prop} {F : Prop} {frames : List Bytes} {calls : List Call}

theorem Heard.length (h : Heard q host r frames rest calls) : calls.length = frames.length := by
  simpa using (congrArg List.length h.decoded).symm

theorem mapM_of_mapIdx {α β : Type} {g : α → Option β} {xs : List α} {ys : List β}
    (h : (xs.mapIdx fun _ x => g x) = ys.map some) : xs.mapM g = some ys := by
  induction xs generalizing ys with
  | nil => simpa using h
  | cons x xs ih =>
    cases ys with
    | nil => simp at h
    | cons y ys =>
      rw [List.mapIdx_cons, List.map_cons, List.cons.injEq] at h
      simp [h.1, ih h.2]

/-- With one protocol, the calls are those for the frames. -/
theorem Heard.mapM (h : Heard (fun _ => p) host r frames rest calls) : frames.mapM (p.call host) = some calls :=
  mapM_of_mapIdx h.decoded

/-- Where every frame can be decoded. -/
theorem calls_total {g : Bytes → Call} (hg : ∀ frame, p.call host frame = some (g frame))
    (h : frames.mapM (p.call host) = some calls) : calls = frames.map g := by
  rw [funext hg] at h
  exact (Option.some.inj (List.mapM_pure.symm.trans h)).symm

/-- With one protocol, every frame that was delivered could be decoded. -/
theorem Heard.decodes (h : Heard (fun _ => p) host r frames rest calls) (hf : frame ∈ frames) :
    p.call host frame ≠ none := by
  obtain ⟨k, hk, rfl⟩ := List.getElem_of_mem hf
  have hmem : p.call host frames[k] ∈ frames.mapIdx fun _ frame => p.call host frame := List.mem_mapIdx.2 ⟨k, hk, rfl⟩
  rw [h.decoded] at hmem
  obtain ⟨call, -, he⟩ := List.mem_map.1 hmem
  simp [← he]

/-- A call for a frame has no error. -/
theorem Heard.call (h : Heard q host r frames rest calls) {call : Call} (hc : call ∈ calls) : call.error = false := by
  have hmem : some call ∈ frames.mapIdx fun k frame => (q k).call host frame := by
    rw [h.decoded]
    exact List.mem_map_of_mem hc
  obtain ⟨k, hk, he⟩ := List.mem_mapIdx.1 hmem
  unfold Protocol.call at he
  split at he
  · cases he
    rfl
  · cases he

theorem Heard.same (h : Heard q host r frames rest calls) (hh : r'.host = r.host) (ha : r'.arrived = r.arrived) :
    Heard q host r' frames rest calls := ⟨hh.trans h.sameHost, by rw [ha]; exact h.reads, h.decoded⟩

theorem Heard.deliver (h : Heard q host r frames rest calls)
    (hn : ((q frames.length).format host).next rest = some (frame, rest')) {call : Call}
    (hc : (q frames.length).call host frame = some call) :
    Heard q host r (frames ++ [frame]) rest' (calls ++ [call]) := by
  refine ⟨h.sameHost, h.reads.deliver hn, ?_⟩
  rw [List.mapIdx_concat, h.decoded, hc, List.map_append]
  rfl

theorem Follows.init (hq : (q 0).Streamed) (strand : Bool) :
    Follows q T F host (system host (q 0) strand).init [] [] [] := by
  let r₀ : Receiver := { host := host, protocol := q 0, strand := strand }
  obtain ⟨posted, reads, e⟩ := receive_streamed (r := r₀) hq
  have hphase := receive_phase (r := r₀) hq rfl rfl rfl (fun _ => rfl)
  change Follows q T F host (catching r₀.receive) [] [] []
  rw [e] at hphase ⊢
  exact ⟨⟨rfl, rfl, rfl⟩, .reading rfl rfl ⟨0, rfl, rfl⟩ hphase⟩

theorem Follows.arrive (h : Follows q T F host r frames rest calls) (bs : Bytes) :
    Follows q T F host { r with unread := r.unread ++ bs, arrived := r.arrived ++ bs } frames (rest ++ bs) calls := by
  have hc : ∀ {surplus}, r.Counted surplus →
      ({ r with unread := r.unread ++ bs, arrived := r.arrived ++ bs } : Receiver).Counted surplus := by
    rintro surplus ⟨n, ht, hl⟩
    refine ⟨n, ht, ?_⟩
    simp only [List.length_append]
    omega
  refine ⟨⟨h.sameHost, h.reads.arrive bs, h.decoded⟩, ?_⟩
  cases h.stage with
  | reading hp hcalls hcount hph => exact .reading hp hcalls (hc hcount) (hph.arrive bs)
  | malformed hp hpost hreads hcalls hcount hn hbad =>
    exact .malformed hp hpost hreads hcalls (hc hcount) (((q frames.length).format host).stable bs hn) hbad
  | threw hpost hreads hcalls hcount ht => exact .threw hpost hreads hcalls (hc hcount) ht
  | failed hpost hreads hcalls hcount hf => exact .failed hpost hreads hcalls (hc hcount) hf

/-- The frame that a read completed is delivered, or it cannot be decoded. -/
theorem Heard.message (hq : ∀ k, (q k).Streamed) (h : Heard q host r frames rest calls)
    (hp : r.protocol = q frames.length) (hcalls : r.calls = calls) (hcount : r.Counted 0) (hpost : r.posted = 0)
    (hreads : r.reads = []) {n : Nat} {react : ReceiveReaction} (hle : n ≤ r.inputBuffer.length)
    (hn : ((q frames.length).format host).next rest = some (r.inputBuffer.take n, r.inputBuffer.drop n ++ r.unread))
    (hnext : react.protocol.getD (q frames.length) = q (frames.length + 1))
    (hbuf : react.throws = none → q (frames.length + 1) = .basic → r.inputBuffer.drop n = [])
    (ht : ∀ t, react.throws = some t → T t) :
    ∃ frames' rest' calls',
      Follows q T F host (catching (r.asioReceiveHandler false n react)) frames' rest' calls' := by
  rcases asioReceiveHandler_frame r n react hle with ⟨t, hbad, e⟩ | ⟨call, hcall, e⟩
  · rw [hp, h.sameHost] at hbad
    rw [e]
    refine ⟨frames, rest, calls, h.same rfl rfl, .malformed hp hpost hreads hcalls ?_ hn hbad⟩
    obtain ⟨c, hc, hl⟩ := hcount
    refine ⟨c, ?_, hl⟩
    simp only [catching, count, hc, List.length_take]
    omega
  · rw [hp, h.sameHost] at hcall
    let r₁ : Receiver := (((r.count n).consume n).callHandler call react).1
    have hc₁ : r₁.Counted 0 := hcount.consumed hle rfl rfl rfl rfl
    have hcalls₁ : r₁.calls = calls ++ [call] := congrArg (· ++ [call]) hcalls
    have h' := h.deliver hn hcall
    refine ⟨frames ++ [r.inputBuffer.take n], r.inputBuffer.drop n ++ r.unread, calls ++ [call], ?_⟩
    cases hthrow : react.throws with
    | some t =>
      simp only [hthrow] at e
      rw [e]
      exact ⟨h'.same rfl rfl, .threw hpost hreads hcalls₁ hc₁ (ht t hthrow)⟩
    | none =>
      simp only [hthrow] at e
      rw [e]
      have hp₁ : r₁.protocol = q (frames.length + 1) := by
        rw [← hnext, ← hp]
        rfl
      have hphase := receive_phase (r := r₁) (hq _) hp₁ hpost hreads (hbuf hthrow)
      obtain ⟨posted, reads, e₁⟩ := receive_streamed (r := r₁) (hp₁ ▸ hq _)
      change Follows q T F host (catching r₁.receive) _ _ _
      rw [e₁] at hphase ⊢
      refine ⟨h'.same rfl rfl, ?_⟩
      rw [List.length_append]
      exact .reading hp₁ hcalls₁ hc₁ hphase

theorem Heard.complete (hq : ∀ k, (q k).Streamed) (h : Heard q host r frames rest calls)
    (hp : r.protocol = q frames.length) (hcalls : r.calls = calls) (hcount : r.Counted 0)
    (hph : Phase (q frames.length) r rest) {i n : Nat} {read : Read} {react : ReceiveReaction} (hi : r.reads[i]? = some read)
    (hc : read.complete r.inputBuffer = some n) (ho : Scheduled q T F r (.complete i react))
    (hem : Emptied q r (.complete i react)) :
    ∃ frames' rest' calls', Follows q T F host
      (catching (({ r with reads := r.reads.eraseIdx i }).handle read false n react)) frames' rest' calls' := by
  obtain ⟨rfl, hr, hpost⟩ := hph.read hi
  have he : r.reads.eraseIdx 0 = [] := by rw [hr]; rfl
  have hlen : r.calls.length = frames.length := by rw [hcalls, h.length]
  rw [he]
  rcases hph.complete hi hc with ⟨hb, rfl, rfl, h4, rfl⟩ | ⟨hhandle, hle, -, hbuf, hn⟩
  · obtain ⟨reads, e, hph'⟩ := Phase.readLength hb hpost h4 react
    refine ⟨frames, r.inputBuffer ++ r.unread, calls, ?_⟩
    change Follows q T F host (catching (({ r with reads := [] }).asioReceiveHandlerReadLength false 4 react)) _ _ _
    rw [e]
    refine ⟨h.same rfl rfl, .reading hp hcalls ?_ hph'⟩
    exact hcount.consumed (n := 4) (Nat.le_of_eq h4.symm) rfl (by simp [h4]) rfl rfl
  · obtain ⟨hnext, ht⟩ := ho
    simp only [Emptied, hlen] at hem
    rw [hlen] at hnext
    rw [h.sameHost] at hn
    rw [hhandle]
    have h' : Heard q host { r with reads := [] } frames rest calls := h.same rfl rfl
    refine h'.message hq hp hcalls hcount hpost rfl hle hn hnext (fun hthrow hb => ?_) ht
    by_cases hpb : q frames.length = .basic
    · exact hbuf hpb
    · exact hem hthrow hpb hb read hi n hc

theorem Follows.step (hq : ∀ k, (q k).Streamed) (h : Follows q T F host r frames rest calls) {e : Event}
    (ho : Scheduled q T F r e) (hem : Emptied q r e) (hs : r.step e = some r') :
    ∃ frames' rest' calls', Follows q T F host r' frames' rest' calls' := by
  cases step_cases hs with
  | arrive bs => exact ⟨_, _, _, h.arrive bs⟩
  | receive | setProtocol => exact ho.elim
  | receiveMessage hpos =>
    cases h.stage with
    | malformed _ hpost | threw hpost | failed hpost => omega
    | reading hp hcalls hcount hph =>
      cases hph with
      | terminator _ hpost | length _ hpost | payload _ hpost => omega
      | posted hpost hreads hbuf =>
        let r₁ : Receiver := { r with posted := r.posted - 1 }
        have hphase := receiveMessage_phase (r := r₁) (hq _) hp (show r.posted - 1 = 0 by omega) hreads hbuf
        obtain ⟨reads, e₁⟩ := receiveMessage_streamed (r := r₁) (hp ▸ hq _)
        change ∃ frames' rest' calls', Follows q T F host (catching r₁.receiveMessage) frames' rest' calls'
        have e₂ : catching r₁.receiveMessage = { r₁ with reads := reads } := by simp [e₁, catching]
        rw [e₂] at hphase ⊢
        exact ⟨_, _, _, h.toHeard.same rfl rfl, .reading hp hcalls hcount hphase⟩
  | readSome hi hk =>
    cases h.stage with
    | malformed _ _ hreads | threw _ hreads | failed _ hreads => simp [hreads] at hi
    | reading hp hcalls hcount hph =>
      refine ⟨_, _, _, h.toHeard.same rfl rfl, .reading hp hcalls ?_ (hph.readSome hi hk.2)⟩
      obtain ⟨n, ht, hl⟩ := hcount
      refine ⟨n, ht, ?_⟩
      simp only [List.length_append, List.length_take, List.length_drop]
      omega
  | complete react hi hn =>
    cases h.stage with
    | malformed _ _ hreads | threw _ hreads | failed _ hreads => simp [hreads] at hi
    | reading hp hcalls hcount hph => exact h.toHeard.complete hq hp hcalls hcount hph hi hn ho hem
  | @fail i read react hi =>
    obtain ⟨ht, hf⟩ := ho
    cases h.stage with
    | malformed _ _ hreads | threw _ hreads | failed _ hreads => simp [hreads] at hi
    | reading hp hcalls hcount hph =>
      obtain ⟨rfl, hr, hpost⟩ := hph.read hi
      rw [handle_fail _ _ _ ht]
      refine ⟨frames, rest, calls, h.toHeard.same rfl rfl, .failed (n := read.transferred) hpost ?_ ?_ ?_ hf⟩
      · simp [catching, consume, callHandler, count, hr]
      · exact congrArg (· ++ [_]) hcalls
      · exact hcount.consumed (hph.transferred hi) rfl rfl rfl rfl

/-- In every run the receiver follows the schedule. -/
theorem RunIf.follows (hq : ∀ k, (q k).Streamed) {strand : Bool} {ok : Receiver → Event → Prop} {es : List Event}
    (hok : ∀ r e, ok r e → Scheduled q T F r e ∧ Emptied q r e) (h : (system host (q 0) strand).RunIf ok es r) :
    ∃ frames rest calls, Follows q T F host r frames rest calls := by
  refine h.inv (fun r => ∃ frames rest calls, Follows q T F host r frames rest calls) ?_ ?_
  · exact ⟨_, _, _, Follows.init (hq 0) strand⟩
  · rintro r e r' ⟨frames, rest, calls, hf⟩ ho hs
    exact hf.step hq (hok r e ho).1 (hok r e ho).2 hs

end Receiver
end Zar
