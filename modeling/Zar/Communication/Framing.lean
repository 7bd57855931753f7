import Zar.Communication.Reading
import Zar.Communication.Sender
/-!
# The receiver reads what the sender wrote

However the stream is cut into pieces, the frames that the receiver has
delivered are the ones at the front of what arrived, as the format of the
protocol parses it. `Framed` says so for every state of a run; where a frame
cannot be decoded the receiver stops in front of it.
-/

namespace Zar

variable {host : Endian} {p : Protocol} {r r' : Receiver} {frames : List Bytes} {rest rest' frame : Bytes}

namespace Receiver

/-! ## The invariant -/

/-- Of what arrived, `frames` were delivered and `rest` is left. -/
structure Delivered (host : Endian) (p : Protocol) (r : Receiver) (frames : List Bytes) (rest : Bytes) : Prop where
  sameHost : r.host = host
  sameProtocol : r.protocol = p
  reads : (p.format host).Reads r.arrived frames rest
  calls : frames.mapM (p.call host) = some r.calls

/-- The receiver goes on, or it stopped at a frame that cannot be decoded. -/
def Framed (host : Endian) (p : Protocol) (r : Receiver) : Prop :=
  ∃ frames rest, Delivered host p r frames rest ∧
    (Phase p r rest ∨
      r.posted = 0 ∧ r.reads = [] ∧
        ∃ frame rest', (p.format host).next rest = some (frame, rest') ∧ p.call host frame = none)

/-- With one protocol, and handlers that never throw. -/
theorem Follows.framed {calls : List Call}
    (h : Follows (fun _ => p) (fun _ => False) False host r frames rest calls) : Framed host p r := by
  have hd : ∀ {x : Protocol}, x = p → r.protocol = x → r.calls = calls → Delivered host p r frames rest := by
    rintro x rfl hp rfl
    exact ⟨h.sameHost, hp, Format.readsFrom_const.1 h.reads, h.mapM⟩
  cases h.stage with
  | reading hp hcalls _ hph => exact ⟨frames, rest, hd rfl hp hcalls, .inl hph⟩
  | malformed hp hpost hreads hcalls _ hn hbad =>
    exact ⟨frames, rest, hd rfl hp hcalls, .inr ⟨hpost, hreads, _, _, hn, hbad⟩⟩
  | threw _ _ _ _ ht => exact ht.elim
  | failed _ _ _ _ hf => exact hf.elim

/-- What a plain run follows. -/
def Undisturbed (host : Endian) (p : Protocol) (r : Receiver) : Prop :=
  ∃ frames rest calls, Follows (fun _ => p) (fun _ => False) False host r frames rest calls

theorem Undisturbed.framed (h : Undisturbed host p r) : Framed host p r := by
  obtain ⟨frames, rest, calls, hf⟩ := h
  exact hf.framed

theorem Undisturbed.step (hp : p.Streamed) (h : Undisturbed host p r) {e : Event} (ho : Plain r e)
    (hs : r.step e = some r') : Undisturbed host p r' := by
  obtain ⟨frames, rest, calls, hf⟩ := h
  refine hf.step (fun _ => hp) ?_ ?_ hs
  · cases e with
    | arrive | receiveMessage | readSome => trivial
    | complete i react =>
      cases (show react = {} from ho)
      exact ⟨rfl, by simp⟩
    | receive | fail | setProtocol => exact ho.elim
  · cases e with
    | complete => exact fun _ hne he => absurd he hne
    | arrive | receive | receiveMessage | readSome | fail | setProtocol => trivial

theorem RunIf.undisturbed (hp : p.Streamed) {strand : Bool} {es : List Event}
    (h : (system host p strand).RunIf Plain es r) : Undisturbed host p r :=
  h.inv (Undisturbed host p) ⟨_, _, _, Follows.init (q := fun _ => p) hp strand⟩ fun _ _ _ hi ho hs => hi.step hp ho hs

/-! ## At rest everything that is complete was delivered -/

theorem Framed.at_rest (h : Framed host p r) {strand : Bool} (hrest : (system host p strand).Rest Internal r) :
    ∃ frames rest, Delivered host p r frames rest ∧
      ((p.format host).next rest = none ∧ (rest = [] → r.inputBuffer = []) ∨
        ∃ frame rest', (p.format host).next rest = some (frame, rest') ∧ p.call host frame = none) := by
  obtain ⟨frames, rest, hd, hs⟩ := h
  refine ⟨frames, rest, hd, ?_⟩
  rcases hs with hs | ⟨-, -, hbad⟩
  · obtain ⟨read, hi, hc, hu⟩ := hs.at_rest hrest
    have hnone := hs.waiting hi hc hu
    rw [hd.sameHost] at hnone
    exact .inl hnone
  · exact .inr hbad

/-- The calls for frames in a row, up to the first that cannot be decoded. -/
def callsFor (host : Endian) (p : Protocol) : List Bytes → List Call
  | [] => []
  | frame :: frames =>
    match p.call host frame with
    | none => []
    | some call => call :: callsFor host p frames

theorem callsFor_append {calls : List Call} (h : frames.mapM (p.call host) = some calls) (later : List Bytes) :
    callsFor host p (frames ++ later) = calls ++ callsFor host p later := by
  induction frames generalizing calls with
  | nil =>
    obtain rfl := Option.some.inj h
    rfl
  | cons frame frames ih =>
    rw [List.mapM_cons] at h
    simp only [Option.bind_eq_bind, Option.bind_eq_some_iff] at h
    obtain ⟨call, hcall, calls, hcalls, he⟩ := h
    obtain rfl := Option.some.inj he
    simp only [List.cons_append, callsFor, hcall, ih hcalls]

/-- What was delivered at rest depends on the stream only. -/
theorem Framed.calls_at_rest (h : Framed host p r) {strand : Bool} (hrest : (system host p strand).Rest Internal r) :
    r.calls = callsFor host p ((p.format host).parse r.arrived).1 := by
  obtain ⟨frames, rest, hd, hend⟩ := h.at_rest hrest
  have hreads := hd.reads
  unfold Format.Reads at hreads
  rw [hreads, callsFor_append hd.calls]
  rcases hend with ⟨hnone, -⟩ | ⟨frame, rest', hn, hbad⟩
  · rw [Format.parse_none hnone, callsFor, List.append_nil]
  · rw [Format.parse_some hn, callsFor, hbad, List.append_nil]

/-! ## The receiver comes to rest -/

/-- What is left to do: every byte is read and then consumed, and a read follows on
`receive_message`. -/
def work (r : Receiver) : Nat := 3 * r.unread.length + 2 * r.inputBuffer.length + 2 * r.posted + r.reads.length

theorem receive_work (r : Receiver) : (catching r.receive).work ≤ r.work + 2 := by
  unfold receive receiveMessage
  split
  · simp only [catching, work]
    omega
  · split <;> simp only [catching, work, receiveUntil, receiveBytes, List.length_append, List.length_singleton] <;> omega

/-- A message uses up bytes of the buffer. -/
theorem asioReceiveHandler_work {n : Nat}
    (hpos : ∀ m, Message.decode r.host r.protocol (r.inputBuffer.take n) = .ok m → 0 < n)
    (hle : n ≤ r.inputBuffer.length) : (catching (r.asioReceiveHandler false n {})).work ≤ r.work := by
  unfold Receiver.asioReceiveHandler
  simp only [count, Bool.false_eq_true, if_false]
  split
  · exact Nat.le_refl _
  · rename_i m hm
    have hn := hpos m hm
    have h1 := receive_work { r with
      totalBytesTransferred := (r.totalBytesTransferred + n) % 2 ^ 64
      inputBuffer := r.inputBuffer.drop n
      calls := r.calls ++ [⟨false, n, some m⟩] }
    apply Nat.le_trans h1
    simp only [work, List.length_drop]
    omega

theorem decode_basic_pos {bs : Bytes} {m : Message} (h : Message.decode host .basic bs = .ok m) : 5 ≤ bs.length := by
  simp only [Message.decode] at h
  split at h
  · cases h
  · omega

theorem Framed.complete_work (h : Framed host p r) {i n : Nat} {read : Read}
    (hi : r.reads[i]? = some read) (hc : read.complete r.inputBuffer = some n) :
    (catching (({ r with reads := r.reads.eraseIdx i }).handle read false n {})).work < r.work := by
  obtain ⟨frames, rest, hd, hs⟩ := h
  rcases hs with hs | ⟨-, hreads, -⟩
  · obtain ⟨rfl, hr, hpost⟩ := hs.read hi
    have he : r.reads.eraseIdx 0 = [] := by rw [hr]; rfl
    -- The read is gone.
    have hlt : ({ r with reads := [] }).work + 1 = r.work := by simp [work, hr]
    refine Nat.lt_of_le_of_lt (m := ({ r with reads := [] }).work) ?_ (by omega)
    rw [he]
    rcases hs.complete hi hc with ⟨hb, rfl, rfl, h4, -⟩ | ⟨hhandle, hle, hpos, -⟩
    · simp only [Receiver.handle, work, catching, asioReceiveHandlerReadLength, Bool.false_eq_true, if_false, ne_eq, not_true_eq_false,
        receiveBytes, consume, count, List.nil_append, Option.toList_none, List.append_nil, List.length_drop, h4,
        List.length_cons, List.length_nil]
      omega
    · rw [hhandle]
      refine asioReceiveHandler_work (r := { r with reads := [] }) (fun m hm => ?_) hle
      rcases hpos with hb | hpos
      · have h5 := decode_basic_pos ((hd.sameProtocol.trans hb) ▸ hm)
        rw [List.length_take] at h5
        omega
      · exact hpos
  · simp [hreads] at hi

/-- Every step of the receiver itself leaves less to do. -/
theorem Framed.work_lt (hp : p.Streamed) (h : Framed host p r) {e : Event} (ho : Internal r e)
    (hs : r.step e = some r') : r'.work < r.work := by
  cases step_cases hs with
  | receiveMessage =>
    obtain ⟨frames, rest, hd, -⟩ := h
    rcases hp with rfl | rfl | rfl <;>
      simp only [Receiver.receiveMessage, hd.sameProtocol, catching, work, receiveUntil, receiveBytes,
        List.length_append, List.length_singleton] <;> omega
  | @readSome i k read hi hk =>
    have hu : k ≤ r.unread.length := by
      obtain ⟨-, hk⟩ := hk
      cases read <;> simp only [Read.wants] at hk
      · split at hk <;> omega
      · omega
    simp only [work, List.length_append, List.length_take, List.length_drop, List.length_set]
    omega
  | complete react hi hn =>
    cases (show react = {} from ho)
    exact h.complete_work hi hn
  | arrive | receive | fail | setProtocol => exact ho.elim

theorem internal_plain {e : Event} (ho : Internal r e) : Plain r e := by
  cases e <;> first | exact ho | trivial

theorem Undisturbed.work_lt (hp : p.Streamed) {strand : Bool} (r : Receiver) (e : Event) (r' : Receiver)
    (h : Undisturbed host p r) (ho : Internal r e) (hs : (system host p strand).step r e = some r') :
    Undisturbed host p r' ∧ r'.work < r.work := ⟨h.step hp (internal_plain ho) hs, h.framed.work_lt hp ho hs⟩

/-- The receiver's own steps end. -/
theorem Undisturbed.work_le (hp : p.Streamed) {strand : Bool} {es : List Event} (h : Undisturbed host p r)
    (hs : (system host p strand).Steps Internal r es r') : es.length ≤ r.work :=
  Nat.le_trans (Nat.le_add_right _ _) (hs.length_le work _ h (Undisturbed.work_lt hp))

theorem Undisturbed.exists_rest (hp : p.Streamed) {strand : Bool} (h : Undisturbed host p r) :
    ∃ es r', (system host p strand).Steps Internal r es r' ∧ (system host p strand).Rest Internal r' :=
  System.exists_rest work _ (Undisturbed.work_lt hp) h

theorem Undisturbed.internal (hp : p.Streamed) {strand : Bool} {es : List Event} (h : Undisturbed host p r)
    (hs : (system host p strand).Steps Internal r es r') : Undisturbed host p r' :=
  hs.inv _ h fun _ _ _ h ho hs => h.step hp (internal_plain ho) hs

end Receiver

/-! ## The round trip -/

/-- The call of the handler that a message leads to at the other end. -/
def Message.delivery (host : Endian) (p : Protocol) (m : Message) : Call :=
  ⟨false, (p.raw (m.encoding host p)).length, some (m.received p)⟩

/-- The frames of encoded messages. -/
theorem parse_encoded (host host' : Endian) {ms : List Message} (hr : ∀ m ∈ ms, m.Representable p) :
    (p.format host').parse (ms.flatMap (·.encoding host p)) = (ms.map fun m => p.raw (m.encoding host p), []) :=
  Format.parse_flatMap _ _ ms fun m hm => (format_encoding (hr m hm) host host').1

theorem call_encoded (host host' : Endian) {m : Message} (hr : m.Representable p) :
    p.call host' (p.raw (m.encoding host p)) = some (m.delivery host p) := by
  simp [Protocol.call, (format_encoding hr host host').2, Message.delivery]

theorem calls_encoded (host host' : Endian) {ms : List Message} (hr : ∀ m ∈ ms, m.Representable p) :
    (ms.map fun m => p.raw (m.encoding host p)).mapM (p.call host') = some (ms.map (·.delivery host p)) := by
  induction ms with
  | nil => rfl
  | cons m ms ih =>
    rw [List.map_cons, List.mapM_cons, call_encoded host host' (hr m (by simp)), ih fun m' hm' => hr m' (by simp [hm'])]
    rfl

/-- While the encoding of `ms` arrives, the frames read are the first frames of it. -/
theorem reads_encoded {host' : Endian} {ms : List Message} (hr : ∀ m ∈ ms, m.Representable p) {a : Bytes}
    (ha : a <+: ms.flatMap (·.encoding host p)) (h : (p.format host').Reads a frames rest) :
    frames <+: ms.map fun m => p.raw (m.encoding host p) := by
  obtain ⟨later, ha⟩ := ha
  have hparse := h.arrive later
  unfold Format.Reads at hparse
  rw [ha, parse_encoded host host' hr] at hparse
  exact ⟨_, (congrArg Prod.fst hparse).symm⟩

namespace Receiver

/-- What was delivered while the encoding of `ms` arrives are the first messages of `ms`. -/
theorem Delivered.first {host' : Endian} {ms : List Message} (hd : Delivered host' p r frames rest)
    (hr : ∀ m ∈ ms, m.Representable p) (ha : r.arrived <+: ms.flatMap (·.encoding host p)) :
    r.calls <+: ms.map (·.delivery host p) := by
  obtain ⟨later, hf⟩ := reads_encoded hr ha hd.reads
  have hcalls := calls_encoded host host' hr
  rw [← hf, List.mapM_append, hd.calls] at hcalls
  simp only [Option.bind_eq_bind, Option.bind_some, Option.bind_eq_some_iff] at hcalls
  obtain ⟨cs, -, hcs⟩ := hcalls
  exact ⟨cs, Option.some.inj hcs⟩

/-- Without arrivals nothing arrives. -/
theorem internal_arrived {e : Event} (ho : Internal r e) (hs : r.step e = some r') : r'.arrived = r.arrived := by
  rw [step_arrived hs]
  cases e with
  | arrive => exact ho.elim
  | receive | receiveMessage | readSome | complete | fail | setProtocol => exact List.append_nil _

theorem internal_steps_arrived {strand : Bool} {es : List Event} (hs : (system host p strand).Steps Internal r es r') :
    r'.arrived = r.arrived :=
  hs.inv (fun x => x.arrived = r.arrived) rfl fun _ _ _ hi he hs => (internal_arrived he hs).trans hi

/-- Once the whole encoding of `ms` arrived and no step is left, everything was delivered. -/
theorem Undisturbed.all {host' : Endian} {ms : List Message} {strand : Bool} (h : Undisturbed host' p r)
    (hr : ∀ m ∈ ms, m.Representable p) (ha : r.arrived = ms.flatMap (·.encoding host p))
    (hrest : (system host' p strand).Rest Internal r) : r.calls = ms.map (·.delivery host p) ∧ r.inputBuffer = [] := by
  obtain ⟨frames, rest, hd, hnext⟩ := h.framed.at_rest hrest
  rcases hnext with ⟨hnone, hbuf⟩ | ⟨frame, rest', hn, hbad⟩
  · have hparse := hd.reads.rest hnone
    rw [ha, parse_encoded host host' hr] at hparse
    obtain ⟨rfl, rfl⟩ := Prod.mk.inj hparse
    have hcalls := hd.calls
    rw [calls_encoded host host' hr] at hcalls
    exact ⟨(Option.some.inj hcalls).symm, hbuf rfl⟩
  · -- A frame that cannot be decoded is none of the encoded ones.
    obtain ⟨later, he⟩ := reads_encoded hr ⟨[], by rw [ha, List.append_nil]⟩ (hd.reads.deliver hn)
    have hmem : frame ∈ ms.map fun m => p.raw (m.encoding host p) := by
      rw [← he]
      simp
    obtain ⟨m, hm, rfl⟩ := List.mem_map.1 hmem
    rw [call_encoded host host' (hr m hm)] at hbad
    cases hbad

end Receiver

/-- The messages asked of a sender arrive, for every way in which their encoding
arrives in pieces and is read: what was delivered are the first messages, and
once the whole encoding arrived and no step is left it is all of them, with an
empty buffer. The steps of the receiver end. -/
theorem framing_round_trip (host host' : Endian) (hp : p.Streamed) {strand : Bool} {id : UInt32} {reqs : List Request}
    (hr : ∀ m ∈ messagesOf id reqs, m.Representable p) {es : List Receiver.Event}
    (h : (Receiver.system host' p strand).RunIf Receiver.Plain es r)
    (ha : r.arrived <+: (messagesOf id reqs).flatMap (·.encoding host p)) :
    r.calls <+: (messagesOf id reqs).map (·.delivery host p) ∧
    (∀ es' r', (Receiver.system host' p strand).Steps Receiver.Internal r es' r' → es'.length ≤ r.work) ∧
    (∃ es' r', (Receiver.system host' p strand).Steps Receiver.Internal r es' r' ∧
      (Receiver.system host' p strand).Rest Receiver.Internal r') ∧
    (r.arrived = (messagesOf id reqs).flatMap (·.encoding host p) →
      ∀ es' r', (Receiver.system host' p strand).Steps Receiver.Internal r es' r' →
        (Receiver.system host' p strand).Rest Receiver.Internal r' →
        r'.calls = (messagesOf id reqs).map (·.delivery host p) ∧ r'.inputBuffer = []) := by
  have hu := Receiver.RunIf.undisturbed hp h
  refine ⟨?_, fun es' r' hs => hu.work_le hp hs, hu.exists_rest hp, ?_⟩
  · obtain ⟨frames, rest, hd, -⟩ := hu.framed
    exact hd.first hr ha
  · intro hall es' r' hs hrest
    exact (hu.internal hp hs).all hr ((Receiver.internal_steps_arrived hs).trans hall) hrest

/-- Two messages, with terminators cut in two and contents that end in a carriage return. -/
theorem framing_round_trip_telnet : ∃ r,
    (Receiver.system .big .telnet true).RunIf Receiver.Plain [.arrive [97, 13], .receiveMessage, .readSome 0 2,
      .arrive [10, 98, 13, 13], .readSome 0 4, .complete 0 {}, .receiveMessage, .arrive [10], .readSome 0 1,
      .complete 0 {}, .receiveMessage] r ∧
    r.calls <+: (messagesOf 0 [.action [97], .reply 3 [98, 13]]).map (·.delivery .little .telnet) ∧
    r.calls = [⟨false, 3, some ⟨.reply, 0, [97]⟩⟩, ⟨false, 4, some ⟨.reply, 0, [98, 13]⟩⟩] ∧ r.inputBuffer = [] := by
  have hexec : (Receiver.system .big .telnet true).exec Receiver.Plain (Receiver.system .big .telnet true).init
      [.arrive [97, 13], .receiveMessage, .readSome 0 2, .arrive [10, 98, 13, 13], .readSome 0 4, .complete 0 {},
        .receiveMessage, .arrive [10], .readSome 0 1, .complete 0 {}, .receiveMessage] = some _ := rfl
  have hrun := System.Steps.of_exec hexec
  have hr : ∀ m ∈ messagesOf 0 [.action [97], .reply 3 [98, 13]], m.Representable .telnet := by decide
  exact ⟨_, hrun, (framing_round_trip .little .big (.inr (.inl rfl)) hr hrun ⟨[], by decide⟩).1, rfl, rfl⟩

end Zar
