import Zar.Communication.Codec
import Zar.Communication.Reading
/-!
# Framed in one protocol, decoded in another

The protocol of a connection is looked up when a read starts and again when it has
ended, and `set_protocol` does not wait in between. As long as no change meets an
outstanding read, every frame is decoded in the protocol it was read in, and its
own terminator is all that is taken off. Behind a change that meets one the next
frame can always be decoded in the wrong protocol.
-/

namespace Zar

variable {host : Endian} {p : Protocol} {strand : Bool}

/-- `receive_message` starts such a read in the protocol `p`. -/
def Read.StartedIn (p : Protocol) : Read → Prop
  | .until d => p.terminator = some d
  | .exactly _ _ _ => p = .basic

/-- `asio_receive_handler` decodes what the read has completed. -/
def Read.Decoded : Read → Prop
  | .until _ | .exactly _ _ .asioReceiveHandler => True
  | .exactly _ _ .asioReceiveHandlerReadLength => False

/-- A read has taken no more than it asks for, and the length is four bytes. -/
def Read.Sound : Read → Prop
  | .until _ => True
  | .exactly bytes transferred handler =>
    transferred ≤ bytes ∧ (handler = .asioReceiveHandlerReadLength → bytes = 4)

namespace Receiver

variable {r r' : Receiver} {e : Event} {es : List Event}

/-- Where a frame is complete, the protocol in force is that of its read. A line ends in its own
terminator, and is decoded without it. -/
def DecodesOwn (r : Receiver) : Event → Prop
  | .complete i _ =>
    ∀ read ∈ r.reads[i]?, ∀ n ∈ read.complete r.inputBuffer, read.Decoded →
      read.StartedIn r.protocol ∧
      ∀ d, r.protocol.terminator = some d →
        ∃ c, r.inputBuffer.take n = c ++ d ∧ Message.decode r.host r.protocol (r.inputBuffer.take n) = .ok ⟨.reply, 0, c⟩
  | _ => True

/-- The protocol stays as it is while a read is outstanding. A handler may change it between the
read it was called for and the next. -/
def Settled (r : Receiver) : Event → Prop
  | .setProtocol p => p = r.protocol ∨ r.reads = []
  | .complete _ react | .fail _ react => react.protocol.getD r.protocol = r.protocol ∨ r.reads.length = 1
  | _ => True

instance (r : Receiver) : (e : Event) → Decidable (Settled r e)
  | .setProtocol p => inferInstanceAs (Decidable (p = r.protocol ∨ r.reads = []))
  | .complete _ react | .fail _ react =>
    inferInstanceAs (Decidable (react.protocol.getD r.protocol = r.protocol ∨ r.reads.length = 1))
  | .arrive _ | .receive | .receiveMessage | .readSome _ _ => inferInstanceAs (Decidable True)

/-! ## Every outstanding read is one of the protocol in force -/

def InForce (r : Receiver) : Prop := ∀ read ∈ r.reads, read.StartedIn r.protocol ∧ read.Sound

theorem receiveMessage_starts (r : Receiver) :
    ∃ new, r.receiveMessage.1 = { r with reads := r.reads ++ new } ∧
      ∀ read ∈ new, read.StartedIn r.protocol ∧ read.Sound := by
  unfold receiveMessage
  split
  · exact ⟨[], by simp, nofun⟩
  · rename_i hp
    exact ⟨[_], rfl, by simp [hp, Read.StartedIn, Read.Sound, Protocol.terminator]⟩
  · rename_i hp
    exact ⟨[_], rfl, by simp [hp, Read.StartedIn, Read.Sound, Protocol.terminator]⟩
  · rename_i hp
    exact ⟨[_], rfl, by simp [hp, Read.StartedIn, Read.Sound]⟩
  · exact ⟨[], by simp, nofun⟩

theorem receive_starts (r : Receiver) :
    ∃ posted new, r.receive.1 = { r with posted := posted, reads := r.reads ++ new } ∧
      ∀ read ∈ new, read.StartedIn r.protocol ∧ read.Sound := by
  unfold receive
  split
  · exact ⟨r.posted + 1, [], by simp, nofun⟩
  · obtain ⟨new, e, hnew⟩ := receiveMessage_starts r
    exact ⟨r.posted, new, e, hnew⟩

/-- A handler starts reads of the protocol that it leaves. The protocol is the old one, or the one
that the receive handler asked for. -/
theorem handle_starts (r : Receiver) (read : Read) (error : Bool) (n : Nat) (react : ReceiveReaction)
    (hb : ¬ read.Decoded → r.protocol = .basic) :
    ∃ new, (r.handle read error n react).1.reads = r.reads ++ new ∧
      (∀ x ∈ new, x.StartedIn (r.handle read error n react).1.protocol ∧ x.Sound) ∧
      ((r.handle read error n react).1.protocol = r.protocol ∨
        (r.handle read error n react).1.protocol = react.protocol.getD r.protocol) := by
  have herror : ∀ x : Receiver, (x.receiveError n react).1.reads = x.reads ++ [] ∧
      (x.receiveError n react).1.protocol = react.protocol.getD x.protocol := by
    intro x
    unfold receiveError callHandler
    cases react.throws <;> exact ⟨(List.append_nil _).symm, rfl⟩
  unfold handle
  split
  · unfold asioReceiveHandlerReadLength
    dsimp only
    split
    · exact ⟨[], (herror _).1, nofun, .inr (herror _).2⟩
    · split
      · exact ⟨[], (List.append_nil _).symm, nofun, .inl rfl⟩
      · refine ⟨[_], rfl, ?_, .inl rfl⟩
        intro x hx
        rw [List.mem_singleton.1 hx]
        exact ⟨hb id, Nat.zero_le _, nofun⟩
  · unfold asioReceiveHandler
    dsimp only
    split
    · exact ⟨[], (herror _).1, nofun, .inr (herror _).2⟩
    · split
      · exact ⟨[], (List.append_nil _).symm, nofun, .inl rfl⟩
      · unfold callHandler
        cases react.throws with
        | some t => exact ⟨[], (List.append_nil _).symm, nofun, .inr rfl⟩
        | none =>
          dsimp only
          obtain ⟨posted, new, e, hnew⟩ := receive_starts _
          rw [e]
          exact ⟨new, rfl, hnew, .inr rfl⟩

theorem InForce.init (host : Endian) (p : Protocol) (strand : Bool) : InForce (system host p strand).init := by
  obtain ⟨posted, new, e, hnew⟩ := receive_starts { host := host, protocol := p, strand := strand }
  intro read hread
  simp only [system, catching, e, List.nil_append] at hread ⊢
  exact hnew read hread

/-- A read that ends leaves the others in force. -/
theorem InForce.handle (h : InForce r) {i n : Nat} {read : Read} {error : Bool} {react : ReceiveReaction}
    (hi : r.reads[i]? = some read) (ho : react.protocol.getD r.protocol = r.protocol ∨ r.reads.length = 1) :
    InForce (catching (({ r with reads := r.reads.eraseIdx i }).handle read error n react)) := by
  have hmem : read ∈ r.reads := List.mem_of_getElem? hi
  have hlt := (List.getElem?_eq_some_iff.1 hi).1
  have hb : ¬ read.Decoded → r.protocol = .basic := by
    intro hd
    have hs := (h read hmem).1
    unfold Read.Decoded at hd
    split at hd
    · exact absurd trivial hd
    · exact absurd trivial hd
    · exact hs
  obtain ⟨new, hreads, hnew, hp⟩ := handle_starts { r with reads := r.reads.eraseIdx i } read error n react hb
  -- No other read is outstanding, or the handler left the protocol as it was.
  have hkept : r.reads.eraseIdx i = [] ∨
      (({ r with reads := r.reads.eraseIdx i }).handle read error n react).1.protocol = r.protocol := by
    rcases ho with ho | ho
    · exact .inr (hp.elim id fun hp => hp.trans ho)
    · exact .inl (List.length_eq_zero_iff.1 (by rw [List.length_eraseIdx_of_lt hlt, ho]))
  intro x hx
  simp only [catching, hreads] at hx
  rcases List.mem_append.1 hx with hx | hx
  · rcases hkept with hkept | hkept
    · rw [hkept] at hx
      cases hx
    · simp only [catching, hkept]
      exact h x (List.mem_of_mem_eraseIdx hx)
  · exact hnew x hx

theorem InForce.step (h : InForce r) (ho : Settled r e) (hs : r.step e = some r') : InForce r' := by
  cases step_cases hs with
  | arrive => exact h
  | receive =>
    obtain ⟨posted, new, e, hnew⟩ := receive_starts r
    intro read hread
    simp only [catching, e, List.mem_append] at hread ⊢
    exact hread.elim (h read) (hnew read)
  | receiveMessage =>
    obtain ⟨new, e, hnew⟩ := receiveMessage_starts { r with posted := r.posted - 1 }
    intro read hread
    simp only [catching, e, List.mem_append] at hread ⊢
    exact hread.elim (h read) (hnew read)
  | @readSome i k read hi hk =>
    have hread := h read (List.mem_of_getElem? hi)
    intro x hx
    rcases List.mem_or_eq_of_mem_set hx with hx | rfl
    · exact h x hx
    · cases read with
      | «until» d => exact hread
      | exactly bytes transferred handler =>
        refine ⟨hread.1, ?_, hread.2.2⟩
        have hle := hread.2.1
        have hmin := hk.2
        simp only [Read.wants] at hmin
        omega
  | complete react hi => exact h.handle hi ho
  | fail react hi => exact h.handle hi ho
  | setProtocol p =>
    rcases ho with rfl | hreads
    · exact h
    · intro read hread
      simp only [hreads] at hread
      cases hread

/-- A read of the protocol in force completes a frame of its own. -/
theorem InForce.decodes (h : InForce r) (e : Event) : DecodesOwn r e := by
  cases e with
  | complete i react =>
    intro read hi n hn hd
    have hs := (h read (List.mem_of_getElem? hi)).1
    refine ⟨hs, fun d ht => ?_⟩
    cases read with
    | exactly bytes transferred handler =>
      rw [show r.protocol = .basic from hs] at ht
      cases ht
    | «until» d' =>
      obtain rfl : d' = d := Option.some.inj ((show r.protocol.terminator = some d' from hs).symm.trans ht)
      obtain ⟨-, -, htake⟩ := matchEnd_some (show matchEnd d' r.inputBuffer = some n from hn)
      refine ⟨_, htake, ?_⟩
      rw [htake]
      cases hp : r.protocol with
      | line =>
        obtain rfl : text "\n" = d' := Option.some.inj (by rw [hp] at ht; exact ht)
        exact Message.decode_line r.host _
      | telnet =>
        obtain rfl : text "\r\n" = d' := Option.some.inj (by rw [hp] at ht; exact ht)
        exact Message.decode_telnet r.host _
      | direct | basic | compressed =>
        rw [hp] at ht
        cases ht
  | arrive | receive | receiveMessage | readSome | fail | setProtocol => trivial

/-! ## A change while a read is outstanding -/

/-- The receiver goes on by itself: nobody calls it, and its handler neither throws nor changes the protocol. -/
def ReadsOn (_ : Receiver) : Event → Prop
  | .arrive _ | .receiveMessage | .readSome _ _ => True
  | .complete _ react => react = {}
  | .receive | .fail _ _ | .setProtocol _ => False

theorem StartedIn.unique {p q : Protocol} {read : Read} (h : read.StartedIn p) (h' : read.StartedIn q) : p = q := by
  cases read with
  | exactly => exact h.trans h'.symm
  | «until» d =>
    have he : p.terminator = q.terminator := h.trans h'.symm
    have hd : p.terminator = some d := h
    cases p <;> cases q <;> first | rfl | (exact absurd he (by decide)) | cases hd

theorem take_startedIn {p : Protocol} {k : Nat} {read : Read} : (read.take k).StartedIn p ↔ read.StartedIn p := by
  cases read <;> exact Iff.rfl

theorem take_decoded {k : Nat} {read : Read} : (read.take k).Decoded ↔ read.Decoded := by
  cases read with
  | «until» d => exact Iff.rfl
  | exactly bytes transferred handler => cases handler <;> exact Iff.rfl

section
variable (host : Endian) (p : Protocol) (strand : Bool) {i : Nat} {read : Read}

/-- As many bytes arrive as a read needs, and it takes them. -/
theorem read_more {k : Nat} (hi : r.reads[i]? = some read) (extra : Bytes) (hk : 0 < k)
    (hle : k ≤ read.wants r.inputBuffer (r.unread ++ extra)) :
    (system host p strand).Steps ReadsOn r [.arrive extra, .readSome i k] { r with
      unread := (r.unread ++ extra).drop k
      arrived := r.arrived ++ extra
      inputBuffer := r.inputBuffer ++ (r.unread ++ extra).take k
      reads := r.reads.set i (read.take k) } := by
  have harrive : (system host p strand).Steps ReadsOn r [.arrive extra]
      { r with unread := r.unread ++ extra, arrived := r.arrived ++ extra } := System.Steps.one trivial rfl
  refine harrive.trans (System.Steps.one (e := Event.readSome i k) trivial ?_)
  simp only [system, Receiver.step, hi]
  rw [if_pos ⟨hk, hle⟩]

/-- Every read can become complete, and nothing else changes for it. -/
theorem can_complete (hi : r.reads[i]? = some read) (hs : read.Sound) :
    ∃ es r' k n, (system host p strand).Steps ReadsOn r es r' ∧ r'.reads[i]? = some (read.take k) ∧
      (read.take k).complete r'.inputBuffer = some n ∧ r'.protocol = r.protocol := by
  have hset : ∀ x, (r.reads.set i x)[i]? = some x := fun x =>
    List.getElem?_set_self (List.getElem?_eq_some_iff.1 hi).1
  cases read with
  | «until» d =>
    cases hm : matchEnd d r.inputBuffer with
    | some n => exact ⟨[], r, 0, n, .nil, hi, hm, rfl⟩
    | none =>
      have hpos : 0 < (r.unread ++ d).length := by
        have hd : d ≠ [] := by
          rintro rfl
          exact matchEnd_none.1 hm List.nil_infix
        rw [List.length_append]
        exact Nat.add_pos_right _ (List.length_pos_iff.2 hd)
      have hwants : (r.unread ++ d).length ≤ (Read.until d).wants r.inputBuffer (r.unread ++ d) := by
        simp only [Read.wants, hm, if_true, Nat.le_refl]
      obtain ⟨n, hn⟩ : ∃ n, matchEnd d (r.inputBuffer ++ (r.unread ++ d)) = some n :=
        matchEnd_infix ((List.suffix_append _ d).trans (List.suffix_append _ _)).isInfix
      refine ⟨_, _, _, n, read_more host p strand hi d hpos hwants, hset _, ?_, rfl⟩
      rw [List.take_length]
      exact hn
  | exactly bytes transferred handler =>
    have hle := hs.1
    by_cases heq : transferred = bytes
    · exact ⟨[], r, 0, bytes, .nil, hi, by simp [Read.take, Read.complete, heq], rfl⟩
    · have hpos : 0 < bytes - transferred := by omega
      have hwants : bytes - transferred ≤ (Read.exactly bytes transferred handler).wants r.inputBuffer
          (r.unread ++ List.replicate (bytes - transferred) 0) := by
        simp only [Read.wants, List.length_append, List.length_replicate]
        omega
      refine ⟨_, _, _, bytes, read_more host p strand hi _ hpos hwants, hset _, ?_, rfl⟩
      simp only [Read.take, Read.complete]
      rw [if_pos (by omega)]

/-- As `r` goes on by itself, a frame can be decoded in another protocol than its own. -/
def CanMismatch (r : Receiver) : Prop :=
  ∃ es r' e, (system host p strand).Steps ReadsOn r es r' ∧ ReadsOn r' e ∧ r'.step e ≠ none ∧ ¬ DecodesOwn r' e

theorem message_mismatch (hi : r.reads[i]? = some read) (hs : read.Sound) (hd : read.Decoded)
    (hne : ¬ read.StartedIn r.protocol) : CanMismatch host p strand r := by
  obtain ⟨es, r', k, n, hsteps, hi', hn, hp⟩ := can_complete host p strand hi hs
  refine ⟨es, r', .complete i {}, hsteps, rfl, by simp [Receiver.step, hi', hn], fun h => hne ?_⟩
  have hown := (h _ hi' n hn (take_decoded.2 hd)).1
  rw [hp] at hown
  exact take_startedIn.1 hown

/-- The length is read first, and the rest of the frame behind it. -/
theorem length_mismatch {k : Nat} (hi : r.reads[i]? = some (.exactly 4 k .asioReceiveHandlerReadLength)) (hk : k ≤ 4)
    (hne : r.protocol ≠ .basic) : CanMismatch host p strand r := by
  obtain ⟨es, r', k', n, hsteps, hi', hn, hp⟩ := can_complete host p strand hi ⟨hk, fun _ => rfl⟩
  obtain ⟨-, rfl⟩ := Read.complete_exactly.1 hn
  have hlength : (system host p strand).Steps ReadsOn r' [.complete i {}]
      (catching (({ r' with reads := r'.reads.eraseIdx i }).handle
        (Read.exactly 4 (k + k') .asioReceiveHandlerReadLength) false 4 {})) := by
    refine System.Steps.one (e := Event.complete i {}) rfl ?_
    simp only [system, Receiver.step, hi', hn]
    rfl
  have hlast : (catching (({ r' with reads := r'.reads.eraseIdx i }).handle
      (Read.exactly 4 (k + k') .asioReceiveHandlerReadLength) false 4 {})).reads[(r'.reads.eraseIdx i).length]? =
        some (.exactly (networkBufferToHost r'.host r'.inputBuffer).toNat 0 .asioReceiveHandler) :=
    List.getElem?_concat_length
  obtain ⟨es', r'', e, hsteps', ho, hcan, hbad⟩ := message_mismatch host p strand hlast
    ⟨Nat.zero_le _, fun h => ReadHandler.noConfusion h⟩ trivial (fun hs => hne (hp.symm.trans hs))
  exact ⟨_, r'', e, (hsteps.trans hlength).trans hsteps', ho, hcan, hbad⟩

end

/-- Behind a change of the protocol that meets a read, a frame can be decoded in the wrong one. -/
theorem InForce.mismatch (h : InForce r) {q : Protocol} (hq : q ≠ r.protocol) (hreads : r.reads ≠ []) :
    CanMismatch host p strand { r with protocol := q } := by
  obtain ⟨read, rest, hr⟩ := List.exists_cons_of_ne_nil hreads
  have hi : r.reads[0]? = some read := by rw [hr]; rfl
  obtain ⟨hstart, hsound⟩ := h read (List.mem_of_getElem? hi)
  have hne : ¬ read.StartedIn q := fun hs => hq (StartedIn.unique hs hstart)
  by_cases hd : read.Decoded
  · exact message_mismatch host p strand (r := { r with protocol := q }) hi hsound hd hne
  · -- The length comes first, and then the read of the rest, which is of a basic message too.
    cases read with
    | «until» d => exact absurd trivial hd
    | exactly bytes transferred handler =>
      cases handler with
      | asioReceiveHandler => exact absurd trivial hd
      | asioReceiveHandlerReadLength =>
        obtain rfl : bytes = 4 := hsound.2 rfl
        exact length_mismatch host p strand (r := { r with protocol := q }) hi hsound.1 hne

/-! ## The main result -/

/-- In every run in which the protocol does not change under an outstanding read, every frame is
decoded in the protocol that its read was started in, and a line loses exactly its terminator. Behind
any `set_protocol` that does change it under a read a frame can follow that is not, without another
call of the receiver, and with a handler that leaves the protocol alone. -/
theorem decodes_in_own_protocol (h : (system host p strand).RunIf Settled es r) :
    (system host p strand).RunIf DecodesOwn es r ∧
    ∀ q, ¬ Settled r (.setProtocol q) → CanMismatch host p strand { r with protocol := q } := by
  have hforce : InForce r := h.inv InForce (InForce.init host p strand) fun _ _ _ hi ho hs => hi.step ho hs
  constructor
  · exact h.mono_inv InForce (InForce.init host p strand) (fun _ _ _ hi ho hs => hi.step ho hs)
      fun _ e _ hi _ _ => hi.decodes e
  · intro q hq
    unfold Settled at hq
    rw [not_or] at hq
    exact hforce.mismatch hq.1 hq.2

/-- `set_protocol` comes while the next read waits for the strand, and the receive handler changes
the protocol too. -/
theorem decodes_in_own_protocol_switch : ∃ r,
    (system .little .telnet true).RunIf Settled [.setProtocol .line, .receiveMessage, .arrive [97, 10, 98, 13, 10],
      .readSome 0 5, .complete 0 ⟨some .basic, none⟩, .setProtocol .telnet, .receiveMessage, .complete 0 {}] r ∧
    (system .little .telnet true).RunIf DecodesOwn [.setProtocol .line, .receiveMessage, .arrive [97, 10, 98, 13, 10],
      .readSome 0 5, .complete 0 ⟨some .basic, none⟩, .setProtocol .telnet, .receiveMessage, .complete 0 {}] r ∧
    r.calls = [⟨false, 2, some ⟨.reply, 0, [97]⟩⟩, ⟨false, 3, some ⟨.reply, 0, [98]⟩⟩] := by
  have hexec : (system .little .telnet true).exec Settled (system .little .telnet true).init
      [.setProtocol .line, .receiveMessage, .arrive [97, 10, 98, 13, 10], .readSome 0 5,
        .complete 0 ⟨some .basic, none⟩, .setProtocol .telnet, .receiveMessage, .complete 0 {}] = some _ := rfl
  have hrun := System.Steps.of_exec hexec
  exact ⟨_, hrun, (decodes_in_own_protocol hrun).1, rfl⟩

/-- An empty line is framed, and decoded as telnet: its size minus 2 wraps, and its terminator
stays. -/
theorem line_decoded_as_telnet : ∃ r r',
    (system .little .line true).Run [.receiveMessage, .setProtocol .telnet, .arrive [10], .readSome 0 1] r ∧
    r.step (.complete 0 {}) = some r' ∧ ¬ DecodesOwn r (.complete 0 {}) ∧
    r'.calls = [⟨false, 1, some ⟨.reply, 0, [10]⟩⟩] := by
  have hexec : (system .little .line true).exec (fun _ _ => True) (system .little .line true).init
      [.receiveMessage, .setProtocol .telnet, .arrive [10], .readSome 0 1] = some _ := rfl
  refine ⟨_, _, System.Steps.of_exec hexec, rfl, fun h => ?_, rfl⟩
  exact absurd (h _ rfl 1 rfl trivial).1 (show ¬ Protocol.telnet.terminator = some (text "\n") by decide)

end Receiver
end Zar
