import Zar.Communication.SendOrder
import Zar.Lib.Cut
/-!
# What an error of a write leaves behind

A write that fails may have taken only a part of `send_buffer_`, and the rest stays. The
next write takes the rest first, which is of a message that was reported already, and it
reports the bytes of both. The accounts are right exactly if every write that takes a byte
finds no more than its own message in the buffer.
-/

namespace Zar
namespace Sender

variable {host : Endian} {p : Protocol} {strand : Bool} {s s' : Sender} {m : Message} {ms : List Message} {e : Event}
  {es : List Event}

/-- What a stream holds of the message that follows those of the reports. -/
def written (host : Endian) (p : Protocol) (stream : Bytes) (done : List Report) (m : Message) : Bytes :=
  (stream.drop (done.flatMap (·.message.encoding host p)).length).take (m.encoding host p).length

/-- The step writes no byte of a message that was reported with an error. -/
def Settles (s : Sender) (e : Event) : Prop :=
  ∀ s' done report, s.step e = some s' → done ++ [report] <+: s.reports → report.error = true →
    written s.host s.protocol s'.stream done report.message = written s.host s.protocol s.stream done report.message

/-- A write takes no byte, or finds only its own message in the buffer. -/
def Clear (s : Sender) : Event → Prop
  | .transfer _ n => n = 0 ∨ s.sendBuffer = (s.messages.take 1).flatMap (·.encoding s.host s.protocol)
  | .request _ | .sendMessage | .handler _ | .setProtocol _ => True

instance (s : Sender) : (e : Event) → Decidable (Clear s e)
  | .transfer _ n =>
    inferInstanceAs (Decidable (n = 0 ∨ s.sendBuffer = (s.messages.take 1).flatMap (·.encoding s.host s.protocol)))
  | .request _ | .sendMessage | .handler _ | .setProtocol _ => inferInstanceAs (Decidable True)

/-! ## Where the stream ends -/

/-- The messages that were reported without an error are on the stream. -/
def Delivered (host : Endian) (p : Protocol) (s : Sender) : Prop :=
  ∀ done report, done ++ [report] <+: s.reports → report.error = false →
    ((done ++ [report]).flatMap (·.message.encoding host p)).length ≤ s.stream.length

structure Taken (host : Endian) (p : Protocol) (s : Sender) : Prop where
  /-- Until the write ends, nothing of its message is on the stream. -/
  behind : (∀ error n, .completed error n ∉ s.writes) →
    s.stream.length ≤ (s.reports.flatMap (·.message.encoding host p)).length
  /-- A write without an error took the whole buffer. -/
  emptied : ∀ n, .completed false n ∈ s.writes → s.sendBuffer = []
  delivered : Delivered host p s

theorem Taken.init : Taken host p (system host p strand).init :=
  ⟨fun _ => Nat.zero_le _, fun n hn => by simp [system] at hn, fun done report hr => by simp [system] at hr⟩

/-- A write can take the whole buffer, and does without an error. -/
theorem transfer_size {error : Bool} {n : Nat} (hs : s.step (.transfer error n) = some s') :
    ∃ size ws, s.writes = .running size :: ws ∧ n ≤ size ∧ (error = false → n = size) := by
  simp only [step] at hs
  split at hs
  · rename_i size ws hw
    split at hs
    · rename_i hn
      exact ⟨size, ws, hw, hn⟩
    · cases hs
  · cases hs

/-- A write that starts did not end. -/
theorem sendQueueMessage_completed {error : Bool} {n : Nat} (h : .completed error n ∈ s.sendQueueMessage.1.writes) :
    .completed error n ∈ s.writes := by
  unfold sendQueueMessage at h
  split at h
  · exact h
  · split at h
    · exact h
    · simpa using h

/-- What a step other than the end of a write does to the write and the reports. -/
inductive Moved (s s' : Sender) : Event → Prop
  /-- The write goes on, or there is none. -/
  | waits {e : Event} (reports : s'.reports = s.reports) (writes : s'.writes = s.writes)
      (sendBuffer : s'.sendBuffer = s.sendBuffer) (front : s'.messages.take 1 = s.messages.take 1) : Moved s s' e
  | starts {e : Event} (idle : s.writes = []) (reports : s'.reports = s.reports)
      (running : ∀ error n, .completed error n ∉ s'.writes) : Moved s s' e
  | handler {react : SendReaction} {error : Bool} {n : Nat} {m : Message} {ms : List Message}
      (writes : s.writes = [.completed error n]) (messages : s.messages = m :: ms)
      (reports : s'.reports = s.reports ++ [⟨error, n, m⟩])
      (running : ∀ error n, .completed error n ∉ s'.writes) : Moved s s' (.handler react)

theorem sendMessage_moved (hq : Queued s) (id : UInt32) (called posted : List Message) (m : Message) :
    Moved s (({ s with id := id, called := called, posted := posted }).sendMessage m).1 e := by
  by_cases hm : s.messages = []
  · have hw : s.writes = [] := by simpa [hm] using hq.busy
    obtain ⟨b, w, st, hchange⟩ := sendMessage_change { s with id := id, called := called, posted := posted } m
    refine .starts hw (by rw [hchange]) ?_
    intro error n h
    unfold sendMessage at h
    simp only [hm, List.isEmpty_nil, Bool.not_true, Bool.not_false, if_true] at h
    have h' := sendQueueMessage_completed h
    simp [hw] at h'
  · obtain ⟨m', ms, hms⟩ := List.exists_cons_of_ne_nil hm
    rw [sendMessage_busy (s := { s with id := id, called := called, posted := posted }) hm]
    exact .waits rfl rfl rfl (by simp [hms])

theorem advance_completed {error : Bool} {n : Nat} (h : .completed error n ∈ s.advance.1.writes) :
    .completed error n ∈ s.writes := by
  unfold advance at h
  dsimp only at h
  split at h
  · exact sendQueueMessage_completed (s := { s with messages := s.messages.tail }) h
  · exact h

/-- Only the end of a write changes the stream. -/
theorem step_moved (hq : Queued s) (ho : Plain s e) (hs : s.step e = some s') (he : ∀ error n, e ≠ .transfer error n) :
    s'.stream = s.stream ∧ Moved s s' e := by
  cases step_cases hs with
  | request r =>
    obtain ⟨b, w, st, h⟩ := request_change s r
    refine ⟨by rw [h], ?_⟩
    unfold request strandExecute
    split
    · exact .waits rfl rfl rfl rfl
    · exact sendMessage_moved hq _ _ _ _
  | @sendMessage m ms =>
    obtain ⟨b, w, st, h⟩ := sendMessage_change { s with posted := ms } m
    exact ⟨by rw [h], sendMessage_moved hq s.id s.called ms m⟩
  | @transfer error n => exact absurd rfl (he error n)
  | @handler error n ws react hw =>
    obtain ⟨rfl, m, ms, hm⟩ := hq.front hw
    obtain ⟨b, w, st, h⟩ := handler_change (s := { s with writes := [] }) hm error n ho
    refine ⟨by rw [h], .handler hw hm (by rw [h]) ?_⟩
    intro error' n' hmem
    unfold sendQueueMessageHandler at hmem
    rw [report_requests (s := { s with writes := [] }) hm, show react.throws = none from ho] at hmem
    have hmem' := advance_completed hmem
    simp at hmem'
  | setProtocol => exact ho.elim

/-- What was reported is in front of what the write puts on the stream. -/
theorem Good.front_wire (hg : Good host p s) (hm : s.messages = m :: ms) :
    s.stream ++ s.sendBuffer = s.reports.flatMap (·.message.encoding host p) ++ m.encoding host p := by
  rw [hg.wire, hg.started, hm]
  simp [List.flatMap_map]

theorem Taken.step (hg : Good host p s) (ht : Taken host p s) (ho : Plain s e) (hs : s.step e = some s') :
    Taken host p s' := by
  by_cases he : ∃ error n, e = .transfer error n
  · obtain ⟨error, n, rfl⟩ := he
    obtain ⟨size, ws, hw, -, herror⟩ := transfer_size hs
    obtain ⟨rfl, -⟩ := hg.queued.front hw
    cases step_cases hs with | transfer hw' =>
    cases hw.symm.trans hw'
    refine ⟨fun h => absurd List.mem_cons_self (h error n), ?_, ?_⟩
    · intro k hk
      cases List.mem_singleton.1 hk
      rw [herror rfl, hg.size size (by simp [hw])]
      exact List.drop_length
    · intro done report hpre he
      have hle := ht.delivered done report hpre he
      rw [List.length_append]
      omega
  · obtain ⟨hstream, hmoved⟩ := step_moved hg.queued ho hs fun error n h => he ⟨error, n, h⟩
    cases hmoved with
    | waits hr hw hb =>
      refine ⟨?_, ?_, ?_⟩
      · rw [hstream, hr, hw]
        exact ht.behind
      · rw [hw, hb]
        exact ht.emptied
      · unfold Delivered
        rw [hstream, hr]
        exact ht.delivered
    | starts hw hr hrun =>
      refine ⟨?_, fun n h => absurd h (hrun false n), ?_⟩
      · rw [hstream, hr]
        exact fun _ => ht.behind (by simp [hw])
      · unfold Delivered
        rw [hstream, hr]
        exact ht.delivered
    | @handler react error n m ms hw hm hr hrun =>
      have hlength := congrArg List.length (hg.front_wire hm)
      rw [List.length_append, List.length_append] at hlength
      refine ⟨?_, fun n h => absurd h (hrun false n), ?_⟩
      · intro _
        rw [hstream, hr, List.flatMap_append, List.flatMap_singleton, List.length_append]
        exact Nat.le_trans (Nat.le_add_right _ _) (Nat.le_of_eq hlength)
      · intro done report hpre herror
        rw [hr] at hpre
        rw [hstream]
        rcases List.prefix_concat_iff.1 hpre with he | hpre
        · -- The write took the whole buffer, so the stream ends with its message.
          obtain ⟨rfl, hlast⟩ := List.append_inj' he rfl
          cases hlast
          cases herror
          rw [ht.emptied n (by simp [hw]), List.length_nil] at hlength
          rw [List.flatMap_append, List.flatMap_singleton, List.length_append]
          exact Nat.le_of_eq hlength.symm
        · exact ht.delivered done report hpre herror

/-! ## What a step does to the accounts -/

theorem written_length (stream : Bytes) (done : List Report) (m : Message) :
    (written host p stream done m).length =
      min (m.encoding host p).length (stream.length - (done.flatMap (·.message.encoding host p)).length) := by
  rw [written, List.length_take, List.length_drop]

/-- A message that is on the stream as a whole. -/
theorem written_done {done : List Report} {report : Report} {reports : List Report} (hpre : done ++ [report] <+: reports)
    (rest : Bytes) :
    written host p (reports.flatMap (·.message.encoding host p) ++ rest) done report.message =
      report.message.encoding host p := by
  obtain ⟨later, rfl⟩ := hpre
  simp [written]

/-- A byte that is left of what was reported is of a message that was reported with an error. -/
theorem Taken.left (ht : Taken host p s) {b : UInt8} {left : Bytes}
    (h : s.stream ++ b :: left = s.reports.flatMap (·.message.encoding host p)) :
    ∃ done report, done ++ [report] <+: s.reports ∧ report.error = true ∧
      (done.flatMap (·.message.encoding host p)).length ≤ s.stream.length ∧
      s.stream.length < (done.flatMap (·.message.encoding host p)).length + (report.message.encoding host p).length := by
  obtain ⟨done, report, later, own, more, hreports, hstream, hown⟩ := exists_piece h
  have hpre : done ++ [report] <+: s.reports := ⟨later, by simp [hreports]⟩
  have hlength : s.stream.length = (done.flatMap (·.message.encoding host p)).length + own.length := by
    rw [hstream, List.length_append]
  have hlt : own.length < (report.message.encoding host p).length := by
    rw [hown, List.length_append, List.length_cons]
    omega
  refine ⟨done, report, hpre, ?_, by omega, by omega⟩
  cases herror : report.error with
  | true => rfl
  | false =>
    have hle := ht.delivered done report hpre herror
    rw [List.flatMap_append, List.flatMap_singleton, List.length_append] at hle
    omega

/-- A write settles what was reported exactly if it takes no byte of it. -/
theorem settles_iff_clear (hg : Good host p s) (ht : Taken host p s) (ho : Plain s e) (hs : s.step e = some s') :
    Settles s e ↔ Clear s e := by
  obtain ⟨rfl, rfl⟩ : s.host = host ∧ s.protocol = p := ⟨hg.sameHost, hg.sameProtocol⟩
  cases e with
  | request | sendMessage | handler =>
    refine ⟨fun _ => trivial, ?_⟩
    intro _ x done report hx _ _
    rw [(step_moved hg.queued ho hx (by simp)).1]
  | setProtocol => exact ho.elim
  | transfer error n =>
    obtain ⟨size, ws, hw, hle, -⟩ := transfer_size hs
    obtain ⟨rfl, m, ms, hm⟩ := hg.queued.front hw
    have hwire := hg.front_wire hm
    have hstream : s'.stream = s.stream ++ s.sendBuffer.take n := by
      cases step_cases hs
      rfl
    have hbehind := ht.behind (by simp [hw])
    have hsize := hg.size size (by simp [hw])
    simp only [Clear, hm, List.take_succ_cons, List.take_zero, List.flatMap_singleton]
    constructor
    · intro hsettles
      rcases List.append_eq_append_iff.1 hwire with ⟨left, hleft, hb⟩ | ⟨more, hmore, hb⟩
      · cases left with
        | nil => exact .inr hb
        | cons b left =>
          -- The write takes a byte of a message that was reported with an error.
          obtain ⟨done, report, hpre, herror, hdone, hlt⟩ := ht.left hleft.symm
          have hlength := congrArg List.length (hsettles s' done report hs hpre herror)
          rw [hstream, written_length, written_length, List.length_append, List.length_take] at hlength
          omega
      · -- The stream does not reach into the message of the write.
        have hnil : more = [] := by
          rw [hmore, List.length_append] at hbehind
          exact List.length_eq_zero_iff.1 (by omega)
        exact .inr (by rw [hb, hnil, List.nil_append])
    · intro hclear x done report hx hpre _
      cases hs.symm.trans hx
      rw [hstream]
      rcases hclear with rfl | hb
      · simp
      · -- Everything that was reported is on the stream, and stays as it is.
        rw [hb] at hwire
        rw [List.append_cancel_right hwire, written_done hpre, ← List.append_nil (List.flatMap _ _), written_done hpre]

/-! ## The main result -/

/-- What is known of the writes that end without an error. -/
structure Counted (host : Endian) (p : Protocol) (s : Sender) : Prop where
  reported : ∀ report ∈ s.reports, report.error = false →
    report.bytesTransferred = (report.message.encoding host p).length
  completed : ∀ n, .completed false n ∈ s.writes → n = ((s.messages.take 1).flatMap (·.encoding host p)).length

theorem Counted.init : Counted host p (system host p strand).init :=
  ⟨fun report h => by simp [system] at h, fun n h => by simp [system] at h⟩

theorem Counted.step (hg : Good host p s) (ht : Taken host p s) (hc : Counted host p s) (ho : Plain s e)
    (hclear : Clear s e) (hs : s.step e = some s') : Counted host p s' := by
  by_cases he : ∃ error n, e = .transfer error n
  · obtain ⟨error, n, rfl⟩ := he
    obtain ⟨size, ws, hw, -, herror⟩ := transfer_size hs
    obtain ⟨rfl, m, ms, hm⟩ := hg.queued.front hw
    have hsize := hg.size size (by simp [hw])
    cases step_cases hs with | transfer hw' =>
    cases hw.symm.trans hw'
    refine ⟨hc.reported, ?_⟩
    intro k hk
    cases List.mem_singleton.1 hk
    have hfull := herror rfl
    rcases hclear with rfl | hb
    · -- Nothing was to be written, and so the message is empty too.
      have hlength := congrArg List.length (hg.front_wire hm)
      have hbehind := ht.behind (by simp [hw])
      rw [List.length_append, List.length_append] at hlength
      rw [hm, List.take_succ_cons, List.take_zero, List.flatMap_singleton]
      omega
    · rw [hfull, hsize, hb, hg.sameHost, hg.sameProtocol]
  · obtain ⟨-, hmoved⟩ := step_moved hg.queued ho hs fun error n h => he ⟨error, n, h⟩
    cases hmoved with
    | waits hr hw _ hfront =>
      refine ⟨?_, ?_⟩
      · rw [hr]
        exact hc.reported
      · rw [hw, hfront]
        exact hc.completed
    | starts _ hr hrun =>
      refine ⟨?_, fun n h => absurd h (hrun false n)⟩
      rw [hr]
      exact hc.reported
    | @handler react error n m ms hw hm hr hrun =>
      refine ⟨?_, fun n h => absurd h (hrun false n)⟩
      intro report hmem herror
      rw [hr] at hmem
      rcases List.mem_append.1 hmem with hmem | hlast
      · exact hc.reported report hmem herror
      · cases List.mem_singleton.1 hlast
        cases herror
        rw [hc.completed n (by simp [hw]), hm]
        simp

/-- In every run whose handlers do not throw: no byte of a message that was reported with an
error is written behind the report, and each report without an error has the size of its
message, exactly if every write that takes a byte finds only its own message in the buffer. -/
theorem errors_accounted (hp : p.Streamed) (h : (system host p strand).RunIf Plain es s) :
    ((system host p strand).RunIf Settles es s ∧
      ∀ report ∈ s.reports, report.error = false → report.bytesTransferred = (report.message.encoding host p).length) ↔
    (system host p strand).RunIf Clear es s := by
  have hstep : ∀ s e s', Good host p s ∧ Taken host p s → Plain s e → (system host p strand).step s e = some s' →
      Good host p s' ∧ Taken host p s' := fun _ _ _ hi ho hs => ⟨hi.1.step hp ho hs, hi.2.step hi.1 ho hs⟩
  constructor
  · rintro ⟨hsettles, -⟩
    refine System.RunIf.mono_inv (fun s => Good host p s ∧ Taken host p s) (System.Steps.and h hsettles)
      ⟨Good.init, Taken.init⟩ (fun s e s' hi ho hs => hstep s e s' hi ho.1 hs) ?_
    rintro s e s' ⟨hg, ht⟩ ⟨ho, hsettle⟩ hs
    exact (settles_iff_clear hg ht ho hs).1 hsettle
  · intro hclear
    have hrun := System.Steps.and h hclear
    constructor
    · refine System.RunIf.mono_inv (fun s => Good host p s ∧ Taken host p s) hrun
        ⟨Good.init, Taken.init⟩ (fun s e s' hi ho hs => hstep s e s' hi ho.1 hs) ?_
      rintro s e s' ⟨hg, ht⟩ ⟨ho, hc⟩ hs
      exact (settles_iff_clear hg ht ho hs).2 hc
    · refine (System.RunIf.inv (fun s => (Good host p s ∧ Taken host p s) ∧ Counted host p s) hrun
        ⟨⟨Good.init, Taken.init⟩, Counted.init⟩ ?_).2.reported
      rintro s e s' ⟨hi, hcounted⟩ ⟨ho, hc⟩ hs
      exact ⟨hstep s e s' hi ho hs, hcounted.step hi.1 hi.2 ho hc hs⟩

/-- A line is written, the next write fails after one byte, and the last one before any. -/
theorem errors_accounted_line : ∃ s, (system .little .line true).RunIf Plain [.request (.action [97]), .sendMessage,
      .transfer false 2, .handler { requests := [.reply 7 [98]] }, .sendMessage, .transfer true 1, .handler {},
      .request (.action [99]), .sendMessage, .transfer true 0, .handler {}] s ∧
    (system .little .line true).RunIf Settles [.request (.action [97]), .sendMessage,
      .transfer false 2, .handler { requests := [.reply 7 [98]] }, .sendMessage, .transfer true 1, .handler {},
      .request (.action [99]), .sendMessage, .transfer true 0, .handler {}] s ∧
    s.stream = [97, 10, 98] ∧ s.sendBuffer = [10, 99, 10] := by
  have hexec : (system .little .line true).exec Plain (system .little .line true).init [.request (.action [97]),
      .sendMessage, .transfer false 2, .handler { requests := [.reply 7 [98]] }, .sendMessage, .transfer true 1,
      .handler {}, .request (.action [99]), .sendMessage, .transfer true 0, .handler {}] = some _ := rfl
  have hclear : (system .little .line true).exec Clear (system .little .line true).init [.request (.action [97]),
      .sendMessage, .transfer false 2, .handler { requests := [.reply 7 [98]] }, .sendMessage, .transfer true 1,
      .handler {}, .request (.action [99]), .sendMessage, .transfer true 0, .handler {}] = some _ := rfl
  have hrun := System.Steps.of_exec hexec
  exact ⟨_, hrun, ((errors_accounted (.inl rfl) hrun).2 (System.Steps.of_exec hclear)).1, rfl, rfl⟩

/-- A write fails after the first byte of its line. The next write takes the rest of that line first,
and reports 3 bytes for a line of 2. -/
theorem error_miscounts : ∃ s s', (system .little .line false).RunIf Plain [.request (.action [97]), .transfer true 1,
      .handler {}] s ∧
    (system .little .line false).Steps Plain s [.request (.action [98]), .transfer false 3, .handler {}] s' ∧
    s.reports = [⟨true, 1, ⟨.action, 1, [97]⟩⟩] ∧
    written .little .line s.stream [] ⟨.action, 1, [97]⟩ = [97] ∧
    written .little .line s'.stream [] ⟨.action, 1, [97]⟩ = [97, 10] ∧
    s'.reports = [⟨true, 1, ⟨.action, 1, [97]⟩⟩, ⟨false, 3, ⟨.action, 2, [98]⟩⟩] ∧
    Message.encode .little .line ⟨.action, 2, [98]⟩ = .ok [98, 10] := by
  have hexec : (system .little .line false).exec Plain (system .little .line false).init
      [.request (.action [97]), .transfer true 1, .handler {}] = some _ := rfl
  exact ⟨_, _, System.Steps.of_exec hexec, System.Steps.of_exec rfl, rfl, rfl, rfl, rfl, rfl⟩

end Sender
end Zar
