import Zar.Communication.Wire
import Zar.Lobby.Replies
/-!
# What a session writes

The sender of a session goes through a run of its own, in which closing the socket may
throw. So what a client gets are the messages of the session, in order; and where no write
failed and nothing is outstanding, it got all of them.
-/

namespace Zar

namespace Lobby

variable {L L' : Lobby} {s s' : Session} {e : Event} {gs : List Game} {host : Endian} {c : Bytes}

/-- The runs of a sender of a session. -/
abbrev senders (host : Endian) : System Sender Sender.Event := Sender.system host .telnet true

/-- No write failed. -/
def Unfailed (s : Session) : Prop := ∀ closed, .writeFailed closed ∉ s.trace

/-- The sender had a run, in which nothing failed unless the trace tells. -/
def Writes (host : Endian) (s : Session) : Prop :=
  ∃ es, (senders host).RunIf Sender.Kept es s.sender ∧
    (Unfailed s → (senders host).RunIf Sender.Calm es s.sender ∧ ∀ x ∈ s.sender.reports, x.error = false)

/-- Nothing happened to the sender. -/
theorem Writes.same (h : Writes host s) (hs : s'.sender = s.sender) (ht : s.trace <+: s'.trace) : Writes host s' := by
  obtain ⟨es, hrun, hcalm⟩ := h
  refine ⟨es, by rw [hs]; exact hrun, fun hu => ?_⟩
  rw [hs]
  exact hcalm fun closed hmem => hu closed (ht.subset hmem)

/-- The sender made a step, which does not throw and reports no error unless the trace tells. -/
theorem Writes.step (h : Writes host s) {e : Sender.Event} (ho : Sender.Kept s.sender e)
    (hs : s.sender.step e = some s'.sender) (ht : s.trace <+: s'.trace)
    (hcalm : Unfailed s' → (∀ react, e = .handler react → react.throws = none) ∧
      ∀ x ∈ s'.sender.reports, x ∈ s.sender.reports ∨ x.error = false) : Writes host s' := by
  obtain ⟨es, hrun, hwas⟩ := h
  refine ⟨es ++ [e], hrun.snoc ho hs, fun hu => ?_⟩
  obtain ⟨hthrow, hreports⟩ := hcalm hu
  obtain ⟨hbefore, hfine⟩ := hwas fun closed hmem => hu closed (ht.subset hmem)
  have hc : s.sender.protocol ≠ .compressed := by
    rw [(Sender.RunIf.onWire (.inr (.inl rfl)) hrun).1.sameProtocol]
    decide
  refine ⟨hbefore.snoc (ho.calm hc hthrow) hs, fun x hx => ?_⟩
  rcases hreports x hx with hx | hx
  · exact hfine x hx
  · exact hx

theorem Writes.send (h : Writes host s) (data : Bytes) : Writes host (s.send data) := by
  refine h.step (e := .request (.action data)) trivial rfl (List.prefix_append _ _) fun _ => ⟨by rintro _ ⟨⟩, ?_⟩
  intro x hx
  obtain ⟨b, w, st, he⟩ := Sender.request_change s.sender (.action data)
  left
  rw [show (s.send data).sender = (s.sender.request (.action data)).1 from rfl, he] at hx
  exact hx

theorem Answer.writes (h : Answer L s c s' gs) (hs : Writes host s) : Writes host s' := by
  cases h with
  | nothing => exact hs
  | reply _ data => exact hs.send data
  | login _ _ id => exact Writes.send (s := (s.setId id).setMode .lobby) hs _
  | create _ _ id => exact (Writes.send (s := s.setMode .creating_game) hs _).same rfl (List.prefix_refl _)

/-- The handler of a write, as a step of the sender. -/
theorem written_step {error : Bool} {n : Nat} {ws : List Write} (hw : s.sender.writes = .completed error n :: ws) :
    s.sender.step (.handler {}) = some (({ s.sender with writes := ws }).report error n).advance.1 ∧
      ∀ t, s.sender.step (.handler { throws := some t }) = some (({ s.sender with writes := ws }).report error n) := by
  simp only [Sender.step, hw]
  exact ⟨rfl, fun _ => rfl⟩

theorem advance_reports (x : Sender) : x.advance.1.reports = x.reports := by
  obtain ⟨b, w, st, e⟩ := Sender.advance_change x
  rw [e]

/-- A report of the handler is about its write. -/
theorem report_mem {x : Sender} {error : Bool} {n : Nat} {report : Report} (h : report ∈ (x.report error n).reports) :
    report ∈ x.reports ∨ report.error = error := by
  unfold Sender.report at h
  split at h
  · exact .inl h
  · rcases List.mem_append.1 h with h | h
    · exact .inl h
    · rw [List.mem_singleton.1 h]
      exact .inr rfl

theorem Moved.writes (h : Moved L s e s' gs) (hs : Writes host s) : Writes host s' := by
  cases h with
  | acceptFailed | readFailed => exact hs.same rfl (List.prefix_append _ _)
  | receiveMessage => exact hs.same rfl (List.prefix_refl _)
  | sendMessage h =>
    refine hs.step (e := .sendMessage) trivial h (List.prefix_refl _) fun _ => ⟨by rintro _ ⟨⟩, ?_⟩
    cases Sender.step_cases h with
    | @sendMessage m ms =>
      obtain ⟨b, w, st, he⟩ := Sender.sendMessage_change { s.sender with posted := ms } m
      rw [he]
      exact fun x hx => .inl hx
  | @transfer _ error n h =>
    refine hs.step (e := .transfer error n) trivial h (List.prefix_refl _) fun _ => ⟨by rintro _ ⟨⟩, ?_⟩
    cases Sender.step_cases h with
    | transfer => exact fun x hx => .inl hx
  | command _ ha =>
    exact (ha.writes (hs.same rfl (List.prefix_append _ _))).same rfl (List.prefix_refl _)
  | @wrote n ws throws hw =>
    refine hs.step (e := .handler {}) trivial (written_step hw).1 (List.prefix_refl _) fun _ => ⟨by rintro _ ⟨⟩; rfl, ?_⟩
    intro x hx
    have hx' : x ∈ (({ s.sender with writes := ws }).report false n).reports := by
      rw [← advance_reports]
      exact hx
    exact report_mem (x := { s.sender with writes := ws }) hx'
  | @closed n ws hw =>
    refine hs.step (e := .handler {}) trivial (written_step hw).1 (List.prefix_append _ _) fun hu => ?_
    exact absurd (List.mem_append_right _ (List.mem_singleton_self _)) (hu true)
  | @threw n ws throws hw =>
    refine hs.step (e := .handler { throws := some .system_error }) trivial ((written_step hw).2 .system_error) (List.prefix_append _ _) fun hu => ?_
    exact absurd (List.mem_append_right _ (List.mem_singleton_self _)) (hu false)

theorem Reachable.writes (h : (system host).Reachable L) : ∀ s ∈ L.everyone, Writes host s := by
  have hwait : ∀ s : Session, s.Waiting host → Writes host s := by
    intro s hs
    have hsender : s.sender = (senders host).init := by
      rw [hs]
      rfl
    unfold Writes
    rw [hsender]
    exact ⟨[], .nil, fun _ => ⟨.nil, fun x hx => by cases hx⟩⟩
  refine Reachable.sessions (Writes host) h hwait ?_ fun L s e s' gs _ _ hp hm => hm.writes hp
  intro s hs
  refine ((Writes.send (s := { s with trace := s.trace ++ [.accepted false] }) ?_ _).same rfl (List.prefix_refl _))
  exact (hwait s hs).same rfl (List.prefix_append _ _)

/-! ## The stream -/

/-- What a session asked its sender for, on the stream. -/
theorem called_lines (host : Endian) (hs : Sends s) :
    s.sender.called.flatMap (·.encoding host .telnet) = telnetLines (s.trace.filterMap Io.data) := by
  unfold Sends at hs
  rw [Sender.encoded_telnet, hs]

/-- The client gets what the session said, in order, as far as it gets. -/
theorem Reachable.stream (h : (system host).Reachable L) (hs : s ∈ L.everyone) :
    s.sender.stream <+: telnetLines (s.trace.filterMap Io.data) := by
  obtain ⟨es, hrun, -⟩ := Reachable.writes h s hs
  rw [← called_lines host (Reachable.sends h s hs)]
  exact Sender.RunIf.stream (.inr (.inl rfl)) hrun

/-- It gets all of it where no write failed and none is outstanding. -/
theorem Reachable.written (h : (system host).Reachable L) (hs : s ∈ L.everyone) (hu : Unfailed s)
    (hw : s.sender.writes = []) (hp : s.sender.posted = []) :
    s.sender.stream = telnetLines (s.trace.filterMap Io.data) := by
  obtain ⟨es, hrun, hcalm⟩ := Reachable.writes h s hs
  rw [← called_lines host (Reachable.sends h s hs)]
  exact Sender.RunIf.written (.inr (.inl rfl)) hrun (hcalm hu).1 (hcalm hu).2 hw hp

/-! ## The stream grows -/

/-- More is written, and more happened. -/
def Onwritten (s s' : Session) : Prop := s.sender.stream <+: s'.sender.stream ∧ s.trace <+: s'.trace

instance : Std.Refl Onwritten where
  refl _ := ⟨List.prefix_refl _, List.prefix_refl _⟩

theorem send_stream (s : Session) (data : Bytes) : (s.send data).sender.stream = s.sender.stream := by
  obtain ⟨b, w, st, h⟩ := Sender.request_change s.sender (.action data)
  rw [show (s.send data).sender = (s.sender.request (.action data)).1 from rfl, h]

theorem Answer.stream (h : Answer L s c s' gs) : s'.sender.stream = s.sender.stream := by
  cases h with
  | nothing => rfl
  | reply _ data => exact send_stream s data
  | login _ _ id => exact send_stream ((s.setId id).setMode .lobby) _
  | create _ _ id => exact send_stream (s.setMode .creating_game) _

theorem Moved.onwritten (h : Moved L s e s' gs) : Onwritten s s' := by
  cases h with
  | acceptFailed | readFailed => exact ⟨List.prefix_refl _, List.prefix_append _ _⟩
  | receiveMessage => exact ⟨List.prefix_refl _, List.prefix_refl _⟩
  | sendMessage h | transfer h => exact ⟨Sender.step_stream h, List.prefix_refl _⟩
  | @command c s' gs _ ha =>
    obtain ⟨replies, ht, -⟩ := ha.trace
    constructor
    · change s.sender.stream <+: s'.sender.stream
      rw [ha.stream]
      exact List.prefix_refl _
    · change s.trace <+: s'.trace
      rw [ht]
      exact (List.prefix_append _ _).trans (List.prefix_append _ _)
  | wrote hw => exact ⟨Sender.step_stream (e := .handler {}) (written_step hw).1, List.prefix_refl _⟩
  | closed hw => exact ⟨Sender.step_stream (e := .handler {}) (written_step hw).1, List.prefix_append _ _⟩
  | threw hw =>
    exact ⟨Sender.step_stream (e := .handler { throws := some .system_error }) ((written_step hw).2 .system_error),
      List.prefix_append _ _⟩

theorem Change.onwritten (hw : L.Wf) (h : Change L e L') : Lasting Onwritten L L' := by
  refine h.lasting Onwritten hw (fun s _ => ⟨?_, ?_⟩) fun s s' gs _ hm => hm.onwritten
  · have hsend := send_stream (s.setStatus .connected) (text "Zard\n1")
    exact hsend ▸ List.prefix_refl _
  · exact (List.prefix_append _ _).trans (List.prefix_append _ _)

end Lobby
end Zar
