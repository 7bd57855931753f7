import Zar.Czar.Steps
/-!
# The lines of the standard input

`asio_receive_handler` receives again behind the call of the handler. A line that
`execute` refuses leaves it with an exception, which the loop catches far from
there. So no line behind a refused one is read. Where no line is refused, every
line is executed, once and in order.
-/

namespace Zar

/-- A line is decoded without its end. -/
theorem call_line (host : Endian) (frame : Bytes) :
    Protocol.line.call host frame = some ⟨false, frame.length, some ⟨.reply, 0, frame.dropLast⟩⟩ := by
  have hsub : substr frame 0 (sizeSub frame.length 1) = frame.dropLast := by
    cases frame with
    | nil => rfl
    | cons b frame => simp [substr, sizeSub, List.dropLast_eq_take]
  unfold Protocol.call Message.decode
  rw [hsub]

namespace Application

variable {host : Endian} {a a' : Application} {e : Event} {es : List Event}

/-- The lines that are complete in what arrived. -/
def linesOf (host : Endian) (arrived : Bytes) : List Bytes := ((Protocol.line.format host).parse arrived).1.map List.dropLast

/-- The lines that were passed to `execute`. -/
def executed (a : Application) : List Bytes := a.input.calls.filterMap fun call => call.message.map (·.contents)

/-- The line that the event passes to `execute` is not refused. -/
def Accepted (a : Application) (e : Event) : Prop := ∀ line ∈ a.lineOf e, ¬ a.Refused (parseLine line)

instance (a : Application) (e : Event) : Decidable (Accepted a e) :=
  inferInstanceAs (Decidable (∀ line ∈ a.lineOf e, ¬ a.Refused (parseLine line)))

/-- The lines were executed once and in order, and those to come will be: a read is
outstanding, or it failed, and once it waits for more no line is left. -/
structure KeepsReading (host : Endian) (a : Application) : Prop where
  inOrder : a.executed <+: linesOf host a.input.arrived
  all : a.input.Waits → a.executed = linesOf host a.input.arrived
  outstanding : a.input.posted + a.input.reads.length = 1 ∨ ∃ call ∈ a.input.calls, call.error = true

/-! ## Where no line is refused -/

/-- The input follows the line protocol, under a handler that throws nothing. -/
def Follows (host : Endian) (a : Application) : Prop :=
  ∃ frames rest calls, Receiver.Follows (fun _ => .line) (fun _ => False) True host a.input frames rest calls

theorem Follows.input {e : Receiver.Event} {input : Receiver} (h : Follows host a) (hs : a.input.step e = some input)
    (ho : e.outside = false) (hr : e.reaction = {}) :
    ∃ frames rest calls, Receiver.Follows (fun _ => .line) (fun _ => False) True host input frames rest calls := by
  obtain ⟨frames, rest, calls, hf⟩ := h
  refine hf.step (fun _ => .inl rfl) ?_ ?_ hs
  · cases e with
    | arrive | receiveMessage | readSome => trivial
    | complete i react =>
      cases (show react = {} from hr)
      exact ⟨rfl, by simp⟩
    | fail i react =>
      cases (show react = {} from hr)
      exact ⟨rfl, trivial⟩
    | receive | setProtocol => cases ho
  · cases e with
    | complete => exact fun _ _ he => by cases he
    | arrive | receive | receiveMessage | readSome | fail | setProtocol => trivial

theorem Follows.change (h : Follows host a) (hst : a.Strands) (ho : Accepted a e) (hc : Change a e a') :
    Follows host a' := by
  cases hc with
  | line hs hout hline hr =>
    rw [executeLine_accepted hst.sender (ho _ hline)] at hr
    exact h.input hs hout hr
  | input hs hout _ hr => exact h.input hs hout hr
  | output | sender | receiver | connector | connected => exact h

theorem RunIf.inputFollows (h : (system host).RunIf Accepted es a) : Follows host a :=
  RunIf.changes (Follows host) h ⟨_, _, _, Receiver.Follows.init (q := fun _ => .line) (.inl rfl) true⟩
    fun _ _ _ hst hi ho hc => hi.change hst ho hc

theorem executed_frames {frames : List Bytes} {calls : List Call} (h : frames.mapM (Protocol.line.call host) = some calls) :
    (calls.filterMap fun call => call.message.map (·.contents)) = frames.map List.dropLast := by
  rw [Receiver.calls_total (call_line host) h, List.filterMap_map]
  exact congrFun List.filterMap_eq_map frames

theorem Follows.keepsReading (h : Follows host a) : KeepsReading host a := by
  obtain ⟨frames, rest, calls, hf⟩ := h
  have hreads : (Protocol.line.format host).parse a.input.arrived =
      (frames ++ ((Protocol.line.format host).parse rest).1, ((Protocol.line.format host).parse rest).2) :=
    Format.readsFrom_const.1 hf.reads
  have horder : (calls.filterMap fun call => call.message.map (·.contents)) <+: linesOf host a.input.arrived := by
    rw [executed_frames hf.mapM, linesOf, hreads, List.map_append]
    exact List.prefix_append _ _
  cases hf.stage with
  | threw _ _ _ _ ht => exact ht.elim
  | malformed _ _ _ _ _ _ hbad =>
    rw [call_line] at hbad
    cases hbad
  | reading _ hcalls _ hph =>
    refine ⟨by rw [executed, hcalls]; exact horder, fun hw => ?_, .inl hph.outstanding⟩
    obtain ⟨hu, read, hr, hc⟩ := hw
    have hnone := (hph.waiting (i := 0) (by rw [hr]; rfl) hc hu).1
    rw [hf.sameHost] at hnone
    rw [executed, hcalls, executed_frames hf.mapM, linesOf, hreads, Format.parse_none hnone, List.append_nil]
  | failed _ hreads hcalls _ =>
    have hexec : a.executed = calls.filterMap fun call => call.message.map (·.contents) := by
      rw [executed, hcalls, List.filterMap_append]
      exact List.append_nil _
    refine ⟨by rw [hexec]; exact horder, fun hw => ?_, .inr ⟨_, by rw [hcalls]; exact List.mem_concat_self, rfl⟩⟩
    obtain ⟨-, read, hr, -⟩ := hw
    rw [hreads] at hr
    cases hr

/-! ## Behind a line that is refused -/

/-- Nothing is read any more, and no read failed. -/
structure Stopped (a : Application) : Prop where
  posted : a.input.posted = 0
  reads : a.input.reads = []
  calls : ∀ call ∈ a.input.calls, call.error = false

instance (a : Application) : Decidable (Stopped a) :=
  decidable_of_iff (a.input.posted = 0 ∧ a.input.reads = [] ∧ ∀ call ∈ a.input.calls, call.error = false)
    ⟨fun ⟨hp, hr, hc⟩ => ⟨hp, hr, hc⟩, fun h => ⟨h.posted, h.reads, h.calls⟩⟩

theorem Stopped.same (h : Stopped a) (hi : a'.input = a.input) : Stopped a' :=
  ⟨by rw [hi]; exact h.posted, by rw [hi]; exact h.reads, by rw [hi]; exact h.calls⟩

/-- Only arrivals happen to the input then. -/
theorem Stopped.input (h : Stopped a) {e : Receiver.Event} {input : Receiver} (hs : a.input.step e = some input)
    (ho : e.outside = false) : a.lineOf (.input e) = none ∧ input.posted = 0 ∧ input.reads = [] ∧ input.calls = a.input.calls := by
  cases Receiver.step_cases hs with
  | arrive => exact ⟨rfl, h.posted, h.reads, rfl⟩
  | receive | setProtocol => cases ho
  | receiveMessage hpost => simp [h.posted] at hpost
  | readSome hi | complete _ hi | fail _ hi => simp [h.reads] at hi

theorem Stopped.change (h : Stopped a) (hc : Change a e a') : Stopped a' := by
  cases hc with
  | line hs ho hline _ =>
    rw [(h.input hs ho).1] at hline
    cases hline
  | input hs ho _ _ =>
    obtain ⟨-, hp, hr, hcalls⟩ := h.input hs ho
    exact ⟨hp, hr, by rw [hcalls]; exact h.calls⟩
  | output | sender | receiver | connector | connected => exact h.same rfl

/-- A line that is refused stops the reading. -/
theorem Follows.refused (h : Follows host a) (hst : a.Strands) (ho : ¬ Accepted a e) (hc : Change a e a') : Stopped a' := by
  have hrefused : ∃ line, a.lineOf e = some line ∧ a.Refused (parseLine line) := by
    simpa [Accepted] using ho
  obtain ⟨line, hline, href⟩ := hrefused
  cases hc with
  | input _ _ hnone _ =>
    rw [hnone] at hline
    cases hline
  | output | sender | receiver | connector | connected => cases hline
  | @line e input line' hs _ hline' hr =>
    obtain rfl : line = line' := Option.some.inj (hline.symm.trans hline')
    obtain ⟨t, ht⟩ := executeLine_refused hst.sender href
    rw [ht] at hr
    cases Receiver.step_cases hs with
    | arrive | receive | receiveMessage | readSome | fail | setProtocol => cases hline
    | @complete i n read react hi hn =>
      cases (show react = ⟨none, some t⟩ from hr)
      obtain ⟨frames, rest, calls, hf⟩ := h
      cases hf.stage with
      | malformed _ _ hreads | threw _ hreads | failed _ hreads => simp [hreads] at hi
      | reading hp hcalls _ hph =>
        obtain ⟨rfl, hreads, hpost⟩ := hph.read hi
        rcases hph.complete hi hn with ⟨hb, -⟩ | ⟨hhandle, hle, -, -, -⟩
        · cases hb
        · rw [hhandle, hreads]
          have he : [read].eraseIdx 0 = [] := rfl
          rw [he]
          rcases Receiver.asioReceiveHandler_frame { a.input with reads := [] } n ⟨none, some t⟩ hle with
            ⟨t', hbad, -⟩ | ⟨call, hcall, hx⟩
          · rw [hp, call_line] at hbad
            cases hbad
          · rw [hx]
            refine ⟨hpost, rfl, ?_⟩
            rw [hp, call_line] at hcall
            cases hcall
            intro call hmem
            rcases List.mem_append.1 hmem with hold | hnew
            · exact hf.call (hcalls ▸ hold)
            · rw [List.mem_singleton.1 hnew]

/-- A run without refused lines goes on, or reading stopped for good. -/
theorem Run.accepted (h : (system host).Run es a) : (system host).RunIf Accepted es a ∨ Stopped a := by
  apply h.inv_hist (fun es a => (system host).RunIf Accepted es a ∨ Stopped a) (.inl .nil)
  rintro es a e a' hr hi - hs
  have hst := RunIf.strands hr
  have hc := step_change hst hs
  rcases hi with hacc | hstop
  · by_cases ho : Accepted a e
    · exact .inl (.snoc hacc ho hs)
    · exact .inr ((RunIf.inputFollows hacc).refused hst ho hc)
  · exact .inr (hstop.change hc)

/-- The client keeps reading lines, and executes each once and in order, exactly in the runs
in which no line was refused. -/
theorem keeps_reading (h : (system host).Run es a) : KeepsReading host a ↔ (system host).RunIf Accepted es a := by
  constructor
  · intro hk
    rcases Run.accepted h with hacc | hstop
    · exact hacc
    · rcases hk.outstanding with hone | ⟨call, hmem, herr⟩
      · simp [hstop.posted, hstop.reads] at hone
      · rw [hstop.calls call hmem] at herr
        cases herr
  · exact fun hacc => (RunIf.inputFollows hacc).keepsReading

/-- The first line begins a block and the second one connects. -/
theorem keeps_reading_connect : ∃ a,
    (system .little).Run [.input .receiveMessage, .input (.arrive (text "/begin\n/connect x\n")),
      .input (.readSome 0 7), .input (.complete 0 {}), .input .receiveMessage, .input (.readSome 0 11),
      .input (.complete 0 {})] a ∧
    (KeepsReading .little a ↔ (system .little).RunIf Accepted [.input .receiveMessage,
      .input (.arrive (text "/begin\n/connect x\n")), .input (.readSome 0 7), .input (.complete 0 {}),
      .input .receiveMessage, .input (.readSome 0 11), .input (.complete 0 {})] a) ∧
    a.executed = [text "/begin", text "/connect x"] ∧ a.input.posted = 1 := by
  have hexec : (system .little).exec (fun _ _ => True) (system .little).init [.input .receiveMessage,
      .input (.arrive (text "/begin\n/connect x\n")), .input (.readSome 0 7), .input (.complete 0 {}),
      .input .receiveMessage, .input (.readSome 0 11), .input (.complete 0 {})] = some _ := rfl
  have hrun := System.Steps.of_exec hexec
  exact ⟨_, hrun, keeps_reading hrun, rfl, rfl⟩

/-- An unknown command, and a line behind it that is never read. -/
theorem unknown_command_stops : ∃ a,
    (system .little).Run [.input .receiveMessage, .input (.arrive (text "/foo\n/connect x\n")), .input (.readSome 0 16),
      .input (.complete 0 ⟨none, some (.texception .invalid_value (text "Commend »foo« is not supported"))⟩)] a ∧
    ¬ KeepsReading .little a ∧ a.executed = [text "/foo"] ∧ a.input.inputBuffer = text "/connect x\n" := by
  have hexec : (system .little).exec (fun _ _ => True) (system .little).init [.input .receiveMessage,
      .input (.arrive (text "/foo\n/connect x\n")), .input (.readSome 0 16),
      .input (.complete 0 ⟨none, some (.texception .invalid_value (text "Commend »foo« is not supported"))⟩)] =
      some _ := rfl
  refine ⟨_, System.Steps.of_exec hexec, fun hk => ?_, rfl, rfl⟩
  rcases hk.outstanding with hone | ⟨call, hmem, herr⟩
  · cases hone
  · obtain rfl := List.mem_singleton.1 hmem
    cases herr

end Application
end Zar
