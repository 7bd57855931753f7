import Zar.Czar.Overlap
import Zar.Czar.Streams
/-!
# What was typed is asked

The actions of a client are those of the lines that arrived at its standard input, in
whatever pieces they came, and whatever the socket does meanwhile. Behind a line that is
refused nothing is asked any more. By itself the input reads on until it waits for more.
-/

namespace Zar

/-- What is to be asked for the lines. -/
def asksFor (lines : List Bytes) : List Bytes := (items none lines).flatMap Item.sent

namespace Application

variable {host : Endian} {a a' : Application} {typed : Option (List Bytes)} {l : Bytes} {e : Event} {es : List Event}

/-- The lines that arrived at the standard input. -/
def typedLines (a : Application) : List Bytes := linesOf a.input.host a.input.arrived

theorem linesOf_mono (host : Endian) {xs ys : Bytes} (h : xs <+: ys) : linesOf host xs <+: linesOf host ys := (Format.parse_mono h).map _

/-- A line ends at its first line end. -/
theorem linesOf_free (host : Endian) (bytes : Bytes) : ∀ line ∈ linesOf host bytes, 10 ∉ line := by
  intro line hline
  obtain ⟨frame, hframe, rfl⟩ := List.mem_map.1 hline
  refine Format.parse_forall (F := Protocol.line.format host) (fun frame => 10 ∉ frame.dropLast) ?_ bytes frame hframe
  intro xs m r hnext
  rw [next_terminator (p := .line) rfl] at hnext
  obtain ⟨n, hn, he⟩ := Option.map_eq_some_iff.1 hnext
  obtain ⟨rfl, -⟩ := Prod.mk.inj he
  have hpos : 0 < n := matchEnd_pos (by decide) hn
  have hle : n ≤ xs.length := (matchEnd_some hn).2.1
  have hfirst := matchEnd_first hn (Nat.sub_lt hpos Nat.one_pos)
  rw [List.dropLast_eq_take, List.length_take, Nat.min_eq_left hle, List.take_take, Nat.min_eq_left (Nat.sub_le n 1)]
  exact fun hmem => hfirst ((List.singleton_infix_iff 10 _).2 hmem)

/-! ## One line -/

/-- The client buffers the lines of the open block. -/
structure Buffers (a : Application) (typed : Option (List Bytes)) : Prop where
  mode : a.bufferingMode = typed.isSome
  buffer : a.commandBuffer = (typed.map fun block => ended 10 (kept block)).getD []

/-- A line that goes to the server is sent, or put into the open block. -/
theorem Buffers.server (h : Buffers a typed) (hst : a.Strands) (hline : ¬ (l = [] ∨ Slashed l)) :
    Buffers (a.effect (.server l)) (advance typed l).1 ∧
      (a.effect (.server l)).actions = a.actions ++ (advance typed l).2.flatMap Item.sent := by
  have hbegin : l ≠ text "/begin" := by
    rintro rfl
    exact hline (.inr (by decide))
  have hend : l ≠ text "/end" := by
    rintro rfl
    exact hline (.inr (by decide))
  cases typed with
  | none =>
    have hm : a.bufferingMode = false := h.mode
    simp only [effect, hm, Bool.false_eq_true, if_false, advance, hbegin]
    refine ⟨⟨hm, h.buffer⟩, ?_⟩
    rw [sendAction_actions hst.sender, List.flatMap_singleton, Item.sent, kept_line hline]
  | some block =>
    have hm : a.bufferingMode = true := h.mode
    have hbuffer : a.commandBuffer = ended 10 (kept block) := h.buffer
    simp only [effect, hm, if_true, advance, hend, if_false]
    refine ⟨⟨rfl, ?_⟩, (List.append_nil _).symm⟩
    have hnl : text "\n" = [10] := by decide
    simp [hbuffer, kept_append, kept_line hline, hnl]

/-- A line of the client that neither begins a block nor ends one changes none. -/
theorem Buffers.skipped (h : Buffers a typed) (hline : l = [] ∨ Slashed l) (hbegin : l ≠ text "/begin")
    (hend : l ≠ text "/end") : Buffers a (advance typed l).1 ∧ (advance typed l).2.flatMap Item.sent = [] := by
  cases typed with
  | none =>
    simp only [advance, hbegin, if_false]
    exact ⟨h, by simp [Item.sent, kept_skip hline]⟩
  | some block =>
    simp only [advance, hend, if_false]
    refine ⟨⟨h.mode, ?_⟩, rfl⟩
    rw [h.buffer]
    simp [kept_append, kept_skip hline]

/-- What a line that is not refused does to the buffer and to the actions, connected or not. -/
theorem Buffers.line (h : Buffers a typed) (hst : a.Strands) (hr : ¬ a.Refused (parseLine l)) :
    Buffers (a.effect (parseLine l)) (advance typed l).1 ∧
      (a.effect (parseLine l)).actions = a.actions ++ (advance typed l).2.flatMap Item.sent := by
  rcases parseLine_cases l with ⟨hl, hp⟩ | ⟨hl, hp⟩ | ⟨hl, hp⟩ | ⟨hslash, hbegin, hend, ⟨server, hp⟩ | ⟨command, hp⟩⟩ |
    ⟨hne, hslash, hp⟩
  · obtain ⟨hb, hnone⟩ := h.skipped (.inl hl) (by rw [hl]; decide) (by rw [hl]; decide)
    rw [hp, hnone, List.append_nil]
    exact ⟨hb, rfl⟩
  · rw [hp] at hr ⊢
    have hm : a.bufferingMode = false := eq_false_of_ne_true hr
    cases typed with
    | some block => exact absurd (hm.symm.trans h.mode) (by simp)
    | none =>
      simp only [advance, hl, if_true]
      exact ⟨⟨rfl, h.buffer⟩, (List.append_nil _).symm⟩
  · rw [hp] at hr ⊢
    have hm : a.bufferingMode = true := eq_true_of_ne_false fun hf => hr (.inl hf)
    cases typed with
    | none => exact absurd (hm.symm.trans h.mode) (by simp)
    | some block =>
      simp only [advance, hl, if_true]
      refine ⟨⟨rfl, rfl⟩, ?_⟩
      exact (sendAction_actions hst.sender a.commandBuffer).trans (by rw [h.buffer]; rfl)
  · obtain ⟨hb, hnone⟩ := h.skipped (.inr hslash) hbegin hend
    rw [hp, hnone, List.append_nil]
    exact ⟨⟨hb.mode, hb.buffer⟩, rfl⟩
  · exact absurd (show a.Refused (parseLine l) by rw [hp]; trivial) hr
  · rw [hp]
    exact h.server hst (not_or.2 ⟨hne, hslash⟩)

/-! ## Runs -/

/-- The actions are those of the lines that were executed. -/
structure Asking (a : Application) : Prop where
  buffers : Buffers a (openBlock none a.executed)
  actions : a.actions = asksFor a.executed

/-- A step that executes no line keeps the buffer and the actions. -/
theorem Change.idle (hc : Change a e a') (hline : a.lineOf e = none) :
    a'.bufferingMode = a.bufferingMode ∧ a'.commandBuffer = a.commandBuffer ∧ a'.actions = a.actions := by
  cases hc with
  | line _ _ hsome =>
    rw [hline] at hsome
    cases hsome
  | sender hs ho hr => exact ⟨rfl, rfl, congrArg (List.map _) (Sender.step_called_same ho hr hs)⟩
  | input | output | receiver | connector | connected => exact ⟨rfl, rfl, rfl⟩

theorem Asking.change (h : Asking a) (hst : a.Strands) (ho : Accepted a e) (hc : Change a e a') : Asking a' := by
  have hexecuted := hc.executed
  cases hline : a.lineOf e with
  | none =>
    obtain ⟨hmode, hbuffer, hactions⟩ := hc.idle hline
    rw [hline, Option.toList_none, List.append_nil] at hexecuted
    refine ⟨?_, by rw [hactions, hexecuted]; exact h.actions⟩
    rw [hexecuted]
    exact ⟨hmode.trans h.buffers.mode, hbuffer.trans h.buffers.buffer⟩
  | some l =>
    have hr := ho l hline
    obtain ⟨hb, hactions⟩ := h.buffers.line hst hr
    rw [hline, Option.toList_some] at hexecuted
    cases hc with
    | line _ _ hline' =>
      obtain rfl := Option.some.inj (hline.symm.trans hline')
      rw [executeLine_accepted hst.sender hr] at hexecuted ⊢
      refine ⟨?_, ?_⟩
      · rw [hexecuted, openBlock_concat]
        exact ⟨hb.mode, hb.buffer⟩
      · rw [hexecuted, asksFor, items_concat, List.flatMap_append]
        exact hactions.trans (by rw [h.actions, asksFor])
    | input _ _ hnone =>
      rw [hline] at hnone
      cases hnone
    | output | sender | receiver | connector | connected => cases hline

theorem RunIf.asking (h : (system host).RunIf Accepted es a) : Asking a :=
  RunIf.changes Asking h ⟨⟨rfl, rfl⟩, rfl⟩ fun _ _ _ hst hi ho hc => hi.change hst ho hc

/-- For a line that is refused nothing is asked. -/
theorem Change.refused (hc : Change a e a') (hst : a.Strands) (ho : ¬ Accepted a e) :
    a'.actions = a.actions ∧ ∃ l, a'.executed = a.executed ++ [l] := by
  have hrefused : ∃ l, a.lineOf e = some l ∧ a.Refused (parseLine l) := by
    simpa [Accepted] using ho
  obtain ⟨l, hline, hr⟩ := hrefused
  refine ⟨?_, l, by rw [hc.executed, hline, Option.toList_some]⟩
  cases hc with
  | line _ _ hline' =>
    obtain rfl := Option.some.inj (hline.symm.trans hline')
    obtain ⟨t, ht⟩ := executeLine_refused hst.sender hr
    obtain ⟨-, hsock, -⟩ := refusal_parts a (parseLine l)
    rw [ht]
    exact congrArg (fun socket => socket.sender.called.map (·.contents)) hsock
  | input _ _ hnone =>
    rw [hline] at hnone
    cases hnone
  | output | sender | receiver | connector | connected => cases hline

/-- What arrived at the input stays. -/
theorem Change.grown (hc : Change a e a') : a.input.arrived <+: a'.input.arrived := by
  cases hc with
  | line hs | input hs =>
    rw [Receiver.step_arrived hs]
    exact List.prefix_append _ _
  | output | sender | receiver | connector | connected => exact List.prefix_refl _

/-- Behind a line that is refused no line is executed. -/
theorem Stopped.idle (h : Stopped a) (hc : Change a e a') : a.lineOf e = none := by
  cases hc with
  | line hs ho | input hs ho => exact (h.input hs ho).1
  | output | sender | receiver | connector | connected => rfl

/-- The lines that were taken, the actions asked for them, and the line that was refused. -/
structure Took (a : Application) (front : List Bytes) : Prop where
  typed : front <+: a.typedLines
  asked : a.actions = asksFor front
  executed : a.executed = front ∨ Stopped a ∧ ∃ l, a.executed = front ++ [l]

theorem RunIf.took (h : (system host).RunIf Accepted es a) : Took a a.executed :=
  ⟨(RunIf.inputFollows h).keepsReading.inOrder, (RunIf.asking h).actions, .inl rfl⟩

theorem Run.took (h : (system host).Run es a) :
    (system host).RunIf Accepted es a ∨ Stopped a ∧ ∃ front, Took a front := by
  apply h.inv_hist (fun es a => (system host).RunIf Accepted es a ∨ Stopped a ∧ ∃ front, Took a front) (.inl .nil)
  rintro es a e a' hr hi - hs
  have hst := RunIf.strands hr
  have hc := step_change hst hs
  have hgrown := linesOf_mono host hc.grown
  rcases hi with hacc | ⟨hstop, front, htook⟩
  · by_cases ho : Accepted a e
    · exact .inl (.snoc hacc ho hs)
    · have hstop := (RunIf.inputFollows hacc).refused hst ho hc
      obtain ⟨hactions, l, hexecuted⟩ := hc.refused hst ho
      have htook := RunIf.took hacc
      exact .inr ⟨hstop, a.executed, htook.typed.trans hgrown, hactions.trans htook.asked, .inr ⟨hstop, l, hexecuted⟩⟩
  · have hline := hstop.idle hc
    have hstop' := hstop.change hc
    obtain ⟨-, -, hactions⟩ := hc.idle hline
    have hexecuted := hc.executed
    rw [hline, Option.toList_none, List.append_nil] at hexecuted
    refine .inr ⟨hstop', front, htook.typed.trans hgrown, hactions.trans htook.asked, ?_⟩
    rw [hexecuted]
    exact htook.executed.imp_right fun ⟨_, hl⟩ => ⟨hstop', hl⟩

/-- The actions are those of lines that arrived, from the first one on: all that were executed, but
for one that was refused and behind which nothing is read. Where the input waits for more they are
those of all lines that arrived. -/
theorem asks_what_was_typed (h : (system host).Reachable a) :
    ∃ front, Took a front ∧ (a.input.Waits → front = a.typedLines) := by
  obtain ⟨es, h⟩ := h
  rcases Run.took h with hacc | ⟨hstop, front, htook⟩
  · exact ⟨a.executed, RunIf.took hacc, (RunIf.inputFollows hacc).keepsReading.all⟩
  · refine ⟨front, htook, fun hwaits => ?_⟩
    obtain ⟨-, read, hread, -⟩ := hwaits
    rw [hstop.reads] at hread
    cases hread

/-- A client connects, and a block is typed that arrives in two pieces. -/
def block : List Event :=
  [.input .receiveMessage, .input (.arrive (text "/connect x\n/beg")), .input (.readSome 0 15), .input (.complete 0 {}),
    .connector .asioResolve, .connector (.resolved 0 (some [⟨1, 2048⟩])), .connector (.attempt 0 true),
    .connector (.connected 0), .input .receiveMessage, .input (.arrive (text "in\na\n\n/end\n")), .input (.readSome 0 11),
    .input (.complete 0 {}), .input .receiveMessage, .input (.complete 0 {}), .input .receiveMessage, .input (.complete 0 {}),
    .input .receiveMessage, .input (.complete 0 {}), .input .receiveMessage]

theorem asks_what_was_typed_block : ∃ a, (system .little).Run block a ∧ a.input.Waits ∧ Took a a.typedLines ∧
    a.actions = [text "a\n"] := by
  obtain ⟨a, hrun, hunread, ⟨read, -, hread, hcomplete⟩, hactions⟩ := System.Run.exists_of_exec (system .little) block
    (fun a => a.input.unread = [] ∧ (∃ read ∈ a.input.reads, a.input.reads = [read] ∧ read.complete a.input.inputBuffer = none) ∧
      a.actions = [text "a\n"]) (by decide +kernel)
  have hwaits : a.input.Waits := ⟨hunread, read, hread, hcomplete⟩
  obtain ⟨front, htook, hall⟩ := asks_what_was_typed (System.Run.reachable hrun)
  exact ⟨a, hrun, hwaits, hall hwaits ▸ htook, hactions⟩

/-! ## The input comes to rest -/

/-- The exception that leaves the handler. -/
def answer (a : Application) (e : Receiver.Event) : Option Thrown := (a.lineOf (.input e)).bind fun l => (a.executeLine l).2

/-- A step of the input is one of the client, with the exception of its line. -/
theorem stepInput_some {e : Receiver.Event} (ho : e.outside = false) {input : Receiver} (hs : a.input.step e = some input)
    (hr : e.reaction = ⟨none, a.answer e⟩) : ∃ a', a.step (.input e) = some a' := by
  have hcall : (a.onCall execute (a.input.newCall input)).2 = a.answer e := by
    rcases Receiver.step_newCall hs with ⟨hn, hm⟩ | ⟨n, hn, hm⟩ | ⟨n, m, hn, hm⟩ <;>
      simp [hn, onCall, execute, answer, lineOf, hm]
  simp [step, ho, stepInput, hs, hr, hcall]

theorem stepInput_input {e : Receiver.Event} (hst : a.Strands) (hs : a.step (.input e) = some a') :
    a.input.step e = some a'.input := by
  cases step_change hst hs with
  | line hstep | input hstep => exact hstep

/-- Where the input stands: it reads lines, a read failed, or reading stopped. -/
theorem Reachable.input_stage (h : (system host).Reachable a) :
    (a.input.protocol = .line ∧ ∃ rest, Receiver.Phase .line a.input rest) ∨
      a.input.posted = 0 ∧ a.input.reads = [] ∧ (Stopped a ∨ ∃ call ∈ a.input.calls, call.error = true) := by
  obtain ⟨es, h⟩ := h
  rcases Run.accepted h with hacc | hstop
  · obtain ⟨frames, rest, calls, hf⟩ := RunIf.inputFollows hacc
    cases hf.stage with
    | reading hp _ _ hph => exact .inl ⟨hp, rest, hph⟩
    | failed hpost hreads hcalls =>
      exact .inr ⟨hpost, hreads, .inr ⟨_, by rw [hcalls]; exact List.mem_concat_self, rfl⟩⟩
    | malformed _ _ _ _ _ _ hbad =>
      rw [call_line] at hbad
      cases hbad
    | threw _ _ _ _ ht => exact ht.elim
  · exact .inr ⟨hstop.posted, hstop.reads, .inl hstop⟩

/-- Each step of the input leaves less to read. -/
theorem Reachable.input_lt (h : (system host).Reachable a) {e : Receiver.Event} (ho : e.Own)
    (hs : a.step (.input e) = some a') : a'.input.work < a.input.work := by
  have hstep := stepInput_input (Reachable.strands h) hs
  rcases Reachable.input_stage h with ⟨hp, rest, hph⟩ | ⟨hpost, hreads, -⟩
  · refine Receiver.terminator_work_lt (d := text "\n") (by rw [hp]; rfl) ?_ ho hstep
    intro read hread
    obtain ⟨i, hi⟩ := List.mem_iff_getElem?.1 hread
    cases hph with
    | posted _ hreads => simp [hreads] at hi
    | terminator hd _ hreads =>
      cases hd
      rw [hreads] at hi
      exact (Receiver.single_read hi).2
    | length hb | payload hb => cases hb
  · cases e with
    | receiveMessage | readSome | complete => simp [Receiver.step, hpost, hreads] at hstep
    | arrive | receive | fail | setProtocol => exact ho.elim

/-- Where it has none left it waits for more, or a line was refused, or a read failed. -/
theorem Reachable.input_rest (h : (system host).Reachable a) (hrest : ∀ e : Receiver.Event, e.Own → a.step (.input e) = none) :
    a.input.Waits ∨ Stopped a ∨ ∃ call ∈ a.input.calls, call.error = true := by
  rcases Reachable.input_stage h with ⟨-, rest, hph⟩ | ⟨-, -, hdone⟩
  · have hinput : (Receiver.system host .line true).Rest Receiver.Internal a.input := by
      intro e ho
      change a.input.step e = none
      by_contra hne
      obtain ⟨input, hs⟩ := Option.ne_none_iff_exists'.1 hne
      -- The handler throws what the line throws.
      have hsome : ∃ e' : Receiver.Event, e'.Own ∧ ∃ a', a.step (.input e') = some a' := by
        cases e with
        | receiveMessage => exact ⟨.receiveMessage, trivial, stepInput_some rfl hs rfl⟩
        | readSome i k => exact ⟨.readSome i k, trivial, stepInput_some rfl hs rfl⟩
        | complete i react =>
          cases Receiver.step_cases hs with
          | complete _ hi hn =>
            have hany : ∀ react, ∃ input, a.input.step (.complete i react) = some input := by
              simp [Receiver.step, hi, hn]
            obtain ⟨input, hs⟩ := hany ⟨none, a.answer (.complete i {})⟩
            exact ⟨.complete i ⟨none, a.answer (.complete i {})⟩, rfl, stepInput_some rfl hs rfl⟩
        | arrive | receive | fail | setProtocol => exact ho.elim
      obtain ⟨e', ho', a', hs'⟩ := hsome
      rw [hrest e' ho'] at hs'
      cases hs'
    obtain ⟨read, hi, hcomplete, hunread⟩ := hph.at_rest hinput
    exact .inl ⟨hunread, read, (hph.read hi).2.1, hcomplete⟩
  · exact .inr hdone

end Application
end Zar
