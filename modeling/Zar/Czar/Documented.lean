import Zar.Communication.Channel
import Zar.Czar.Keyboard
/-!
# The client against the manual

A connected client sends for the lines what `Item.sent` says, up to the first line that it
refuses, and nothing behind it: it reads no further line then. So what is sent is what the
manual says exactly if every block before that line is tidy and behind it nothing is to be sent.
-/

namespace Zar

/-- A connected client refuses the slashed lines that neither begin a block outside of one nor end one. -/
def Refuses (typed : Option (List Bytes)) (line : Bytes) : Prop :=
  Slashed line ∧ line ≠ if typed.isSome then text "/end" else text "/begin"

instance (typed : Option (List Bytes)) (line : Bytes) : Decidable (Refuses typed line) := inferInstanceAs (Decidable (_ ∧ _))

/-- The lines before the first one that is refused. -/
def taken : Option (List Bytes) → List Bytes → List Bytes
  | _, [] => []
  | typed, line :: lines => if Refuses typed line then [] else line :: taken (advance typed line).1 lines

section
variable {typed : Option (List Bytes)} {lines : List Bytes} {l : Bytes}

theorem taken_append (h : taken typed lines = lines) (later : List Bytes) :
    taken typed (lines ++ later) = lines ++ taken (openBlock typed lines) later := by
  induction lines generalizing typed with
  | nil => rfl
  | cons line lines ih =>
    rw [taken] at h
    split at h
    · cases h
    · rename_i hr
      rw [List.cons_append, taken, if_neg hr, ih (List.cons.inj h).2]
      rfl

theorem taken_concat (h : taken typed lines = lines) (hr : ¬ Refuses (openBlock typed lines) l) :
    taken typed (lines ++ [l]) = lines ++ [l] := by
  rw [taken_append h, taken, if_neg hr]
  rfl

theorem taken_subset (typed : Option (List Bytes)) (lines : List Bytes) : taken typed lines ⊆ lines := by
  induction lines generalizing typed with
  | nil => exact List.Subset.refl _
  | cons line lines ih =>
    rw [taken]
    split
    · exact List.nil_subset _
    · exact List.cons_subset_cons line (ih _)

/-- A line that is not refused brings no slashed line into a block. -/
theorem advance_clean (htyped : ∀ block ∈ typed, ∀ line ∈ block, ¬ Slashed line) (hr : ¬ Refuses typed l) :
    (∀ block ∈ (advance typed l).1, ∀ line ∈ block, ¬ Slashed line) ∧
      ∀ block, .block block ∈ (advance typed l).2 → ∀ line ∈ block, ¬ Slashed line := by
  cases typed with
  | none =>
    by_cases hl : l = text "/begin"
    · have hadvance : advance none l = (some [], []) := if_pos hl
      rw [hadvance]
      exact ⟨by rintro _ ⟨⟩ line ⟨⟩, by rintro block ⟨⟩⟩
    · have hadvance : advance none l = (none, [.line l]) := if_neg hl
      rw [hadvance]
      exact ⟨by rintro _ ⟨⟩, fun block hmem => by cases List.mem_singleton.1 hmem⟩
  | some ls =>
    have hls : ∀ line ∈ ls, ¬ Slashed line := htyped ls rfl
    by_cases hl : l = text "/end"
    · have hadvance : advance (some ls) l = (none, [.block ls]) := if_pos hl
      rw [hadvance]
      refine ⟨by rintro _ ⟨⟩, fun block hmem => ?_⟩
      obtain rfl := Item.block.inj (List.mem_singleton.1 hmem)
      exact hls
    · have hadvance : advance (some ls) l = (some (ls ++ [l]), []) := if_neg hl
      rw [hadvance]
      refine ⟨?_, by rintro block ⟨⟩⟩
      rintro _ ⟨⟩ line hline
      rcases List.mem_append.1 hline with hline | hline
      · exact hls line hline
      · rw [List.mem_singleton.1 hline]
        exact fun hs => hr ⟨hs, hl⟩

theorem taken_clean (htyped : ∀ block ∈ typed, ∀ line ∈ block, ¬ Slashed line) (lines : List Bytes) :
    ∀ block, .block block ∈ items typed (taken typed lines) → ∀ line ∈ block, ¬ Slashed line := by
  induction lines generalizing typed with
  | nil => rintro block ⟨⟩
  | cons line lines ih =>
    intro block hmem
    rw [taken] at hmem
    split at hmem
    · cases hmem
    · rename_i hr
      obtain ⟨hopen, hitems⟩ := advance_clean htyped hr
      rw [items, List.mem_append] at hmem
      exact hmem.elim (hitems block) (ih hopen block)

/-- Of the lines the first ones are sent for, and nothing for the others. -/
theorem asDocumented_iff {front later : List Bytes} (hlines : lines = front ++ later) (hfree : ∀ line ∈ lines, 10 ∉ line)
    (hclean : ∀ block, .block block ∈ items none front → ∀ line ∈ block, ¬ Slashed line) :
    AsDocumented lines (asksFor front) ↔ (∀ block, .block block ∈ items none front → Tidy block) ∧
      ∀ i ∈ items (openBlock none front) (lines.drop front.length), i.Silent := by
  subst hlines
  have hitems : ∀ i ∈ items none front, ∀ line ∈ i.lines, 10 ∉ line :=
    items_free (fun line hmem => hfree line (List.mem_append_left _ hmem)) (by simp)
  rw [List.drop_left, ← documented_append_iff hitems hclean, AsDocumented, items_append]
  exact and_iff_left (sent_not_slashed hitems)

end

/-! ## What is executed was typed -/

namespace Receiver

variable {r r' : Receiver} {e : Event} {host : Endian}

/-- What was heard of lines, and the contents of all calls: one with an error has none. -/
structure HearsLines (host : Endian) (r : Receiver) : Prop where
  hears : Hears host .line r
  contents : (r.calls.filterMap fun call => call.message.map (·.contents)) =
    r.heard.filterMap fun call => call.message.map (·.contents)

/-- Nobody calls the receiver from outside, and its handler leaves the protocol. -/
theorem HearsLines.step (h : HearsLines host r) (ho : e.outside = false) (hr : e.reaction.protocol = none)
    (hs : r.step e = some r') : HearsLines host r' := by
  have hsteady : Steady r e := by
    cases e with
    | arrive | receiveMessage | readSome => trivial
    | complete | fail => exact hr
    | receive | setProtocol => cases ho
  refine ⟨h.hears.step (.inl rfl) hsteady hs, ?_⟩
  have hcontents := h.contents
  rcases step_calls hs with ⟨hc, -⟩ | ⟨n, hc, -⟩ | ⟨n, m, hc, -⟩ <;> simp [heard, hc, hcontents]

end Receiver

namespace Application

variable {host : Endian} {a a' b : Application} {typed : Option (List Bytes)} {front : List Bytes} {l : Bytes} {e : Event}
  {es : List Event}

theorem Reachable.hears (h : (system host).Reachable a) : Receiver.HearsLines host a.input := by
  obtain ⟨es, h⟩ := h
  refine RunIf.changes (fun a => Receiver.HearsLines host a.input) h ⟨Receiver.Hears.init (.inl rfl) host true, rfl⟩ ?_
  intro a e a' _ hi _ hc
  cases hc with
  | line hs ho _ hr | input hs ho _ hr => exact hi.step ho (congrArg ReceiveReaction.protocol hr) hs
  | output | sender | receiver | connector | connected => exact hi

theorem Reachable.executed_typed (h : (system host).Reachable a) : a.executed <+: a.typedLines := by
  obtain ⟨⟨frames, rest, calls, hheard, rfl, -⟩, hexecuted⟩ := Reachable.hears h
  have hframes : a.executed = _ := hexecuted.trans (executed_frames hheard.mapM)
  have hparse : (Protocol.line.format host).parse a.input.arrived =
      (frames ++ ((Protocol.line.format host).parse rest).1, ((Protocol.line.format host).parse rest).2) :=
    Format.readsFrom_const.1 hheard.reads
  change _ <+: linesOf host a.input.arrived
  rw [hframes, linesOf, hparse, List.map_append]
  exact List.prefix_append _ _

/-- A line that was executed has no line end. -/
theorem Reachable.executed_free (h : (system host).Reachable a) : ∀ line ∈ a.executed, 10 ∉ line := fun line hmem =>
  linesOf_free _ _ line ((Reachable.executed_typed h).subset hmem)

/-! ## What a connected client refuses -/

theorem Buffers.refused_iff (h : Buffers a typed) (hc : a.connected = true) (l : Bytes) :
    a.Refused (parseLine l) ↔ Refuses typed l := by
  have hslash : Slashed (text "/begin") ∧ Slashed (text "/end") ∧ text "/begin" ≠ text "/end" := by decide
  have hmode := h.mode
  rcases parseLine_cases l with ⟨rfl, hp⟩ | ⟨rfl, hp⟩ | ⟨rfl, hp⟩ | ⟨hs, hbegin, hend, ⟨server, hp⟩ | ⟨command, hp⟩⟩ |
    ⟨-, hs, hp⟩ <;> rw [hp]
  · exact ⟨False.elim, fun hr => absurd hr.1 (by decide)⟩
  · cases typed <;> simp [Refused, Refuses, hmode, hslash]
  · cases typed <;> simp [Refused, Refuses, hmode, hslash, hc, hslash.2.2.symm]
  · cases typed <;> simp [Refused, Refuses, hs, hbegin, hend, hc]
  · cases typed <;> simp [Refused, Refuses, hs, hbegin, hend]
  · simp [Refused, Refuses, hs, hc]

theorem Change.stays_connected (hst : a.Strands) (hc : Change a e a') (h : a.connected = true) : a'.connected = true := by
  cases hc with
  | @line _ _ line => exact (executeLine_asked hst line).connected.trans h
  | connected => simp [h]
  | input | output | sender | receiver | connector => exact h

/-! ## What is sent from then on -/

/-- The lines that were executed since `b`, with the one that was refused. -/
def executedTo (b a : Application) : List Bytes := a.executed.drop b.executed.length

/-- The lines since `b`: those that were executed, and all that arrived where one of them was refused. -/
def linesTo (b a : Application) : List Bytes :=
  if a.Stopped then a.typedLines.drop b.executed.length else executedTo b a

/-- What was passed to `socket_.send_action` since `b`. -/
def sentTo (b a : Application) : List Bytes := a.actions.drop b.actions.length

/-- Where nothing was refused before, the lines are taken up to the first one that is refused. -/
def takes (b : Application) (lines : List Bytes) : List Bytes := if b.Stopped then [] else taken none lines

/-- Since `b` the client took the lines `front`, and it goes on or refused the next one. -/
inductive Since (host : Endian) (b a : Application) (front : List Bytes) : Prop
  | goesOn (hf : Follows host a) (hc : a.connected = true) (hb : Buffers a (openBlock none front))
      (he : a.executed = b.executed ++ front)
  | stopped {line : Bytes} (hs : Stopped a) (hr : Refuses (openBlock none front) line)
      (he : a.executed = b.executed ++ front ++ [line])

/-- The lines that were taken, and the actions for them. -/
structure Sends (host : Endian) (b a : Application) (front : List Bytes) : Prop where
  taken : taken none front = front
  actions : a.actions = b.actions ++ asksFor front
  since : Since host b a front

theorem Sends.change (h : Sends host b a front) (hst : a.Strands) (hc : Change a e a') : ∃ front', Sends host b a' front' := by
  have hexecuted := hc.executed
  cases hline : a.lineOf e with
  | none =>
    obtain ⟨hmode, hbuffer, hactions⟩ := hc.idle hline
    rw [hline, Option.toList_none, List.append_nil] at hexecuted
    refine ⟨front, h.taken, hactions.trans h.actions, ?_⟩
    cases h.since with
    | goesOn hf hconn hb he =>
      have ho : Accepted a e := by
        intro l hl
        rw [hline] at hl
        cases hl
      exact .goesOn (hf.change hst ho hc) (hc.stays_connected hst hconn) ⟨hmode.trans hb.mode, hbuffer.trans hb.buffer⟩
        (hexecuted.trans he)
    | stopped hs hr he => exact .stopped (hs.change hc) hr (hexecuted.trans he)
  | some l =>
    rw [hline, Option.toList_some] at hexecuted
    cases h.since with
    | stopped hs =>
      rw [hs.idle hc] at hline
      cases hline
    | goesOn hf hconn hb he =>
      have hiff := hb.refused_iff hconn l
      rw [he] at hexecuted
      by_cases hr : a.Refused (parseLine l)
      · have ho : ¬ Accepted a e := fun ho => ho l hline hr
        obtain ⟨hactions, -⟩ := hc.refused hst ho
        exact ⟨front, h.taken, hactions.trans h.actions, .stopped (hf.refused hst ho hc) (hiff.1 hr) hexecuted⟩
      · have ho : Accepted a e := by
          intro l' hl'
          obtain rfl := Option.some.inj (hline.symm.trans hl')
          exact hr
        obtain ⟨hb', hactions⟩ := hb.line hst hr
        have hnow : Buffers a' (openBlock none (front ++ [l])) ∧ a'.actions = a.actions ++ (advance (openBlock none front) l).2.flatMap Item.sent := by
          cases hc with
          | line _ _ hline' =>
            obtain rfl := Option.some.inj (hline.symm.trans hline')
            rw [executeLine_accepted hst.sender hr, openBlock_concat]
            exact ⟨⟨hb'.mode, hb'.buffer⟩, hactions⟩
          | input _ _ hnone =>
            rw [hline] at hnone
            cases hnone
          | output | sender | receiver | connector | connected => cases hline
        refine ⟨front ++ [l], taken_concat h.taken (mt hiff.2 hr), ?_, ?_⟩
        · rw [hnow.2, h.actions, asksFor, asksFor, items_concat, List.flatMap_append, List.append_assoc]
        · exact .goesOn (hf.change hst ho hc) (hc.stays_connected hst hconn) hnow.1 (by rw [hexecuted, List.append_assoc])

/-- A client that stopped asks for nothing more. -/
theorem Stopped.steps (h : Stopped b) (hst : b.Strands) (hs : (system host).Steps (fun _ _ => True) b es a) :
    a.Stopped ∧ a.executed = b.executed ∧ a.actions = b.actions := by
  refine (hs.inv (fun a => a.Strands ∧ a.Stopped ∧ a.executed = b.executed ∧ a.actions = b.actions) ⟨hst, h, rfl, rfl⟩ ?_).2
  rintro a e a' ⟨hst, hstop, hexecuted, hactions⟩ - hstep
  have hc := step_change hst hstep
  have hline := hstop.idle hc
  obtain ⟨-, -, hactions'⟩ := hc.idle hline
  have hexecuted' := hc.executed
  rw [hline, Option.toList_none, List.append_nil] at hexecuted'
  exact ⟨hst.change hc, hstop.change hc, hexecuted'.trans hexecuted, hactions'.trans hactions⟩

theorem Reachable.sends (h : (system host).Reachable b) (hc : b.connected = true) (hb : b.bufferingMode = false)
    (hgoes : ¬ b.Stopped) (hs : (system host).Steps (fun _ _ => True) b es a) : ∃ front, Sends host b a front := by
  obtain ⟨es₀, hrun⟩ := h
  have hacc := (Run.accepted hrun).resolve_right hgoes
  have hbuffers := (RunIf.asking hacc).buffers
  have hnone : openBlock none b.executed = none := by
    have hmode := hbuffers.mode
    rw [hb] at hmode
    exact Option.isNone_iff_eq_none.1 (by simpa using hmode.symm)
  rw [hnone] at hbuffers
  have hstart : Sends host b b [] :=
    ⟨rfl, (List.append_nil _).symm, .goesOn (RunIf.inputFollows hacc) hc hbuffers (List.append_nil _).symm⟩
  refine (hs.inv (fun a => a.Strands ∧ ∃ front, Sends host b a front) ⟨RunIf.strands hrun, [], hstart⟩ ?_).2
  rintro a e a' ⟨hst, front, hsends⟩ - hstep
  have hc := step_change hst hstep
  exact ⟨hst.change hc, hsends.change hst hc⟩

/-- The lines that were taken are those before the first one that is refused. -/
theorem Sends.taken_executed (h : Sends host b a front) : Zar.taken none (executedTo b a) = front := by
  unfold executedTo
  cases h.since with
  | goesOn _ _ _ he =>
    rw [he, List.drop_left]
    exact h.taken
  | stopped _ hr he =>
    rw [he, List.append_assoc, List.drop_left, taken_append h.taken, Zar.taken, if_pos hr, List.append_nil]

theorem Sends.taken_lines (h : Sends host b a front) (hr : (system host).Reachable a) :
    Zar.taken none (linesTo b a) = front ∧ ∃ later, linesTo b a = front ++ later := by
  cases h.since with
  | goesOn hf _ _ he =>
    -- A read is outstanding or failed, so nothing was refused.
    have hgoes : ¬ a.Stopped := by
      intro hstop
      rcases hf.keepsReading.outstanding with hone | ⟨call, hmem, herror⟩
      · simp [hstop.posted, hstop.reads] at hone
      · rw [hstop.calls call hmem] at herror
        cases herror
    rw [linesTo, if_neg hgoes, executedTo, he, List.drop_left]
    exact ⟨h.taken, [], (List.append_nil _).symm⟩
  | @stopped line hstop href he =>
    obtain ⟨later, hlater⟩ := Reachable.executed_typed hr
    rw [linesTo, if_pos hstop, ← hlater, he, List.append_assoc, List.append_assoc, List.drop_left, List.singleton_append,
      taken_append h.taken, Zar.taken, if_pos href, List.append_nil]
    exact ⟨rfl, line :: later, rfl⟩

theorem Reachable.lines_free (h : (system host).Reachable a) (b : Application) : ∀ line ∈ linesTo b a, 10 ∉ line := by
  intro line hmem
  unfold linesTo at hmem
  split at hmem
  · exact linesOf_free _ _ line (List.mem_of_mem_drop hmem)
  · exact Reachable.executed_free h line (List.mem_of_mem_drop hmem)

/-- What is sent for the lines. -/
theorem Reachable.takes (h : (system host).Reachable b) (hc : b.connected = true) (hb : b.bufferingMode = false)
    (hs : (system host).Steps (fun _ _ => True) b es a) :
    ∃ later, linesTo b a = b.takes (linesTo b a) ++ later ∧ sentTo b a = asksFor (b.takes (linesTo b a)) := by
  unfold Application.takes sentTo
  by_cases hstop : b.Stopped
  · obtain ⟨es₀, hrun⟩ := h
    obtain ⟨-, -, hactions⟩ := hstop.steps (RunIf.strands hrun) hs
    rw [if_pos hstop, hactions, List.drop_length]
    exact ⟨_, rfl, rfl⟩
  · obtain ⟨front, hsends⟩ := Reachable.sends h hc hb hstop hs
    obtain ⟨htaken, later, hlater⟩ := hsends.taken_lines (h.steps hs)
    rw [if_neg hstop, htaken, hsends.actions, List.drop_left]
    exact ⟨later, hlater, rfl⟩

/-- Whatever is typed at a connected client from then on, and whatever else happens: the actions are
those of the manual exactly if, of the lines before the first one that is refused, every block that was
ended is empty or ends with its only blank line, and the manual asks for nothing behind them. A
client that refused a line before takes none. -/
theorem sends_as_documented (h : (system host).Reachable b) (hc : b.connected = true) (hb : b.bufferingMode = false)
    (hs : (system host).Steps (fun _ _ => True) b es a) :
    AsDocumented (linesTo b a) (sentTo b a) ↔
      (∀ block, .block block ∈ items none (b.takes (linesTo b a)) → Tidy block) ∧
      ∀ i ∈ items (openBlock none (b.takes (linesTo b a))) ((linesTo b a).drop (b.takes (linesTo b a)).length), i.Silent := by
  obtain ⟨later, hlines, hsent⟩ := Reachable.takes h hc hb hs
  have hclean : ∀ block, .block block ∈ items none (b.takes (linesTo b a)) → ∀ line ∈ block, ¬ Slashed line := by
    unfold Application.takes
    split
    · rintro block ⟨⟩
    · exact taken_clean (by simp) _
  rw [hsent]
  exact asDocumented_iff hlines (Reachable.lines_free (h.steps hs) b) hclean

/-- A client behind the line `/connect x`, with a connection and the start of a read posted. -/
def connectedClient : Application where
  connected := true
  input :=
    { host := .little, protocol := .line, strand := true, totalBytesTransferred := 11, posted := 1
      arrived := text "/connect x\n", calls := [⟨false, 11, some ⟨.reply, 0, text "/connect x"⟩⟩] }
  output := { host := .little, protocol := .line, strand := true }
  socket :=
    { connector :=
        { strand := true, handler := true, query := (text "x", text "2048"), calls := [false]
          attempts := [(⟨1, 2048⟩, true)] }
      receiver := { host := .little, protocol := .telnet, strand := true, posted := 1 }
      sender := { host := .little, protocol := .telnet, strand := true } }

theorem connectedClient_reachable : (system .little).Reachable connectedClient := by
  have hexec : (system .little).exec (fun _ _ => True) (system .little).init
      [.input .receiveMessage, .input (.arrive (text "/connect x\n")), .input (.readSome 0 11), .input (.complete 0 {}),
        .connector .asioResolve, .connector (.resolved 0 (some [⟨1, 2048⟩])), .connector (.attempt 0 true),
        .connector (.connected 0)] = some connectedClient := rfl
  exact ⟨_, System.Steps.of_exec hexec⟩

/-- Lines arrive in one piece, and the first `n` of them are executed. -/
def typing (lines : Bytes) (n : Nat) : List Event :=
  .input .receiveMessage :: .input (.arrive lines) :: .input (.readSome 0 lines.length) :: .input (.complete 0 {}) ::
    (List.replicate (n - 1) [.input .receiveMessage, .input (.complete 0 {})]).flatten

/-- The next line is an unknown command. -/
def refusing : List Event :=
  [.input .receiveMessage,
    .input (.complete 0 ⟨none, some (.texception .invalid_value (text "Commend »foo« is not supported"))⟩)]

/-- A line, a block that ends with a blank line, and a blank line behind a command that is refused. -/
theorem sends_as_documented_blocks : ∃ a, (system .little).Steps (fun _ _ => True) connectedClient
      (typing (text "a\n/begin\nb\n\n/end\n/foo\n\n") 5 ++ refusing) a ∧ a.Stopped ∧
    linesTo connectedClient a = [text "a", text "/begin", text "b", text "", text "/end", text "/foo", text ""] ∧
    AsDocumented (linesTo connectedClient a) (sentTo connectedClient a) ∧
    sentTo connectedClient a = [text "a", text "b\n"] := by
  obtain ⟨a, hs, hstop, hlines, hsent⟩ := System.Steps.exists_of_exec (system .little) (fun _ _ => True) connectedClient
    (typing (text "a\n/begin\nb\n\n/end\n/foo\n\n") 5 ++ refusing)
    (fun a => a.Stopped ∧
      linesTo connectedClient a = [text "a", text "/begin", text "b", text "", text "/end", text "/foo", text ""] ∧
      sentTo connectedClient a = [text "a", text "b\n"]) (by decide +kernel)
  refine ⟨a, hs, hstop, hlines, (sends_as_documented connectedClient_reachable rfl rfl hs).2 ?_, hsent⟩
  have htakes : connectedClient.takes [text "a", text "/begin", text "b", text "", text "/end", text "/foo", text ""] =
      [text "a", text "/begin", text "b", text "", text "/end"] := by decide
  rw [hlines, htakes]
  constructor
  · intro block hmem
    have hitems : items none [text "a", text "/begin", text "b", text "", text "/end"] =
        [.line (text "a"), .block [text "b", []]] := by decide
    rw [hitems] at hmem
    obtain rfl : block = [text "b", []] := by simpa using hmem
    exact .inr ⟨[text "b"], rfl, by decide⟩
  · decide

/-- The end of the last line of a block is sent as well. -/
theorem block_not_stripped : ∃ a, (system .little).Reachable connectedClient ∧ connectedClient.connected = true ∧
    connectedClient.bufferingMode = false ∧
    (system .little).Steps (fun _ _ => True) connectedClient (typing (text "/begin\na\n/end\n") 3) a ∧
    a.executed = a.typedLines ∧ linesTo connectedClient a = [text "/begin", text "a", text "/end"] ∧
    sentTo connectedClient a = [text "a\n"] ∧ ¬ AsDocumented (linesTo connectedClient a) (sentTo connectedClient a) := by
  obtain ⟨a, hs, hdone, hlines, hsent⟩ := System.Steps.exists_of_exec (system .little) (fun _ _ => True) connectedClient
    (typing (text "/begin\na\n/end\n") 3)
    (fun a => a.executed = a.typedLines ∧ linesTo connectedClient a = [text "/begin", text "a", text "/end"] ∧
      sentTo connectedClient a = [text "a\n"]) (by decide +kernel)
  refine ⟨a, connectedClient_reachable, rfl, rfl, hs, hdone, hlines, hsent, ?_⟩
  rintro ⟨hd, -⟩
  have hitems : items none [text "/begin", text "a", text "/end"] = [.block [text "a"]] := by decide
  rw [hlines, hitems, hsent] at hd
  have hmem : [10].intercalate [text "a"] ∈ [text "a\n"] := hd.mem (by simp) (by decide)
  exact absurd hmem (by decide)

end Application
end Zar
