import Zar.Communication.Telnet
import Zar.Czar.Documented
/-!
# Actions on the way to the server

The client joins the lines of a block with line feeds, and telnet ends a message
with a carriage return and a line feed. So a line of a block that ends with a
carriage return ends the message in the middle of the block. All other actions
arrive as they are.
-/

namespace Zar
namespace Application

variable {host : Endian} {a b : Application} {es : List Event}

/-- The messages that the socket queued since `b`. -/
def messagesTo (b a : Application) : List Message := a.socket.sender.called.drop b.socket.sender.called.length

theorem messagesTo_contents (b a : Application) : (messagesTo b a).map (·.contents) = sentTo b a := by
  rw [messagesTo, sentTo, actions, actions, List.length_map, List.map_drop]

/-- An item contains an end of line only where a line of a block brings the first half of it. -/
theorem item_crlf {i : Item} (hfree : ∀ line ∈ i.lines, 10 ∉ line) :
    (∀ action ∈ i.sent, ¬ text "\r\n" <:+: action) ↔
      ∀ block, i = .block block → ∀ line ∈ block, ¬ Slashed line → line.getLast? ≠ some 13 := by
  have hcrlf : text "\r\n" = [13, 10] := by decide
  rw [hcrlf]
  cases i with
  | line l =>
    have hclean : ∀ action ∈ (Item.line l).sent, ¬ [13, 10] <:+: action := by
      intro action ha hin
      obtain ⟨hl, -⟩ := mem_kept.1 ha
      rw [List.mem_singleton.1 hl] at hin
      exact hfree l List.mem_cons_self (hin.subset (by simp))
    constructor
    · rintro - block ⟨⟩
    · exact fun _ => hclean
  | block block =>
    have hkept : ∀ line ∈ kept block, 10 ∉ line := fun line hl => hfree line (mem_kept.1 hl).1
    have hended := pair_infix_ended (y := 13) (by decide) hkept
    constructor
    · rintro h _ ⟨⟩ line hl hs hlast
      have hne : line ≠ [] := by
        rintro rfl
        cases hlast
      exact h _ (List.mem_singleton_self _) (hended.2 ⟨line, mem_kept.2 ⟨hl, hne, hs⟩, hlast⟩)
    · intro h action ha hin
      rw [List.mem_singleton.1 ha] at hin
      obtain ⟨line, hl, hlast⟩ := hended.1 hin
      exact h block rfl line (mem_kept.1 hl).1 (mem_kept.1 hl).2.2 hlast

theorem Reachable.sent_executed (h : (system host).Reachable b) (hc : b.connected = true) (hb : b.bufferingMode = false)
    (hs : (system host).Steps (fun _ _ => True) b es a) : sentTo b a = asksFor (taken none (executedTo b a)) := by
  by_cases hstop : b.Stopped
  · obtain ⟨es₀, hrun⟩ := h
    obtain ⟨-, hexecuted, hactions⟩ := hstop.steps (RunIf.strands hrun) hs
    rw [sentTo, executedTo, hactions, hexecuted, List.drop_length, List.drop_length]
    rfl
  · obtain ⟨front, hsends⟩ := Reachable.sends h hc hb hstop hs
    rw [hsends.taken_executed, sentTo, hsends.actions, List.drop_left]

/-- What a connected client sends from then on, whatever is typed and whatever else happens, arrives at a
telnet receiver as it was sent, one message for each action, exactly if no line of a block ends with a
carriage return. The lines are those that were executed, up to the first one that was refused. -/
theorem actions_arrive (h : (system host).Reachable b) (hc : b.connected = true) (hb : b.bufferingMode = false)
    (hs : (system host).Steps (fun _ _ => True) b es a) (host' : Endian) :
    Receiver.ArriveIntact host' ((messagesTo b a).flatMap (·.encoding host .telnet)) (sentTo b a) ↔
      ∀ block, .block block ∈ items none (taken none (executedTo b a)) → ∀ line ∈ block, line.getLast? ≠ some 13 := by
  have hitems : ∀ i ∈ items none (taken none (executedTo b a)), ∀ line ∈ i.lines, 10 ∉ line := by
    refine items_free (fun line hmem => ?_) (by simp)
    exact Reachable.executed_free (h.steps hs) line (List.mem_of_mem_drop (taken_subset _ _ hmem))
  have hclean : ∀ block, .block block ∈ items none (taken none (executedTo b a)) → ∀ line ∈ block, ¬ Slashed line :=
    taken_clean (by simp) _
  rw [← messagesTo_contents, arriveIntact_iff]
  have hsent : (∀ m ∈ messagesTo b a, m.Representable .telnet) ↔
      ∀ action ∈ asksFor (taken none (executedTo b a)), ¬ text "\r\n" <:+: action := by
    rw [← Reachable.sent_executed h hc hb hs, ← messagesTo_contents]
    simp only [Message.Representable, List.forall_mem_map]
  rw [hsent]
  constructor
  · intro hall block hblock line hline
    refine (item_crlf (hitems _ hblock)).1 (fun action ha => ?_) block rfl line hline (hclean block hblock line hline)
    exact hall action (List.mem_flatMap.2 ⟨_, hblock, ha⟩)
  · intro hlast action ha
    obtain ⟨i, hi, ha⟩ := List.mem_flatMap.1 ha
    refine (item_crlf (hitems i hi)).2 ?_ action ha
    rintro block rfl line hline -
    exact hlast block hi line hline

/-- A line that ends with a carriage return, and a block of two lines. Then a block of one that does is
begun, and a command in it is refused. -/
theorem actions_arrive_blocks : ∃ a, (system .little).Steps (fun _ _ => True) connectedClient
      (typing (text "a\r\n/begin\nb\nc\n/end\n/begin\nd\r\n/foo\n/end\n") 7 ++ refusing) a ∧
    executedTo connectedClient a = [text "a\r", text "/begin", text "b", text "c", text "/end", text "/begin", text "d\r",
      text "/foo"] ∧
    sentTo connectedClient a = [text "a\r", text "b\nc\n"] ∧
    Receiver.ArriveIntact .big ((messagesTo connectedClient a).flatMap (·.encoding .little .telnet)) (sentTo connectedClient a) := by
  obtain ⟨a, hs, hlines, hsent⟩ := System.Steps.exists_of_exec (system .little) (fun _ _ => True) connectedClient
    (typing (text "a\r\n/begin\nb\nc\n/end\n/begin\nd\r\n/foo\n/end\n") 7 ++ refusing)
    (fun a => executedTo connectedClient a = [text "a\r", text "/begin", text "b", text "c", text "/end", text "/begin",
        text "d\r", text "/foo"] ∧
      sentTo connectedClient a = [text "a\r", text "b\nc\n"]) (by decide +kernel)
  refine ⟨a, hs, hlines, hsent, (actions_arrive connectedClient_reachable rfl rfl hs .big).2 ?_⟩
  rw [hlines]
  have hitems : items none (taken none [text "a\r", text "/begin", text "b", text "c", text "/end", text "/begin",
      text "d\r", text "/foo"]) = [.line (text "a\r"), .block [text "b", text "c"]] := by decide
  rw [hitems]
  intro block hmem
  obtain rfl : block = [text "b", text "c"] := by simpa using hmem
  decide

/-- A block of two lines, of which the first one ends with a carriage return, arrives as two
messages. -/
theorem block_cut_in_two : ∃ a, (system .little).Reachable connectedClient ∧ connectedClient.connected = true ∧
    connectedClient.bufferingMode = false ∧
    (system .little).Steps (fun _ _ => True) connectedClient (typing (text "/begin\na\r\nb\n/end\n") 4) a ∧
    executedTo connectedClient a = [text "/begin", text "a\r", text "b", text "/end"] ∧
    sentTo connectedClient a = [text "a\r\nb\n"] ∧
    ¬ Receiver.ArriveIntact .little ((messagesTo connectedClient a).flatMap (·.encoding .little .telnet))
      (sentTo connectedClient a) := by
  obtain ⟨a, hs, hlines, hsent, hmessages⟩ := System.Steps.exists_of_exec (system .little) (fun _ _ => True) connectedClient
    (typing (text "/begin\na\r\nb\n/end\n") 4)
    (fun a => executedTo connectedClient a = [text "/begin", text "a\r", text "b", text "/end"] ∧
      sentTo connectedClient a = [text "a\r\nb\n"] ∧
      messagesTo connectedClient a = [⟨.action, 1, text "a\r\nb\n"⟩]) (by decide +kernel)
  refine ⟨a, connectedClient_reachable, rfl, rfl, hs, hlines, hsent, ?_⟩
  rw [← messagesTo_contents, arriveIntact_iff, hmessages]
  exact fun h => absurd (h _ (List.mem_singleton_self _)) (by decide)

end Application
end Zar
