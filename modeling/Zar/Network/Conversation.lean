import Mathlib.Data.List.Chain
import Zar.Czar.Typed
import Zar.Network.Network
/-!
# What passes between the clients and the server

In every reachable state the server is a reference, and each client that it accepted talks to
it: what it is asked are the lines that were written to the connection, and what the client shows
are those that it read from its connections. A client that connected once asks for its actions, and
shows the greeting and the replies. Texts with an end of line inside arrive in pieces; without a
carriage return on any standard input there are none.
-/

namespace Zar

/-- The lines of messages without an end of line inside are the messages. -/
theorem telnetContents_lines {ms : List Bytes} (h : ∀ m ∈ ms, ¬ text "\r\n" <:+: m) :
    telnetContents (telnetLines ms) = ms := by
  have hparse : (Protocol.telnet.format .little).parse (ms.flatMap fun m => m ++ text "\r\n") =
      (ms.map fun m => m ++ text "\r\n", []) :=
    Format.parse_flatMap _ _ ms fun m hm => Format.terminated_clean (by decide) (crlf_clean (h m hm))
  rw [telnetContents, telnetLines, hparse, List.map_map]
  exact (List.map_congr_left fun m _ => substr_terminated m (text "\r\n")).trans (List.map_id ms)

theorem telnetContents_nil : telnetContents [] = [] := telnetContents_lines (List.forall_mem_nil _)

theorem ended_mono {xs ys : List Bytes} (h : xs <+: ys) : ended 10 xs <+: ended 10 ys := by
  obtain ⟨later, rfl⟩ := h
  rw [ended_append]
  exact List.prefix_append _ _

namespace Network

variable {host : Endian} {hosts : List Endian} {N : Network} {a : Application} {x : Connection} {c k : Nat}
  {log : List (Nat × Bytes × Option Bytes)}

/-- The traces of the sessions tell what is in the log. -/
def Told (N : Network) (log : List (Nat × Bytes × Option Bytes)) : Prop :=
  ∀ s ∈ N.server.lobby.everyone, s.trace.filterMap Io.heard = commandsOf log s.key ∧
    s.trace.filterMap Io.data = (if .accepted false ∈ s.trace then [text "Zard\n1"] else []) ++ repliesOf log s.key

theorem Linked.asked (h : Linked host N) (ht : N.Told log) {s : Session} (hs : s ∈ N.server.lobby.everyone) :
    commandsOf log s.key <+: telnetContents (N.server.receiver s.key).arrived := by
  rw [← (ht s hs).1]
  exact ((Server.Reachable.agrees h.server).2.paired s hs).telnet

/-- The session at the other end. -/
theorem Linked.session (h : Linked host N) (hx : x ∈ N.connections) (hk : x.key = some k) :
    ∃ s ∈ N.server.lobby.everyone, s.key = k ∧ .accepted false ∈ s.trace := h.accepted k (mem_keys hx hk)

theorem Linked.reference (h : Linked host N) : ∃ ds R, Reference.system.Run ds R ∧ R.roster = N.server.lobby.roster ∧
    (∀ y ∈ R.log, ∃ x ∈ N.connections, x.key = some y.1) ∧ N.Told R.log := by
  obtain ⟨hr, -⟩ := Server.Reachable.agrees h.server
  obtain ⟨ds, R, hR, hroster, hknown, htold⟩ := Server.Reachable.reference hr
  refine ⟨ds, R, hR, hroster, fun y hy => ?_, htold⟩
  obtain ⟨s, hs, hk⟩ := hknown y hy
  have hmem : y.2.1 ∈ commandsOf R.log s.key := List.mem_map.2 ⟨y, List.mem_filter.2 ⟨hy, by simp [hk]⟩, rfl⟩
  -- Something arrived, so there is a connection.
  by_contra hno
  have hstranger : s.key ∉ N.keys := by
    rw [hk]
    intro hin
    obtain ⟨x, hx, he⟩ := List.mem_filterMap.1 hin
    exact hno ⟨x, hx, he⟩
  have hnone := h.asked htold hs
  rw [h.strangers s.key hstranger, telnetContents_nil] at hnone
  exact List.not_mem_nil (hnone.subset hmem)

/-- What a session was asked was written to its connection. -/
theorem Linked.commands (h : Linked host N) (hx : x ∈ N.connections) (hk : x.key = some k) (ht : N.Told log) :
    commandsOf log k <+: telnetContents (N.up x) := by
  obtain ⟨s, hs, rfl, -⟩ := h.session hx hk
  exact (h.asked ht hs).trans (telnetContents_mono (h.ups x hx s.key hk))

/-- What a client read is the greeting and the replies, as far as they were written. -/
theorem Linked.written (h : Linked host N) (hx : x ∈ N.connections) (hk : x.key = some k) (ht : N.Told log) :
    N.down x <+: telnetLines (text "Zard\n1" :: repliesOf log k) := by
  obtain ⟨s, hs, rfl, hacc⟩ := h.session hx hk
  have hlobby := (Server.Reachable.agrees h.server).1
  have hwritten := Lobby.Reachable.stream hlobby hs
  rw [(ht s hs).2, if_pos hacc] at hwritten
  rw [down_eq hk, sent_eq (Lobby.Reachable.wf hlobby) hs]
  exact hwritten

/-- A client shows what it read, of one connection behind the other. -/
theorem Linked.shows (h : Linked host N) (hc : N.clients[c]? = some a) :
    a.output.stream <+: ended 10 (telnetContents ((N.connectionsOf c).flatMap (·.received))) := by
  obtain ⟨host', hr⟩ := h.clients c a hc
  obtain ⟨hout, hshown⟩ := Application.Reachable.shows hr
  rw [(h.dialled c a hc).reads] at hshown
  exact hout.trans (ended_mono hshown)

/-! ## Clients that connected once -/

theorem mem_connectionsOf : x ∈ N.connectionsOf c ↔ x ∈ N.connections ∧ x.client = c := by
  simp [connectionsOf]

/-- Nothing was written before the connection. -/
theorem Linked.once (h : Linked host N) (hc : N.clients[c]? = some a) (hone : N.connectionsOf c = [x]) :
    x ∈ N.connections ∧ x.client = c ∧ x.start = 0 ∧ a.socket.receiver.arrived = x.received := by
  have hd := h.dialled c a hc
  obtain ⟨hx, hclient⟩ := mem_connectionsOf.1 (hone ▸ List.mem_singleton_self x)
  have hreads := hd.reads
  rw [hone, List.flatMap_singleton] at hreads
  exact ⟨hx, hclient, hd.first x (by rw [hone]; rfl), hreads⟩

theorem Linked.actions (h : Linked host N) (hc : N.clients[c]? = some a) (hone : N.connectionsOf c = [x])
    (hk : x.key = some k) (ht : N.Told log) (hclean : ∀ action ∈ a.actions, ¬ text "\r\n" <:+: action) :
    commandsOf log k <+: a.actions := by
  obtain ⟨host', hr⟩ := h.clients c a hc
  obtain ⟨hx, rfl, hstart, -⟩ := h.once hc hone
  have hup : N.up x <+: telnetLines a.actions := by
    rw [up, written_eq hc]
    exact (Connection.part_first hstart _).trans (Application.Reachable.asks hr)
  have hcommands := (h.commands hx hk ht).trans (telnetContents_mono hup)
  rwa [telnetContents_lines hclean] at hcommands

/-- A greeting and replies without an end of line inside. -/
theorem telnetContents_replies (hclean : ∀ reply ∈ repliesOf log k, ¬ text "\r\n" <:+: reply) :
    telnetContents (telnetLines (text "Zard\n1" :: repliesOf log k)) = text "Zard\n1" :: repliesOf log k := by
  apply telnetContents_lines
  intro reply hreply
  rcases List.mem_cons.1 hreply with rfl | hreply
  · decide
  · exact hclean reply hreply

theorem Linked.replies (h : Linked host N) (hc : N.clients[c]? = some a) (hone : N.connectionsOf c = [x])
    (hk : x.key = some k) (ht : N.Told log) (hclean : ∀ reply ∈ repliesOf log k, ¬ text "\r\n" <:+: reply) :
    a.output.stream <+: ended 10 (text "Zard\n1" :: repliesOf log k) := by
  obtain ⟨hx, -, -, -⟩ := h.once hc hone
  have hshown := h.shows hc
  rw [hone, List.flatMap_singleton] at hshown
  have hread := telnetContents_mono ((h.downs x hx).trans (h.written hx hk ht))
  rw [telnetContents_replies hclean] at hread
  exact hshown.trans (ended_mono hread)

/-- A client connects, and its user logs in. -/
def login : List Event :=
  [.client 0 (.input .receiveMessage), .client 0 (.input (.arrive (text "/connect x\nuser a\n"))),
    .client 0 (.input (.readSome 0 18)), .client 0 (.input (.complete 0 {})), .client 0 (.connector .asioResolve),
    .client 0 (.connector (.resolved 0 (some [⟨1, 2048⟩]))), .client 0 (.connector (.attempt 0 true)),
    .server (.lobby (.accept 0 false)), .client 0 (.connector (.connected 0)), .client 0 (.receiver .receiveMessage),
    .client 0 (.input .receiveMessage), .client 0 (.input (.complete 0 {})), .client 0 (.sender .sendMessage),
    .client 0 (.sender (.transfer false 8)), .client 0 (.sender (.handler {})), .server (.receiveMessage 0),
    .toServer 0 3, .server (.readSome 0 0 3), .toServer 0 5, .server (.readSome 0 0 5), .server (.complete 0 0),
    .server (.receiveMessage 0), .server (.lobby (.sendMessage 0)), .server (.lobby (.sendMessage 0)),
    .server (.lobby (.transfer 0 false 8)), .server (.lobby (.written 0 false)), .server (.lobby (.transfer 0 false 5)),
    .server (.lobby (.written 0 false)), .toClient 0 13, .client 0 (.receiver (.readSome 0 13)),
    .client 0 (.receiver (.complete 0 {})), .client 0 (.receiver .receiveMessage), .client 0 (.receiver (.complete 0 {})),
    .client 0 (.receiver .receiveMessage), .client 0 (.output .sendMessage), .client 0 (.output .sendMessage),
    .client 0 (.output (.transfer false 7)), .client 0 (.output (.handler {})), .client 0 (.output (.transfer false 4)),
    .client 0 (.output (.handler {}))]

theorem no_crlf {bytes : Bytes} (h : 13 ∉ bytes) : ¬ text "\r\n" <:+: bytes := fun hin => h (hin.subset (by decide))

/-- Behind a carriage return stands nothing but a new line. -/
def Returns (b b' : UInt8) : Prop := b = 13 → b' = 10

theorem returns_append {bytes later : Bytes} (h : 13 ∉ bytes) (hl : later.IsChain Returns) :
    (bytes ++ later).IsChain Returns := by
  induction bytes with
  | nil => exact hl
  | cons b bytes ih =>
    obtain ⟨hne, hrest⟩ := not_or.1 (List.mem_cons.not.1 h)
    exact List.isChain_cons.2 ⟨fun _ _ he => absurd he.symm hne, ih hrest⟩

theorem telnetLines_returns {ms : List Bytes} (h : ∀ m ∈ ms, 13 ∉ m) : (telnetLines ms).IsChain Returns := by
  induction ms with
  | nil => exact List.IsChain.nil
  | cons m ms ih =>
    have hrest := ih fun m' hm => h m' (List.mem_cons_of_mem _ hm)
    have hend : (text "\r\n" ++ telnetLines ms).IsChain Returns := by
      refine List.isChain_cons.2 ⟨?_, List.isChain_cons.2 ⟨?_, hrest⟩⟩
      · rintro _ ⟨⟩ -
        rfl
      · intro _ _ he
        cases he
    rw [telnetLines, List.flatMap_cons, List.append_assoc]
    exact returns_append (h m List.mem_cons_self) hend

/-- So no line has a carriage return inside, wherever the stream begins. -/
theorem telnetContents_plain {bytes : Bytes} (h : bytes.IsChain Returns) : ∀ contents ∈ telnetContents bytes, 13 ∉ contents := by
  have hframes : ∀ frame ∈ ((Protocol.telnet.format .little).parse bytes).1, 13 ∉ substr frame 0 (sizeSub frame.length 2) := by
    refine Format.parse_keeps (·.IsChain Returns) _ (fun xs frame rest hxs hn => ?_) h
    obtain ⟨hfirst, rfl⟩ := telnet_first .little hn
    refine ⟨fun hin => ?_, hxs.suffix (List.suffix_append _ _)⟩
    obtain ⟨u, v, he⟩ := List.append_of_mem hin
    rw [he] at hxs hfirst
    simp only [List.append_assoc, List.cons_append] at hxs
    obtain ⟨hnext, -⟩ := List.isChain_cons.1 (List.isChain_append.1 hxs).2.1
    -- It would stand in front of the first end of line, or be one.
    cases v with
    | nil => exact absurd (hnext 13 rfl rfl) (by decide)
    | cons b v =>
      obtain rfl := hnext b rfl rfl
      exact hfirst ⟨u, v, List.append_assoc u (text "\r\n") v⟩
  intro contents hc
  obtain ⟨frame, hf, rfl⟩ := List.mem_map.1 hc
  exact hframes frame hf

theorem parseCommand_create {mode : Mode} {command id : Bytes} (h : parseCommand mode command = .gameCreate id) :
    id ⊆ command := by
  unfold parseCommand at h
  split at h
  · cases h
  · cases mode with
    | connected | creating_game =>
      dsimp only at h
      try split at h
      all_goals cases h
    | lobby =>
      dsimp only at h
      split at h
      · cases h
        exact List.drop_subset _ _
      · split at h <;> cases h

/-- The names of rooms go into replies, and replies are made of nothing else that was asked. -/
theorem respond_plain {R : Roster Nat Bytes} (hrooms : ∀ room ∈ R.rooms, 13 ∉ room.1) {command : Bytes} (hc : 13 ∉ command)
    (k : Nat) : (∀ room ∈ (R.respond k command).1.rooms, 13 ∉ room.1) ∧ ∀ reply ∈ (R.respond k command).2, 13 ∉ reply := by
  have herror : (13 : UInt8) ∉ text "ERROR\n" := by decide
  have hperform : ∀ p, (∀ id, p = .gameCreate id → 13 ∉ id) →
      (∀ room ∈ (R.perform k p).1.rooms, 13 ∉ room.1) ∧ 13 ∉ (R.perform k p).2 := by
    intro p hid
    cases p with
    | help =>
      refine ⟨hrooms, ?_⟩
      simp only [Roster.perform]
      split <;> decide
    | unknown => exact ⟨hrooms, by simp only [Roster.perform]; decide⟩
    | gameList =>
      refine ⟨hrooms, ?_⟩
      simp only [Roster.perform, List.mem_append, not_or]
      refine ⟨by decide, fun hmem => ?_⟩
      obtain ⟨name, hname, hin⟩ := List.mem_flatMap.1 hmem
      obtain ⟨room, hroom, rfl⟩ := List.mem_map.1 hname
      rcases List.mem_append.1 hin with hin | hin
      · exact hrooms room hroom hin
      · exact absurd (List.mem_singleton.1 hin) (by decide)
    | user id =>
      simp only [Roster.perform]
      split
      · exact ⟨hrooms, herror⟩
      · simp only [Roster.attempt, Roster.step]
        split
        · rename_i hsome
          obtain ⟨-, he⟩ := Option.ite_none_right_eq_some.1 hsome
          cases he
          exact ⟨hrooms, show (13 : UInt8) ∉ text "OK\n" by decide⟩
        · exact ⟨hrooms, herror⟩
    | gameCreate id =>
      have hid := hid id rfl
      simp only [Roster.perform, Roster.attempt, Roster.step]
      split
      · rename_i hsome
        obtain ⟨-, he⟩ := Option.ite_none_right_eq_some.1 hsome
        cases he
        refine ⟨?_, ?_⟩
        · intro room hroom
          rcases List.mem_append.1 hroom with hroom | hroom
          · exact hrooms room hroom
          · rw [List.mem_singleton.1 hroom]
            exact hid
        · simp only [List.mem_append, not_or]
          exact ⟨⟨by decide, hid⟩, by decide⟩
      · exact ⟨hrooms, herror⟩
  unfold Roster.respond
  split
  · exact ⟨hrooms, by rintro _ ⟨⟩⟩
  · obtain ⟨hr, hreply⟩ := hperform (parseCommand (R.mode k) command) fun id hp hin => hc (parseCommand_create hp hin)
    refine ⟨hr, ?_⟩
    rintro _ ⟨⟩
    exact hreply

theorem reference_plain {ds : List ReferenceEvent} {R : Reference} (h : Reference.system.Run ds R)
    (hc : ∀ x ∈ R.log, 13 ∉ x.2.1) : ∀ x ∈ R.log, ∀ reply ∈ x.2.2, 13 ∉ reply := by
  have hall : (∀ x ∈ R.log, 13 ∉ x.2.1) →
      (∀ room ∈ R.roster.rooms, 13 ∉ room.1) ∧ ∀ x ∈ R.log, ∀ reply ∈ x.2.2, 13 ∉ reply := by
    refine System.RunIf.inv (fun R => (∀ x ∈ R.log, 13 ∉ x.2.1) →
      (∀ room ∈ R.roster.rooms, 13 ∉ room.1) ∧ ∀ x ∈ R.log, ∀ reply ∈ x.2.2, 13 ∉ reply) h ?_ ?_
    · exact fun _ => ⟨List.forall_mem_nil _, List.forall_mem_nil _⟩
    · intro R e R' hi _ hs hc
      cases e with
      | enter k =>
        obtain ⟨roster, hr, rfl⟩ := Option.map_eq_some_iff.1 hs
        obtain ⟨-, he⟩ := Option.ite_none_right_eq_some.1 hr
        cases he
        exact hi hc
      | leave p =>
        cases hs
        exact hi hc
      | command k command =>
        obtain ⟨-, he⟩ := Option.ite_none_right_eq_some.1 hs
        cases he
        obtain ⟨hrooms, hreplies⟩ := hi fun x hx => hc x (List.mem_append_left _ hx)
        have hcommand : 13 ∉ command := hc (k, command, _) (List.mem_append_right _ (List.mem_singleton_self _))
        obtain ⟨hr, hreply⟩ := respond_plain hrooms hcommand k
        refine ⟨hr, fun x hx => ?_⟩
        rcases List.mem_append.1 hx with hx | hx
        · exact hreplies x hx
        · rw [List.mem_singleton.1 hx]
          exact hreply
  exact (hall hc).2

theorem Linked.plain (h : Linked host N) (hinput : ∀ a ∈ N.clients, 13 ∉ a.input.arrived) :
    ∀ a ∈ N.clients, ∀ action ∈ a.actions, 13 ∉ action := by
  intro a ha action haction hin
  obtain ⟨c, hc⟩ := List.mem_iff_getElem?.1 ha
  obtain ⟨host', hr⟩ := h.clients c a hc
  have htyped := Application.Reachable.typed (P := (· ≠ 13)) hr (by decide) fun b hb he => hinput a ha (he ▸ hb)
  exact htyped action haction 13 hin rfl

/-- Nothing but carriage returns in front of a new line reaches the server. -/
theorem Linked.plain_up (h : Linked host N) (hactions : ∀ a ∈ N.clients, ∀ action ∈ a.actions, 13 ∉ action)
    (hx : x ∈ N.connections) : ∀ contents ∈ telnetContents (N.up x), 13 ∉ contents := by
  obtain ⟨a, hc⟩ := h.known x hx
  obtain ⟨host', hr⟩ := h.clients x.client a hc
  have hlines := telnetLines_returns (hactions a (List.mem_of_getElem? hc))
  have hup : N.up x <:+: telnetLines a.actions := by
    rw [up, written_eq hc]
    exact (x.part_infix _).trans (Application.Reachable.asks hr).isInfix
  apply telnetContents_plain
  exact hlines.infix hup

/-- Where nobody types a carriage return, no action and no reply has an end of line inside. -/
theorem Linked.plain_log (h : Linked host N) (hinput : ∀ a ∈ N.clients, 13 ∉ a.input.arrived) {ds : List ReferenceEvent}
    {R : Reference} (hR : Reference.system.Run ds R) (hfrom : ∀ y ∈ R.log, ∃ x ∈ N.connections, x.key = some y.1)
    (ht : N.Told R.log) :
    (∀ a ∈ N.clients, ∀ action ∈ a.actions, ¬ text "\r\n" <:+: action) ∧
      ∀ k, ∀ reply ∈ repliesOf R.log k, ¬ text "\r\n" <:+: reply := by
  have hactions := h.plain hinput
  -- Commands are lines that were written.
  have hasked : ∀ y ∈ R.log, 13 ∉ y.2.1 := by
    intro y hy
    obtain ⟨x, hx, hk⟩ := hfrom y hy
    have hin : y.2.1 ∈ commandsOf R.log y.1 := List.mem_map.2 ⟨y, List.mem_filter.2 ⟨hy, by simp⟩, rfl⟩
    exact h.plain_up hactions hx _ ((h.commands hx hk ht).subset hin)
  have hreplies := reference_plain hR hasked
  refine ⟨fun a ha action haction => no_crlf (hactions a ha action haction), fun k reply hreply => ?_⟩
  obtain ⟨y, hy, he⟩ := List.mem_filterMap.1 hreply
  exact no_crlf (hreplies y (List.mem_filter.1 hy).1 reply he)

end Network
end Zar
