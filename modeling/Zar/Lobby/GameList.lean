import Zar.Communication.Telnet
import Zar.Lib.Separated
import Zar.Lobby.Replies
/-!
# The reply to `game list`

The names of the games stand in lines of their own, and the reply is a telnet
message. The name of a game is what a client put behind `game create`, whatever
it is. A name with a line feed in it reads as two, and one that ends with a
carriage return ends the message. All other names can be read.
-/

namespace Zar
namespace Lobby

variable {host : Endian} {L : Lobby}

/-- The reply arrives as one message, and the names in it can be told apart. -/
def Readable (host : Endian) (L : Lobby) : Prop :=
  (∀ host' id, Receiver.ArriveIntact host' ((Message.mk .action id L.gameListReply).encoding host .telnet)
    [L.gameListReply]) ∧
  (L.gameListReply.drop (text "OK\n").length).splitOn 10 = L.gameList ++ [[]]

theorem gameListReply_eq (L : Lobby) : L.gameListReply = text "OK\n" ++ ended 10 L.gameList := by
  have hnl : text "\n" = [10] := by decide
  have hfold : ∀ (games : List Game) (result : Bytes),
      games.foldl (fun result game => result ++ game.id ++ text "\n") result = result ++ ended 10 (games.map (·.id)) := by
    intro games
    induction games with
    | nil => simp
    | cons g games ih =>
      intro result
      rw [List.foldl_cons, ih, List.map_cons, ended_cons, hnl]
      simp only [List.append_assoc]
  exact hfold L.games (text "OK\n")

/-- Where the names have no line feed, the reply has an end of line where a name ends with the
first half of it. -/
theorem reply_crlf (h : ∀ name ∈ L.gameList, 10 ∉ name) :
    text "\r\n" <:+: L.gameListReply ↔ ∃ name ∈ L.gameList, name.getLast? = some 13 := by
  have hcrlf : text "\r\n" = [13, 10] := by decide
  have hok : text "OK\n" ++ ended 10 L.gameList = ended 10 (text "OK" :: L.gameList) := rfl
  have hfree : ∀ name ∈ text "OK" :: L.gameList, 10 ∉ name := List.forall_mem_cons.2 ⟨by decide, h⟩
  rw [gameListReply_eq, hcrlf, hok, pair_infix_ended (by decide) hfree, List.exists_mem_cons_iff]
  exact or_iff_right (by decide)

theorem arriveIntact_reply (host : Endian) (L : Lobby) :
    (∀ host' id, Receiver.ArriveIntact host' ((Message.mk .action id L.gameListReply).encoding host .telnet)
      [L.gameListReply]) ↔ ¬ text "\r\n" <:+: L.gameListReply := by
  have hone : ∀ host' id, Receiver.ArriveIntact host' ((Message.mk .action id L.gameListReply).encoding host .telnet)
      [L.gameListReply] ↔ ¬ text "\r\n" <:+: L.gameListReply := by
    intro host' id
    have h := arriveIntact_iff host host' [⟨.action, id, L.gameListReply⟩]
    rw [List.flatMap_singleton, List.map_singleton] at h
    rw [h, List.forall_mem_singleton]
    rfl
  exact ⟨fun h => (hone .little 0).1 (h .little 0), fun h host' id => (hone host' id).2 h⟩

/-- For every reachable state: the reply can be read exactly if no name has a line feed in it or
ends with a carriage return. The names are those of the games created so far, each once, and
later names come behind them. -/
theorem game_list_readable (h : (system host).Reachable L) :
    (Readable host L ↔ ∀ name ∈ L.gameList, 10 ∉ name ∧ name.getLast? ≠ some 13) ∧ L.gameList.Nodup ∧
    ∀ es L', (system host).Steps (fun _ _ => True) L es L' → L.gameList <+: L'.gameList := by
  refine ⟨?_, ?_, ?_⟩
  · have hdrop : L.gameListReply.drop (text "OK\n").length = ended 10 L.gameList := by
      rw [gameListReply_eq, List.drop_left]
    rw [Readable, arriveIntact_reply, hdrop, splitOn_ended_iff]
    constructor
    · rintro ⟨hclean, hfree⟩ name hname
      exact ⟨hfree name hname, fun hlast => hclean ((reply_crlf hfree).2 ⟨name, hname, hlast⟩)⟩
    · intro hnames
      have hfree : ∀ name ∈ L.gameList, 10 ∉ name := fun name hname => (hnames name hname).1
      refine ⟨fun hin => ?_, hfree⟩
      obtain ⟨name, hname, hlast⟩ := (reply_crlf hfree).1 hin
      exact (hnames name hname).2 hlast
  · rw [← rooms_fst (Reachable.rooms h)]
    exact (Reachable.roster h).rooms
  · intro es L' hs
    exact (Reachable.grown h hs).1.map _

/-- The run in which a client logs in and creates a game of this name. -/
def creating (name : Bytes) : List Event :=
  [.accept 0 false, .receiveMessage 0, .read 0 (some (text "user a")), .receiveMessage 0,
    .read 0 (some (text "game create " ++ name))]

theorem game_list_readable_game : ∃ L, (system .little).Reachable L ∧
    (Readable .little L ↔ ∀ name ∈ L.gameList, 10 ∉ name ∧ name.getLast? ≠ some 13) ∧ L.gameList = [text "g"] ∧
    L.gameListReply = text "OK\ng\n" := by
  have hexec : (system .little).exec (fun _ _ => True) (run .little) (creating (text "g")) = some _ := rfl
  have hr : (system .little).Reachable _ := ⟨_, System.Steps.of_exec hexec⟩
  exact ⟨_, hr, (game_list_readable hr).1, by decide, by decide⟩

/-- A name with a line feed reads as two names, and behind a carriage return the reply is cut. -/
theorem game_list_not_readable : ∃ L L', (system .little).Reachable L ∧ L.gameList = [text "a\nb"] ∧
    ¬ Readable .little L ∧ (L.gameListReply.drop 3).splitOn 10 = [text "a", text "b", []] ∧
    (system .little).Reachable L' ∧ L'.gameList = [text "g\r"] ∧ ¬ Readable .little L' := by
  have hexec : (system .little).exec (fun _ _ => True) (run .little) (creating (text "a\nb")) = some _ := rfl
  have hexec' : (system .little).exec (fun _ _ => True) (run .little) (creating (text "g\r")) = some _ := rfl
  refine ⟨_, _, ⟨_, System.Steps.of_exec hexec⟩, by decide, ?_, by decide, ⟨_, System.Steps.of_exec hexec'⟩, by decide, ?_⟩
  · rintro ⟨-, hsplit⟩
    exact absurd hsplit (by decide)
  · rintro ⟨hall, -⟩
    exact (arriveIntact_reply .little _).1 hall (by decide)

end Lobby
end Zar
