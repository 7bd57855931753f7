import Zar.Lib.Cut
import Zar.Communication.Framing
/-!
# Lines depend on the bytes only

With a terminator behind each message, what is delivered is the stream cut behind
its terminators. Nothing else has a say: not the pieces in which the stream
arrives, not what a read takes too much, and not the strand.
-/

namespace Zar

variable {host : Endian} {p : Protocol} {d : Bytes} {stream tail : Bytes} {cs : List Bytes}

namespace Receiver

variable {r : Receiver} {strand : Bool} {es : List Event}

/-- The call of the handler for a piece of the stream. -/
def pieceCall (d c : Bytes) : Call := ⟨false, (c ++ d).length, some ⟨.reply, 0, c⟩⟩

theorem terminator_ne_nil (hd : p.terminator = some d) : d ≠ [] := by
  cases p <;> cases hd <;> decide

theorem terminator_streamed (hd : p.terminator = some d) : p.Streamed := by
  cases p with
  | line => exact .inl rfl
  | telnet => exact .inr (.inl rfl)
  | direct | basic | compressed => cases hd

theorem format_terminator (hd : p.terminator = some d) (host : Endian) :
    p.format host = .terminated d (terminator_ne_nil hd) := by
  cases p <;> cases hd <;> rfl

/-- Whatever the bytes, a line is decoded. -/
theorem call_ne_none (hd : p.terminator = some d) (host : Endian) (frame : Bytes) : p.call host frame ≠ none := by
  cases p <;> cases hd <;> exact nofun

theorem call_piece (hd : p.terminator = some d) (host : Endian) (c : Bytes) :
    p.call host (c ++ d) = some (pieceCall d c) := by
  have hsub := substr_terminated c d
  cases p with
  | line =>
    obtain rfl := Option.some.inj hd
    exact congrArg (fun x => some (⟨false, _, some ⟨.reply, 0, x⟩⟩ : Call)) hsub
  | telnet =>
    obtain rfl := Option.some.inj hd
    exact congrArg (fun x => some (⟨false, _, some ⟨.reply, 0, x⟩⟩ : Call)) hsub
  | direct | basic | compressed => cases hd

theorem calls_pieces (hd : p.terminator = some d) (host : Endian) (cs : List Bytes) :
    (cs.map (· ++ d)).mapM (p.call host) = some (cs.map (pieceCall d)) := by
  induction cs with
  | nil => rfl
  | cons c cs ih =>
    rw [List.map_cons, List.mapM_cons, call_piece hd, ih]
    rfl

/-- What is left of the stream is in the buffer, or still to be read. -/
theorem Phase.unfinished {rest : Bytes} (hd : p.terminator = some d) (h : Phase p r rest) :
    rest = r.inputBuffer ++ r.unread := by
  cases h with
  | posted | terminator => rfl
  | length hp | payload hp =>
    subst hp
    cases hd

/-- A reader of lines never stops, and has counted what left the buffer. -/
theorem Undisturbed.reading (hd : p.terminator = some d) (h : Undisturbed host p r) :
    ∃ frames, (p.format host).Reads r.arrived frames (r.inputBuffer ++ r.unread) ∧
      frames.mapM (p.call host) = some r.calls ∧ r.Counted 0 ∧ Phase p r (r.inputBuffer ++ r.unread) := by
  obtain ⟨frames, rest, calls, hf⟩ := h
  -- Every line can be decoded, so only the reading stage is left.
  cases hf.stage with
  | malformed _ _ _ _ _ _ hbad => exact absurd hbad (call_ne_none hd host _)
  | threw _ _ _ _ ht => exact ht.elim
  | failed _ _ _ _ hfail => exact hfail.elim
  | reading _ hcalls hc hph =>
    obtain rfl := hph.unfinished hd
    exact ⟨frames, Format.readsFrom_const.1 hf.reads, hcalls ▸ hf.mapM, hc, hph⟩

/-- While the stream arrives, the first of its pieces are delivered. -/
theorem Undisturbed.first_pieces (hd : p.terminator = some d) (h : Undisturbed host p r) (hc : Cut d stream cs tail)
    (ha : r.arrived <+: stream) : r.calls <+: cs.map (pieceCall d) := by
  obtain ⟨frames, hreads, hcalls, -, -⟩ := h.reading hd
  obtain ⟨later, ha⟩ := ha
  have hparse := hreads.arrive later
  unfold Format.Reads at hparse
  rw [ha, format_terminator hd, hc.parse] at hparse
  have hall := calls_pieces hd host cs
  rw [(Prod.mk.inj hparse).1, List.mapM_append, hcalls] at hall
  simp only [Option.bind_eq_bind, Option.bind_some, Option.bind_eq_some_iff] at hall
  obtain ⟨calls, -, he⟩ := hall
  exact ⟨calls, Option.some.inj he⟩

/-- Once all of it was read, all of its pieces are delivered, and the rest is in the buffer. -/
theorem Undisturbed.all_pieces (hd : p.terminator = some d) (h : Undisturbed host p r) (hc : Cut d r.arrived cs tail)
    (hrest : (system host p strand).Rest Internal r) :
    r.calls = cs.map (pieceCall d) ∧ r.inputBuffer = tail ∧
      r.totalBytesTransferred = (cs.flatMap (· ++ d)).length % 2 ^ 64 := by
  obtain ⟨frames, hreads, hcalls, ⟨n, htotal, hlen⟩, hph⟩ := h.reading hd
  obtain ⟨read, hi, hwait, hu⟩ := hph.at_rest hrest
  have hnone := (hph.waiting hi hwait hu).1
  rw [format_terminator hd] at hreads hnone
  have hparse := hreads.rest hnone
  rw [hc.parse, hu, List.append_nil] at hparse
  obtain ⟨rfl, rfl⟩ := Prod.mk.inj hparse
  rw [calls_pieces hd] at hcalls
  refine ⟨(Option.some.inj hcalls).symm, rfl, ?_⟩
  have hjoin : (cs.flatMap (· ++ d)).length + r.inputBuffer.length = r.arrived.length := by
    rw [← List.length_append, ← hc.join]
  rw [hu, List.length_nil] at hlen
  rw [htotal]
  omega

/-- A stream is cut in one way, and every run that reads it delivers the first pieces, and in the
end all of them: with the tail in the buffer, and the bytes of the delivered frames counted, as far
as a `size_t` can count. The receiver's own steps come to an end. -/
theorem framed_by_bytes (hd : p.terminator = some d) (stream : Bytes) :
    ∃ cs tail, Cut d stream cs tail ∧ (∀ cs' tail', Cut d stream cs' tail' → cs' = cs ∧ tail' = tail) ∧
      ∀ host strand es r, (system host p strand).RunIf Plain es r →
        (r.arrived <+: stream → r.calls <+: cs.map (pieceCall d)) ∧
        (r.arrived = stream → (system host p strand).Rest Internal r →
          r.calls = cs.map (pieceCall d) ∧ r.inputBuffer = tail ∧
          r.totalBytesTransferred = (cs.flatMap (· ++ d)).length % 2 ^ 64) ∧
        ∃ es' r', (system host p strand).Steps Internal r es' r' ∧ (system host p strand).Rest Internal r' := by
  have hne := terminator_ne_nil hd
  have hp := terminator_streamed hd
  obtain ⟨cs, tail, hc⟩ := Cut.exists_cut hne stream
  refine ⟨cs, tail, hc, fun _ _ h => h.unique hc hne, fun host strand es r h => ?_⟩
  have hu := RunIf.undisturbed hp h
  refine ⟨hu.first_pieces hd hc, ?_, hu.exists_rest hp⟩
  rintro rfl hrest
  exact hu.all_pieces hd hc hrest

/-- A lone carriage return, a terminator in two pieces and a lone line feed. -/
theorem framed_by_bytes_telnet : ∃ r,
    (system .big .telnet true).RunIf Plain [.receiveMessage, .arrive [97, 13, 13], .readSome 0 2, .readSome 0 1,
      .arrive [10, 10, 98], .readSome 0 3, .complete 0 {}, .receiveMessage] r ∧
    r.calls <+: [pieceCall [13, 10] [97, 13]] ∧ r.calls.length = 1 ∧ r.inputBuffer = [10, 98] := by
  have hexec : (system .big .telnet true).exec Plain (system .big .telnet true).init
      [.receiveMessage, .arrive [97, 13, 13], .readSome 0 2, .readSome 0 1, .arrive [10, 10, 98], .readSome 0 3,
        .complete 0 {}, .receiveMessage] = some _ := rfl
  have hrun := System.Steps.of_exec hexec
  obtain ⟨cs, tail, -, hu, h⟩ := framed_by_bytes (p := .telnet) (d := [13, 10]) rfl [97, 13, 13, 10, 10, 98]
  obtain ⟨rfl, rfl⟩ := hu [[97, 13]] [10, 98] ⟨rfl, by decide, by decide⟩
  exact ⟨_, hrun, (h .big true _ _ hrun).1 (List.prefix_refl _), rfl, rfl⟩

/-- Empty lines, however many, are all delivered and counted. -/
theorem empty_lines (n : Nat) : ∃ es r, (system .little .line true).RunIf Plain es r ∧
    (system .little .line true).Rest Internal r ∧ r.arrived = List.replicate n 10 ∧
    r.calls = List.replicate n (pieceCall [10] []) ∧ r.totalBytesTransferred = n % 2 ^ 64 := by
  have hcut : Cut [10] (List.replicate n 10) (List.replicate n []) ([] : Bytes) := by
    refine ⟨?_, ?_, by simp⟩
    · simp [List.flatMap_replicate]
    · intro c hc
      simp [List.eq_of_mem_replicate hc]
  have hline : Protocol.line.Streamed := .inl rfl
  have hstart : (system .little .line true).RunIf Plain [.arrive (List.replicate n 10)] _ := System.Steps.one trivial rfl
  obtain ⟨es, r, hs, hrest⟩ : ∃ es r, (system .little .line true).Steps Internal _ es r ∧
      (system .little .line true).Rest Internal r := (RunIf.undisturbed hline hstart).exists_rest hline
  have hrun := System.Steps.trans hstart (hs.mono fun _ _ ho => internal_plain ho)
  have harr : r.arrived = List.replicate n 10 := by
    rw [internal_steps_arrived hs]
    simp [system, catching, (receive_kept _).arrived]
  obtain ⟨hcalls, -, htotal⟩ := (RunIf.undisturbed hline hrun).all_pieces (d := [10]) rfl (harr ▸ hcut) hrest
  refine ⟨_, r, hrun, hrest, harr, by rw [hcalls, List.map_replicate], ?_⟩
  rw [htotal]
  simp [List.flatMap_replicate]

/-- The counter of the bytes is a `size_t`: behind 2^64 empty lines it is back at 0. -/
theorem total_wraps : ∃ es r, (system .little .line true).RunIf Plain es r ∧
    (system .little .line true).Rest Internal r ∧ r.arrived = List.replicate (2 ^ 64) 10 ∧
    r.calls = List.replicate (2 ^ 64) (pieceCall [10] []) ∧ r.totalBytesTransferred = 0 := by
  obtain ⟨es, r, hrun, hrest, harr, hcalls, htotal⟩ := empty_lines (2 ^ 64)
  exact ⟨es, r, hrun, hrest, harr, hcalls, htotal.trans (Nat.mod_self _)⟩

end Receiver
end Zar
