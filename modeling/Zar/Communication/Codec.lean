import Zar.Communication.Message
/-!
# The codec of a message

The decoder and the encoder are two switches over the protocols. `decode_basic`
sums up the first for basic messages: all it accepts is what the encoder writes.
Then the protocols one by one: what is encoded is decoded again, but not in the
direct protocol, whose encoding is empty.
-/

namespace Zar

variable {frame : Bytes} {m m' : Message} {p : Protocol}

/-- What a basic message is decoded from: a type byte, an id and the contents. -/
def WellFormed (frame : Bytes) : Prop := 5 ≤ frame.length ∧ (frame.headD 0 = 65 ∨ frame.headD 0 = 82)

namespace Message

theorem readType_cases (c : UInt8) :
    (c = 65 ∧ readType c = .ok .action) ∨ (c = 82 ∧ readType c = .ok .reply) ∨
    (c ≠ 65 ∧ c ≠ 82 ∧ ∃ t, readType c = .error (.texception .invalid_value t)) := by
  by_cases ha : c = 65
  · exact .inl ⟨ha, by rw [ha]; rfl⟩
  · by_cases hr : c = 82
    · exact .inr (.inl ⟨hr, by rw [hr]; rfl⟩)
    · exact .inr (.inr ⟨ha, hr, _, by rw [readType, if_neg ha, if_neg hr]⟩)

/-- A basic message is too small, has an unknown type, or it is decoded. -/
theorem decode_basic (host : Endian) (frame : Bytes) :
    (frame.length < 5 ∧ ∃ t, decode host .basic frame = .error (.texception .protocol_error t)) ∨
    (5 ≤ frame.length ∧ frame.headD 0 ≠ 65 ∧ frame.headD 0 ≠ 82 ∧
      ∃ t, decode host .basic frame = .error (.texception .invalid_value t)) ∨
    (WellFormed frame ∧ ∃ type, readType (frame.headD 0) = .ok type ∧
      decode host .basic frame = .ok ⟨type, networkBufferToHost host (frame.drop 1), frame.drop 5⟩) := by
  by_cases hlen : frame.length < 5
  · exact .inl ⟨hlen, _, by rw [decode, if_pos hlen]⟩
  · have hle : 5 ≤ frame.length := Nat.not_lt.1 hlen
    rcases readType_cases (frame.headD 0) with ⟨hc, ht⟩ | ⟨hc, ht⟩ | ⟨ha, hr, t, ht⟩
    · exact .inr (.inr ⟨⟨hle, .inl hc⟩, _, ht, by rw [decode, if_neg hlen, ht]; rfl⟩)
    · exact .inr (.inr ⟨⟨hle, .inr hc⟩, _, ht, by rw [decode, if_neg hlen, ht]; rfl⟩)
    · exact .inr (.inl ⟨hle, ha, hr, t, by rw [decode, if_neg hlen, ht]; rfl⟩)

/-- What is decoded has the frame as its header and its contents. -/
theorem header_decoded (host host' : Endian) (hw : WellFormed frame) {type : MessageType}
    (ht : readType (frame.headD 0) = .ok type) :
    header host' ⟨type, networkBufferToHost host (frame.drop 1), frame.drop 5⟩ ++ frame.drop 5 = frame := by
  obtain ⟨c, rest, rfl⟩ := List.exists_cons_of_length_pos (Nat.lt_of_lt_of_le (by decide) hw.1)
  have hlen : 4 ≤ rest.length := by simpa using hw.1
  have hid : hostToNetworkString host' (networkBufferToHost host rest) = rest.take 4 := by
    have h4 : (rest.take 4).length = 4 := by simp [hlen]
    have hlt : ofBytes (rest.take 4) < 2 ^ 32 := by simpa [h4] using ofBytes_lt (rest.take 4)
    rw [hostToNetworkString_eq, networkBufferToHost_eq host rest hlen, UInt32.toNat_ofNat', Nat.mod_eq_of_lt hlt]
    simpa [h4] using toBytes_ofBytes (rest.take 4)
  have hrest : hostToNetworkString host' (networkBufferToHost host rest) ++ rest.drop 4 = rest := by
    rw [hid, List.take_append_drop]
  rcases readType_cases c with ⟨rfl, hok⟩ | ⟨rfl, hok⟩ | ⟨-, -, t, hbad⟩
  · obtain rfl : type = .action := by simpa [hok] using ht.symm
    exact congrArg (65 :: ·) hrest
  · obtain rfl : type = .reply := by simpa [hok] using ht.symm
    exact congrArg (82 :: ·) hrest
  · simp [hbad] at ht

/-- The encoder writes back what was decoded, behind its length. -/
theorem encode_decoded {host : Endian} (hf : frame.length < 2 ^ 32) (hd : decode host .basic frame = .ok m)
    (host' : Endian) : m.encode host' .basic = .ok (toBytes 4 frame.length ++ frame) := by
  rcases decode_basic host frame with ⟨-, t, hbad⟩ | ⟨-, -, -, t, hbad⟩ | ⟨hw, type, ht, hok⟩
  · cases hbad.symm.trans hd
  · cases hbad.symm.trans hd
  · obtain rfl := Except.ok.inj (hok.symm.trans hd)
    simp only [encode, header_decoded host host' hw ht, hostToNetworkString_eq, UInt32.toNat_ofNat', Nat.mod_eq_of_lt hf]

/-- The decoder sees the same message on every host. -/
theorem decode_host {host : Endian} (hd : decode host .basic frame = .ok m) (host' : Endian) :
    decode host' .basic frame = .ok m := by
  rcases decode_basic host frame with ⟨-, t, hbad⟩ | ⟨-, -, -, t, hbad⟩ | ⟨hw, type, ht, hok⟩
  · cases hbad.symm.trans hd
  · cases hbad.symm.trans hd
  · obtain rfl := Except.ok.inj (hok.symm.trans hd)
    have h := decode_header host host' ⟨type, networkBufferToHost host (frame.drop 1), frame.drop 5⟩
    rwa [header_decoded host host hw ht] at h

theorem encode_basic (host : Endian) (m : Message) :
    m.encode host .basic =
      .ok (hostToNetworkString host (UInt32.ofNat (5 + m.contents.length)) ++ (m.header host ++ m.contents)) := by
  simp only [encode, List.length_append, length_header]

/-- A basic message is accepted exactly if it is well formed, and otherwise refused for its size or
for its type. Encoding gives back what was decoded, and decoding what was encoded. -/
theorem basic_canonical (host : Endian) (frame : Bytes) (hf : frame.length < 2 ^ 32) :
    ((∃ m, decode host .basic frame = .ok m) ↔ 5 ≤ frame.length ∧ (frame.headD 0 = 65 ∨ frame.headD 0 = 82)) ∧
    ((∃ t, decode host .basic frame = .error (.texception .protocol_error t)) ↔ frame.length < 5) ∧
    ((∃ t, decode host .basic frame = .error (.texception .invalid_value t)) ↔
      5 ≤ frame.length ∧ frame.headD 0 ≠ 65 ∧ frame.headD 0 ≠ 82) ∧
    (∀ m, decode host .basic frame = .ok m → ∀ host' host'',
      m.encode host' .basic = .ok (toBytes 4 frame.length ++ frame) ∧ decode host'' .basic frame = .ok m) ∧
    (∀ m : Message, ∀ host' host'', ∃ bytes, m.encode host' .basic = .ok bytes ∧
      decode host'' .basic (bytes.drop 4) = .ok m) := by
  refine ⟨?_, ?_, ?_, ?_, ?_⟩
  · rcases decode_basic host frame with ⟨hlt, t, h⟩ | ⟨hle, ha, hr, t, h⟩ | ⟨hw, type, -, h⟩
    · simp [h, Nat.not_le.2 hlt]
    · simp [h, ha, hr, -List.headD_eq_head?_getD]
    · exact ⟨fun _ => hw, fun _ => ⟨_, h⟩⟩
  · rcases decode_basic host frame with ⟨hlt, t, h⟩ | ⟨hle, -, -, t, h⟩ | ⟨hw, type, -, h⟩
    · simp [h, hlt]
    · simp [h, hle]
    · simp [h, hw.1]
  · rcases decode_basic host frame with ⟨hlt, t, h⟩ | ⟨hle, ha, hr, t, h⟩ | ⟨hw, type, -, h⟩
    · simp [h, Nat.not_le.2 hlt]
    · exact ⟨fun _ => ⟨hle, ha, hr⟩, fun _ => ⟨t, h⟩⟩
    · have hcontra : ¬ (frame.headD 0 ≠ 65 ∧ frame.headD 0 ≠ 82) := fun hn => hw.2.elim hn.1 hn.2
      simpa only [h, reduceCtorEq, exists_false, false_iff, not_and] using fun _ ha hr => hcontra ⟨ha, hr⟩
  · intro m hd host' host''
    exact ⟨encode_decoded hf hd host', decode_host hd host''⟩
  · intro m host' host''
    refine ⟨_, encode_basic host' m, ?_⟩
    rw [List.drop_left' (length_hostToNetworkString _ _)]
    exact decode_header host' host'' m

/-- A message without contents, and an id with high bytes. -/
theorem basic_canonical_empty :
    decode .little .basic [82, 255, 0, 0, 254] = .ok ⟨.reply, 4278190334, []⟩ ∧
    encode .big .basic ⟨.reply, 4278190334, []⟩ = .ok [0, 0, 0, 5, 82, 255, 0, 0, 254] :=
  ⟨rfl, ((basic_canonical .little [82, 255, 0, 0, 254] (by decide)).2.2.2.1 _ rfl .big .big).1⟩

/-! ## Every protocol -/

theorem decode_line (host : Endian) (c : Bytes) : decode host .line (c ++ text "\n") = .ok ⟨.reply, 0, c⟩ :=
  congrArg (fun c => Except.ok (⟨.reply, 0, c⟩ : Message)) (substr_terminated c (text "\n"))

theorem decode_telnet (host : Endian) (c : Bytes) : decode host .telnet (c ++ text "\r\n") = .ok ⟨.reply, 0, c⟩ :=
  congrArg (fun c => Except.ok (⟨.reply, 0, c⟩ : Message)) (substr_terminated c (text "\r\n"))

/-- Decoding what was encoded, basic messages without their length, gives back the contents. -/
def RoundTrips (host host' : Endian) (p : Protocol) (m : Message) : Prop :=
  ∃ bytes m', m.encode host p = .ok bytes ∧ decode host' p (p.raw bytes) = .ok m' ∧ m'.contents = m.contents

end Message

/-- Neither encoding nor decoding throws that it is not implemented. -/
def Protocol.Implemented (p : Protocol) : Prop :=
  ∀ host m frame, Message.encode host p m ≠ .error NOT_IMPLEMENTED_YET ∧
    Message.decode host p frame ≠ .error NOT_IMPLEMENTED_YET

theorem not_implemented_iff : p.Implemented ↔ p ≠ .compressed := by
  constructor
  · rintro h rfl
    exact (h .big ⟨.reply, 0, []⟩ []).1 rfl
  · intro hne host m frame
    cases p with
    | compressed => exact absurd rfl hne
    | direct | line | telnet => exact ⟨nofun, nofun⟩
    | basic =>
      refine ⟨nofun, ?_⟩
      rcases Message.decode_basic host frame with ⟨-, t, h⟩ | ⟨-, -, -, t, h⟩ | ⟨-, type, -, h⟩ <;>
        rw [h] <;> exact nofun

namespace Message

/-- The direct protocol decodes, but writes nothing. -/
theorem roundTrips_iff (hp : p ≠ .compressed) (host host' : Endian) (m : Message) :
    RoundTrips host host' p m ↔ (p = .direct → m.contents = []) := by
  cases p with
  | compressed => exact absurd rfl hp
  | direct =>
    constructor
    · rintro ⟨bytes, m', he, hd, hc⟩ -
      obtain rfl := Except.ok.inj he
      obtain rfl := Except.ok.inj hd
      exact hc.symm
    · intro h
      exact ⟨[], ⟨.reply, 0, []⟩, rfl, rfl, (h rfl).symm⟩
  | line => exact ⟨fun _ => nofun, fun _ => ⟨_, _, rfl, decode_line host' m.contents, rfl⟩⟩
  | telnet => exact ⟨fun _ => nofun, fun _ => ⟨_, _, rfl, decode_telnet host' m.contents, rfl⟩⟩
  | basic =>
    refine ⟨fun _ => nofun, fun _ => ⟨_, m, encode_basic host m, ?_, rfl⟩⟩
    rw [Protocol.raw, List.drop_left' (length_hostToNetworkString _ _)]
    exact decode_header host host' m

/-- Equal encodings that are decoded have equal contents. -/
theorem RoundTrips.injective {host host' : Endian} (h : RoundTrips host host' p m) (h' : RoundTrips host host' p m')
    (he : m.encode host p = m'.encode host p) : m.contents = m'.contents := by
  obtain ⟨bytes, x, hb, hx, hc⟩ := h
  obtain ⟨bytes', x', hb', hx', hc'⟩ := h'
  obtain rfl : bytes = bytes' := Except.ok.inj (hb.symm.trans (he.trans hb'))
  obtain rfl : x = x' := Except.ok.inj (hx.symm.trans hx')
  exact hc.symm.trans hc'

/-- In every protocol that is implemented, whatever the contents: decoding undoes encoding, and
different contents are encoded differently, except in the direct protocol. -/
theorem decode_undoes_encode (hp : p.Implemented) (host host' : Endian) (m m' : Message) :
    (RoundTrips host host' p m ↔ (p = .direct → m.contents = [])) ∧
    ((m.contents ≠ m'.contents → m.encode host p ≠ m'.encode host p) ↔ (p = .direct → m.contents = m'.contents)) := by
  have hne := not_implemented_iff.1 hp
  refine ⟨roundTrips_iff hne host host' m, ?_⟩
  by_cases hd : p = .direct
  · subst hd
    exact ⟨fun h _ => Decidable.not_imp_not.1 h rfl, fun h hc => absurd (h rfl) hc⟩
  · have hall : ∀ m : Message, RoundTrips host host' p m := fun m => (roundTrips_iff hne host host' m).2 fun h => absurd h hd
    exact ⟨fun _ h => absurd h hd, fun _ hc he => hc ((hall m).injective (hall m') he)⟩

/-- Contents with terminators in them. -/
theorem decode_undoes_encode_telnet :
    Protocol.telnet.Implemented ∧ RoundTrips .little .big .telnet ⟨.action, 1, [13, 10, 97, 13]⟩ ∧
    encode .little .telnet ⟨.action, 1, [13, 10, 97, 13]⟩ ≠ encode .little .telnet ⟨.reply, 2, [13, 10, 97]⟩ := by
  have hp : Protocol.telnet.Implemented := not_implemented_iff.2 nofun
  have h := decode_undoes_encode hp .little .big ⟨.action, 1, [13, 10, 97, 13]⟩ ⟨.reply, 2, [13, 10, 97]⟩
  exact ⟨hp, h.1.2 nofun, h.2.2 nofun (by decide)⟩

/-- The direct protocol encodes the text "a" as nothing. -/
theorem direct_lost : Protocol.direct.Implemented ∧ ¬ RoundTrips .little .little .direct ⟨.action, 1, [97]⟩ ∧
    encode .little .direct ⟨.action, 1, [97]⟩ = encode .little .direct ⟨.action, 2, [98]⟩ := by
  refine ⟨not_implemented_iff.2 nofun, ?_, rfl⟩
  rintro ⟨bytes, m', he, hd, hc⟩
  obtain rfl := Except.ok.inj he
  obtain rfl := Except.ok.inj hd
  exact absurd hc (by decide)

end Message
end Zar
