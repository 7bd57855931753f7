import Zar.Exception
import Zar.Lib.BigEndian
import Zar.Lib.Format
/-!
# Messages and their encodings

`tmessage`: what a connection sends and receives, and how each protocol puts
it on the stream. Then the two directions against each other: a frame that
`encode` wrote is one frame of the protocol's format, and decoding it gives
the message back.
-/

namespace Zar

/-- `tprotocol`. -/
inductive Protocol where
  | direct | line | telnet | basic | compressed
  deriving DecidableEq, Repr

/-- `tmessage::ttype`. -/
inductive MessageType where
  | action | reply
  deriving DecidableEq, Repr

/-- `tmessage`. -/
structure Message where
  type : MessageType
  id : UInt32
  contents : Bytes
  deriving DecidableEq, Repr

/-! ## Byte order -/

/-- The byte order of the host. -/
inductive Endian where
  | little | big
  deriving DecidableEq, Repr

/-- The four bytes of a `uint32_t` as the host's memory holds them. -/
def Endian.memory : Endian → UInt32 → Bytes
  | .big, v => toBytes 4 v.toNat
  | .little, v => (toBytes 4 v.toNat).reverse

/-- The `uint32_t` that four bytes of memory hold. -/
def Endian.ofMemory : Endian → Bytes → UInt32
  | .big, bs => UInt32.ofNat (ofBytes (bs.take 4))
  | .little, bs => UInt32.ofNat (ofBytes (bs.take 4).reverse)

/-- Host to network order; the same function converts back. -/
def Endian.htonl : Endian → UInt32 → UInt32
  | .big, v => v
  | .little, v => UInt32.ofNat (ofBytes (toBytes 4 v.toNat).reverse)

def networkBufferToHost (host : Endian) (value : Bytes) : UInt32 := host.htonl (host.ofMemory value)

def hostToNetworkString (host : Endian) (value : UInt32) : Bytes := host.memory (host.htonl value)

/-- Both hosts write the bytes most significant first. -/
theorem hostToNetworkString_eq (host : Endian) (v : UInt32) : hostToNetworkString host v = toBytes 4 v.toNat := by
  cases host with
  | big => rfl
  | little =>
    have hlen : (toBytes 4 v.toNat).reverse.length = 4 := by simp
    have hlt : ofBytes (toBytes 4 v.toNat).reverse < 2 ^ 32 := by
      simpa [hlen] using ofBytes_lt (toBytes 4 v.toNat).reverse
    simp only [hostToNetworkString, Endian.htonl, Endian.memory, UInt32.toNat_ofNat', Nat.mod_eq_of_lt hlt]
    have e := toBytes_ofBytes (toBytes 4 v.toNat).reverse
    rw [hlen] at e
    rw [e, List.reverse_reverse]

theorem networkBufferToHost_eq (host : Endian) (bs : Bytes) (h : 4 ≤ bs.length) :
    networkBufferToHost host bs = UInt32.ofNat (ofBytes (bs.take 4)) := by
  have hlen : (bs.take 4).length = 4 := by simp [h]
  cases host with
  | big => rfl
  | little =>
    have hlt : ofBytes (bs.take 4).reverse < 2 ^ 32 := by simpa [hlen] using ofBytes_lt (bs.take 4).reverse
    simp only [networkBufferToHost, Endian.htonl, Endian.ofMemory, UInt32.toNat_ofNat', Nat.mod_eq_of_lt hlt]
    have e := toBytes_ofBytes (bs.take 4).reverse
    rw [List.length_reverse, hlen] at e
    rw [e, List.reverse_reverse]

@[simp] theorem length_hostToNetworkString (host : Endian) (v : UInt32) : (hostToNetworkString host v).length = 4 := by
  simp [hostToNetworkString_eq]

/-- What one host writes the other reads, whatever follows. -/
theorem network_roundtrip (host host' : Endian) (v : UInt32) (bs : Bytes) :
    networkBufferToHost host' (hostToNetworkString host v ++ bs) = v := by
  have hv := v.toNat_lt
  rw [networkBufferToHost_eq _ _ (by simp), List.take_append_of_le_length (by simp), hostToNetworkString_eq,
    List.take_of_length_le (by simp), ofBytes_toBytes 4 _ (by omega), UInt32.ofNat_toNat]

/-! ## Decoding and encoding -/

namespace Message

/-- The message type of a basic message. -/
def readType (c : UInt8) : Except Thrown MessageType :=
  if c = 65 then .ok .action
  else if c = 82 then .ok .reply
  else .error (.texception .invalid_value (text "Found unexpected message type »" ++ [c] ++ text "«"))

/-- The constructor of `tmessage` from a raw message. -/
def decode (host : Endian) (protocol : Protocol) (encodedMessage : Bytes) : Except Thrown Message :=
  match protocol with
  | .direct => .ok ⟨.reply, 0, encodedMessage⟩
  | .line => .ok ⟨.reply, 0, substr encodedMessage 0 (sizeSub encodedMessage.length 1)⟩
  | .telnet => .ok ⟨.reply, 0, substr encodedMessage 0 (sizeSub encodedMessage.length 2)⟩
  | .basic =>
    if encodedMessage.length < 5 then
      .error (.texception .protocol_error (text "A basic message is too small for its header." ++
        text " The size is »" ++ text (toString encodedMessage.length) ++ text "«"))
    else do
      let type ← readType (encodedMessage.headD 0)
      return ⟨type, networkBufferToHost host (encodedMessage.drop 1), encodedMessage.drop 5⟩
  | .compressed => .error NOT_IMPLEMENTED_YET

/-- The type and the id of a basic message, behind its length. -/
def header (host : Endian) (m : Message) : Bytes :=
  match m.type with
  | .action => text "A" ++ hostToNetworkString host m.id
  | .reply => text "R" ++ hostToNetworkString host m.id

def encode (host : Endian) (protocol : Protocol) (m : Message) : Except Thrown Bytes :=
  match protocol with
  | .direct => .ok []
  | .line => .ok (m.contents ++ text "\n")
  | .telnet => .ok (m.contents ++ text "\r\n")
  | .basic =>
    let result := m.header host ++ m.contents
    -- The cast of the size to 32 bits is not guarded.
    .ok (hostToNetworkString host (UInt32.ofNat result.length) ++ result)
  | .compressed => .error NOT_IMPLEMENTED_YET

/-- The bytes `encode` returns, none where it throws. -/
def encoding (host : Endian) (protocol : Protocol) (m : Message) : Bytes :=
  (m.encode host protocol).toOption.getD []

end Message

/-! ## The formats of the protocols -/

/-- The protocols that a connection can be read with. -/
def Protocol.Streamed (p : Protocol) : Prop := p = .line ∨ p = .telnet ∨ p = .basic

/-- Only the compressed protocol is missing from the encoder. -/
theorem encode_ok {p : Protocol} (hp : p ≠ .compressed) (host : Endian) (m : Message) :
    m.encode host p = .ok (m.encoding host p) := by
  cases p with
  | compressed => exact absurd rfl hp
  | direct | line | telnet | basic => rfl

theorem Protocol.Streamed.ne_compressed {p : Protocol} (hp : p.Streamed) : p ≠ .compressed := by
  rintro rfl
  simp [Protocol.Streamed] at hp

theorem encode_streamed {p : Protocol} (hp : p.Streamed) (host : Endian) (m : Message) :
    m.encode host p = .ok (m.encoding host p) := encode_ok hp.ne_compressed host m

/-- How a protocol cuts a stream into the raw messages that `decode` is given. -/
def Protocol.format (host : Endian) : Protocol → Format UInt8 Bytes
  | .line => .terminated (text "\n") (by decide)
  | .telnet => .terminated (text "\r\n") (by decide)
  | _ => .prefixed 4 (by decide) (fun bs => (networkBufferToHost host bs).toNat)

/-- Contents that a protocol can carry unchanged. -/
def Message.Representable (m : Message) : Protocol → Prop
  | .line => 10 ∉ m.contents
  | .telnet => ¬ text "\r\n" <:+: m.contents
  | .basic => 5 + m.contents.length < 2 ^ 32
  | _ => False

instance (m : Message) : (p : Protocol) → Decidable (m.Representable p)
  | .line => inferInstanceAs (Decidable (10 ∉ m.contents))
  | .telnet => inferInstanceAs (Decidable (¬ text "\r\n" <:+: m.contents))
  | .basic => inferInstanceAs (Decidable (5 + m.contents.length < 2 ^ 32))
  | .direct | .compressed => inferInstanceAs (Decidable False)

/-- What arrives of a message: only the basic protocol carries type and id. -/
def Message.received (m : Message) : Protocol → Message
  | .basic => m
  | _ => ⟨.reply, 0, m.contents⟩

/-- What `decode` is given of an encoding. -/
def Protocol.raw : Protocol → Bytes → Bytes
  | .basic, bs => bs.drop 4
  | _, bs => bs

theorem substr_terminated (c d : Bytes) : substr (c ++ d) 0 (sizeSub (c ++ d).length d.length) = c := by
  simp [substr, sizeSub]

theorem crlf_clean {c : Bytes} (h : ¬ text "\r\n" <:+: c) : ¬ text "\r\n" <:+: c ++ (text "\r\n").dropLast := by
  rw [show (text "\r\n").dropLast = [13] by decide, List.infix_concat_iff, not_or]
  refine ⟨fun hs => ?_, h⟩
  -- The terminator ends with a line feed, the list with a carriage return.
  have e := List.IsSuffix.getLast hs (by decide)
  simp only [List.getLast_append_singleton] at e
  exact absurd e (by decide)

theorem length_header (host : Endian) (m : Message) : (m.header host).length = 5 := by
  unfold Message.header
  split <;> simp [show (text "A").length = 1 by decide, show (text "R").length = 1 by decide]

theorem decode_header (host host' : Endian) (m : Message) :
    Message.decode host' .basic (m.header host ++ m.contents) = .ok m := by
  have hlen := length_header host m
  have hdrop : (m.header host ++ m.contents).drop 5 = m.contents := by rw [← hlen, List.drop_left]
  have hid : networkBufferToHost host' ((m.header host ++ m.contents).drop 1) = m.id := by
    unfold Message.header
    split <;> exact network_roundtrip host host' m.id m.contents
  have htype : Message.readType ((m.header host ++ m.contents).headD 0) = .ok m.type := by
    unfold Message.header
    split <;> rename_i h <;> rw [h] <;> rfl
  simp only [Message.decode, List.length_append, hlen, hid, htype, hdrop]
  rw [if_neg (by omega)]
  rfl

/-- An encoded message is one frame of its format, which decodes to what arrives
of the message. -/
theorem format_encoding {p : Protocol} {m : Message} (hr : m.Representable p) (host host' : Endian) :
    (p.format host').next (m.encoding host p) = some (p.raw (m.encoding host p), []) ∧
      Message.decode host' p (p.raw (m.encoding host p)) = .ok (m.received p) := by
  cases p with
  | direct | compressed => exact hr.elim
  | line =>
    refine ⟨Format.terminated_clean (by decide) ?_, ?_⟩
    · rw [show (text "\n").dropLast = [] by decide, List.append_nil, show text "\n" = [10] by decide]
      exact fun h => hr (h.subset (by simp))
    · exact congrArg (fun c => Except.ok (⟨.reply, 0, c⟩ : Message)) (substr_terminated m.contents (text "\n"))
  | telnet =>
    refine ⟨Format.terminated_clean (by decide) (crlf_clean hr), ?_⟩
    exact congrArg (fun c => Except.ok (⟨.reply, 0, c⟩ : Message)) (substr_terminated m.contents (text "\r\n"))
  | basic =>
    have hlen : (m.header host ++ m.contents).length = 5 + m.contents.length := by simp [length_header]
    have hsize : (UInt32.ofNat (m.header host ++ m.contents).length).toNat = 5 + m.contents.length := by
      rw [UInt32.toNat_ofNat', hlen, Nat.mod_eq_of_lt hr]
    have he : m.encoding host .basic =
        hostToNetworkString host (UInt32.ofNat (m.header host ++ m.contents).length) ++
          (m.header host ++ m.contents) := rfl
    have hn : (networkBufferToHost host' ((m.encoding host .basic).take 4)).toNat = 5 + m.contents.length := by
      rw [he, List.take_left' (by simp), ← List.append_nil (hostToNetworkString _ _), network_roundtrip, hsize]
    have hdrop : (m.encoding host .basic).drop 4 = m.header host ++ m.contents := by
      rw [he, List.drop_left' (by simp)]
    have hall : (m.encoding host .basic).length = 4 + (5 + m.contents.length) := by
      rw [he]; simp [length_header]
    refine ⟨?_, by rw [Protocol.raw, hdrop]; exact decode_header host host' m⟩
    simp only [Protocol.format, Format.prefixed, Protocol.raw, hn]
    rw [if_pos (by omega), List.drop_of_length_le (by omega : _ ≤ 4 + (5 + m.contents.length)),
      List.take_of_length_le (by rw [hdrop]; omega)]

end Zar
