import Zar.Communication.Codec
import Zar.Communication.Framing
/-!
# The length of a basic message

`encode` casts the size of the message to 32 bits, and the check in front of it is
commented out. So the length is exact up to 2^32 - 1 bytes, header included, and a
receiver that trusts it finds the next message. From there on the length is too
small, and what follows is read from within the message.
-/

namespace Zar
namespace Message

/-- What the first four bytes of an encoding say. -/
theorem length_value (host : Endian) (m : Message) :
    ofBytes ((m.encoding host .basic).take 4) = (5 + m.contents.length) % 2 ^ 32 := by
  have hlt : (5 + m.contents.length) % 2 ^ 32 < 256 ^ 4 := Nat.mod_lt _ (by decide)
  unfold encoding
  rw [encode_basic, Except.toOption, Option.getD_some, List.take_left' (length_hostToNetworkString _ _),
    hostToNetworkString_eq, UInt32.toNat_ofNat', ofBytes_toBytes 4 _ hlt]

theorem length_behind (host : Endian) (m : Message) :
    ((m.encoding host .basic).drop 4).length = 5 + m.contents.length := by
  unfold encoding
  rw [encode_basic, Except.toOption, Option.getD_some, List.drop_left' (length_hostToNetworkString _ _),
    List.length_append, length_header]

end Message

namespace Receiver

/-- The receiver takes `bytes` for one frame, that of `m`, and reads what follows as if it stood
alone. -/
def TakesAsOne (host : Endian) (bytes : Bytes) (m : Message) : Prop :=
  ∀ strand later es r es' r', (system host .basic strand).RunIf Plain es r → r.arrived = bytes ++ later →
    (system host .basic strand).Rest Internal r →
    (system host .basic strand).RunIf Plain es' r' → r'.arrived = later → (system host .basic strand).Rest Internal r' →
    r.calls = ⟨false, (bytes.drop 4).length, some m⟩ :: r'.calls

theorem takesAsOne_encoding {m : Message} (hr : m.Representable .basic) (host host' : Endian) :
    TakesAsOne host' (m.encoding host .basic) m := by
  intro strand later es r es' r' h ha hrest h' ha' hrest'
  have hp : Protocol.basic.Streamed := .inr (.inr rfl)
  have hnext := ((Protocol.basic.format host').stable later (format_encoding hr host host').1)
  rw [(RunIf.undisturbed hp h).framed.calls_at_rest hrest, (RunIf.undisturbed hp h').framed.calls_at_rest hrest', ha, ha',
    Format.parse_some hnext, List.nil_append, callsFor, call_encoded host host' hr]
  rfl

end Receiver

namespace Message

/-- The length in front of an encoding is that of what follows, and a receiver takes exactly that. -/
def LengthExact (host : Endian) (m : Message) : Prop :=
  ∀ bytes, m.encode host .basic = .ok bytes →
    ofBytes (bytes.take 4) = (bytes.drop 4).length ∧ ∀ host', Receiver.TakesAsOne host' bytes m

/-- A length that does not fit is cut off. -/
theorem length_inexact {host : Endian} {m : Message} (h : 2 ^ 32 ≤ 5 + m.contents.length) : ¬ LengthExact host m := by
  intro hex
  have hval := (hex _ (encode_streamed (.inr (.inr rfl)) host m)).1
  have hlt : (5 + m.contents.length) % 2 ^ 32 < 2 ^ 32 := Nat.mod_lt _ (by decide)
  rw [length_value, length_behind] at hval
  omega

/-- The length is exact for the messages whose size fits into it, and for no others. -/
theorem length_exact_iff (host : Endian) (m : Message) : LengthExact host m ↔ 5 + m.contents.length < 2 ^ 32 := by
  constructor
  · intro h
    by_contra hlt
    exact length_inexact (Nat.not_lt.1 hlt) h
  · intro hlt bytes hb
    obtain rfl := Except.ok.inj ((encode_streamed (.inr (.inr rfl)) host m).symm.trans hb)
    refine ⟨?_, fun host' => Receiver.takesAsOne_encoding hlt host host'⟩
    rw [length_value, length_behind, Nat.mod_eq_of_lt hlt]

theorem replicate_inexact (host : Endian) {n : Nat} (h : 2 ^ 32 ≤ 5 + n) :
    ¬ LengthExact host ⟨.action, 1, List.replicate n 97⟩ :=
  length_inexact (by rw [List.length_replicate]; exact h)

/-- With 2^32 - 5 bytes of contents the length says that nothing follows. -/
theorem length_zero : ¬ LengthExact .little ⟨.action, 1, List.replicate (2 ^ 32 - 5) 97⟩ :=
  replicate_inexact .little (by omega)

end Message
end Zar
