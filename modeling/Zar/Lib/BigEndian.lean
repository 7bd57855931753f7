import Mathlib.Algebra.Group.Nat.Defs
import Mathlib.Data.List.Induction
/-!
# Numbers as bytes, most significant byte first

`toBytes k n` are the `k` lowest bytes of `n`; `ofBytes` reads a number back.
-/

namespace Zar

def toBytes : Nat → Nat → List UInt8
  | 0, _ => []
  | k + 1, n => toBytes k (n / 256) ++ [UInt8.ofNat n]

def ofBytes (bs : List UInt8) : Nat := bs.foldl (fun a b => 256 * a + b.toNat) 0

@[simp] theorem length_toBytes (k n : Nat) : (toBytes k n).length = k := by
  induction k generalizing n with
  | zero => rfl
  | succ k ih => simp [toBytes, ih]

theorem ofBytes_concat (bs : List UInt8) (b : UInt8) : ofBytes (bs ++ [b]) = 256 * ofBytes bs + b.toNat := by
  simp [ofBytes]

theorem ofBytes_toBytes (k n : Nat) (h : n < 256 ^ k) : ofBytes (toBytes k n) = n := by
  induction k generalizing n with
  | zero => simp [toBytes, ofBytes]; omega
  | succ k ih =>
    have hd : n / 256 < 256 ^ k := by rw [Nat.pow_succ] at h; omega
    rw [toBytes, ofBytes_concat, ih _ hd, UInt8.toNat_ofNat']
    omega

theorem ofBytes_lt (bs : List UInt8) : ofBytes bs < 256 ^ bs.length := by
  induction bs using List.reverseRecOn with
  | nil => simp [ofBytes]
  | append_singleton bs b ih =>
    have := b.toNat_lt
    rw [ofBytes_concat, List.length_append, List.length_singleton, Nat.pow_succ]
    omega

theorem toBytes_ofBytes (bs : List UInt8) : toBytes bs.length (ofBytes bs) = bs := by
  induction bs using List.reverseRecOn with
  | nil => rfl
  | append_singleton bs b ih =>
    have := b.toNat_lt
    have hd : (256 * ofBytes bs + b.toNat) / 256 = ofBytes bs := by omega
    have hm : UInt8.ofNat (256 * ofBytes bs + b.toNat) = b := by
      rw [← UInt8.toNat_inj, UInt8.toNat_ofNat']
      omega
    rw [ofBytes_concat, List.length_append, List.length_singleton, toBytes, hd, hm, ih]

end Zar
