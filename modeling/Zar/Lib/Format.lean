import Zar.Lib.Delimiter
/-!
# Self-delimiting formats

A format reads one frame from the front of a list and leaves the rest. It must
use up something, and what arrives later must not change a frame it has read.
Every stream then has one parse, however it arrives in pieces.
-/

namespace Zar

structure Format (α μ : Type) where
  next : List α → Option (μ × List α)
  shorter : ∀ {xs m r}, next xs = some (m, r) → r.length < xs.length
  stable : ∀ {xs m r} ys, next xs = some (m, r) → next (xs ++ ys) = some (m, r ++ ys)

namespace Format
variable {α μ : Type} (F : Format α μ)

/-- The frames at the front of a list and the unfinished rest. -/
def parse (xs : List α) : List μ × List α :=
  match _h : F.next xs with
  | none => ([], xs)
  | some (m, r) => (m :: (parse r).1, (parse r).2)
termination_by xs.length
decreasing_by all_goals exact F.shorter ‹_›

variable {F} {xs ys r a : List α} {m : μ} {ms d : List μ}

theorem parse_none (h : F.next xs = none) : F.parse xs = ([], xs) := by
  rw [parse]; split
  · rfl
  · rename_i h'; rw [h] at h'; cases h'

theorem parse_some (h : F.next xs = some (m, r)) : F.parse xs = (m :: (F.parse r).1, (F.parse r).2) := by
  rw [parse]; split
  · rename_i h'; rw [h] at h'; cases h'
  · rename_i h'; rw [h] at h'; cases h'; rfl

/-! ## A format for each frame -/

/-- The frames at the front of a list, frame number `k` in the format `G k`, and the
unfinished rest. -/
def parseFrom (G : Nat → Format α μ) (k : Nat) (xs : List α) : List μ × List α :=
  match _h : (G k).next xs with
  | none => ([], xs)
  | some (m, r) => (m :: (parseFrom G (k + 1) r).1, (parseFrom G (k + 1) r).2)
termination_by xs.length
decreasing_by all_goals exact (G k).shorter ‹_›

variable {G : Nat → Format α μ} {k : Nat}

theorem parseFrom_none (h : (G k).next xs = none) : parseFrom G k xs = ([], xs) := by
  rw [parseFrom]; split
  · rfl
  · rename_i h'; rw [h] at h'; cases h'

theorem parseFrom_some (h : (G k).next xs = some (m, r)) :
    parseFrom G k xs = (m :: (parseFrom G (k + 1) r).1, (parseFrom G (k + 1) r).2) := by
  rw [parseFrom]; split
  · rename_i h'; rw [h] at h'; cases h'
  · rename_i h'; rw [h] at h'; cases h'; rfl

/-- With one format for all frames. -/
theorem parseFrom_const (k : Nat) (xs : List α) : parseFrom (fun _ => F) k xs = F.parse xs := by
  induction h : xs.length using Nat.strongRecOn generalizing k xs with
  | ind n ih =>
    cases hn : F.next xs with
    | none => rw [parseFrom_none hn, parse_none hn]
    | some p =>
      obtain ⟨m, r⟩ := p
      rw [parseFrom_some hn, parse_some hn, ih r.length (h ▸ F.shorter hn) (k + 1) r rfl]

/-- Parsing goes on where it stopped. -/
theorem parseFrom_append (k : Nat) (xs ys : List α) :
    parseFrom G k (xs ++ ys) =
      ((parseFrom G k xs).1 ++ (parseFrom G (k + (parseFrom G k xs).1.length) ((parseFrom G k xs).2 ++ ys)).1,
        (parseFrom G (k + (parseFrom G k xs).1.length) ((parseFrom G k xs).2 ++ ys)).2) := by
  induction h : xs.length using Nat.strongRecOn generalizing k xs with
  | ind n ih =>
    cases hn : (G k).next xs with
    | none => simp [parseFrom_none hn]
    | some p =>
      obtain ⟨m, r⟩ := p
      rw [parseFrom_some hn, parseFrom_some ((G k).stable ys hn), ih r.length (h ▸ (G k).shorter hn) (k + 1) r rfl]
      simp only [List.length_cons, List.cons_append, show k + 1 + (parseFrom G (k + 1) r).1.length =
        k + ((parseFrom G (k + 1) r).1.length + 1) by omega]

/-- What arrives later adds frames behind those that are there. -/
theorem parse_mono (h : xs <+: ys) : (F.parse xs).1 <+: (F.parse ys).1 := by
  obtain ⟨later, rfl⟩ := h
  rw [← parseFrom_const 0 (xs ++ later), parseFrom_append]
  simp only [parseFrom_const]
  exact List.prefix_append _ _

/-- Encoded messages that are each read back as one frame parse to those frames. -/
theorem parse_flatMap {β : Type} (enc : β → List α) (frame : β → μ) (bs : List β)
    (h : ∀ b ∈ bs, F.next (enc b) = some (frame b, [])) : F.parse (bs.flatMap enc) = (bs.map frame, []) := by
  induction bs with
  | nil =>
    apply parse_none
    cases hn : F.next [] with
    | none => simpa using hn
    | some p => exact absurd (F.shorter hn) (by simp)
  | cons b bs ih =>
    have hb := F.stable (bs.flatMap enc) (h b (by simp))
    rw [List.flatMap_cons, parse_some hb, List.nil_append, ih (fun b' hb' => h b' (by simp [hb']))]
    rfl

/-- What holds of each frame in front of a list, and of the rest what held of the list. -/
theorem parse_keeps (I : List α → Prop) (P : μ → Prop) (h : ∀ xs m r, I xs → F.next xs = some (m, r) → P m ∧ I r)
    {xs : List α} (hi : I xs) : ∀ m ∈ (F.parse xs).1, P m := by
  induction hn : xs.length using Nat.strongRecOn generalizing xs with
  | ind n ih =>
    cases hx : F.next xs with
    | none => simp [parse_none hx]
    | some p =>
      obtain ⟨m, r⟩ := p
      obtain ⟨hp, hr⟩ := h xs m r hi hx
      rw [parse_some hx]
      intro m' hm
      rcases List.mem_cons.1 hm with rfl | hm
      · exact hp
      · exact ih r.length (hn ▸ F.shorter hx) hr rfl m' hm

/-- What holds of every frame that can be read holds of those of a parse. -/
theorem parse_forall (P : μ → Prop) (h : ∀ xs m r, F.next xs = some (m, r) → P m) (xs : List α) :
    ∀ m ∈ (F.parse xs).1, P m :=
  parse_keeps (fun _ => True) P (fun xs m r _ hx => ⟨h xs m r hx, trivial⟩) trivial

/-! ## Reading a stream as it arrives -/

/-- Of the elements `a` that have arrived, the frames `d` have been read, each in its
format, and `r` is left. -/
def ReadsFrom (G : Nat → Format α μ) (a : List α) (d : List μ) (r : List α) : Prop :=
  parseFrom G 0 a = (d ++ (parseFrom G d.length r).1, (parseFrom G d.length r).2)

theorem ReadsFrom.arrive (h : ReadsFrom G a d r) (xs : List α) : ReadsFrom G (a ++ xs) d (r ++ xs) := by
  unfold ReadsFrom at *
  rw [parseFrom_append, h, parseFrom_append d.length r]
  simp

theorem ReadsFrom.deliver (h : ReadsFrom G a d r) {r' : List α} (hn : (G d.length).next r = some (m, r')) :
    ReadsFrom G a (d ++ [m]) r' := by
  unfold ReadsFrom at *
  rw [h, parseFrom_some hn]
  simp

/-- Where no frame is complete any more, everything has been read. -/
theorem ReadsFrom.rest (h : ReadsFrom G a d r) (hn : (G d.length).next r = none) : parseFrom G 0 a = (d, r) := by
  unfold ReadsFrom at h
  rw [h, parseFrom_none hn]
  simp

/-- The same with one format. -/
def Reads (F : Format α μ) (a : List α) (d : List μ) (r : List α) : Prop :=
  F.parse a = (d ++ (F.parse r).1, (F.parse r).2)

theorem readsFrom_const : ReadsFrom (fun _ => F) a d r ↔ F.Reads a d r := by
  unfold ReadsFrom Reads
  simp only [parseFrom_const]

theorem Reads.init : F.Reads a [] a := rfl

theorem Reads.arrive (h : F.Reads a d r) (xs : List α) : F.Reads (a ++ xs) d (r ++ xs) :=
  readsFrom_const.1 ((readsFrom_const.2 h).arrive xs)

theorem Reads.deliver (h : F.Reads a d r) {r' : List α} (hn : F.next r = some (m, r')) : F.Reads a (d ++ [m]) r' :=
  readsFrom_const.1 ((readsFrom_const.2 h).deliver hn)

theorem Reads.rest (h : F.Reads a d r) (hn : F.next r = none) : F.parse a = (d, r) := by
  rw [← parseFrom_const 0 a]
  exact (readsFrom_const.2 h).rest hn

/-! ## The two formats -/

/-- Frames that end with the delimiter `d`; a frame includes its delimiter. -/
def terminated [DecidableEq α] (d : List α) (hd : d ≠ []) : Format α (List α) where
  next xs := (matchEnd d xs).map fun n => (xs.take n, xs.drop n)
  shorter {xs m r} h := by
    obtain ⟨n, hn, he⟩ := Option.map_eq_some_iff.1 h
    cases he
    have h1 := matchEnd_pos hd hn
    have h2 := (matchEnd_some hn).2.1
    rw [List.length_drop]
    omega
  stable {xs m r} ys h := by
    obtain ⟨n, hn, he⟩ := Option.map_eq_some_iff.1 h
    cases he
    have h2 := (matchEnd_some hn).2.1
    simp [matchEnd_append ys hn, List.take_append_of_le_length h2, List.drop_append_of_le_length h2]

/-- Where no delimiter ends earlier, all of the list is the frame. -/
theorem terminated_clean [DecidableEq α] {d c : List α} (hd : d ≠ []) (h : ¬ d <:+: c ++ d.dropLast) :
    (terminated d hd).next (c ++ d) = some (c ++ d, []) := by
  simp [terminated, matchEnd_clean h, ← List.length_append]

/-- Frames behind a header of `k` elements that gives their length. -/
def prefixed (k : Nat) (hk : 0 < k) (len : List α → Nat) : Format α (List α) where
  next xs :=
    if k ≤ xs.length ∧ k + len (xs.take k) ≤ xs.length then
      some ((xs.drop k).take (len (xs.take k)), xs.drop (k + len (xs.take k)))
    else none
  shorter {xs m r} h := by
    split at h
    · cases h; rw [List.length_drop]; omega
    · cases h
  stable {xs m r} ys h := by
    split at h
    · rename_i hle
      cases h
      have ht : (xs ++ ys).take k = xs.take k := List.take_append_of_le_length hle.1
      rw [ht, if_pos (by simp only [List.length_append]; omega), List.drop_append_of_le_length hle.1,
        List.drop_append_of_le_length hle.2, List.take_append_of_le_length (by rw [List.length_drop]; omega)]
    · cases h

end Format

end Zar
