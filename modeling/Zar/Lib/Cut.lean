import Zar.Lib.Format
/-!
# A list cut behind its delimiters

`Cut d xs cs tail`: read from the left, the list is cut wherever the delimiter `d`
ends first, which leaves `tail`. There is exactly one way to do so, and it is
that of the format of terminated frames.
-/

namespace Zar

structure Cut {α : Type} (d xs : List α) (cs : List (List α)) (tail : List α) : Prop where
  join : xs = cs.flatMap (· ++ d) ++ tail
  /-- No delimiter ends before the one behind the piece. -/
  first : ∀ c ∈ cs, ¬ d <:+: c ++ d.dropLast
  rest : ¬ d <:+: tail

namespace Cut
variable {α : Type} [DecidableEq α] {d xs tail tail' : List α} {cs cs' : List (List α)}

/-- The frames are the pieces with their delimiters. -/
theorem parse (h : Cut d xs cs tail) (hd : d ≠ []) :
    (Format.terminated d hd).parse xs = (cs.map (· ++ d), tail) := by
  have hnext : (Format.terminated d hd).next tail = none := by simp [Format.terminated, matchEnd_none.2 h.rest]
  have hfront : (Format.terminated d hd).Reads (cs.flatMap (· ++ d)) (cs.map (· ++ d)) [] := by
    unfold Format.Reads
    rw [Format.parse_flatMap (· ++ d) (· ++ d) cs fun c hc => Format.terminated_clean hd (h.first c hc),
      Format.parse_none (by simp [Format.terminated, matchEnd, hd]), List.append_nil]
  rw [h.join]
  exact (hfront.arrive tail).rest hnext

theorem unique (h : Cut d xs cs tail) (h' : Cut d xs cs' tail') (hd : d ≠ []) : cs = cs' ∧ tail = tail' := by
  have he := (h.parse hd).symm.trans (h'.parse hd)
  exact ⟨(List.append_left_injective d).list_map (Prod.mk.inj he).1, (Prod.mk.inj he).2⟩

theorem exists_cut (hd : d ≠ []) (xs : List α) : ∃ cs tail, Cut d xs cs tail := by
  induction h : xs.length using Nat.strongRecOn generalizing xs with
  | ind n ih =>
    cases hm : matchEnd d xs with
    | none => exact ⟨[], xs, rfl, by simp, matchEnd_none.1 hm⟩
    | some k =>
      obtain ⟨hle, hxs, htake⟩ := matchEnd_some hm
      have hpos := matchEnd_pos hd hm
      obtain ⟨cs, tail, hc⟩ := ih (xs.drop k).length (by rw [List.length_drop]; omega) (xs.drop k) rfl
      have hshort : xs.take (k - d.length) ++ d.dropLast = xs.take (k - 1) := by
        rw [← List.dropLast_append_of_ne_nil hd, ← htake, List.dropLast_eq_take, List.length_take, List.take_take]
        congr 1
        omega
      refine ⟨xs.take (k - d.length) :: cs, tail, ?_, ?_, hc.rest⟩
      · rw [List.flatMap_cons, ← htake, List.append_assoc, ← hc.join, List.take_append_drop]
      · intro c hmem
        rcases List.mem_cons.1 hmem with rfl | hmem
        · rw [hshort]
          exact matchEnd_first hm (by omega)
        · exact hc.first c hmem

end Cut

/-- Where pieces in a row are split in front of an element, one of them is. -/
theorem exists_piece {α β : Type} {f : α → List β} {l : List α} {front : List β} {b : β} {rest : List β}
    (h : front ++ b :: rest = l.flatMap f) :
    ∃ done x later own more, l = done ++ x :: later ∧ front = done.flatMap f ++ own ∧ f x = own ++ b :: more := by
  induction l generalizing front with
  | nil => simp at h
  | cons y l ih =>
    have hlater : ∀ {front' : List β}, front = f y ++ front' → front' ++ b :: rest = l.flatMap f →
        ∃ done x later own more, y :: l = done ++ x :: later ∧ front = done.flatMap f ++ own ∧ f x = own ++ b :: more := by
      intro front' hf hl
      obtain ⟨done, x, later, own, more, rfl, rfl, hx⟩ := ih hl
      exact ⟨y :: done, x, later, own, more, rfl, by rw [hf, List.flatMap_cons, List.append_assoc], hx⟩
    rcases List.append_eq_append_iff.1 (h.trans List.flatMap_cons) with ⟨more, hy, hb⟩ | ⟨front', hf, hl⟩
    · cases more with
      | nil => exact hlater (show front = f y ++ [] by simpa using hy.symm) hb
      | cons b' more =>
        cases hb
        exact ⟨[], y, l, front, more, rfl, rfl, hy⟩
    · exact hlater hf hl.symm

end Zar
