import Mathlib.Data.List.Basic
/-!
# Texts in a row

A list of texts is written down with a separator between them, or with one behind
each. Splitting at the separator gives the texts back where none contains it.
-/

namespace Zar

variable {α : Type} [DecidableEq α] {x : α} {xs : List α} {ls ks : List (List α)}

/-- Each text with the separator behind it. -/
def ended (x : α) (ls : List (List α)) : List α := ls.flatMap (· ++ [x])

omit [DecidableEq α] in
@[simp] theorem ended_nil (x : α) : ended x [] = [] := rfl

omit [DecidableEq α] in
@[simp] theorem ended_cons (x : α) (l : List α) (ls : List (List α)) : ended x (l :: ls) = l ++ [x] ++ ended x ls := rfl

omit [DecidableEq α] in
@[simp] theorem ended_append (x : α) (ls ks : List (List α)) : ended x (ls ++ ks) = ended x ls ++ ended x ks :=
  List.flatMap_append

omit [DecidableEq α] in
/-- It is what joins the texts and an empty one. -/
theorem ended_eq_intercalate (x : α) (ls : List (List α)) : ended x ls = [x].intercalate (ls ++ [[]]) := by
  induction ls with
  | nil => rfl
  | cons l ls ih =>
    rw [List.cons_append, List.intercalate_cons_of_ne_nil (by simp), ended_cons, ih]

/-- No part contains the separator. -/
theorem not_mem_splitOn (x : α) (xs : List α) : ∀ l ∈ xs.splitOn x, x ∉ l := by
  induction xs with
  | nil => simp
  | cons y xs ih =>
    obtain ⟨l, ls, hsplit⟩ := List.exists_cons_of_ne_nil (List.splitOn_ne_nil x xs)
    rw [hsplit] at ih
    rw [List.splitOn_cons_eq_if_modifyHead, hsplit]
    by_cases hy : y = x
    · simpa [hy] using ih
    · simpa [hy, Ne.symm hy] using ih

theorem splitOn_ended (h : ∀ l ∈ ls, x ∉ l) : (ended x ls).splitOn x = ls ++ [[]] := by
  rw [ended_eq_intercalate]
  apply List.splitOn_intercalate
  · intro l hl
    rcases List.mem_append.1 hl with hl | hl
    · exact h l hl
    · rw [List.mem_singleton.1 hl]
      exact List.not_mem_nil
  · simp

/-- The texts can be read back exactly if none contains the separator. -/
theorem splitOn_ended_iff : (ended x ls).splitOn x = ls ++ [[]] ↔ ∀ l ∈ ls, x ∉ l := by
  constructor
  · intro h l hl
    exact not_mem_splitOn x (ended x ls) l (by rw [h]; exact List.mem_append_left _ hl)
  · exact splitOn_ended

/-- Texts with the separator behind each are joined texts exactly if the last of these is
empty and the others are the same. -/
theorem ended_eq_join_iff (hls : ∀ l ∈ ls, x ∉ l) (hks : ∀ l ∈ ks, x ∉ l) (hne : ls ≠ []) :
    ended x ks = [x].intercalate ls ↔ ls = ks ++ [[]] := by
  constructor
  · intro h
    rw [← List.splitOn_intercalate x hls hne, ← h, splitOn_ended hks]
  · rintro rfl
    exact ended_eq_intercalate x ks

omit [DecidableEq α] in
/-- Where a separator stands behind a text, the text decides what stands in front of it. -/
theorem pair_infix_iff {y : α} (hxy : y ≠ x) (h : x ∉ xs) (zs : List α) :
    [y, x] <:+: xs ++ x :: zs ↔ xs.getLast? = some y ∨ [y, x] <:+: zs := by
  induction xs with
  | nil => simp [List.infix_cons_iff, hxy]
  | cons b xs ih =>
    obtain ⟨hb, hxs⟩ := not_or.1 (mt List.mem_cons.2 h)
    rw [List.cons_append, List.infix_cons_iff, ih hxs]
    cases xs with
    | nil => simp [eq_comm]
    | cons c xs =>
      have hc : x ≠ c := fun he => hxs (he ▸ List.mem_cons_self)
      simp [hc]

omit [DecidableEq α] in
/-- What stands in front of the separators are the last elements of the texts. -/
theorem pair_infix_ended {y : α} (hxy : y ≠ x) (h : ∀ l ∈ ls, x ∉ l) :
    [y, x] <:+: ended x ls ↔ ∃ l ∈ ls, l.getLast? = some y := by
  induction ls with
  | nil => simp
  | cons l ls ih =>
    have he : ended x (l :: ls) = l ++ x :: ended x ls := by simp
    rw [he, pair_infix_iff hxy (h l (by simp)), ih fun l hl => h l (by simp [hl])]
    simp

end Zar
