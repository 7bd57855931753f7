import Mathlib.Data.List.Infix
/-!
# The first delimiter in a list

`matchEnd d xs` is the index just past the first occurrence of `d` in `xs`, as
a left-to-right search computes it. Elements that arrive later never move a
match that was found.
-/

namespace Zar

variable {α : Type} [DecidableEq α] {d xs ys : List α} {n : Nat}

def matchEnd (d : List α) : List α → Option Nat
  | [] => if d = [] then some 0 else none
  | x :: xs => if d <+: x :: xs then some d.length else (matchEnd d xs).map (· + 1)

theorem matchEnd_front (h : d <+: xs) : matchEnd d xs = some d.length := by
  cases xs with
  | nil => simp [matchEnd, List.prefix_nil.1 h]
  | cons x xs => simp [matchEnd, h]

theorem matchEnd_skip {x : α} (h : ¬ d <+: x :: xs) :
    matchEnd d (x :: xs) = (matchEnd d xs).map (· + 1) := by simp [matchEnd, h]

/-- Where a match ends, the delimiter stands. -/
theorem matchEnd_some (h : matchEnd d xs = some n) :
    d.length ≤ n ∧ n ≤ xs.length ∧ xs.take n = xs.take (n - d.length) ++ d := by
  induction xs generalizing n with
  | nil =>
    simp only [matchEnd] at h
    split at h
    · cases h; subst d; simp
    · cases h
  | cons x xs ih =>
    by_cases hp : d <+: x :: xs
    · rw [matchEnd_front hp] at h
      cases h
      exact ⟨Nat.le_refl _, hp.length_le, by simpa using (List.prefix_iff_eq_take.1 hp).symm⟩
    · rw [matchEnd_skip hp] at h
      obtain ⟨m, hm, rfl⟩ := Option.map_eq_some_iff.1 h
      obtain ⟨h1, h2, h3⟩ := ih hm
      refine ⟨by omega, by simpa using h2, ?_⟩
      rw [show m + 1 - d.length = (m - d.length) + 1 by omega]
      simp [h3]

theorem matchEnd_pos (hd : d ≠ []) (h : matchEnd d xs = some n) : 0 < n :=
  Nat.lt_of_lt_of_le (List.length_pos_iff.2 hd) (matchEnd_some h).1

/-- A match stays where it is when the list grows. -/
theorem matchEnd_append (ys : List α) (h : matchEnd d xs = some n) : matchEnd d (xs ++ ys) = some n := by
  induction xs generalizing n with
  | nil =>
    simp only [matchEnd] at h
    split at h
    · cases h; subst d; exact matchEnd_front List.nil_prefix
    · cases h
  | cons x xs ih =>
    by_cases hp : d <+: x :: xs
    · rw [matchEnd_front hp] at h
      rw [matchEnd_front (List.prefix_append_of_prefix hp), h]
    · rw [matchEnd_skip hp] at h
      obtain ⟨m, hm, rfl⟩ := Option.map_eq_some_iff.1 h
      have hp' : ¬ d <+: x :: (xs ++ ys) := by
        intro hp'
        -- The match in `xs` shows that `d` fits into `x :: xs`.
        have hl := (matchEnd_some hm).1
        have hl' := (matchEnd_some hm).2.1
        exact hp (List.prefix_of_prefix_length_le hp' (List.prefix_append _ _) (by simp; omega))
      rw [List.cons_append, matchEnd_skip hp', ih hm]
      rfl

/-- A delimiter that stands somewhere is found. -/
theorem matchEnd_infix (h : d <:+: xs) : ∃ n, matchEnd d xs = some n := by
  induction xs with
  | nil => exact ⟨0, by simp [matchEnd, List.infix_nil.1 h]⟩
  | cons x xs ih =>
    by_cases hp : d <+: x :: xs
    · exact ⟨d.length, matchEnd_front hp⟩
    · obtain ⟨n, hn⟩ := ih ((List.infix_cons_iff.1 h).resolve_left hp)
      exact ⟨n + 1, by rw [matchEnd_skip hp, hn]; rfl⟩

theorem matchEnd_none : matchEnd d xs = none ↔ ¬ d <:+: xs := by
  constructor
  · intro h hd
    obtain ⟨n, hn⟩ := matchEnd_infix hd
    cases h.symm.trans hn
  · intro h
    cases hm : matchEnd d xs with
    | none => rfl
    | some n =>
      have hd : d <:+: xs.take n := by
        rw [(matchEnd_some hm).2.2]
        exact (List.suffix_append _ d).isInfix
      exact absurd (hd.trans (List.take_prefix n xs).isInfix) h

/-- In front of the first match no delimiter stands. -/
theorem matchEnd_first (h : matchEnd d xs = some n) {k : Nat} (hk : k < n) : ¬ d <:+: xs.take k := by
  intro hd
  obtain ⟨m, hm⟩ := matchEnd_infix hd
  have hle : m ≤ k := Nat.le_trans (matchEnd_some hm).2.1 (List.length_take_le k xs)
  have happ := matchEnd_append (xs.drop k) hm
  rw [List.take_append_drop, h] at happ
  obtain rfl := Option.some.inj happ
  omega

/-- Nothing before the end of `c ++ d` completes a delimiter, so the search
stops exactly there. -/
theorem matchEnd_clean {c : List α} (h : ¬ d <:+: c ++ d.dropLast) :
    matchEnd d (c ++ d) = some (c.length + d.length) := by
  induction c with
  | nil => simpa using matchEnd_front (List.prefix_refl d)
  | cons x c ih =>
    rw [List.cons_append, List.infix_cons_iff, not_or] at h
    have hp : ¬ d <+: x :: (c ++ d) := by
      intro hp
      refine h.1 (List.prefix_of_prefix_length_le hp ?_ (by simp; omega))
      exact List.cons_prefix_cons.2 ⟨rfl, (List.prefix_append_right_inj c).2 (List.dropLast_prefix d)⟩
    rw [List.cons_append, matchEnd_skip hp, ih h.2, List.length_cons]
    simp only [Option.map_some, Option.some.injEq]
    omega

end Zar
