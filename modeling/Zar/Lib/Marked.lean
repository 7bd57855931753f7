import Mathlib.Data.List.Basic
/-!
# Pieces that begin with a mark

A list made of pieces, each with a mark in front and none behind it, tells its pieces.
-/

namespace Zar

/-- A piece has its mark in front and no other one. -/
def Piece {β : Type} (mark : β → Prop) (l : List β) : Prop := ∃ b bs, l = b :: bs ∧ mark b ∧ ∀ c ∈ bs, ¬ mark c

theorem append_inj_of_mark {β : Type} {mark : β → Prop} {as bs as' bs' : List β} (h : as ++ as' = bs ++ bs')
    (ha : ∀ c ∈ as, ¬ mark c) (hb : ∀ c ∈ bs, ¬ mark c) (ha' : ∀ c cs, as' = c :: cs → mark c)
    (hb' : ∀ c cs, bs' = c :: cs → mark c) : as = bs ∧ as' = bs' := by
  induction as generalizing bs with
  | nil =>
    cases bs with
    | nil => exact ⟨rfl, h⟩
    | cons b bs => exact absurd (ha' b _ h) (hb b List.mem_cons_self)
  | cons a as ih =>
    cases bs with
    | nil => exact absurd (hb' a _ h.symm) (ha a List.mem_cons_self)
    | cons b bs =>
      obtain ⟨rfl, hrest⟩ := List.cons.inj h
      obtain ⟨rfl, h'⟩ := ih hrest (fun c hc => ha c (List.mem_cons_of_mem _ hc)) fun c hc => hb c (List.mem_cons_of_mem _ hc)
      exact ⟨rfl, h'⟩

theorem flatMap_mark {α β : Type} {mark : β → Prop} {f : α → List β} {xs : List α}
    (h : ∀ x ∈ xs, f x = [] ∨ Piece mark (f x)) : ∀ c cs, xs.flatMap f = c :: cs → mark c := by
  induction xs with
  | nil => exact fun c cs hc => absurd hc (by simp)
  | cons x xs ih =>
    intro c cs hc
    rw [List.flatMap_cons] at hc
    rcases h x List.mem_cons_self with hx | ⟨b, bs, hx, hb, -⟩
    · rw [hx, List.nil_append] at hc
      exact ih (fun y hy => h y (List.mem_cons_of_mem _ hy)) c cs hc
    · rw [hx, List.cons_append] at hc
      obtain ⟨rfl, -⟩ := List.cons.inj hc
      exact hb

/-- Pieces in a row tell each piece, where the same places are empty. -/
theorem flatMap_eq_iff {α β : Type} {mark : β → Prop} {f g : α → List β} {xs : List α}
    (h : ∀ x ∈ xs, f x = [] ∧ g x = [] ∨ Piece mark (f x) ∧ Piece mark (g x)) :
    xs.flatMap f = xs.flatMap g ↔ ∀ x ∈ xs, f x = g x := by
  constructor
  · intro heq
    induction xs with
    | nil => exact fun x hx => absurd hx List.not_mem_nil
    | cons x xs ih =>
      have htail : ∀ y ∈ xs, f y = [] ∧ g y = [] ∨ Piece mark (f y) ∧ Piece mark (g y) :=
        fun y hy => h y (List.mem_cons_of_mem _ hy)
      rw [List.flatMap_cons, List.flatMap_cons] at heq
      have hboth : f x = g x ∧ xs.flatMap f = xs.flatMap g := by
        rcases h x List.mem_cons_self with ⟨hf, hg⟩ | ⟨⟨b, bs, hf, -, hbs⟩, c, cs, hg, -, hcs⟩
        · rw [hf, hg] at heq ⊢
          exact ⟨rfl, heq⟩
        · rw [hf, hg] at heq ⊢
          obtain ⟨rfl, hrest⟩ := List.cons.inj heq
          obtain ⟨rfl, htails⟩ := append_inj_of_mark hrest hbs hcs
            (flatMap_mark fun y hy => (htail y hy).imp And.left And.left)
            (flatMap_mark fun y hy => (htail y hy).imp And.right And.right)
          exact ⟨rfl, htails⟩
      intro y hy
      rcases List.mem_cons.1 hy with rfl | hy
      · exact hboth.1
      · exact ih htail hboth.2 y hy
  · exact List.flatMap_congr

end Zar
