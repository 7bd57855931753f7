import Mathlib.Data.List.Induction
import Zar.Lib.System
/-!
# First in, first out

A queue with its history: what was pushed, and what was popped. Whatever
refines it loses nothing, repeats nothing and keeps the order.
-/

namespace Zar

structure Fifo (α : Type) where
  queue : List α := []
  pushed : List α := []
  popped : List α := []

inductive FifoEvent (α : Type) where
  | push (a : α)
  | pop

namespace Fifo
variable {α : Type} {c c' : Fifo α} {es : List (FifoEvent α)}

def step (c : Fifo α) : FifoEvent α → Option (Fifo α)
  | .push a => some { c with queue := c.queue ++ [a], pushed := c.pushed ++ [a] }
  | .pop =>
    match c.queue with
    | [] => none
    | a :: q => some { c with queue := q, popped := c.popped ++ [a] }

def system (α : Type) : System (Fifo α) (FifoEvent α) := ⟨{}, step⟩

theorem pushes (c : Fifo α) (as : List α) :
    (system α).Steps (fun _ _ => True) c (as.map .push) { c with queue := c.queue ++ as, pushed := c.pushed ++ as } := by
  induction as using List.reverseRecOn with
  | nil => simpa using System.Steps.nil
  | append_singleton as a ih =>
    rw [List.map_append, List.map_singleton]
    refine .snoc ih trivial ?_
    simp [system, step]

theorem pop (c : Fifo α) {a : α} {q : List α} (h : c.queue = a :: q) :
    (system α).Steps (fun _ _ => True) c [.pop] { c with queue := q, popped := c.popped ++ [a] } :=
  .one trivial (by simp [system, step, h])

/-- What was popped and what waits are what was pushed, in this order. -/
theorem exact (h : (system α).Steps (fun _ _ => True) {} es c) : c.pushed = c.popped ++ c.queue := by
  apply h.inv (fun c => c.pushed = c.popped ++ c.queue) rfl
  intro c e c' hc _ hs
  cases e with
  | push a =>
    cases hs
    simp [hc]
  | pop =>
    simp only [system, step] at hs
    split at hs
    · cases hs
    · cases hs
      rename_i hq
      simp only [hc, hq, List.append_assoc, List.singleton_append]

end Fifo

end Zar
