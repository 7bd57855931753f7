import Mathlib.Data.List.Nodup
import Mathlib.Data.Nat.ModEq
import Mathlib.Logic.Function.Iterate
import Zar.Communication.Sender
/-!
# The ids of actions

`send_action` draws its id from the atomic `id_` and draws again where the counter wrapped
to 0. The calls of several threads share the counter. One iteration of the loop is one
step, since the comparison reads only what the increment returned to its caller.
-/

namespace Zar

/-- `id_` of a sender and the calls of `send_action`, numbered as they start. -/
structure ActionIds where
  id : UInt32
  started : Nat := 0
  /-- The calls in the loop. -/
  calls : List Nat := []
  /-- The calls that left the loop with what they return, in the order of the increments. -/
  returned : List (Nat × UInt32) := []
  deriving DecidableEq, Repr

namespace ActionIds

inductive Event where
  | sendAction
  /-- `id__ = ++id_` in a call. -/
  | increment (call : Nat)
  deriving DecidableEq, Repr

def step (s : ActionIds) : Event → Option ActionIds
  | .sendAction => some { s with started := s.started + 1, calls := s.calls ++ [s.started] }
  | .increment call =>
    if call ∈ s.calls then
      if s.id + 1 = 0 then some { s with id := 0 }
      else some { s with
        id := s.id + 1
        calls := s.calls.erase call
        returned := s.returned ++ [(call, s.id + 1)] }
    else none

def system (start : UInt32) : System ActionIds Event := ⟨{ id := start }, step⟩

variable {s s' : ActionIds} {es : List Event} {start : UInt32}

/-! ## The ids one behind the other -/

/-- The ids count up to the largest and go on with 1. -/
theorem toNat_nextId (x : UInt32) : (nextId x).toNat = x.toNat % (2 ^ 32 - 1) + 1 := by
  have hx := x.toNat_lt
  have hadd : (x + 1).toNat = (x.toNat + 1) % 2 ^ 32 := UInt32.toNat_add x 1
  unfold nextId
  split
  · rename_i h
    rw [h] at hadd
    have hmax : x.toNat = 2 ^ 32 - 1 := by
      have : (0 : UInt32).toNat = 0 := rfl
      omega
    rw [hmax, Nat.mod_self]
    rfl
  · rename_i h
    have hne : (x + 1).toNat ≠ 0 := fun h0 => h (UInt32.toNat_inj.1 h0)
    rw [hadd] at hne ⊢
    rw [Nat.mod_eq_of_lt (by omega), Nat.mod_eq_of_lt (by omega)]

/-- The id that is drawn behind `n` others. -/
def nth (start : UInt32) (n : Nat) : UInt32 := nextId (nextId^[n] start)

theorem toNat_nth (start : UInt32) (n : Nat) : (nth start n).toNat = (start.toNat + n) % (2 ^ 32 - 1) + 1 := by
  induction n with
  | zero => exact toNat_nextId start
  | succ n ih =>
    rw [nth, Function.iterate_succ_apply', toNat_nextId]
    rw [nth] at ih
    rw [ih, Nat.mod_add_mod, Nat.add_assoc]

theorem nth_ne_zero (start : UInt32) (n : Nat) : nth start n ≠ 0 := by
  intro h
  have := toNat_nth start n
  rw [h] at this
  exact absurd this (Nat.succ_ne_zero _).symm

/-- Two places with one id are a multiple of `2 ^ 32 - 1` apart. -/
theorem nth_inj {i j : Nat} (h : nth start i = nth start j) : i ≡ j [MOD 2 ^ 32 - 1] := by
  have hnat : (nth start i).toNat = (nth start j).toNat := congrArg UInt32.toNat h
  rw [toNat_nth, toNat_nth] at hnat
  exact Nat.ModEq.add_left_cancel' start.toNat (Nat.succ_injective hnat)

/-- Of the ids one behind the other, up to `2 ^ 32 - 1` in a row differ. -/
theorem window_nodup {w : List UInt32} {m : Nat} (h : w <:+: (List.range m).map (nth start)) (hw : w.length ≤ 2 ^ 32 - 1) :
    w.Nodup := by
  obtain ⟨before, behind, h⟩ := h
  have hwin : w = (List.range' before.length w.length).map (nth start) := by
    have hdrop : w = (((List.range m).map (nth start)).drop before.length).take w.length := by simp [← h]
    have hlen : before.length + w.length ≤ m := by
      have := congrArg List.length h
      simp only [List.length_append, List.length_map, List.length_range] at this
      omega
    conv_lhs => rw [hdrop]
    rw [← List.map_drop, ← List.map_take, List.range_eq_range', List.drop_range',
      List.take_range'_of_length_ge (by omega), Nat.zero_add, Nat.mul_one]
  rw [hwin]
  refine List.Nodup.map_on ?_ List.nodup_range'
  intro i hi j hj hij
  obtain ⟨a, ha, rfl⟩ := List.mem_range'.1 hi
  obtain ⟨b, hb, rfl⟩ := List.mem_range'.1 hj
  simp only [Nat.one_mul] at hij ⊢
  have hmod : a ≡ b [MOD 2 ^ 32 - 1] := Nat.ModEq.add_left_cancel' before.length (nth_inj hij)
  rw [hmod.eq_of_lt_of_lt (by omega) (by omega)]

/-! ## The ids of a run -/

/-- What was returned are the first ids, and the next call to leave its loop gets the one behind
them, also while the counter stands at the 0 that one call drew. -/
structure Drawn (start : UInt32) (s : ActionIds) : Prop where
  returned : s.returned.map Prod.snd = (List.range s.returned.length).map (nth start)
  next : nextId s.id = nth start s.returned.length

theorem Drawn.step {e : Event} (h : Drawn start s) (hs : s.step e = some s') : Drawn start s' := by
  cases e with
  | sendAction =>
    cases hs
    exact ⟨h.returned, h.next⟩
  | increment call =>
    simp only [ActionIds.step] at hs
    split at hs
    · split at hs
      · rename_i hwrap
        cases hs
        have hnext : nextId s.id = nextId 0 := by simp [nextId, hwrap]
        exact ⟨h.returned, by rw [← hnext]; exact h.next⟩
      · rename_i hne
        cases hs
        have hid : s.id + 1 = nextId s.id := by simp [nextId, hne]
        refine ⟨?_, ?_⟩
        · simp only [List.map_append, h.returned, List.length_append, List.length_singleton, List.range_succ]
          simp [hid, h.next]
        · have hlen : (s.returned ++ [(call, s.id + 1)]).length = s.returned.length + 1 := by simp
          rw [hlen, hid, h.next, nth, nth, Function.iterate_succ_apply']
    · cases hs

theorem run_drawn (h : (system start).Run es s) : Drawn start s :=
  h.inv (Drawn start) ⟨rfl, rfl⟩ fun _ _ _ hd _ hs => hd.step hs

/-- No call returns 0, and of the ids in the order of the increments, up to `2 ^ 32 - 1` in a row
are pairwise distinct. -/
theorem returned_distinct (h : (system start).Run es s) :
    (∀ r ∈ s.returned, r.2 ≠ 0) ∧
      ∀ w, w <:+: s.returned.map Prod.snd → w.length ≤ 2 ^ 32 - 1 → w.Nodup := by
  have hd := run_drawn h
  constructor
  · intro r hr
    have hmem : r.2 ∈ s.returned.map Prod.snd := List.mem_map_of_mem hr
    rw [hd.returned] at hmem
    obtain ⟨n, -, hn⟩ := List.mem_map.1 hmem
    rw [← hn]
    exact nth_ne_zero start n
  · intro w hw hlen
    rw [hd.returned] at hw
    exact window_nodup hw hlen

/-- Two calls across the wrap: the second draws the 0, a third one takes the 1 before it. -/
theorem returned_distinct_wrap :
    ∃ es s, (system 4294967294).Run es s ∧ s.returned = [(0, 4294967295), (2, 1), (1, 2)] ∧
      (∀ r ∈ s.returned, r.2 ≠ 0) ∧ ∀ w, w <:+: s.returned.map Prod.snd → w.length ≤ 2 ^ 32 - 1 → w.Nodup := by
  have hexec : (system 4294967294).exec (fun _ _ => True) (system 4294967294).init
      [.sendAction, .sendAction, .increment 0, .increment 1, .sendAction, .increment 2, .increment 1] = some _ := rfl
  have hrun := System.Steps.of_exec hexec
  exact ⟨_, _, hrun, rfl, returned_distinct hrun⟩

/-! ## One call alone -/

/-- A call whose loop no other call interleaves with gets `nextId` of the counter, the id that
`Request.message` gives an action. -/
theorem alone {call : Nat} (hc : call ∈ s.calls) :
    ∃ n ≤ 2, (system start).Steps (fun _ _ => True) s (List.replicate n (.increment call))
      { s with id := nextId s.id, calls := s.calls.erase call, returned := s.returned ++ [(call, nextId s.id)] } := by
  by_cases hwrap : s.id + 1 = 0
  · -- The counter wraps, and the second increment leaves the loop.
    have hid : nextId s.id = 1 := by simp [nextId, hwrap]
    have hfirst : (system start).step s (.increment call) = some { s with id := 0 } := by simp [system, ActionIds.step, hc, hwrap]
    have hsecond : (system start).step { s with id := 0 } (.increment call) =
        some { s with id := 1, calls := s.calls.erase call, returned := s.returned ++ [(call, 1)] } := by
      simp [system, ActionIds.step, hc]
    rw [hid]
    exact ⟨2, le_rfl, (System.Steps.one trivial hfirst).snoc trivial hsecond⟩
  · have hid : nextId s.id = s.id + 1 := by simp [nextId, hwrap]
    have hstep : (system start).step s (.increment call) =
        some { s with id := s.id + 1, calls := s.calls.erase call, returned := s.returned ++ [(call, s.id + 1)] } := by
      simp [system, ActionIds.step, hc, hwrap]
    rw [hid]
    exact ⟨1, Nat.le_succ 1, System.Steps.one trivial hstep⟩

end ActionIds

end Zar
