import Mathlib.Data.List.Nodup
import Mathlib.Data.List.Range
import Zar.Lib.System
/-!
# The strand of a connection

`tstrand` holds a pointer and whether it owns what the pointer designates. Strand objects
are resources with an identity, so a pointer can designate one that is deleted.
`strand_disable` clears the flag a second time in place of the pointer: from the first
enable on the pointer is never null again.
-/

namespace Zar

/-- A strand object that `strand_enable(io_service)` made, or one that was passed in. -/
inductive StrandObject where
  | made (n : Nat)
  | given (n : Nat)
  deriving DecidableEq, Repr

/-- What `strand_execute` does with a functor, or with its handler. -/
inductive StrandExecution where
  | direct
  | post (strand : StrandObject)
  deriving DecidableEq, Repr

structure Strand where
  strand : Option StrandObject := none
  ownStrand : Bool := false
  /-- How many strands it made. -/
  made : Nat := 0
  deleted : List StrandObject := []
  /-- Cleared by the destructor. -/
  alive : Bool := true
  deriving DecidableEq, Repr

namespace Strand

def deleteStrand (s : Strand) : Strand :=
  if s.ownStrand then { s with deleted := s.deleted ++ s.strand.toList, ownStrand := false } else s

/-- `strand_enable(io_service)`. -/
def strandEnableNew (s : Strand) : Strand :=
  let s := s.deleteStrand
  { s with strand := some (.made s.made), ownStrand := true, made := s.made + 1 }

/-- `strand_enable(strand)`. -/
def strandEnable (s : Strand) (n : Nat) : Strand := { s.deleteStrand with strand := some (.given n) }

def strandDisable (s : Strand) : Strand := { s.deleteStrand with ownStrand := false }

/-- `~tstrand`. -/
def destroy (s : Strand) : Strand := { s.deleteStrand with alive := false }

/-- Both overloads of `strand_execute`. -/
def strandExecute (s : Strand) : StrandExecution :=
  match s.strand with
  | some strand => .post strand
  | none => .direct

inductive Event where
  | strandEnableNew
  | strandEnable (n : Nat)
  | strandDisable
  | destroy
  deriving DecidableEq, Repr

/-- `~tconnection`, whose body is followed by the destructor of its base. -/
def connectionDestroy : List Event := [.strandDisable, .destroy]

def call (s : Strand) : Event → Strand
  | .strandEnableNew => s.strandEnableNew
  | .strandEnable n => s.strandEnable n
  | .strandDisable => s.strandDisable
  | .destroy => s.destroy

/-- A destroyed object is not called. -/
def step (s : Strand) (e : Event) : Option Strand := if s.alive then some (s.call e) else none

def system : System Strand Event := ⟨{}, step⟩

variable {s s' : Strand} {es : List Event} {e : Event}

theorem step_some (hs : s.step e = some s') : s.alive = true ∧ s.call e = s' := by
  unfold step at hs
  split at hs
  · rename_i ha
    exact ⟨ha, Option.some.inj hs⟩
  · cases hs

/-! ## The strand that the calls ask for -/

/-- The strand of the last enable unless a disable followed it, beside the number of strands made. -/
def follow : Option StrandObject × Nat → Event → Option StrandObject × Nat
  | (_, made), .strandEnableNew => (some (.made made), made + 1)
  | (_, made), .strandEnable n => (some (.given n), made)
  | (_, made), .strandDisable => (none, made)
  | asked, .destroy => asked

def asked (es : List Event) : Option StrandObject × Nat := es.foldl follow (none, 0)

@[simp] theorem asked_concat (es : List Event) (e : Event) : asked (es ++ [e]) = follow (asked es) e := by
  simp [asked]

/-- `strand_execute` uses the strand asked for, and the pointer designates no deleted one. -/
structure Follows (es : List Event) (s : Strand) : Prop where
  uses : s.strandExecute = match (asked es).1 with
    | some strand => .post strand
    | none => .direct
  live : ∀ strand, s.strand = some strand → strand ∉ s.deleted

/-- A disable finds that no strand was enabled. -/
def FindsNone (s : Strand) (e : Event) : Prop := e = .strandDisable → s.strand = none

instance (s : Strand) (e : Event) : Decidable (FindsNone s e) := inferInstanceAs (Decidable (e = _ → s.strand = none))

/-! ## What is deleted -/

/-- The strands are deleted in the order in which they were made, and at most the last one, which
the object then owns, is not. -/
structure Accounted (s : Strand) : Prop where
  own : s.ownStrand = true → 0 < s.made ∧ s.strand = some (.made (s.made - 1))
  deleted : s.deleted = (List.range (if s.ownStrand then s.made - 1 else s.made)).map .made

@[simp] theorem deleteStrand_strand (s : Strand) : s.deleteStrand.strand = s.strand := by
  unfold deleteStrand
  split <;> rfl

@[simp] theorem deleteStrand_made (s : Strand) : s.deleteStrand.made = s.made := by
  unfold deleteStrand
  split <;> rfl

@[simp] theorem deleteStrand_alive (s : Strand) : s.deleteStrand.alive = s.alive := by
  unfold deleteStrand
  split <;> rfl

@[simp] theorem deleteStrand_ownStrand (s : Strand) : s.deleteStrand.ownStrand = false := by
  unfold deleteStrand
  split
  · rfl
  · rename_i hown
    simpa using hown

/-- Behind `delete_strand` every strand that was made is deleted. -/
theorem Accounted.deleteStrand (h : s.Accounted) : s.deleteStrand.deleted = (List.range s.made).map .made := by
  have hdel := h.deleted
  unfold Strand.deleteStrand
  split
  · rename_i hown
    obtain ⟨hmade, hstrand⟩ := h.own hown
    rw [if_pos hown] at hdel
    obtain ⟨n, hn⟩ : ∃ n, s.made = n + 1 := ⟨s.made - 1, by omega⟩
    rw [hn, Nat.add_sub_cancel] at hstrand hdel
    simp [hdel, hstrand, hn, List.range_succ]
  · rename_i hown
    rw [if_neg hown] at hdel
    exact hdel

theorem Accounted.call (h : s.Accounted) (e : Event) : (s.call e).Accounted := by
  have hdel := h.deleteStrand
  cases e with
  | strandEnableNew =>
    refine ⟨fun _ => ⟨Nat.succ_pos _, ?_⟩, ?_⟩
    · simp [Strand.call, strandEnableNew]
    · simp [Strand.call, strandEnableNew, hdel]
  | strandEnable n => exact ⟨by simp [Strand.call, strandEnable], by simp [Strand.call, strandEnable, hdel]⟩
  | strandDisable => exact ⟨by simp [Strand.call, strandDisable], by simp [Strand.call, strandDisable, hdel]⟩
  | destroy => exact ⟨by simp [Strand.call, destroy], by simp [Strand.call, destroy, hdel]⟩

theorem run_accounted (h : system.Run es s) : s.Accounted := by
  refine h.inv Accounted ⟨by decide, rfl⟩ ?_
  intro s e s' hi _ hs
  obtain ⟨-, rfl⟩ := step_some hs
  exact hi.call e

theorem Accounted.given_notMem (h : s.Accounted) (n : Nat) : .given n ∉ s.deleted := by
  rw [h.deleted]
  simp

theorem Accounted.nodup (h : s.Accounted) : s.deleted.Nodup := by
  rw [h.deleted]
  exact List.nodup_range.map fun _ _ hij => StrandObject.made.inj hij

theorem run_dead (h : system.Run es s) : s.alive = false → s.ownStrand = false := by
  apply h.inv (fun s => s.alive = false → s.ownStrand = false) (by decide)
  intro s e s' _ _ hs
  obtain ⟨ha, rfl⟩ := step_some hs
  cases e with
  | destroy => exact fun _ => deleteStrand_ownStrand s
  | _ =>
    intro hdead
    simp [call, strandEnableNew, strandEnable, strandDisable, ha] at hdead

/-- By the end of the destruction every strand that was made is deleted once. -/
theorem deleted_once (h : system.Run es s) (hd : s.alive = false) {n : Nat} (hn : n < s.made) :
    s.deleted.count (.made n) = 1 := by
  have hacc := run_accounted h
  apply List.count_eq_one_of_mem hacc.nodup
  rw [hacc.deleted, if_neg (by simp [run_dead h hd])]
  exact List.mem_map_of_mem (List.mem_range.2 hn)

/-- A connection with a live strand can be destroyed, which deletes all that it made. -/
theorem connectionDestroy_deletes (h : system.Run es s) (ha : s.alive = true) :
    ∃ s', system.Run (es ++ connectionDestroy) s' ∧ s'.alive = false ∧ s'.deleted = (List.range s.made).map .made := by
  have hdisable : s.step .strandDisable = some s.strandDisable := if_pos ha
  have hdestroy : s.strandDisable.step .destroy = some s.strandDisable.destroy := by
    simp [step, strandDisable, ha, call]
  have hacc : s.strandDisable.Accounted := (run_accounted h).call .strandDisable
  refine ⟨s.strandDisable.destroy, ?_, rfl, ?_⟩
  · exact System.Steps.trans h ((System.Steps.one trivial hdisable).snoc trivial hdestroy)
  · exact hacc.deleteStrand.trans (by simp [strandDisable])

/-! ## What is used -/

theorem run_made (h : system.Run es s) : (asked es).2 = s.made := by
  apply h.inv_hist (fun es s => (asked es).2 = s.made) rfl
  intro es s e s' _ hi _ hs
  obtain ⟨-, rfl⟩ := step_some hs
  cases e <;> simp [follow, call, strandEnableNew, strandEnable, strandDisable, destroy, hi]

/-- Only a disable can leave the calls, and it does where a strand is enabled: the pointer stays. -/
theorem follows_step (h : system.Run es s) (hs : s.step e = some s') :
    (s'.alive = true → Follows (es ++ [e]) s') ↔ FindsNone s e := by
  have hacc := run_accounted h
  have hdel := hacc.deleteStrand
  obtain ⟨ha, rfl⟩ := step_some hs
  cases e with
  | strandEnableNew =>
    refine iff_of_true (fun _ => ⟨?_, ?_⟩) (fun he => Event.noConfusion he)
    · simp [strandExecute, call, strandEnableNew, follow, run_made h]
    · intro strand hstrand
      obtain rfl : .made s.made = strand := by simpa [call, strandEnableNew] using hstrand
      simp [call, strandEnableNew, hdel]
  | strandEnable n =>
    refine iff_of_true (fun _ => ⟨?_, ?_⟩) (fun he => Event.noConfusion he)
    · simp [strandExecute, call, strandEnable, follow]
    · intro strand hstrand
      obtain rfl : .given n = strand := by simpa [call, strandEnable] using hstrand
      simp [call, strandEnable, hdel]
  | strandDisable =>
    have hpointer : (s.call .strandDisable).strand = s.strand := by simp [call, strandDisable]
    constructor
    · intro hfollows _
      have huses := (hfollows (by simp [call, strandDisable, ha])).uses
      rw [strandExecute, hpointer] at huses
      cases hstrand : s.strand with
      | none => rfl
      | some strand => simp [hstrand, follow] at huses
    · intro hnone _
      have hstrand := hpointer.trans (hnone rfl)
      refine ⟨?_, ?_⟩
      · simp [strandExecute, hstrand, follow]
      · intro strand h
        rw [hstrand] at h
        cases h
  | destroy =>
    refine iff_of_true ?_ (fun he => Event.noConfusion he)
    intro halive
    cases halive

/-- The object follows its last enable or disable all along a run exactly if no disable of the run
finds a strand enabled. Whatever the run, the strands it made are deleted once by the end of the
destruction and never twice, and those passed in never. -/
theorem follows_iff (h : system.Run es s) :
    (∀ es' s', es' <+: es → system.Run es' s' → s'.alive = true → Follows es' s') ∧
      (s.alive = false → ∀ n < s.made, s.deleted.count (.made n) = 1) ∧ s.deleted.Nodup ∧ (∀ n, .given n ∉ s.deleted) ↔
    system.RunIf FindsNone es s := by
  have hacc := run_accounted h
  have hdeleted : (s.alive = false → ∀ n < s.made, s.deleted.count (.made n) = 1) ∧ s.deleted.Nodup ∧
      ∀ n, .given n ∉ s.deleted := ⟨fun hd n hn => deleted_once h hd hn, hacc.nodup, hacc.given_notMem⟩
  rw [and_iff_left hdeleted]
  refine h.prefixes_iff_runIf (fun es s => s.alive = true → Follows es s) ?_ ?_
  · exact fun _ => ⟨rfl, by decide⟩
  · exact fun es s e s' hrun _ hs => follows_step hrun.run hs

/-- A strand of its own, then one passed in, then the end of a connection that never disabled. -/
theorem follows_iff_enabled :
    ∃ es s, system.Run es s ∧
      ((∀ es' s', es' <+: es → system.Run es' s' → s'.alive = true → Follows es' s') ∧
        (s.alive = false → ∀ n < s.made, s.deleted.count (.made n) = 1) ∧ s.deleted.Nodup ∧ (∀ n, .given n ∉ s.deleted) ↔
      system.RunIf FindsNone es s) ∧ s.deleted = [.made 0] := by
  have hexec : system.exec (fun _ _ => True) system.init [.strandEnableNew, .strandEnable 3, .destroy] = some _ := rfl
  have hrun := System.Steps.of_exec hexec
  exact ⟨_, _, hrun, follows_iff hrun, rfl⟩

/-- Behind an enable and a disable, code is posted through the strand that was deleted. -/
theorem disable_dangles :
    ∃ s, system.Run [.strandEnableNew, .strandDisable] s ∧ s.alive = true ∧ s.strandExecute = .post (.made 0) ∧
      .made 0 ∈ s.deleted ∧ ¬ Follows [.strandEnableNew, .strandDisable] s := by
  have hexec : system.exec (fun _ _ => True) system.init [.strandEnableNew, .strandDisable] = some _ := rfl
  refine ⟨_, System.Steps.of_exec hexec, rfl, rfl, by decide, ?_⟩
  intro hfollows
  exact absurd hfollows.uses (by decide)

end Strand

end Zar
