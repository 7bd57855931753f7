import Zar.Lib.Keyed
import Zar.Lib.System
/-!
# Names, first come first served

Members come and go. A member without a name may take one that no member holds,
and a member with a name may found one room, under a name that no room has.
Whatever refines this keeps the names apart.
-/

namespace Zar

structure Roster (κ ν : Type) where
  members : List (κ × Option ν) := []
  departed : List (κ × Option ν) := []
  /-- The names of the rooms, and who founded them. -/
  rooms : List (ν × κ) := []

inductive RosterEvent (κ ν : Type) where
  | enter (k : κ)
  | claim (k : κ) (n : ν)
  | found (k : κ) (n : ν)
  | leave (p : κ → Bool)

namespace Roster
variable {κ ν : Type} [DecidableEq κ] [DecidableEq ν] {R R' : Roster κ ν} {k : κ} {n : ν}

/-- The names that members hold. -/
def names (R : Roster κ ν) : List ν := R.members.filterMap Prod.snd

def step (R : Roster κ ν) : RosterEvent κ ν → Option (Roster κ ν)
  | .enter k =>
    if k ∉ (R.members ++ R.departed).map Prod.fst then some { R with members := R.members ++ [(k, none)] } else none
  | .claim k n =>
    if (k, none) ∈ R.members ∧ n ∉ R.names then
      some { R with members := Keyed.update Prod.fst k (fun _ => (k, some n)) R.members }
    else none
  | .found k n =>
    if (∃ m ∈ R.members, m.1 = k ∧ m.2.isSome) ∧ k ∉ R.rooms.map Prod.snd ∧ n ∉ R.rooms.map Prod.fst then
      some { R with rooms := R.rooms ++ [(n, k)] }
    else none
  | .leave p =>
    some { R with
      members := R.members.filter fun m => !p m.1
      departed := R.departed ++ R.members.filter fun m => p m.1 }

def system (κ ν : Type) [DecidableEq κ] [DecidableEq ν] : System (Roster κ ν) (RosterEvent κ ν) := ⟨{}, step⟩

structure Ok (R : Roster κ ν) : Prop where
  keys : Keyed.Distinct Prod.fst (R.members ++ R.departed)
  /-- No two members hold one name. -/
  names : R.names.Nodup
  /-- No two rooms have one name. -/
  rooms : Keyed.Distinct Prod.fst R.rooms
  /-- No member founded two rooms. -/
  founders : Keyed.Distinct Prod.snd R.rooms

omit [DecidableEq κ] [DecidableEq ν] in
theorem mem_names : n ∈ R.names ↔ ∃ m ∈ R.members, m.2 = some n := List.mem_filterMap

omit [DecidableEq ν] in
/-- The list as it was, with one name more. -/
theorem names_claim {ms : List (κ × Option ν)} (hd : Keyed.Distinct Prod.fst ms) (hk : (k, none) ∈ ms) :
    ((Keyed.update Prod.fst k (fun _ => (k, some n)) ms).filterMap Prod.snd).Perm (n :: ms.filterMap Prod.snd) := by
  obtain ⟨xs, ys, rfl⟩ := List.append_of_mem hk
  unfold Keyed.Distinct at hd
  rw [List.map_append, List.map_cons, List.nodup_append] at hd
  have hxs : ∀ x ∈ xs, x.1 ≠ k := fun x hx => hd.2.2 _ (List.mem_map_of_mem hx) _ (by simp)
  have hys : ∀ y ∈ ys, y.1 ≠ k := by
    intro y hy he
    exact (List.nodup_cons.1 hd.2.1).1 (List.mem_map.2 ⟨y, hy, he⟩)
  rw [Keyed.update_append, Keyed.update_absent hxs]
  have hcons : Keyed.update Prod.fst k (fun _ => (k, some n)) ((k, none) :: ys) = (k, some n) :: ys := by
    rw [← List.singleton_append, Keyed.update_append, Keyed.update_absent hys]
    simp [Keyed.update]
  rw [hcons]
  simp

theorem Ok.step (h : R.Ok) {e : RosterEvent κ ν} (hs : R.step e = some R') : R'.Ok := by
  cases e with
  | enter k =>
    simp only [Roster.step] at hs
    split at hs
    · rename_i hk
      cases hs
      refine ⟨?_, ?_, h.rooms, h.founders⟩
      · have hd := h.keys.concat (y := (k, none)) fun x hx he => hk (List.mem_map.2 ⟨x, hx, he⟩)
        unfold Keyed.Distinct at *
        refine (List.Perm.nodup_iff ?_).2 hd
        rw [List.append_assoc, List.append_assoc]
        exact (List.perm_append_comm.append_left _).map _
      · simpa [Roster.names] using h.names
    · cases hs
  | claim k n =>
    simp only [Roster.step] at hs
    split at hs
    · rename_i hc
      cases hs
      have hd : Keyed.Distinct Prod.fst R.members := h.keys.sublist (List.sublist_append_left _ _)
      refine ⟨?_, ?_, h.rooms, h.founders⟩
      · have hkeys : (Keyed.update Prod.fst k (fun _ => (k, some n)) R.members).map Prod.fst = R.members.map Prod.fst :=
          Keyed.map_update Prod.fst fun x _ hx => hx.symm
        have hk := h.keys
        unfold Keyed.Distinct at *
        rw [List.map_append] at *
        rw [hkeys]
        exact hk
      · exact (names_claim hd hc.1).nodup_iff.2 (List.nodup_cons.2 ⟨hc.2, h.names⟩)
    · cases hs
  | found k n =>
    simp only [Roster.step] at hs
    split at hs
    · rename_i hc
      cases hs
      refine ⟨h.keys, h.names, ?_, ?_⟩
      · exact h.rooms.concat fun x hx he => hc.2.2 (List.mem_map.2 ⟨x, hx, he⟩)
      · exact h.founders.concat fun x hx he => hc.2.1 (List.mem_map.2 ⟨x, hx, he⟩)
    · cases hs
  | leave p =>
    cases hs
    refine ⟨?_, ?_, h.rooms, h.founders⟩
    · exact ((Keyed.perm_transfer (fun m => p m.1) R.members R.departed).map Prod.fst).nodup_iff.2 h.keys
    · exact List.Nodup.sublist (List.filter_sublist.filterMap _) h.names

/-- Names stay apart, whatever the members do. -/
theorem Steps.ok {ok : Roster κ ν → RosterEvent κ ν → Prop} {es : List (RosterEvent κ ν)}
    (h : (system κ ν).Steps ok R es R') (hR : R.Ok) : R'.Ok :=
  System.Steps.inv Ok h hR fun _ _ _ hr _ hs => hr.step hs

end Roster
end Zar
