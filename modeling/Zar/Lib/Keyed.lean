import Mathlib.Data.List.Nodup
import Mathlib.Data.List.Perm.Basic
/-!
# Lists of records with a key

A list stands for a collection that others refer into by key: `update` is an
assignment through such a reference. While the keys are distinct it changes one
record.
-/

namespace Zar
namespace Keyed

variable {α β κ : Type} [DecidableEq κ] {key : α → κ} {k : κ} {f : α → α} {xs ys : List α} {x y : α}

def update (key : α → κ) (k : κ) (f : α → α) (xs : List α) : List α := xs.map fun x => if key x = k then f x else x

def get? (key : α → κ) (k : κ) (xs : List α) : Option α := xs.find? (key · = k)

/-- Every key occurs once. -/
def Distinct (key : α → κ) (xs : List α) : Prop := (xs.map key).Nodup

theorem get?_some (h : get? key k xs = some x) : x ∈ xs ∧ key x = k :=
  ⟨List.mem_of_find?_eq_some h, by simpa using List.find?_some h⟩

omit [DecidableEq κ] in
theorem Distinct.eq (hd : Distinct key xs) (hx : x ∈ xs) (hy : y ∈ xs) (h : key x = key y) : x = y :=
  List.inj_on_of_nodup_map hd hx hy h

theorem Distinct.get? (hd : Distinct key xs) (hx : x ∈ xs) : get? key (key x) xs = some x := by
  cases hg : Keyed.get? key (key x) xs with
  | none => simpa using List.find?_eq_none.1 hg x hx
  | some y =>
    obtain ⟨hy, he⟩ := get?_some hg
    rw [hd.eq hy hx he]

theorem get?_absent (h : ∀ x ∈ xs, key x ≠ k) : get? key k xs = none :=
  List.find?_eq_none.2 fun x hx => by simpa using h x hx

/-- A record with a fresh key is found by that key alone. -/
theorem get?_concat (h : ∀ x ∈ xs, key x ≠ key y) (j : κ) :
    get? key j (xs ++ [y]) = if key y = j then some y else get? key j xs := by
  unfold get?
  rw [List.find?_append]
  by_cases hj : key y = j
  · have hnone : xs.find? (key · = j) = none := get?_absent (hj ▸ h)
    simp [hnone, hj]
  · simp [hj]

/-- Without the records of another key. -/
theorem get?_filter {j : κ} (h : j ≠ k) : get? key j (xs.filter (key · ≠ k)) = get? key j xs := by
  unfold get?
  rw [List.find?_filter]
  congr 1
  funext x
  by_cases hx : key x = j <;> simp [hx, h]

omit [DecidableEq κ] in
theorem Distinct.sublist (hd : Distinct key xs) (h : ys.Sublist xs) : Distinct key ys :=
  List.Nodup.sublist (h.map key) hd

omit [DecidableEq κ] in
/-- A record with a fresh key can be added. -/
theorem Distinct.concat (hd : Distinct key xs) (h : ∀ x ∈ xs, key x ≠ key y) : Distinct key (xs ++ [y]) := by
  unfold Distinct at *
  rw [List.map_append, List.nodup_append]
  refine ⟨hd, by simp, ?_⟩
  intro a ha b hb
  obtain ⟨x, hx, rfl⟩ := List.mem_map.1 ha
  obtain rfl : b = key y := by simpa using hb
  exact h x hx

omit [DecidableEq κ] in
/-- Records that go from one list to another. -/
theorem perm_transfer (p : α → Bool) (xs ys : List α) :
    (xs.filter (fun x => !p x) ++ (ys ++ xs.filter p)).Perm (xs ++ ys) := by
  apply (List.perm_append_comm.append_left _).trans
  rw [← List.append_assoc]
  exact (List.perm_append_comm.trans (List.filter_append_perm p xs)).append_right _

/-! ## What an assignment changes -/

@[simp] theorem update_append : update key k f (xs ++ ys) = update key k f xs ++ update key k f ys := by simp [update]

/-- A column that `f` keeps is the same afterwards. -/
theorem map_update (g : α → β) (h : ∀ x ∈ xs, key x = k → g (f x) = g x) : (update key k f xs).map g = xs.map g := by
  unfold update
  rw [List.map_map]
  apply List.map_congr_left
  intro x hx
  by_cases hk : key x = k
  · simp [hk, h x hx hk]
  · simp [hk]

/-- What is seen of the records changes by an assignment, too. -/
theorem map_update_map {key' : β → κ} {f' : β → β} (g : α → β) (hk : ∀ x ∈ xs, key' (g x) = key x)
    (h : ∀ x ∈ xs, key x = k → g (f x) = f' (g x)) : (update key k f xs).map g = update key' k f' (xs.map g) := by
  unfold update
  rw [List.map_map, List.map_map]
  apply List.map_congr_left
  intro x hx
  by_cases hx' : key x = k
  · simp [hx', hk x hx, h x hx hx']
  · simp [hx', hk x hx]

theorem mem_update : y ∈ update key k f xs ↔ (∃ x ∈ xs, key x = k ∧ y = f x) ∨ y ∈ xs ∧ key y ≠ k := by
  unfold update
  rw [List.mem_map]
  constructor
  · rintro ⟨x, hx, rfl⟩
    by_cases hk : key x = k
    · exact .inl ⟨x, hx, hk, by simp [hk]⟩
    · exact .inr ⟨by simpa [hk] using hx, by simp [hk]⟩
  · rintro (⟨x, hx, hk, rfl⟩ | ⟨hy, hk⟩)
    · exact ⟨x, hx, by simp [hk]⟩
    · exact ⟨y, hy, by simp [hk]⟩

theorem Distinct.update (hd : Distinct key xs) (h : ∀ x ∈ xs, key x = k → key (f x) = key x) :
    Distinct key (update key k f xs) := by
  unfold Distinct
  rw [map_update key h]
  exact hd

/-- With a key that does not occur nothing changes. -/
theorem update_absent (h : ∀ x ∈ xs, key x ≠ k) : Keyed.update key k f xs = xs := by
  unfold update
  conv_rhs => rw [← List.map_id xs]
  exact List.map_congr_left fun x hx => by simp [h x hx]

/-- Assignments through one reference compose. -/
theorem update_update (g : α → α) (h : ∀ x, key x = k → key (f x) = k) :
    update key k g (update key k f xs) = update key k (fun x => g (f x)) xs := by
  unfold update
  rw [List.map_map]
  apply List.map_congr_left
  intro x _
  by_cases hk : key x = k
  · simp [hk, h x hk]
  · simp [hk]

/-- Through the key of `x`, the record assigned is `x`. -/
theorem Distinct.update_congr (hd : Distinct key xs) (hx : x ∈ xs) {g : α → α} (h : f x = g x) :
    Keyed.update key (key x) f xs = Keyed.update key (key x) g xs := by
  unfold Keyed.update
  apply List.map_congr_left
  intro y hy
  by_cases hk : key y = key x
  · rw [hd.eq hy hx hk, if_pos rfl, if_pos rfl, h]
  · rw [if_neg hk, if_neg hk]

/-- Assigning a record to itself changes nothing. -/
theorem Distinct.update_self (hd : Distinct key xs) (hx : x ∈ xs) : Keyed.update key (key x) (fun _ => x) xs = xs := by
  rw [hd.update_congr hx (f := fun _ => x) (g := id) rfl]
  simp [Keyed.update]

/-- The last record is the one with its key. -/
theorem Distinct.update_last (hd : Distinct key (xs ++ [x])) :
    Keyed.update key (key x) f (xs ++ [x]) = xs ++ [f x] := by
  have habs : ∀ y ∈ xs, key y ≠ key x := by
    intro y hy he
    unfold Distinct at hd
    rw [List.map_append, List.nodup_append] at hd
    exact hd.2.2 _ (List.mem_map_of_mem hy) _ (by simp) he
  rw [update_append, update_absent habs]
  simp [Keyed.update]

end Keyed
end Zar
