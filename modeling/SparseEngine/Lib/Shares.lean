import SparseEngine.Lib.Dict

/-! The owners in a dictionary each hold a list of items. -/

namespace SparseEngine.Shares

open List Finset Dict Multiset

/-- Changing one term of a sum. -/
theorem sum_update {α M : Type} [AddCommMonoid M] {S : Finset α} {f g : α → M} {a : α}
    (ha : a ∈ S) (hne : ∀ x ∈ S, x ≠ a → g x = f x) : ∑ x ∈ S, g x + f a = ∑ x ∈ S, f x + g a := by
  classical
  have hrest : ∑ x ∈ S.erase a, g x = ∑ x ∈ S.erase a, f x :=
    Finset.sum_congr rfl fun x hx => hne x (Finset.mem_of_mem_erase hx) (Finset.ne_of_mem_erase hx)
  calc ∑ x ∈ S, g x + f a = g a + ∑ x ∈ S.erase a, g x + f a := by rw [Finset.add_sum_erase _ _ ha]
    _ = f a + ∑ x ∈ S.erase a, f x + g a := by
      rw [hrest, add_comm (g a), add_right_comm, add_comm _ (f a)]
    _ = ∑ x ∈ S, f x + g a := by rw [Finset.add_sum_erase _ _ ha]

variable {K α : Type} [DecidableEq K] {d : Dict K (List α)} {k k' : K} {xs ys : List α}

/-- What `k` holds. -/
def share (d : Dict K (List α)) (k : K) : List α := (d.get? k).getD []

def owned (d : Dict K (List α)) : Multiset α := ∑ k ∈ d.keySet, (share d k : Multiset α)

theorem share_of_get (h : d.get? k = some xs) : share d k = xs := by
  rw [share, h, Option.getD_some]

theorem share_set_self : share (d.set k xs) k = xs := share_of_get (get?_set_self _ _ _)

theorem share_set_ne (h : k' ≠ k) : share (d.set k xs) k' = share d k' := by
  rw [share, share, get?_set_ne _ _ h]

/-- A share replaced. -/
theorem owned_set (d : Dict K (List α)) (k : K) (xs : List α) :
    owned (d.set k xs) + (share d k : Multiset α) = owned d + (xs : Multiset α) := by
  have hinsert : ∑ x ∈ insert k d.keySet, (share d x : Multiset α) = owned d := by
    by_cases hk : k ∈ d.keySet
    · rw [insert_eq_of_mem hk]
      rfl
    · have hnone : share d k = [] := by
        cases hget : d.get? k with
        | none => rw [share, hget, Option.getD_none]
        | some ys => exact absurd (mem_keySet.mpr ⟨ys, hget⟩) hk
      rw [sum_insert hk, hnone, coe_nil, zero_add]
      rfl
  have hsum := sum_update (f := fun x => (share d x : Multiset α))
    (g := fun x => (share (d.set k xs) x : Multiset α)) (mem_insert_self k d.keySet)
    fun x _ hx => by rw [share_set_ne hx]
  rw [hinsert, share_set_self] at hsum
  rw [owned, keySet_set]
  exact hsum

/-- A share given up. -/
theorem owned_erase (h : d.get? k = some xs) :
    owned (d.erase k) + (xs : Multiset α) = owned d := by
  have hk : k ∈ d.keySet := mem_keySet.mpr ⟨xs, h⟩
  have hrest : ∀ x ∈ d.keySet.erase k, (share (d.erase k) x : Multiset α) = share d x := by
    intro x hx
    rw [share, share, get?_erase_ne _ (Finset.ne_of_mem_erase hx)]
  rw [owned, keySet_erase, Finset.sum_congr rfl hrest, add_comm, ← share_of_get h]
  exact Finset.add_sum_erase d.keySet (fun x => (share d x : Multiset α)) hk

theorem mem_owned {a : α} : a ∈ owned d ↔ ∃ k xs, d.get? k = some xs ∧ a ∈ xs := by
  rw [owned, mem_sum]
  constructor
  · rintro ⟨k, hk, ha⟩
    obtain ⟨xs, hxs⟩ := mem_keySet.mp hk
    rw [share_of_get hxs] at ha
    exact ⟨k, xs, hxs, ha⟩
  · rintro ⟨k, xs, hxs, ha⟩
    exact ⟨k, mem_keySet.mpr ⟨xs, hxs⟩, by rw [share_of_get hxs]; exact ha⟩

/-- When nothing is held twice, an owner holds each item once. -/
theorem nodup_share (hnd : (owned d).Nodup) (k : K) : (share d k).Nodup := by
  cases h : d.get? k with
  | none => rw [share, h]; exact nodup_nil
  | some xs =>
    rw [share_of_get h]
    rw [← owned_erase h] at hnd
    exact coe_nodup.mp (nodup_of_le (Multiset.le_add_left _ _) hnd)

/-- When nothing is held twice, two owners hold different items. -/
theorem disjoint_share (hnd : (owned d).Nodup) (hne : k' ≠ k) {a : α} (ha : a ∈ share d k) :
    a ∉ share d k' := by
  intro ha'
  cases h : d.get? k with
  | none => rw [share, h] at ha; exact absurd ha not_mem_nil
  | some xs =>
    cases h' : d.get? k' with
    | none => rw [share, h'] at ha'; exact absurd ha' not_mem_nil
    | some ys =>
      rw [share_of_get h] at ha
      rw [share_of_get h'] at ha'
      rw [← owned_erase h, nodup_add] at hnd
      refine disjoint_right.mp hnd.2.2 (mem_coe.mpr ha)
        (mem_owned.mpr ⟨k', ys, ?_, ha'⟩)
      rw [get?_erase_ne _ hne, h']

section

variable {K V : Type} (f g : K → V → Nat) (d : Dict K V)

theorem sumBy_mul (n : Nat) : (d.sumBy fun k v => f k v * n) = d.sumBy f * n := by
  unfold Dict.sumBy
  rw [← List.sum_map_mul_right]

theorem sumBy_add : (d.sumBy fun k v => f k v + g k v) = d.sumBy f + d.sumBy g := by
  unfold Dict.sumBy
  rw [← List.sum_map_add]

/-- Distinct keys take a part of a total. -/
theorem sum_weightAt_le [DecidableEq K] {ks : List K} (hks : ks.Nodup) :
    (ks.map (d.weightAt f)).sum ≤ d.sumBy f := by
  have hkeys : d.keySet ⊆ ks.toFinset ∪ d.keySet := subset_union_right
  rw [sumBy_eq_sum_of_subset f hkeys, ← sum_toFinset _ hks]
  exact sum_le_sum_of_subset subset_union_left

/-- A count is at most a total of weights that are positive where it counts. -/
theorem countP_le_sum {α : Type} {p : α → Bool} {w : α → Nat} : ∀ {xs : List α},
    (∀ x ∈ xs, (if p x then 1 else 0) ≤ w x) → xs.countP p ≤ (xs.map w).sum
  | [], _ => Nat.zero_le _
  | x :: xs, h => by
    rw [List.forall_mem_cons] at h
    rw [List.countP_cons, List.map_cons, List.sum_cons, Nat.add_comm (w x)]
    exact Nat.add_le_add (countP_le_sum h.2) h.1

end

end SparseEngine.Shares
