import Mathlib.Data.Nat.Count
import Mathlib.Tactic.Linarith

/-! Vector programs over lanes `0, …, n - 1`. -/

namespace SparseEngine.Lanes

variable {ι α : Type} [DecidableEq ι]

/-- Writes one after the other. -/
def scatter (writes : List (ι × α)) (a : ι → α) : ι → α :=
  writes.foldl (fun a write => Function.update a write.1 write.2) a

theorem scatter_of_forall_ne {writes : List (ι × α)} {k : ι} :
    ∀ {a : ι → α}, (∀ write ∈ writes, write.1 ≠ k) → scatter writes a k = a k := by
  induction writes with
  | nil => exact fun _ => rfl
  | cons write writes ih =>
    intro a h
    refine (ih fun other hother => h other (List.mem_cons_of_mem _ hother)).trans ?_
    exact Function.update_of_ne (h write List.mem_cons_self).symm _ _

/-- A write stays where all writes to its place agree with it. -/
theorem scatter_of_mem {writes : List (ι × α)} {x : ι × α} :
    ∀ {a : ι → α}, x ∈ writes → (∀ other ∈ writes, other.1 = x.1 → other.2 = x.2) →
      scatter writes a x.1 = x.2 := by
  induction writes with
  | nil => exact fun h => nomatch h
  | cons head writes ih =>
    intro a mem agree
    have agree' : ∀ other ∈ writes, other.1 = x.1 → other.2 = x.2 := fun other h =>
      agree other (List.mem_cons_of_mem _ h)
    by_cases later : x ∈ writes
    · exact ih later agree'
    · by_cases hit : ∃ other ∈ writes, other.1 = x.1
      · obtain ⟨other, hother, same⟩ := hit
        have equal : other = x := Prod.ext same (agree' other hother same)
        exact absurd (equal ▸ hother) later
      · obtain rfl : x = head := (List.mem_cons.mp mem).resolve_right later
        refine (scatter_of_forall_ne fun other hother same => hit ⟨other, hother, same⟩).trans ?_
        exact Function.update_self _ _ _

def store (n : Nat) (mask : Nat → Prop) [DecidablePred mask] (index : Nat → ι) (value : Nat → α) :
    (ι → α) → ι → α :=
  scatter (((List.range n).filter fun i => decide (mask i)).map fun i => (index i, value i))

variable {n : Nat} {mask : Nat → Prop} [DecidablePred mask] {f : Nat → ι} {v : Nat → α}
  {a : ι → α}

/-- A store depends on its mask and on what it writes where the mask holds. -/
theorem store_congr {mask' : Nat → Prop} [DecidablePred mask'] {f' : Nat → ι}
    {v' : Nat → α} (hmask : ∀ i, mask i ↔ mask' i) (hindex : ∀ i, mask i → f i = f' i)
    (hvalue : ∀ i, mask i → v i = v' i) :
    store n mask f v a = store n mask' f' v' a := by
  unfold store
  have lanes : (List.range n).filter (fun i => decide (mask i)) =
      (List.range n).filter fun i => decide (mask' i) := by
    refine List.filter_congr fun i _ => ?_
    exact decide_eq_decide.mpr (hmask i)
  rw [← lanes]
  congr 1
  refine List.map_congr_left fun i hi => ?_
  have := of_decide_eq_true (List.mem_filter.mp hi).2
  rw [hindex i this, hvalue i this]

theorem store_of_mem {i : Nat} (hi : i < n) (hmask : mask i)
    (agree : ∀ j < n, mask j → f j = f i → v j = v i) :
    store n mask f v a (f i) = v i := by
  refine scatter_of_mem (x := (f i, v i)) ?_ ?_
  · exact List.mem_map.mpr ⟨i, by simp [hi, hmask], rfl⟩
  · intro other hother same
    obtain ⟨j, hj, rfl⟩ := List.mem_map.mp hother
    simp only [List.mem_filter, List.mem_range, decide_eq_true_eq] at hj
    exact agree j hj.1 hj.2 same

theorem store_of_forall_ne {k : ι} (h : ∀ j < n, mask j → f j ≠ k) :
    store n mask f v a k = a k := by
  refine scatter_of_forall_ne ?_
  intro other hother
  obtain ⟨j, hj, rfl⟩ := List.mem_map.mp hother
  simp only [List.mem_filter, List.mem_range, decide_eq_true_eq] at hj
  exact h j hj.1 hj.2

theorem count_congr {p q : Nat → Prop} [DecidablePred p] [DecidablePred q] (h : ∀ i, p i ↔ q i)
    (n : Nat) : Nat.count p n = Nat.count q n := by
  induction n with
  | zero => simp
  | succ n ih => simp only [Nat.count_succ, ih, h]

section

variable (mask)

/-- The inclusive prefix sum of a mask. -/
def cumsum (i : Nat) : Nat := Nat.count mask (i + 1)

/-- The rank of a lane among those of a mask. -/
def rank (i : Nat) : Nat := cumsum mask i - 1

variable {mask}

theorem rank_eq {i : Nat} (h : mask i) : rank mask i = Nat.count mask i := by
  unfold rank cumsum
  rw [Nat.count_succ, if_pos h]
  rfl

theorem rank_congr {p q : Nat → Prop} [DecidablePred p] [DecidablePred q] (h : ∀ i, p i ↔ q i)
    (i : Nat) : rank p i = rank q i := by
  unfold rank cumsum
  rw [count_congr h]

theorem rank_injective {i j : Nat} (hi : mask i) (hj : mask j) (h : rank mask i = rank mask j) :
    i = j := by
  rw [rank_eq hi, rank_eq hj] at h
  exact Nat.count_injective hi hj h

theorem rank_lt {i : Nat} (hi : mask i) (hn : i < n) : rank mask i < Nat.count mask n := by
  rw [rank_eq hi]
  exact Nat.count_strict_mono hi hn

/-- Every rank below the number of lanes is that of a lane. -/
theorem exists_rank : ∀ {n k : Nat}, k < Nat.count mask n → ∃ i < n, mask i ∧ rank mask i = k
  | 0, k, h => by simp at h
  | n + 1, k, h => by
    by_cases below : k < Nat.count mask n
    · obtain ⟨i, hi, hmask, hk⟩ := exists_rank below
      exact ⟨i, hi.trans (Nat.lt_succ_self n), hmask, hk⟩
    · rw [Nat.count_succ] at h
      split at h
      · next hn => exact ⟨n, Nat.lt_succ_self n, hn, by rw [rank_eq hn]; omega⟩
      · omega

/-- Compaction: the lanes of a mask stored at their ranks. -/
theorem store_rank {a : Nat → α} {i : Nat} (hi : i < n) (hmask : mask i) :
    store n mask (rank mask) v a (rank mask i) = v i := by
  refine store_of_mem hi hmask ?_
  intro j _ hj same
  rw [rank_injective hj hmask same]

end

/-- The bisection for the least threshold that meets a test. -/
def bisect (enough : Nat → Prop) [DecidablePred enough] (low high : Nat) : Nat :=
  if low < high then
    let middle := (low + high) / 2
    if enough middle then bisect enough low middle else bisect enough (middle + 1) high
  else low
termination_by high - low

/-- Where some threshold in the range meets a monotone test, bisection finds the least. -/
theorem bisect_spec {enough : Nat → Prop} [DecidablePred enough]
    (mono : ∀ m m', m ≤ m' → enough m → enough m') (low high : Nat) (hle : low ≤ high)
    (hhigh : enough high) (hlow : ∀ m < low, ¬ enough m) :
    bisect enough low high ≤ high ∧ enough (bisect enough low high) ∧
      ∀ m < bisect enough low high, ¬ enough m := by
  fun_induction bisect enough low high with
  | case1 low high hlt middle hmid ih =>
    have hmiddle : low ≤ middle ∧ middle < high := by omega
    obtain ⟨hle', hmeets, hleast⟩ := ih hmiddle.1 hmid hlow
    exact ⟨hle'.trans hmiddle.2.le, hmeets, hleast⟩
  | case2 low high hlt middle hmid ih =>
    have hmiddle : middle + 1 ≤ high := by omega
    refine ih hmiddle hhigh ?_
    intro m hm hmeets
    exact hmid (mono m middle (Nat.lt_succ_iff.mp hm) hmeets)
  | case3 low high hge =>
    obtain rfl : low = high := by omega
    exact ⟨le_rfl, hhigh, hlow⟩

section

variable (key : Nat → Nat) (low remaining : Nat)

/-- The lanes below a threshold. -/
def Smallest (i : Nat) : Prop :=
  key i < low ∨ key i = low ∧ cumsum (fun j => key j = low) i ≤ remaining

instance : DecidablePred (Smallest key low remaining) := fun _ =>
  inferInstanceAs (Decidable (_ ∨ _ ∧ _))

variable {key low remaining}

/-- Any other lane has a larger key, or the same and a larger index. -/
theorem Smallest.lt {i j : Nat} (hi : Smallest key low remaining i)
    (hj : ¬ Smallest key low remaining j) : key i < key j ∨ key i = key j ∧ i < j := by
  have hge : low ≤ key j := by
    by_contra h
    exact hj (.inl (Nat.lt_of_not_le h))
  rcases hi with hlt | ⟨heq, hrank⟩
  · exact .inl (hlt.trans_le hge)
  · rcases Nat.lt_or_eq_of_le hge with hgt | hsame
    · exact .inl (heq ▸ hgt)
    · refine .inr ⟨heq.trans hsame, ?_⟩
      by_contra hle
      refine hj (.inr ⟨hsame.symm, ?_⟩)
      exact (Nat.count_monotone _ (Nat.succ_le_succ (Nat.le_of_not_lt hle))).trans hrank

variable (key low remaining)

/-- How many lanes are among the smallest. -/
theorem count_smallest (n : Nat) : Nat.count (Smallest key low remaining) n =
    Nat.count (fun i => key i < low) n + min remaining (Nat.count (fun i => key i = low) n) := by
  induction n with
  | zero => simp
  | succ n ih =>
    have here : Smallest key low remaining n ↔ key n < low ∨ key n = low ∧
        Nat.count (fun i => key i = low) n + (if key n = low then 1 else 0) ≤ remaining := by
      unfold Smallest cumsum
      rw [Nat.count_succ]
    simp only [Nat.count_succ, ih, here]
    rcases Nat.lt_trichotomy (key n) low with hlt | heq | hgt
    · simp [hlt, hlt.ne]
      omega
    · simp only [heq, lt_self_iff_false, false_or, true_and, ↓reduceIte, Nat.add_zero]
      split <;> omega
    · simp [hgt.ne', Nat.not_lt.mpr hgt.le]

theorem count_le_low (n : Nat) : Nat.count (fun i => key i ≤ low) n =
    Nat.count (fun i => key i < low) n + Nat.count (fun i => key i = low) n := by
  induction n with
  | zero => simp
  | succ n ih =>
    simp only [Nat.count_succ, ih]
    rcases Nat.lt_trichotomy (key n) low with hlt | heq | hgt
    · simp [hlt, hlt.ne, hlt.le]
      omega
    · simp [heq]
      omega
    · simp [hgt.ne', Nat.not_lt.mpr hgt.le, Nat.not_le.mpr hgt]

end

end SparseEngine.Lanes
