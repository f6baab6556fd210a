import Mathlib.Data.List.Nodup
import Mathlib.Tactic.Ring

/-! `for start in range(0, n, step)` and the slices it visits. -/

namespace SparseEngine

/-- `range(0, n, step)`. -/
def pyRange (n step : Nat) : List Nat := (List.range ((n + step - 1) / step)).map (· * step)

/-- What one tile extends from its start to its end holds of the whole range. -/
theorem foldl_pyRange {β : Type} {n step : Nat} (hstep : 0 < step) {P : Nat → β → Prop}
    {f : β → Nat → β} {b : β} (start : P 0 b)
    (tile : ∀ s b, s < n → P s b → P (min n (s + step)) (f b s)) :
    P n ((pyRange n step).foldl f b) := by
  have hrun : ∀ k, k ≤ (n + step - 1) / step →
      P (min n (k * step)) (((List.range k).map (· * step)).foldl f b) := by
    intro k
    induction k with
    | zero => exact fun _ => by simpa using start
    | succ k ih =>
      intro hk
      have hlt : k * step < n := by
        have := (Nat.le_div_iff_mul_le hstep).mp hk
        rw [Nat.succ_mul] at this
        omega
      have hprev := ih (Nat.le_of_succ_le hk)
      rw [Nat.min_eq_right hlt.le] at hprev
      rw [List.range_succ, List.map_append, List.foldl_append, Nat.succ_mul]
      exact tile _ _ hlt hprev
  have hlast := hrun _ (le_refl _)
  have hcover : n ≤ (n + step - 1) / step * step := by
    have h := Nat.lt_div_mul_add (a := n + step - 1) hstep
    omega
  rwa [Nat.min_eq_left hcover] at hlast

theorem take_tile {α : Type} (l : List α) (s k : Nat) :
    l.take (min l.length (s + k)) = l.take s ++ (l.drop s).take k := by
  rw [← List.take_add, Nat.min_comm, ← List.take_eq_take_min]

/-- Insertion points in an increasing list. -/
def searchsorted (l : List Nat) (x : Nat) : Nat := (l.takeWhile (· < x)).length

theorem lt_searchsorted {x : Nat} : ∀ {l : List Nat}, l.Pairwise (· < ·) → ∀ {i} (hi : i < l.length),
    i < searchsorted l x ↔ l[i] < x
  | a :: l, hl, i, hi => by
    obtain ⟨ha, hl⟩ := List.pairwise_cons.mp hl
    by_cases hax : a < x
    · cases i with
      | zero => simp [searchsorted, hax]
      | succ i =>
        have ih := lt_searchsorted (x := x) hl (i := i) (by simpa using hi)
        simpa [searchsorted, hax] using ih
    · have hge : ¬ (a :: l)[i] < x := by
        cases i with
        | zero => exact hax
        | succ i =>
          have := ha _ (List.getElem_mem (l := l) (n := i) (by simpa using hi))
          simp only [List.getElem_cons_succ]
          omega
      simp [searchsorted, hax, hge]

/-- The values between two insertion points. -/
theorem mem_between {l : List Nat} (hl : l.Pairwise (· < ·)) {a b c : Nat} :
    c ∈ (l.drop (searchsorted l a)).take (searchsorted l b - searchsorted l a) ↔
      c ∈ l ∧ a ≤ c ∧ c < b := by
  constructor
  · intro hc
    obtain ⟨i, hi, rfl⟩ := List.mem_iff_getElem.mp hc
    rw [List.length_take, List.length_drop] at hi
    have hlt : searchsorted l a + i < l.length := by omega
    rw [List.getElem_take, List.getElem_drop]
    have hlow := lt_searchsorted (x := a) hl hlt
    have hhigh := lt_searchsorted (x := b) hl hlt
    exact ⟨List.getElem_mem _, by omega, by omega⟩
  · rintro ⟨hc, hac, hcb⟩
    obtain ⟨i, hi, rfl⟩ := List.mem_iff_getElem.mp hc
    have hlow := lt_searchsorted (x := a) hl hi
    have hhigh := lt_searchsorted (x := b) hl hi
    refine List.mem_iff_getElem.mpr ⟨i - searchsorted l a, ?_, ?_⟩
    · rw [List.length_take, List.length_drop]
      omega
    · rw [List.getElem_take, List.getElem_drop]
      congr 1
      omega

/-- An increasing list is above its indices. -/
theorem le_getElem {l : List Nat} (hl : l.Pairwise (· < ·)) : ∀ {i} (hi : i < l.length), i ≤ l[i]
  | 0, _ => Nat.zero_le _
  | i + 1, hi => by
    have ih := le_getElem hl (i := i) (by omega)
    have := List.pairwise_iff_getElem.mp hl i (i + 1) (by omega) hi (Nat.lt_succ_self i)
    omega

end SparseEngine
