import Mathlib.Tactic.Linarith

/-! A buffer is emptied in whole batches, and its newest items are held back. -/

namespace SparseEngine.Batches

variable {hold size n m : Nat}

def finalized (hold size n : Nat) : Nat :=
  (n - hold) / size * size

theorem finalized_mono (h : n ≤ m) : finalized hold size n ≤ finalized hold size m :=
  Nat.mul_le_mul_right size (Nat.div_le_div_right (Nat.sub_le_sub_right h hold))

theorem finalized_le : finalized hold size n ≤ n - hold :=
  Nat.div_mul_le_self _ _

theorem finalized_le_self : finalized hold size n ≤ n :=
  finalized_le.trans (Nat.sub_le n hold)

/-- Less than a batch remains besides what is held back. -/
theorem lt_finalized_add (hold n : Nat) (hsize : 0 < size) : n < finalized hold size n + hold + size := by
  have rest : n - hold < (n - hold) / size * size + size := Nat.lt_div_mul_add hsize
  unfold finalized
  omega

theorem finalized_eq_zero (h : n < hold + size) : finalized hold size n = 0 := by
  have none : (n - hold) / size = 0 := by
    rcases Nat.eq_zero_or_pos size with rfl | hsize
    · exact Nat.div_zero _
    · exact Nat.div_eq_of_lt (by omega)
  rw [finalized, none, Nat.zero_mul]

/-- What leaves a buffer later is what has not left it before. -/
theorem finalized_sub (hold size m q : Nat) :
    (m - q * size - hold) / size * size = finalized hold size m - q * size := by
  have swap : m - q * size - hold = m - hold - size * q := by
    rw [Nat.sub_right_comm, Nat.mul_comm]
  rw [swap, Nat.sub_mul_div, Nat.sub_mul, finalized]

theorem finalized_step (hold size : Nat) (h : n ≤ m) :
    finalized hold size n + (m - finalized hold size n - hold) / size * size =
      finalized hold size m := by
  have later := finalized_sub hold size m ((n - hold) / size)
  rw [show (n - hold) / size * size = finalized hold size n from rfl] at later
  rw [later]
  exact Nat.add_sub_cancel' (finalized_mono h)

end SparseEngine.Batches
