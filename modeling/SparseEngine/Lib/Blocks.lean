import SparseEngine.Lib.Dict

/-! A list cut into blocks of one size leaves a rest that is shorter than a block. -/

namespace SparseEngine.Blocks

variable {α : Type} {size j q : Nat} {xs ys : List α}

/-- The `j`-th block. -/
def block (size : Nat) (xs : List α) (j : Nat) : List α := (xs.drop (j * size)).take size

/-- What is left behind the last full block. -/
def rest (size : Nat) (xs : List α) : List α := xs.drop (xs.length / size * size)

theorem length_rest : (rest size xs).length = xs.length % size := by
  rw [rest, List.length_drop, Nat.mod_eq_sub_div_mul]

theorem block_append (hj : j < xs.length / size) : block size (xs ++ ys) j = block size xs j := by
  have hle : (j + 1) * size ≤ xs.length :=
    (Nat.mul_le_mul_right size hj).trans (Nat.div_mul_le_self _ _)
  rw [Nat.succ_mul] at hle
  rw [block, block, List.drop_append_of_le_length (by omega),
    List.take_append_of_le_length (by rw [List.length_drop]; omega)]

/-- A block in the full part of a list is a block of the list. -/
theorem block_take (hj : j < q) : block size (xs.take (q * size)) j = block size xs j := by
  have hle : (j + 1) * size ≤ q * size := Nat.mul_le_mul_right size hj
  rw [Nat.succ_mul] at hle
  rw [block, block, List.drop_take, List.take_take, Nat.min_eq_left (by omega)]

theorem rest_append_eq : rest size xs ++ ys = (xs ++ ys).drop (xs.length / size * size) := by
  rw [rest, List.drop_append_of_le_length (Nat.div_mul_le_self _ _)]

/-- The blocks that the rest and the new items fill. -/
theorem length_rest_append_div (hsize : 0 < size) :
    (rest size xs ++ ys).length / size = (xs ++ ys).length / size - xs.length / size := by
  rw [List.length_append, length_rest, List.length_append]
  conv_rhs => rw [← Nat.div_add_mod xs.length size, Nat.add_assoc, Nat.mul_add_div hsize]
  rw [Nat.div_add_mod, Nat.add_sub_cancel_left]

theorem block_rest_append : block size (rest size xs ++ ys) q =
    block size (xs ++ ys) (xs.length / size + q) := by
  rw [block, block, rest_append_eq, List.drop_drop, ← Nat.add_mul]

theorem div_le_div_append : xs.length / size ≤ (xs ++ ys).length / size := by
  rw [List.length_append]
  exact Nat.div_le_div_right (Nat.le_add_right _ _)

theorem rest_rest_append (hsize : 0 < size) :
    rest size (rest size xs ++ ys) = rest size (xs ++ ys) := by
  rw [rest, length_rest_append_div hsize, rest_append_eq, List.drop_drop, ← Nat.add_mul,
    Nat.add_sub_cancel' div_le_div_append, rest]

end SparseEngine.Blocks
