import SparseEngine.Lib.Dict

/-! Rows of a buffer handed out by key: a new key takes the last freed row, or the number of keys
when none is free. -/

namespace SparseEngine

open List Dict

structure RowTable (K : Type) where
  rows : Dict K Nat := .empty
  free : List Nat := []

namespace RowTable

variable {K : Type}

section

variable [DecidableEq K]

/-- `rows[k] = free.pop() if free else len(rows)`. -/
def place (t : RowTable K) (k : K) : RowTable K :=
  match t.free.getLast? with
  | some row => ⟨t.rows.set k row, t.free.dropLast⟩
  | none => ⟨t.rows.set k t.rows.size, t.free⟩

/-- A row for `k`, when it has none. -/
def assign (t : RowTable K) (k : K) : RowTable K :=
  if t.rows.contains k then t else t.place k

/-- `row = rows.pop(k, None)`. -/
def drop (t : RowTable K) (k : K) : RowTable K :=
  match t.rows.get? k with
  | some row => ⟨t.rows.erase k, t.free ++ [row]⟩
  | none => t

end

/-- The number of rows. -/
def total (t : RowTable K) : Nat := t.rows.size + t.free.length

structure Packed (t : RowTable K) (size : Nat) : Prop where
  perm : (t.rows.values ++ t.free).Perm (range t.total)
  room : t.total ≤ size

variable {t : RowTable K} {size : Nat} {k a : K} {row : Nat}

/-- The rows in use are distinct and below `size`. -/
structure Exact [DecidableEq K] (t : RowTable K) (size : Nat) : Prop where
  distinct : t.rows.values.Nodup
  exact : (t.rows.values ++ t.free).Perm (range (t.rows.size + t.free.length))
  below : ∀ k row, t.rows.get? k = some row → row < size

theorem packed_empty : Packed ({} : RowTable K) size := ⟨.refl _, Nat.zero_le _⟩

theorem Packed.mono (h : Packed t size) {size' : Nat} (hle : size ≤ size') : Packed t size' :=
  ⟨h.perm, h.room.trans hle⟩

theorem Packed.nodup (h : Packed t size) : t.rows.values.Nodup :=
  (nodup_append.mp (h.perm.nodup_iff.mpr nodup_range)).1

variable [DecidableEq K]

theorem Packed.lt (h : Packed t size) (hget : t.rows.get? k = some row) : row < size := by
  have hmem : row ∈ t.rows.values ++ t.free :=
    mem_append_left _ (mem_values.mpr ⟨k, hget⟩)
  exact (mem_range.mp (h.perm.mem_iff.mp hmem)).trans_le h.room

theorem Packed.exact (h : Packed t size) : Exact t size := ⟨h.nodup, h.perm, fun _ _ => h.lt⟩

/-- Two keys with one row are one key. -/
theorem Packed.inj (h : Packed t size) (hk : t.rows.get? k = some row)
    (ha : t.rows.get? a = some row) : k = a := by
  by_contra hne
  have herase : (t.rows.erase k).get? a = some row := by
    rwa [get?_erase_ne _ (Ne.symm hne)]
  have hnodup := (perm_erase hk).nodup_iff.mp h.nodup
  exact (nodup_cons.mp hnodup).1 (mem_values.mpr ⟨a, herase⟩)

theorem get?_assign_of_some (hget : t.rows.get? a = some row) :
    (t.assign k).rows.get? a = some row := by
  unfold assign
  split
  · exact hget
  · next hk =>
    have hne : a ≠ k := by
      rintro rfl
      exact hk (contains_iff.mpr ⟨row, hget⟩)
    unfold place
    split <;> rwa [get?_set_ne _ _ hne]

theorem exists_get?_assign (t : RowTable K) (k : K) : ∃ row, (t.assign k).rows.get? k = some row := by
  unfold assign
  split
  · next h => exact contains_iff.mp h
  · unfold place
    split <;> exact ⟨_, get?_set_self _ _ _⟩

/-- Rows are made only for keys in use: the total is the old one or the number of keys. -/
theorem Packed.assign (h : Packed t size) (k : K) :
    Packed (t.assign k) (max size (t.assign k).rows.size) := by
  unfold RowTable.assign
  split
  · exact h.mono (le_max_left _ _)
  · next hk =>
    have hnone : t.rows.get? k = none := contains_eq_false.mp (by simpa using hk)
    have hperm := h.perm
    have hroom := h.room
    have hsize := fun row => size_set_new (d := t.rows) row hnone
    unfold place
    split
    · next row hlast =>
      obtain ⟨free, hfree⟩ := getLast?_eq_some_iff.mp hlast
      have htotal : RowTable.total ⟨t.rows.set k row, free⟩ = t.total := by
        simp [total, hsize, hfree]
        omega
      have hvalues : ((t.rows.set k row).values ++ free).Perm (t.rows.values ++ t.free) := by
        rw [hfree, ← append_assoc]
        exact ((perm_set_new row hnone).append_right free).trans
          (perm_append_singleton row _).symm
      rw [hfree, dropLast_concat]
      exact ⟨by rw [htotal]; exact hvalues.trans hperm, by rw [htotal]; omega⟩
    · next hlast =>
      have hfree : t.free = [] := getLast?_eq_none_iff.mp hlast
      have htotal : RowTable.total ⟨t.rows.set k t.rows.size, t.free⟩ = t.rows.size + 1 := by
        simp [total, hsize, hfree]
      refine ⟨?_, by rw [htotal, hsize]; exact le_max_right _ _⟩
      rw [htotal, range_succ]
      have hrows : t.rows.values.Perm (range t.rows.size) := by
        simpa [total, hfree] using hperm
      simp only [hfree, append_nil]
      exact (perm_set_new _ hnone).trans
        ((hrows.cons _).trans (perm_append_singleton _ _).symm)

theorem Packed.drop (h : Packed t size) (k : K) : Packed (t.drop k) size := by
  unfold RowTable.drop
  split
  · next row hget =>
    have htotal : RowTable.total ⟨t.rows.erase k, t.free ++ [row]⟩ = t.total := by
      have hsize := size_erase hget
      simp only [total, length_append, length_singleton]
      omega
    refine ⟨?_, by rw [htotal]; exact h.room⟩
    rw [htotal, ← append_assoc]
    refine (perm_append_singleton row _).trans (Perm.trans ?_ h.perm)
    exact (perm_erase hget).symm.append_right t.free
  · exact h

theorem size_le_assign (t : RowTable K) (k : K) : t.rows.size ≤ (t.assign k).rows.size := by
  unfold assign
  split
  · exact le_refl _
  · next hk =>
    have hnone : t.rows.get? k = none := contains_eq_false.mp (by simpa using hk)
    unfold place
    split <;> exact (size_set_new _ hnone).symm ▸ Nat.le_succ _

theorem size_le_foldl_assign : ∀ (keys : List K) (t : RowTable K),
    t.rows.size ≤ (keys.foldl RowTable.assign t).rows.size
  | [], _ => le_refl _
  | k :: rest, t => (size_le_assign t k).trans (size_le_foldl_assign rest _)

theorem Packed.foldl_assign : ∀ (keys : List K) {t : RowTable K} {size : Nat}, Packed t size →
    Packed (keys.foldl RowTable.assign t) (max size (keys.foldl RowTable.assign t).rows.size)
  | [], _, _, h => h.mono (le_max_left _ _)
  | k :: rest, t, _, h => (foldl_assign rest (h.assign k)).mono (by
      have hle := size_le_foldl_assign rest (t.assign k)
      simp only [foldl_cons]
      omega)

/-- New keys, each once, are placed without being looked up. -/
theorem foldl_place_eq : ∀ (keys : List K) {t : RowTable K}, keys.Nodup →
    (∀ k ∈ keys, t.rows.get? k = none) → keys.foldl place t = keys.foldl RowTable.assign t
  | [], _, _, _ => rfl
  | k :: rest, t, hnodup, hnew => by
    have hk := contains_eq_false.mpr (hnew k mem_cons_self)
    have hassign : t.assign k = t.place k := by simp [RowTable.assign, hk]
    rw [foldl_cons, foldl_cons, hassign]
    refine foldl_place_eq rest (nodup_cons.mp hnodup).2 fun a ha => ?_
    have hne : a ≠ k := fun heq => (nodup_cons.mp hnodup).1 (heq ▸ ha)
    have hold := hnew a (mem_cons_of_mem k ha)
    unfold place
    split <;> rwa [get?_set_ne _ _ hne]

theorem get?_foldl_assign_of_some : ∀ (keys : List K) {t : RowTable K},
    t.rows.get? a = some row → (keys.foldl RowTable.assign t).rows.get? a = some row
  | [], _, h => h
  | _ :: rest, _, h => get?_foldl_assign_of_some rest (get?_assign_of_some h)

theorem exists_get?_foldl_assign : ∀ (keys : List K) (t : RowTable K), k ∈ keys →
    ∃ row, (keys.foldl RowTable.assign t).rows.get? k = some row
  | k' :: rest, t, h => by
    rcases mem_cons.mp h with rfl | h
    · obtain ⟨row, hrow⟩ := exists_get?_assign t k
      exact ⟨row, get?_foldl_assign_of_some rest hrow⟩
    · exact exists_get?_foldl_assign rest _ h

theorem Packed.foldl_drop : ∀ (keys : List K) {t : RowTable K}, Packed t size →
    Packed (keys.foldl RowTable.drop t) size
  | [], _, h => h
  | k :: rest, _, h => foldl_drop rest (h.drop k)

end RowTable

end SparseEngine
