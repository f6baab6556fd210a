import SparseEngine.Lib.Tiles
import Mathlib.Data.List.GetD

/-! `_apply_free_part_slots` compacts one row of a layer, `_compact_uniform_rows_bounded` many rows in
tiles of bounded size. -/

namespace SparseEngine.PageTables

open List Function

/-- One KV layer: `buffer_req_to_token_slots`, `row_seq_lens`, and the stack of free slots, which is
valid below `numFree`. -/
structure LayerTable where
  slots : Nat → Nat → Nat
  rowSeqLens : Nat → Nat
  freeSlots : Nat → Nat
  numFree : Nat

/-- `f[start : start + vals.length] = vals`. -/
def overwrite (f : Nat → Nat) (start : Nat) (vals : List Nat) (i : Nat) : Nat :=
  if start ≤ i then vals.getD (i - start) (f i) else f i

namespace LayerTable

variable (t : LayerTable)

/-- `_append_compaction_free_slots`. -/
def push (dropped : List Nat) : LayerTable :=
  { t with
    freeSlots := overwrite t.freeSlots t.numFree dropped
    numFree := t.numFree + dropped.length }

def setRow (row : Nat) (slots : Nat → Nat) (len : Nat) : LayerTable :=
  { t with
    slots := update t.slots row slots
    rowSeqLens := update t.rowSeqLens row len }

/-- The slots of a row outside `keep`. -/
def dropped (row curLen : Nat) (keep : List Nat) : List Nat :=
  ((range curLen).filter fun c => c ∉ keep).map (t.slots row)

/-- `_apply_free_part_slots`. -/
def applyFreePartSlots (row curLen : Nat) (keep : List Nat) : LayerTable :=
  (t.push (t.dropped row curLen keep)).setRow row
    (overwrite (fun _ => 0) 0 (keep.map (t.slots row))) keep.length

/-- Row by row, the gathered slots are written back with zeros behind them. -/
def writeRows (old : LayerTable) (jobs : List (Nat × List Nat)) : LayerTable :=
  jobs.foldl (fun u e =>
    u.setRow e.1 (overwrite (fun _ => 0) 0 (e.2.map (old.slots e.1))) e.2.length) t

/-- `_compact_uniform_row_tile`. -/
def compactUniformRowTile (curLen : Nat) (jobs : List (Nat × List Nat)) : LayerTable :=
  (t.push (jobs.flatMap fun e => t.dropped e.1 curLen e.2)).writeRows t jobs

/-- The slots that one column tile drops. -/
def droppedTile (row : Nat) (keep : List Nat) (start stop : Nat) : List Nat :=
  let left := searchsorted keep start
  let right := searchsorted keep stop
  ((range' start (stop - start)).filter fun c =>
    c ∉ (keep.drop left).take (right - left)).map (t.slots row)

/-- The first loop of `_compact_single_row_column_tiles`. -/
def pushColumnTiles (tile row curLen : Nat) (keep : List Nat) : LayerTable :=
  (pyRange curLen tile).foldl (fun u start =>
    u.push (t.droppedTile row keep start (min curLen (start + tile)))) t

/-- The second loop: the kept slots move to the front, in place. -/
def rewriteTiles (tile : Nat) (keep : List Nat) (slotRow : Nat → Nat) : Nat → Nat :=
  (pyRange keep.length tile).foldl (fun slotRow start =>
    overwrite slotRow start (((keep.drop start).take tile).map slotRow)) slotRow

/-- `_compact_single_row_column_tiles`. -/
def compactSingleRowColumnTiles (tile row curLen : Nat) (keep : List Nat) : LayerTable :=
  let slotRow := rewriteTiles tile keep (t.slots row)
  (t.pushColumnTiles tile row curLen keep).setRow row
    (fun c => if c < keep.length then slotRow c else 0) keep.length

/-- `_compact_uniform_rows_bounded`. -/
def compactUniformRowsBounded (tile curLen : Nat) (jobs : List (Nat × List Nat)) : LayerTable :=
  if curLen ≤ tile then
    let rowsPerTile := max 1 (tile / max 1 curLen)
    (pyRange jobs.length rowsPerTile).foldl (fun u start =>
      u.compactUniformRowTile curLen ((jobs.drop start).take rowsPerTile)) t
  else
    jobs.foldl (fun u e => u.compactSingleRowColumnTiles tile e.1 curLen e.2) t

/-- The rows one by one. -/
def compactRow (e : Nat × List Nat) : LayerTable := t.applyFreePartSlots e.1 (t.rowSeqLens e.1) e.2

def compactRows (jobs : List (Nat × List Nat)) : LayerTable := jobs.foldl compactRow t

end LayerTable

open LayerTable

variable {t u : LayerTable} {keep : List Nat} {curLen : Nat}

theorem push_push (t : LayerTable) (a b : List Nat) : (t.push a).push b = t.push (a ++ b) := by
  have hslots : overwrite (overwrite t.freeSlots t.numFree a) (t.numFree + a.length) b =
      overwrite t.freeSlots t.numFree (a ++ b) := by
    funext i
    simp only [overwrite]
    by_cases hi : t.numFree ≤ i
    · by_cases hj : t.numFree + a.length ≤ i
      · have hout : a.length ≤ i - t.numFree := by omega
        rw [if_pos hi, if_pos hj, if_pos hi, getD_append_right _ _ _ _ hout,
          getD_eq_default a _ hout, Nat.sub_add_eq]
      · rw [if_neg hj, if_pos hi, if_pos hi, getD_append _ _ _ _ (by omega)]
    · rw [if_neg (by omega), if_neg hi, if_neg hi]
  simp only [push, hslots, length_append, Nat.add_assoc]

theorem push_nil (t : LayerTable) : t.push [] = t := by
  have hslots : overwrite t.freeSlots t.numFree [] = t.freeSlots := by
    funext i
    simp [overwrite]
  simp only [push, hslots, length_nil, Nat.add_zero]

variable {row tile : Nat}

theorem compactRow_other {e : Nat × List Nat} (h : row ≠ e.1) :
    (t.compactRow e).slots row = t.slots row ∧ (t.compactRow e).rowSeqLens row = t.rowSeqLens row :=
  ⟨update_of_ne h _ _, update_of_ne h _ _⟩

theorem compactRows_other : ∀ {jobs : List (Nat × List Nat)} {t : LayerTable},
    row ∉ jobs.map Prod.fst → (t.compactRows jobs).slots row = t.slots row ∧
      (t.compactRows jobs).rowSeqLens row = t.rowSeqLens row
  | [], _, _ => ⟨rfl, rfl⟩
  | e :: jobs, t, h => by
    rw [map_cons, mem_cons, not_or] at h
    have hrest := compactRows_other (t := t.compactRow e) h.2
    have hone := compactRow_other (t := t) h.1
    exact ⟨hrest.1.trans hone.1, hrest.2.trans hone.2⟩

/-- Gathering all rows first and writing them back is compacting them one by one. -/
theorem writeRows_eq : ∀ {jobs : List (Nat × List Nat)} {u : LayerTable},
    (jobs.map Prod.fst).Nodup →
    (∀ e ∈ jobs, u.slots e.1 = t.slots e.1 ∧ u.rowSeqLens e.1 = curLen) →
    (u.push (jobs.flatMap fun e => t.dropped e.1 curLen e.2)).writeRows t jobs = u.compactRows jobs
  | [], u, _, _ => push_nil u
  | e :: jobs, u, hnodup, hsame => by
    rw [map_cons, nodup_cons] at hnodup
    obtain ⟨hslots, hlen⟩ := hsame e mem_cons_self
    have hrow : u.compactRow e = (u.push (t.dropped e.1 curLen e.2)).setRow e.1
        (overwrite (fun _ => 0) 0 (e.2.map (t.slots e.1))) e.2.length := by
      simp only [compactRow, applyFreePartSlots, dropped, hslots, hlen]
    have hrest : ∀ f ∈ jobs, (u.compactRow e).slots f.1 = t.slots f.1 ∧
        (u.compactRow e).rowSeqLens f.1 = curLen := fun f hf => by
      have hne : f.1 ≠ e.1 := fun h => hnodup.1 (h ▸ mem_map_of_mem hf)
      have hother := compactRow_other (t := u) hne
      have hold := hsame f (mem_cons_of_mem e hf)
      exact ⟨hother.1.trans hold.1, hother.2.trans hold.2⟩
    calc (u.push ((e :: jobs).flatMap fun e => t.dropped e.1 curLen e.2)).writeRows t (e :: jobs)
        = (((u.push (t.dropped e.1 curLen e.2)).push
            (jobs.flatMap fun e => t.dropped e.1 curLen e.2)).setRow e.1 _ _).writeRows t jobs := by
          rw [push_push]
          rfl
      _ = ((u.compactRow e).push (jobs.flatMap fun e => t.dropped e.1 curLen e.2)).writeRows t jobs := by
          rw [hrow]
          rfl
      _ = u.compactRows (e :: jobs) := writeRows_eq hnodup.2 hrest

theorem compactUniformRowTile_eq {jobs : List (Nat × List Nat)} (hnodup : (jobs.map Prod.fst).Nodup)
    (hlen : ∀ e ∈ jobs, t.rowSeqLens e.1 = curLen) :
    t.compactUniformRowTile curLen jobs = t.compactRows jobs :=
  writeRows_eq hnodup fun e he => ⟨rfl, hlen e he⟩

theorem pushColumnTiles_eq (htile : 0 < tile) (hsorted : keep.Pairwise (· < ·)) :
    t.pushColumnTiles tile row curLen keep = t.push (t.dropped row curLen keep) := by
  refine foldl_pyRange (P := fun p u => u = t.push (t.dropped row p keep)) htile ?_ ?_
  · exact (push_nil t).symm
  · rintro s _ hs rfl
    have hsplit : range (min curLen (s + tile)) =
        range s ++ range' s (min curLen (s + tile) - s) := by
      have h : range' 0 s ++ range' (0 + s) (min curLen (s + tile) - s) = _ :=
        range'_append_1
      rw [Nat.zero_add, Nat.add_sub_cancel' (by omega)] at h
      rw [range_eq_range', range_eq_range', h]
    rw [push_push, dropped, dropped, droppedTile, hsplit,
      filter_append, map_append]
    congr 3
    refine filter_congr fun c hc => ?_
    rw [mem_range'_1] at hc
    rw [decide_eq_decide, not_iff_not, mem_between hsorted]
    exact ⟨fun h => h.1, fun h => ⟨h, hc.1, by omega⟩⟩

/-- No tile overwrites what a later one reads: an increasing list is above its indices. -/
theorem rewriteTiles_eq (htile : 0 < tile) (hsorted : keep.Pairwise (· < ·)) (slotRow : Nat → Nat) :
    ∀ c, rewriteTiles tile keep slotRow c =
      if c < keep.length then slotRow (keep.getD c 0) else slotRow c := by
  refine foldl_pyRange (P := fun p (f : Nat → Nat) => ∀ c, f c =
    if c < p then slotRow (keep.getD c 0) else slotRow c) htile (fun c => by simp) ?_
  intro s f hs hf c
  rw [overwrite]
  by_cases hsc : s ≤ c
  · rw [if_pos hsc]
    by_cases hc : c < min keep.length (s + tile)
    · have hin : c - s < (((keep.drop s).take tile).map f).length := by
        rw [length_map, length_take, length_drop]
        omega
      have hkeep : keep.getD c 0 = keep[s + (c - s)] := by
        rw [getD_eq_getElem _ _ (by omega)]
        congr 1
        omega
      have hle := le_getElem hsorted (i := s + (c - s)) (by omega)
      rw [if_pos hc, getD_eq_getElem _ _ hin, getElem_map, getElem_take,
        getElem_drop, hf, if_neg (by omega), hkeep]
    · rw [if_neg hc, getD_eq_default, hf, if_neg (by omega)]
      rw [length_map, length_take, length_drop]
      omega
  · rw [if_neg hsc, hf, if_pos (by omega), if_pos (by omega)]

theorem compactSingleRowColumnTiles_eq (htile : 0 < tile) (hsorted : keep.Pairwise (· < ·))
    (hlen : t.rowSeqLens row = curLen) :
    t.compactSingleRowColumnTiles tile row curLen keep = t.compactRow (row, keep) := by
  have hrow : (fun c => if c < keep.length then
      rewriteTiles tile keep (t.slots row) c else 0) =
        overwrite (fun _ => 0) 0 (keep.map (t.slots row)) := by
    funext c
    rw [overwrite, if_pos (Nat.zero_le c), Nat.sub_zero]
    by_cases hc : c < keep.length
    · have hin : c < (keep.map (t.slots row)).length := by simpa using hc
      rw [if_pos hc, rewriteTiles_eq htile hsorted, if_pos hc, getD_eq_getElem _ _ hc,
        getD_eq_getElem _ _ hin, getElem_map]
    · rw [if_neg hc, getD_eq_default _ _ (by simpa using hc)]
  simp only [compactSingleRowColumnTiles, pushColumnTiles_eq htile hsorted, hrow]
  rw [compactRow, hlen, applyFreePartSlots]

/-- Sorted indices of a row of the given length. -/
structure Sorted (curLen : Nat) (keep : List Nat) : Prop where
  increasing : keep.Pairwise (· < ·)
  below : ∀ k ∈ keep, k < curLen

/-- The bounded tiles leave the table that the rows leave one by one. -/
theorem compactUniformRowsBounded_eq {tile : Nat} (htile : 0 < tile) {jobs : List (Nat × List Nat)}
    (hnodup : (jobs.map Prod.fst).Nodup) (hlen : ∀ e ∈ jobs, t.rowSeqLens e.1 = curLen)
    (hsorted : ∀ e ∈ jobs, Sorted curLen e.2) :
    t.compactUniformRowsBounded tile curLen jobs = t.compactRows jobs := by
  rw [compactUniformRowsBounded]
  split
  · have hwhole : t.compactRows jobs = t.compactRows (jobs.take jobs.length) := by
      rw [take_length]
    rw [hwhole]
    refine foldl_pyRange (P := fun p u => u = t.compactRows (jobs.take p)) (by omega) rfl ?_
    rintro s _ hs rfl
    rw [take_tile]
    have hparts := take_append_drop s jobs
    rw [← hparts, map_append] at hnodup
    have htile := (nodup_append.mp hnodup).2.1
    rw [map_drop] at htile
    rw [compactUniformRowTile_eq]
    · exact (foldl_append).symm
    · rw [map_take, map_drop]
      exact htile.sublist (take_sublist _ _)
    · intro e he
      have hdrop := mem_of_mem_take he
      have hother : _ ∧ (t.compactRows (jobs.take s)).rowSeqLens e.1 = t.rowSeqLens e.1 :=
        compactRows_other fun hmem =>
        (nodup_append.mp hnodup).2.2 _ hmem _ (mem_map_of_mem hdrop) rfl
      exact hother.2.trans (hlen e (mem_of_mem_drop hdrop))
  · induction jobs generalizing t with
    | nil => rfl
    | cons e jobs ih =>
      rw [map_cons, nodup_cons] at hnodup
      have hone := compactSingleRowColumnTiles_eq htile (hsorted e mem_cons_self).increasing
        (hlen e mem_cons_self)
      rw [foldl_cons, hone]
      refine ih hnodup.2 (fun f hf => ?_) fun f hf => hsorted f (mem_cons_of_mem e hf)
      have hne : f.1 ≠ e.1 := fun h => hnodup.1 (h ▸ mem_map_of_mem hf)
      exact (compactRow_other hne).2.trans (hlen f (mem_cons_of_mem e hf))

/-- Two rows of four slots in tiles of three columns. -/
theorem compactUniformRowsBounded_eq_two :
    let t : LayerTable := ⟨fun row column => 10 * row + column, fun _ => 4, fun _ => 0, 0⟩
    let jobs := [(0, [1, 3]), (1, [0, 2])]
    (t.compactRows jobs).numFree = 4 ∧ t.compactUniformRowsBounded 3 4 jobs = t.compactRows jobs :=
  ⟨rfl, compactUniformRowsBounded_eq (by decide) (by decide) (fun _ _ => rfl) fun e he => by
    simp only [mem_cons, not_mem_nil, or_false] at he
    rcases he with rfl | rfl <;> exact ⟨by decide, by decide⟩⟩

end SparseEngine.PageTables
