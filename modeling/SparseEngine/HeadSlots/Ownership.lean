import SparseEngine.HeadSlots.Allocator
import SparseEngine.Lib.Shares

/-! In every layer the free slots and the live cells of all rows are the slots `0..capacity-1`, each
once. -/

namespace SparseEngine.HeadSlotAllocator

open PyM List

theorem sum_columns (f : Nat → Int) (m n : Nat) :
    ∑ h ∈ Finset.range m, (((List.range n).map fun t => f (t * m + h) : List Int) : Multiset Int) =
      ((List.range (n * m)).map f : List Int) := by
  induction n with
  | zero => simp
  | succ n ih =>
    have hrow : ∑ h ∈ Finset.range m, ({f (n * m + h)} : Multiset Int) =
        ((List.range m).map fun h => f (n * m + h) : List Int) := by
      rw [Finset.sum_eq_multiset_sum, Finset.range_val, Multiset.range, Multiset.map_coe,
        Multiset.sum_coe]
      induction List.range m with
      | nil => rfl
      | cons h l ihl =>
        rw [List.map_cons, List.sum_cons, ihl, List.map_cons]
        rfl
    have hsplit : ∀ h, (((List.range (n + 1)).map fun t => f (t * m + h) : List Int) : Multiset Int) =
        ((List.range n).map fun t => f (t * m + h) : List Int) + {f (n * m + h)} := by
      intro h
      rw [List.range_succ, List.map_append, ← Multiset.coe_add]
      rfl
    simp only [hsplit, Finset.sum_add_distrib]
    rw [ih, hrow, Nat.succ_mul, List.range_add, List.map_append, List.map_map, ← Multiset.coe_add]
    rfl

variable {s s' : HeadSlotAllocator} {sid : Int} {l row r h c : Nat} {pos : List Int}

def liveIds (s : HeadSlotAllocator) (l : Nat) : Multiset Int :=
  ∑ r ∈ Finset.range s.rows, ∑ h ∈ Finset.range s.heads, (s.cells l r h : Multiset Int)

def allIds (s : HeadSlotAllocator) (l : Nat) : Multiset Int :=
  ((List.range (s.capacities.getD l 0)).map Int.ofNat : List Int)

/-- Every id of a layer is free or live once, and every row is free or owned. -/
structure Inv (s : HeadSlotAllocator) : Prop where
  positive : 0 < s.heads ∧ 0 < s.width ∧ 0 < s.layers
  partition : ∀ l < s.layers, (s.freeIds l : Multiset Int) + s.liveIds l = s.allIds l
  freeRows_nodup : s.freeRows.Nodup
  freeRows_lt : ∀ r ∈ s.freeRows, r < s.rows
  owned_lt : ∀ sid r, s.seqRows.get? sid = some r → r < s.rows
  owner : ∀ r < s.rows, r ∈ s.freeRows ↔ ∀ sid, s.seqRows.get? sid ≠ some r
  unique : ∀ sid sid' r, s.seqRows.get? sid = some r → s.seqRows.get? sid' = some r → sid = sid'
  idle : ∀ r ∈ s.freeRows, ∀ l h, s.lengths l r h = 0
  width : ∀ l < s.layers, ∀ r, ∀ h < s.heads, s.lengths l r h ≤ s.width
  blank : ∀ l r h c, s.lengths l r h ≤ c → s.slots l r h c = -1 ∧ s.positions l r h c = -1
  increasing : ∀ l < s.layers, ∀ r, ∀ h < s.heads, (s.livePositions l r h).Pairwise (· < ·)

/-- The dimensions are those of `s`. -/
structure SameShape (s s' : HeadSlotAllocator) : Prop where
  capacities : s'.capacities = s.capacities
  heads : s'.heads = s.heads
  width : s'.width = s.width
  rows : s'.rows = s.rows

theorem SameShape.refl (s : HeadSlotAllocator) : SameShape s s := ⟨rfl, rfl, rfl, rfl⟩

theorem SameShape.trans {s'' : HeadSlotAllocator} (h : SameShape s s') (h' : SameShape s' s'') :
    SameShape s s'' :=
  ⟨h'.capacities.trans h.capacities, h'.heads.trans h.heads, h'.width.trans h.width,
    h'.rows.trans h.rows⟩

theorem SameShape.layers (h : SameShape s s') : s'.layers = s.layers := by
  rw [HeadSlotAllocator.layers, HeadSlotAllocator.layers, h.capacities]

theorem SameShape.allIds (h : SameShape s s') (l : Nat) : s'.allIds l = s.allIds l := by
  rw [HeadSlotAllocator.allIds, HeadSlotAllocator.allIds, h.capacities]

theorem mem_layerHeads {lh : Nat × Nat} :
    lh ∈ s.layerHeads ↔ lh.1 < s.layers ∧ lh.2 < s.heads := by
  rw [layerHeads, product, mem_flatMap]
  constructor
  · rintro ⟨l, hl, hlh⟩
    obtain ⟨h, hh, rfl⟩ := List.mem_map.mp hlh
    exact ⟨List.mem_range.mp hl, List.mem_range.mp hh⟩
  · rintro ⟨hl, hh⟩
    exact ⟨lh.1, List.mem_range.mpr hl, List.mem_map.mpr ⟨lh.2, List.mem_range.mpr hh, rfl⟩⟩

theorem liveIds_row (hshape : SameShape s s') (hrow : row < s.rows)
    (hne : ∀ r ≠ row, ∀ h, s'.cells l r h = s.cells l r h) :
    s'.liveIds l + ∑ h ∈ Finset.range s.heads, (s.cells l row h : Multiset Int) =
      s.liveIds l + ∑ h ∈ Finset.range s.heads, (s'.cells l row h : Multiset Int) := by
  rw [liveIds, liveIds, hshape.rows, hshape.heads]
  exact Shares.sum_update (f := fun r => ∑ h ∈ Finset.range s.heads, (s.cells l r h : Multiset Int))
    (g := fun r => ∑ h ∈ Finset.range s.heads, (s'.cells l r h : Multiset Int))
    (Finset.mem_range.mpr hrow) fun r _ hr => by simp only [hne r hr]

theorem freeIds_pushFree (ids : List Int) :
    (s.pushFree l ids).freeIds l = s.freeIds l ++ ids := by
  rw [freeIds, freeIds, pushFree]
  simp only [if_true, List.range_add, List.map_append, List.map_map]
  congr 1
  · refine List.map_congr_left fun i hi => ?_
    rw [if_neg fun h => absurd (List.mem_range.mp hi) (not_lt.mpr h.2.1)]
  · refine List.ext_getElem (by simp) fun i hi hi' => ?_
    simp [hi']

theorem freeIds_pushFree_ne {l' : Nat} (hl : l' ≠ l) (ids : List Int) :
    (s.pushFree l ids).freeIds l' = s.freeIds l' := by
  simp only [freeIds, pushFree, hl, false_and, if_false]

@[simp] theorem pushFree_cells (ids : List Int) (l' r h : Nat) :
    (s.pushFree l ids).cells l' r h = s.cells l' r h := rfl

theorem writeCells_shape (s : HeadSlotAllocator) (row : Nat) (pos : List Int) :
    SameShape s (s.writeCells row pos) := ⟨rfl, rfl, rfl, rfl⟩

theorem map_range_written {α : Type} (n : Nat) (ys : List α) (new old : Nat → α)
    (hys : ys = (List.range pos.length).map new) :
    ((List.range (n + pos.length)).map fun c =>
      if n ≤ c ∧ c < n + pos.length then new (c - n) else old c) = (List.range n).map old ++ ys := by
  rw [hys, List.range_add, List.map_append, List.map_map]
  congr 1
  · refine List.map_congr_left fun c hc => ?_
    rw [if_neg fun h => absurd (List.mem_range.mp hc) (not_lt.mpr h.1)]
  · refine List.map_congr_left fun t ht => ?_
    have ht := List.mem_range.mp ht
    simp only [Function.comp_apply]
    rw [if_pos ⟨Nat.le_add_right n t, Nat.add_lt_add_left ht n⟩, Nat.add_sub_cancel_left]

theorem cells_writeCells : (s.writeCells row pos).cells l row h =
    s.cells l row h ++ (List.range pos.length).map fun t => s.selectedSlot pos.length l t h := by
  simp only [cells, writeCells, if_true, true_and]
  exact map_range_written _ _ (fun t => s.selectedSlot pos.length l t h) _ rfl

theorem livePositions_writeCells :
    (s.writeCells row pos).livePositions l row h = s.livePositions l row h ++ pos := by
  simp only [livePositions, writeCells, if_true, true_and]
  refine map_range_written _ _ (fun t => pos.getD t 0) _ (List.ext_getElem (by simp) ?_)
  intro t ht ht'
  simp [ht]

theorem cells_writeCells_ne (hr : r ≠ row) : (s.writeCells row pos).cells l r h = s.cells l r h := by
  simp only [cells, writeCells, hr, if_false, false_and]

theorem livePositions_writeCells_ne (hr : r ≠ row) :
    (s.writeCells row pos).livePositions l r h = s.livePositions l r h := by
  simp only [livePositions, writeCells, hr, if_false, false_and]

theorem freeIds_writeCells (row : Nat) (hroom : pos.length * s.heads ≤ s.freeCounts l) :
    s.freeIds l = (s.writeCells row pos).freeIds l ++ (List.range (pos.length * s.heads)).map
      fun i => s.free l (s.freeCounts l - pos.length * s.heads + i) := by
  have hsplit : s.freeCounts l = s.freeCounts l - pos.length * s.heads + pos.length * s.heads :=
    (Nat.sub_add_cancel hroom).symm
  rw [freeIds, hsplit, List.range_add, List.map_append, List.map_map, ← hsplit]
  rfl

theorem partition_writeCells (hroom : pos.length * s.heads ≤ s.freeCounts l) (hrow : row < s.rows) :
    ((s.writeCells row pos).freeIds l : Multiset Int) + (s.writeCells row pos).liveIds l =
      (s.freeIds l : Multiset Int) + s.liveIds l := by
  have hlive := liveIds_row (l := l) (writeCells_shape s row pos) hrow
    fun r hr h => cells_writeCells_ne hr
  simp only [cells_writeCells, ← Multiset.coe_add, Finset.sum_add_distrib] at hlive
  have hcolumns := sum_columns
    (fun i => s.free l (s.freeCounts l - pos.length * s.heads + i)) s.heads pos.length
  simp only [selectedSlot, Nat.add_assoc] at hlive
  rw [hcolumns, ← add_assoc] at hlive
  have hlive' := add_right_cancel (hlive.trans (add_right_comm _ _ _))
  rw [freeIds_writeCells row hroom, ← Multiset.coe_add, hlive']
  abel

/-- The row of `sid` in the next append. -/
def NextRow (s : HeadSlotAllocator) (sid : Int) (row : Nat) : Prop :=
  s.seqRows.get? sid = some row ∨ s.seqRows.get? sid = none ∧ s.freeRows.getLast? = some row

/-- The state after `takeRow`. -/
def withRow (s : HeadSlotAllocator) (sid : Int) (row : Nat) : HeadSlotAllocator :=
  { s with
    seqRows := s.seqRows.set sid row
    freeRows := if s.seqRows.contains sid then s.freeRows else s.freeRows.dropLast }

theorem takeRow_run (h : NextRow s sid row) : takeRow sid row s = (.ok (), s.withRow sid row) := by
  rcases h with h | ⟨h, hlast⟩
  · have hc : s.seqRows.contains sid = true := Dict.contains_iff.mpr ⟨row, h⟩
    simp only [takeRow, bind_run, get_run, hc, if_true, pure_run, withRow, Dict.set_eq_self h]
  · have hc : s.seqRows.contains sid = false := Dict.contains_eq_false.mpr h
    simp [takeRow, bind_run, get_run, hc, hlast, modify_run, raiseIf, withRow]

theorem Inv.withRow (hi : Inv s) (h : NextRow s sid row) : Inv (s.withRow sid row) := by
  rcases h with h | ⟨h, hlast⟩
  · have hsame : s.withRow sid row = s := by
      simp only [HeadSlotAllocator.withRow, Dict.set_eq_self h, Dict.contains_iff.mpr ⟨row, h⟩, if_true]
    rw [hsame]
    exact hi
  · have hc : s.seqRows.contains sid = false := Dict.contains_eq_false.mpr h
    have hfree : s.freeRows = s.freeRows.dropLast ++ [row] := by
      rw [dropLast_append_getLast? row hlast]
    have hmem : row ∈ s.freeRows := mem_of_getLast? hlast
    have hnd := hi.freeRows_nodup
    rw [hfree, nodup_append] at hnd
    have hnot : row ∉ s.freeRows.dropLast := fun hm => hnd.2.2 row hm row (by simp) rfl
    have hsub : ∀ r ∈ s.freeRows.dropLast, r ∈ s.freeRows := fun r hr => mem_of_mem_dropLast hr
    have hrows : (s.withRow sid row).freeRows = s.freeRows.dropLast := by
      simp [HeadSlotAllocator.withRow, hc]
    have hget : ∀ x r, (s.withRow sid row).seqRows.get? x = some r ↔
        (x = sid ∧ r = row) ∨ (x ≠ sid ∧ s.seqRows.get? x = some r) := by
      intro x r
      rw [HeadSlotAllocator.withRow, Dict.get?_set]
      by_cases hx : x = sid
      · simp [hx, eq_comm]
      · simp [hx]
    have howner := hi.owner
    refine ⟨hi.positive, hi.partition, hrows ▸ hnd.1, fun r hr => hi.freeRows_lt r (hsub r (hrows ▸ hr)),
      fun x r hx => ?_, fun r hr => ?_, fun x y r hx hy => ?_,
      fun r hr => hi.idle r (hsub r (hrows ▸ hr)), hi.width, hi.blank, hi.increasing⟩
    · rcases (hget x r).mp hx with ⟨-, rfl⟩ | ⟨-, hx⟩
      · exact hi.freeRows_lt r hmem
      · exact hi.owned_lt x r hx
    · rw [hrows]
      constructor
      · intro hr' x hx
        rcases (hget x r).mp hx with ⟨-, rfl⟩ | ⟨-, hx⟩
        · exact hnot hr'
        · exact (howner r hr).mp (hsub r hr') x hx
      · intro hno
        have hrow : r ≠ row := fun e => hno sid ((hget sid r).mpr (Or.inl ⟨rfl, e⟩))
        have hr' : r ∈ s.freeRows := (howner r hr).mpr fun x hx => by
          by_cases hxs : x = sid
          · rw [hxs, h] at hx
            cases hx
          · exact hno x ((hget x r).mpr (Or.inr ⟨hxs, hx⟩))
        rw [hfree] at hr'
        exact (mem_append.mp hr').resolve_right (by simpa using hrow)
    · have hold : ∀ z, s.seqRows.get? z ≠ some row := (howner row (hi.freeRows_lt row hmem)).mp hmem
      rcases (hget x r).mp hx with ⟨hxs, hr⟩ | ⟨-, hx'⟩ <;>
        rcases (hget y r).mp hy with ⟨hys, hr'⟩ | ⟨-, hy'⟩
      · exact hxs.trans hys.symm
      · exact absurd (hr ▸ hy') (hold y)
      · exact absurd (hr' ▸ hx') (hold x)
      · exact hi.unique x y r hx' hy'

/-- The row has room for `pos`. -/
structure Fits (s : HeadSlotAllocator) (row : Nat) (pos : List Int) : Prop where
  sorted : pos.Pairwise (· < ·)
  width : ∀ l < s.layers, ∀ h < s.heads, s.lengths l row h + pos.length ≤ s.width
  after : ∀ l < s.layers, ∀ h < s.heads, ∀ p ∈ s.livePositions l row h, ∀ q ∈ pos, p < q

/-- Every layer has `n` free slots. -/
def HasRoom (s : HeadSlotAllocator) (n : Nat) : Prop := ∀ l < s.layers, n ≤ s.freeCounts l

theorem Inv.writeCells (hi : Inv s) (hsid : s.seqRows.get? sid = some row) (hfit : Fits s row pos)
    (hroom : HasRoom s (pos.length * s.heads)) : Inv (s.writeCells row pos) := by
  have hrow := hi.owned_lt sid row hsid
  refine ⟨hi.positive, fun l hl => ?_, hi.freeRows_nodup, hi.freeRows_lt, hi.owned_lt, hi.owner,
    hi.unique, fun r hr l h => ?_, fun l hl r h hh => ?_, fun l r h c hc => ?_, fun l hl r h hh => ?_⟩
  · rw [partition_writeCells (hroom l hl) hrow]
    exact hi.partition l hl
  · have hne : r ≠ row := by
      rintro rfl
      exact (hi.owner r hrow).mp hr sid hsid
    rw [HeadSlotAllocator.writeCells]
    simp only [hne, if_false]
    exact hi.idle r hr l h
  · simp only [HeadSlotAllocator.writeCells]
    split
    · next hr => exact hr ▸ hfit.width l hl h hh
    · exact hi.width l hl r h hh
  · simp only [HeadSlotAllocator.writeCells] at hc ⊢
    by_cases hr : r = row
    · rw [if_pos hr] at hc
      rw [if_neg fun h => absurd h.2.2 (not_lt.mpr hc), if_neg fun h => absurd h.2.2 (not_lt.mpr hc)]
      exact hi.blank l r h c (le_trans (Nat.le_add_right _ _) hc)
    · rw [if_neg hr] at hc
      rw [if_neg fun h => hr h.1, if_neg fun h => hr h.1]
      exact hi.blank l r h c hc
  · by_cases hr : r = row
    · rw [hr, livePositions_writeCells]
      exact pairwise_append.mpr ⟨hi.increasing l hl row h hh, hfit.sorted, hfit.after l hl h hh⟩
    · rw [livePositions_writeCells_ne hr]
      exact hi.increasing l hl r h hh

theorem appendOne_spec (hi : Inv s) (hnext : NextRow s sid row) (hfit : Fits s row pos)
    (hroom : HasRoom s (pos.length * s.heads)) :
    ∃ writes, appendOne sid row pos s = (.ok writes, (s.withRow sid row).writeCells row pos) ∧
      Inv ((s.withRow sid row).writeCells row pos) := by
  have hreshape : ((List.range s.layers).any fun l =>
      decide (s.freeCounts l < pos.length * s.heads)) = false := by
    rw [List.any_eq_false]
    exact fun l hl => by simpa using hroom l (List.mem_range.mp hl)
  have hbounds : (s.layerHeads.any fun lh =>
      decide (s.width < s.lengths lh.1 row lh.2 + pos.length)) = false := by
    rw [List.any_eq_false]
    rintro lh hlh
    obtain ⟨hl, hh⟩ := mem_layerHeads.mp hlh
    simpa using hfit.width lh.1 hl lh.2 hh
  have hsid : (s.withRow sid row).seqRows.get? sid = some row := Dict.get?_set_self _ _ _
  refine ⟨(List.range pos.length).map fun t l h =>
    (s.selectedSlot pos.length l t h, s.lengths l row h + t), ?_,
    (hi.withRow hnext).writeCells hsid ⟨hfit.sorted, hfit.width, hfit.after⟩ hroom⟩
  have hreshape' : ((List.range (s.withRow sid row).layers).any fun l =>
      decide ((s.withRow sid row).freeCounts l < pos.length * (s.withRow sid row).heads)) = false :=
    hreshape
  have hbounds' : ((s.withRow sid row).layerHeads.any fun lh => decide ((s.withRow sid row).width <
      (s.withRow sid row).lengths lh.1 row lh.2 + pos.length)) = false := hbounds
  simp only [appendOne, bind_run, takeRow_run hnext, get_run, raiseIf, hreshape', hbounds',
    Bool.false_eq_true, if_false, modify_run, pure_run]
  rfl

section

variable {d : Dict Int Nat} {x : Int} {ids : List Int} {next : List Nat}

theorem assignRows_known (h : d.get? x = some r) :
    assignRows d (x :: ids) next = r :: assignRows d ids next := by
  simp only [assignRows, h]

theorem assignRows_new (h : d.get? x = none) :
    assignRows d (x :: ids) (r :: next) = r :: assignRows d ids next := by
  simp only [assignRows, h]

theorem assignRows_short (h : d.get? x = none) : assignRows d (x :: ids) [] = [] := by
  simp only [assignRows, h]

theorem assignRows_set (next : List Nat) (h : sid ∉ ids) :
    assignRows (d.set sid row) ids next = assignRows d ids next := by
  induction ids generalizing next with
  | nil => rfl
  | cons x ids ih =>
    have hx : (d.set sid row).get? x = d.get? x :=
      Dict.get?_set_ne _ _ fun e => h (e ▸ List.mem_cons_self)
    have ih := fun next => ih next fun hm => h (mem_cons_of_mem x hm)
    cases hget : d.get? x with
    | some r => rw [assignRows_known hget, assignRows_known (hx.trans hget), ih]
    | none =>
      cases next with
      | nil => rw [assignRows_short hget, assignRows_short (hx.trans hget)]
      | cons r next => rw [assignRows_new hget, assignRows_new (hx.trans hget), ih]

theorem mem_assignRows (h : r ∈ assignRows d ids next) :
    (∃ x ∈ ids, d.get? x = some r) ∨ r ∈ next := by
  induction ids generalizing next with
  | nil => simp [assignRows] at h
  | cons x ids ih =>
    cases hget : d.get? x with
    | some r' =>
      rw [assignRows_known hget] at h
      rcases mem_cons.mp h with rfl | h
      · exact Or.inl ⟨x, List.mem_cons_self, hget⟩
      · exact (ih h).imp_left fun ⟨y, hy, hd⟩ => ⟨y, mem_cons_of_mem x hy, hd⟩
    | none =>
      cases next with
      | nil =>
        rw [assignRows_short hget] at h
        simp at h
      | cons r' next =>
        rw [assignRows_new hget] at h
        rcases mem_cons.mp h with rfl | h
        · exact Or.inr List.mem_cons_self
        · rcases ih h with ⟨y, hy, hd⟩ | h
          · exact Or.inl ⟨y, mem_cons_of_mem x hy, hd⟩
          · exact Or.inr (mem_cons_of_mem r' h)

end

structure Batch (s : HeadSlotAllocator) (batch : List (Int × Nat × List Int)) : Prop where
  distinct : (batch.map (·.1)).Nodup
  rows : batch.map (·.2.1) = assignRows s.seqRows (batch.map (·.1)) s.freeRows.reverse
  enough : (batch.map (·.1)).countP (fun sid => !s.seqRows.contains sid) ≤ s.freeRows.length
  fits : ∀ e ∈ batch, Fits s e.2.1 e.2.2
  room : HasRoom s (s.slotsNeeded (batch.map (·.2.2)))

variable {rest : List (Int × Nat × List Int)}

theorem slotsNeeded_cons (positions : List (List Int)) :
    s.slotsNeeded (pos :: positions) = pos.length * s.heads + s.slotsNeeded positions := by
  rw [slotsNeeded, slotsNeeded, List.map_cons, List.sum_cons, Nat.mul_add, Nat.mul_comm]

theorem Batch.next (h : Batch s ((sid, row, pos) :: rest)) :
    NextRow s sid row ∧ rest.map (·.2.1) = assignRows (s.withRow sid row).seqRows (rest.map (·.1))
        (s.withRow sid row).freeRows.reverse ∧
      (rest.map (·.1)).countP (fun sid' => !(s.withRow sid row).seqRows.contains sid') ≤
        (s.withRow sid row).freeRows.length := by
  obtain ⟨hsid, -⟩ := List.nodup_cons.mp h.distinct
  have hrows := h.rows
  have henough := h.enough
  rw [List.map_cons, List.map_cons] at hrows
  rw [List.map_cons, List.countP_cons] at henough
  have hcount : (rest.map (·.1)).countP (fun x => !(s.withRow sid row).seqRows.contains x) =
      (rest.map (·.1)).countP fun x => !s.seqRows.contains x := by
    refine List.countP_congr fun x hx => ?_
    have hxs : x ≠ sid := fun e => hsid (e ▸ hx)
    simp only [withRow, Dict.contains, Dict.get?_set_ne _ _ hxs]
  rw [hcount, show (s.withRow sid row).seqRows = s.seqRows.set sid row from rfl, assignRows_set _ hsid]
  cases hget : s.seqRows.get? sid with
  | some row' =>
    have hc : s.seqRows.contains sid = true := Dict.contains_iff.mpr ⟨row', hget⟩
    have hfree : (s.withRow sid row).freeRows = s.freeRows := by rw [withRow, hc]; rfl
    rw [assignRows_known hget] at hrows
    obtain ⟨rfl, hrest⟩ := List.cons.inj hrows
    rw [hfree]
    exact ⟨Or.inl hget, hrest, le_trans (Nat.le_add_right _ _) henough⟩
  | none =>
    have hc : s.seqRows.contains sid = false := Dict.contains_eq_false.mpr hget
    have hfree : (s.withRow sid row).freeRows = s.freeRows.dropLast := by rw [withRow, hc]; rfl
    rw [hc, Bool.not_false, if_pos rfl] at henough
    rcases eq_nil_or_concat s.freeRows with hnil | ⟨free, top, htop⟩
    · rw [hnil] at henough
      simp at henough
    · rw [concat_eq_append] at htop
      rw [htop, reverse_append, reverse_singleton, singleton_append,
        assignRows_new hget] at hrows
      obtain ⟨rfl, hrest⟩ := List.cons.inj hrows
      rw [hfree, htop, dropLast_concat]
      refine ⟨Or.inr ⟨hget, by rw [htop]; simp⟩, hrest, ?_⟩
      rw [htop, length_append, length_singleton] at henough
      exact Nat.le_of_add_le_add_right henough

theorem Batch.step (hi : Inv s) (h : Batch s ((sid, row, pos) :: rest)) :
    Batch ((s.withRow sid row).writeCells row pos) rest := by
  obtain ⟨hnext, hrows, henough⟩ := h.next
  obtain ⟨hsid, hdistinct⟩ := List.nodup_cons.mp h.distinct
  have hi' := hi.withRow hnext
  have hown : (s.withRow sid row).seqRows.get? sid = some row := Dict.get?_set_self _ _ _
  refine ⟨hdistinct, hrows, henough, fun e he => ?_, fun l hl => ?_⟩
  · -- The rows of a batch are distinct, so the rest is where it was.
    have hne : e.2.1 ≠ row := by
      intro hrow
      have hmem : row ∈ rest.map (·.2.1) := List.mem_map.mpr ⟨e, he, hrow⟩
      rw [hrows] at hmem
      rcases mem_assignRows hmem with ⟨x, hx, hget⟩ | hfree
      · exact hsid (hi'.unique x sid row hget hown ▸ hx)
      · exact (hi'.owner row (hi'.owned_lt sid row hown)).mp (mem_reverse.mp hfree) sid hown
    have hfit := h.fits e (mem_cons_of_mem _ he)
    refine ⟨hfit.sorted, fun l hl h hh => ?_, fun l hl h hh => ?_⟩
    · have hlen : ((s.withRow sid row).writeCells row pos).lengths l e.2.1 h = s.lengths l e.2.1 h := by
        simp only [HeadSlotAllocator.writeCells, hne, if_false]
        rfl
      rw [hlen]
      exact hfit.width l hl h hh
    · rw [livePositions_writeCells_ne hne]
      exact hfit.after l hl h hh
  · have hroom := h.room l hl
    rw [List.map_cons, slotsNeeded_cons] at hroom
    exact Nat.le_sub_of_add_le' hroom

theorem appendLoop_spec : ∀ (batch : List (Int × Nat × List Int)) (writes : AppendWrites)
    (s : HeadSlotAllocator), Inv s → Batch s batch →
    ∃ writes' s', appendLoop batch writes s = (.ok writes', s') ∧ Inv s' ∧ SameShape s s' ∧
      s'.generation = s.generation
  | [], writes, s, hi, _ => ⟨writes, s, rfl, hi, .refl s, rfl⟩
  | (sid, row, pos) :: rest, writes, s, hi, h => by
    have hroom : HasRoom s (pos.length * s.heads) := fun l hl => by
      have := h.room l hl
      rw [List.map_cons, slotsNeeded_cons] at this
      exact le_trans (Nat.le_add_right _ _) this
    obtain ⟨new, hrun, hi'⟩ := appendOne_spec hi h.next.1 (h.fits _ List.mem_cons_self) hroom
    obtain ⟨writes', s', hloop, hi'', hshape, hgen⟩ := appendLoop_spec rest (writes ++ new) _ hi'
      (h.step hi)
    refine ⟨writes', s', ?_, hi'', { hshape with }, hgen⟩
    rw [appendLoop, bind_run, hrun]
    exact hloop

end SparseEngine.HeadSlotAllocator
