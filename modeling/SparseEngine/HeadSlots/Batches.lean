import SparseEngine.HeadSlots.Runs

/-! What the cache managers of head slots share: the batches of `_append`, and how the slots of a
layer divide into free and live ones. -/

namespace SparseEngine.HeadSlotAllocator

open PyM List Dict Option

variable {s s' : HeadSlotAllocator} {sid : Int} {l row : Nat} {batch : List (Int × Nat × Nat)}

/-- The positions of `n` tokens from `start` on. -/
def positionsFrom (start n : Nat) : List Int := (List.range n).map fun i => ((start + i : Nat) : Int)

/-- The requests of `_append`. -/
def requestsOf (batch : List (Int × Nat × Nat)) : List (Int × List Int) :=
  batch.map fun b => (b.1, positionsFrom b.2.1 b.2.2)

theorem inv_generation (hi : Inv s) (n : Nat) :
    Inv { s with generation := n } :=
  { hi with }

/-- A plan of `_append`. -/
def planned (s : HeadSlotAllocator) (batch : List (Int × Nat × Nat)) : List (Int × Nat × List Int) :=
  ((requestsOf batch).map Prod.fst).zip ((assignRows s.seqRows ((requestsOf batch).map Prod.fst)
    s.freeRows.reverse).zip ((requestsOf batch).map Prod.snd))

theorem map_requestsOf : (requestsOf batch).map Prod.fst = batch.map Prod.fst ∧
    (requestsOf batch).map Prod.snd = batch.map fun b => positionsFrom b.2.1 b.2.2 := by
  rw [requestsOf, List.map_map, List.map_map]
  exact ⟨rfl, rfl⟩

theorem map_planned (h : Plannable s (requestsOf batch)) :
    (planned s batch).map (·.1) = batch.map Prod.fst ∧
      (planned s batch).map (·.2.2) = batch.map fun b => positionsFrom b.2.1 b.2.2 := by
  rw [← map_requestsOf.1, ← map_requestsOf.2]
  have hrows : (assignRows s.seqRows ((requestsOf batch).map Prod.fst) s.freeRows.reverse).length =
      ((requestsOf batch).map Prod.fst).length :=
    length_assignRows (by rw [length_reverse]; exact h.enough)
  have hpositions : ((requestsOf batch).map Prod.snd).length = ((requestsOf batch).map Prod.fst).length := by
    rw [List.length_map, List.length_map]
  have hsnd : (planned s batch).map (·.2) = (assignRows s.seqRows ((requestsOf batch).map Prod.fst)
      s.freeRows.reverse).zip ((requestsOf batch).map Prod.snd) :=
    List.map_snd_zip (by rw [length_zip, hrows, hpositions, min_self])
  refine ⟨map_fst_zip (by rw [length_zip, hrows, hpositions, min_self]), ?_⟩
  have := congrArg (List.map Prod.snd) hsnd
  rw [List.map_map, List.map_snd_zip (by rw [hrows, hpositions])] at this
  exact this

def tokensOf (batch : List (Int × Nat × Nat)) (sid : Int) : Nat :=
  match batch.find? fun b => b.1 = sid with
  | none => 0
  | some b => b.2.2

theorem tokensOf_mem : ∀ {batch : List (Int × Nat × Nat)}, (batch.map Prod.fst).Nodup →
    ∀ b ∈ batch, b.2.2 = tokensOf batch b.1
  | [], _ => by simp
  | b :: batch, hnd => by
    rw [List.map_cons, List.nodup_cons] at hnd
    rw [List.forall_mem_cons]
    refine ⟨by simp [tokensOf], fun b' hb' => ?_⟩
    have hne : b.1 ≠ b'.1 := fun he => hnd.1 (he ▸ List.mem_map_of_mem hb')
    rw [tokensOf_mem hnd.2 b' hb', tokensOf, tokensOf, find?_cons_of_neg (by simpa using hne)]

theorem compactHeads_free {l l' : Nat} (rest : List (List Nat)) : ∀ (h count : Nat)
    (s : HeadSlotAllocator), (compactHeads l row h rest count s).1.freeRows = s.freeRows ∧
      s.freeCounts l' ≤ (compactHeads l row h rest count s).1.freeCounts l' := by
  induction rest with
  | nil => exact fun _ _ s => ⟨rfl, le_rfl⟩
  | cons indices rest ih =>
    intro h count s
    obtain ⟨hrows, hcounts⟩ := ih (h + 1) (count + (s.discarded l row h indices).length)
      (s.compactHead l row h indices)
    refine ⟨hrows, le_trans ?_ hcounts⟩
    change s.freeCounts l' ≤ if l' = l then _ else _
    split
    · next hl =>
      rw [hl]
      exact Nat.le_add_right _ _
    · exact le_rfl

theorem compactLayers_free {l' : Nat} (rest : List (List (List Nat))) : ∀ (l : Nat)
    (released : List Nat) (s : HeadSlotAllocator),
    (compactLayers row l rest released s).1.freeRows = s.freeRows ∧
      s.freeCounts l' ≤ (compactLayers row l rest released s).1.freeCounts l' := by
  induction rest with
  | nil => exact fun _ _ s => ⟨rfl, le_rfl⟩
  | cons heads rest ih =>
    intro l released s
    obtain ⟨hrows₁, hcounts₁⟩ := @compactHeads_free row l l' heads 0 0 s
    obtain ⟨hrows, hcounts⟩ := ih (l + 1) (released ++ [(compactHeads l row 0 heads 0 s).2])
      (compactHeads l row 0 heads 0 s).1
    exact ⟨hrows.trans hrows₁, hcounts₁.trans hcounts⟩

theorem compact_free {selections : List (List (Option (List Int)))} {released : List Nat}
    (hrun : compact sid selections s = (.ok released, s')) :
    s'.freeRows = s.freeRows ∧ ∀ l, s.freeCounts l ≤ s'.freeCounts l := by
  cases hsel : s.validateSelection sid selections with
  | error e => simp only [compact, bind_run, get_run, lift_run, hsel, Prod.mk.injEq, reduceCtorEq,
      false_and] at hrun
  | ok row =>
    simp only [compact, bind_run, get_run, lift_run, hsel, modify_run, pure_run, Prod.mk.injEq] at hrun
    obtain ⟨-, rfl⟩ := hrun
    exact ⟨(@compactLayers_free row 0 (indicesOf selections) 0 [] s).1,
      fun l => (@compactLayers_free row l (indicesOf selections) 0 [] s).2⟩

theorem lengths_eq (s : HeadSlotAllocator) (l r h : Nat) : s.lengths l r h = (s.livePairs l r h).length := by
  rw [livePairs, List.length_map, List.length_range]

theorem card_freeIds (s : HeadSlotAllocator) (l : Nat) :
    (s.freeIds l : Multiset Int).card = s.freeCounts l := by
  rw [Multiset.coe_card, HeadSlotAllocator.freeIds, List.length_map, List.length_range]

theorem Inv.conserved (hi : Inv s) (hl : l < s.layers) :
    s.freeCounts l + ∑ r ∈ Finset.range s.rows, ∑ h ∈ Finset.range s.heads, s.lengths l r h =
      s.capacities.getD l 0 := by
  have hcard := congrArg Multiset.card (hi.partition l hl)
  rw [Multiset.card_add, card_freeIds, liveIds, Multiset.card_sum, allIds, Multiset.coe_card,
    List.length_map, List.length_range] at hcard
  rw [← hcard]
  congr 1
  refine Finset.sum_congr rfl fun r _ => ?_
  rw [Multiset.card_sum]
  refine Finset.sum_congr rfl fun h _ => ?_
  rw [Multiset.coe_card, cells, List.length_map, List.length_range]

theorem Inv.conserved_row (hi : Inv s) (hi' : Inv s') (hshape : SameShape s s') (hl : l < s.layers)
    (hrow : row < s.rows) (hne : ∀ r ≠ row, ∀ h, s'.lengths l r h = s.lengths l r h) :
    s'.freeCounts l + ∑ h ∈ Finset.range s.heads, s'.lengths l row h =
      s.freeCounts l + ∑ h ∈ Finset.range s.heads, s.lengths l row h := by
  have hold := hi.conserved hl
  have hnew := hi'.conserved (hshape.layers ▸ hl)
  rw [hshape.rows, hshape.heads, hshape.capacities] at hnew
  have hsum := @Shares.sum_update _ _ _ (Finset.range s.rows)
    (fun r => ∑ h ∈ Finset.range s.heads, s.lengths l r h)
    (fun r => ∑ h ∈ Finset.range s.heads, s'.lengths l r h) row (Finset.mem_range.mpr hrow)
    fun r _ hr => by simp only [hne r hr]
  omega

def headLength (s : HeadSlotAllocator) (sid : Int) (l h : Nat) : Nat :=
  match s.seqRows.get? sid with
  | none => 0
  | some row => s.lengths l row h

/-- `chain_physical_residency`. -/
def residency (s : HeadSlotAllocator) (sid : Int) (l : Nat) : Nat :=
  ∑ h ∈ Finset.range s.heads, s.headLength sid l h

theorem headLength_row (hrow : s.seqRows.get? sid = some row) (l h : Nat) :
    s.headLength sid l h = s.lengths l row h := by
  rw [headLength, hrow]

theorem headLength_unknown (hsid : s.seqRows.get? sid = none) (l h : Nat) :
    s.headLength sid l h = 0 := by
  rw [headLength, hsid]

theorem residency_congr (hheads : s'.heads = s.heads)
    (h : ∀ h < s.heads, s'.headLength sid l h = s.headLength sid l h) :
    s'.residency sid l = s.residency sid l := by
  rw [residency, residency, hheads]
  exact Finset.sum_congr rfl fun k hk => h k (Finset.mem_range.mp hk)

theorem headLength_step {pos : List Int} (hi : Inv s) (hnext : NextRow s sid row) :
    (∀ l h, ((s.withRow sid row).writeCells row pos).headLength sid l h =
        s.headLength sid l h + pos.length) ∧
      ∀ x ≠ sid, ((s.withRow sid row).writeCells row pos).seqRows.get? x = s.seqRows.get? x ∧
        ∀ l h, ((s.withRow sid row).writeCells row pos).headLength x l h = s.headLength x l h := by
  have hown : ((s.withRow sid row).writeCells row pos).seqRows.get? sid = some row :=
    get?_set_self _ _ _
  have hother : ∀ x ≠ sid, ((s.withRow sid row).writeCells row pos).seqRows.get? x =
      s.seqRows.get? x := fun x hx => get?_set_ne _ _ hx
  have hwritten : ∀ l h, ((s.withRow sid row).writeCells row pos).lengths l row h =
      s.lengths l row h + pos.length := fun l h => if_pos rfl
  refine ⟨fun l h => ?_, fun x hx => ⟨hother x hx, fun l h => ?_⟩⟩
  · rw [headLength_row hown, hwritten]
    rcases hnext with hrow | ⟨hnone, hlast⟩
    · rw [headLength_row hrow]
    · rw [headLength_unknown hnone, hi.idle row (mem_of_getLast? hlast)]
  · cases hget : s.seqRows.get? x with
    | none => rw [headLength_unknown hget, headLength_unknown ((hother x hx).trans hget)]
    | some r =>
      rw [headLength_row hget, headLength_row ((hother x hx).trans hget)]
      have hne : r ≠ row := by
        rintro rfl
        exact hx ((hi.withRow hnext).unique x sid r ((hother x hx).trans hget) hown)
      exact if_neg hne

structure Appended (s s' : HeadSlotAllocator) (ids : List Int) (count : Int → Nat) (total : Nat) :
    Prop where
  inv : Inv s'
  shape : SameShape s s'
  known : ∀ x ∈ ids, s'.seqRows.contains x = true
  longer : ∀ x ∈ ids, ∀ l h, s'.headLength x l h = s.headLength x l h + count x
  others : ∀ x ∉ ids, s'.seqRows.get? x = s.seqRows.get? x ∧
    ∀ l h, s'.headLength x l h = s.headLength x l h
  slots : ∀ l < s.layers, s'.freeCounts l + total * s.heads = s.freeCounts l
  rows : s'.freeRows.length + ids.countP (fun x => !s.seqRows.contains x) = s.freeRows.length

theorem appendLoop_appended {count : Int → Nat} : ∀ (batch : List (Int × Nat × List Int))
    (writes : AppendWrites) (s : HeadSlotAllocator), Inv s → Batch s batch →
    (∀ e ∈ batch, e.2.2.length = count e.1) →
    ∃ writes' s', appendLoop batch writes s = (.ok writes', s') ∧
      Appended s s' (batch.map (·.1)) count (batch.map fun e => e.2.2.length).sum
  | [], writes, s, hi, _, _ =>
    ⟨writes, s, rfl, hi, .refl s, by simp, by simp, fun _ _ => ⟨rfl, fun _ _ => rfl⟩, by simp, by simp⟩
  | (sid, row, pos) :: rest, writes, s, hi, h, hcount => by
    have hroom : ∀ l < s.layers, pos.length * s.heads ≤ s.freeCounts l := fun l hl => by
      have := h.room l hl
      rw [List.map_cons, slotsNeeded_cons] at this
      exact le_trans (Nat.le_add_right _ _) this
    obtain ⟨new, hrun, hi'⟩ := appendOne_spec hi h.next.1 (h.fits _ List.mem_cons_self) hroom
    obtain ⟨writes', s', hloop, ha⟩ := appendLoop_appended rest (writes ++ new) _ hi' (h.step hi)
      fun e he => hcount e (mem_cons_of_mem _ he)
    obtain ⟨hself, hother⟩ := @headLength_step s sid row pos hi h.next.1
    obtain ⟨hsid, -⟩ := List.nodup_cons.mp h.distinct
    have hpos : pos.length = count sid := hcount _ List.mem_cons_self
    have hne : ∀ x ∈ rest.map (·.1), x ≠ sid := fun x hx he => hsid (he ▸ hx)
    refine ⟨writes', s', ?_, ha.inv, ⟨ha.shape.capacities, ha.shape.heads, ha.shape.width, ha.shape.rows⟩,
      List.forall_mem_cons.mpr ⟨?_, ha.known⟩, List.forall_mem_cons.mpr ⟨fun l k => ?_,
      fun x hx l k => ?_⟩, fun x hx => ?_, fun l hl => ?_, ?_⟩
    · rw [appendLoop, bind_run, hrun]
      exact hloop
    · refine contains_iff.mpr ⟨row, ?_⟩
      rw [(ha.others sid hsid).1]
      exact get?_set_self _ _ _
    · rw [(ha.others sid hsid).2, hself, hpos]
    · rw [ha.longer x hx, (hother x (hne x hx)).2]
    · rw [List.map_cons, List.mem_cons, not_or] at hx
      exact ⟨(ha.others x hx.2).1.trans (hother x hx.1).1, fun l k =>
        ((ha.others x hx.2).2 l k).trans ((hother x hx.1).2 l k)⟩
    · have hrest : s'.freeCounts l + (rest.map fun e => e.2.2.length).sum * s.heads =
          s.freeCounts l - pos.length * s.heads := ha.slots l hl
      have := hroom l hl
      rw [List.map_cons, List.sum_cons, Nat.add_mul]
      dsimp only
      omega
    · have hrest := ha.rows
      have hcongr : (rest.map (·.1)).countP
          (fun x => !((s.withRow sid row).writeCells row pos).seqRows.contains x) =
          (rest.map (·.1)).countP fun x => !s.seqRows.contains x := by
        refine List.countP_congr fun x hx => ?_
        simp only [Dict.contains, (hother x (hne x hx)).1]
      rw [hcongr] at hrest
      rw [List.map_cons, List.countP_cons]
      have hfree : ((s.withRow sid row).writeCells row pos).freeRows =
          if s.seqRows.contains sid then s.freeRows else s.freeRows.dropLast := rfl
      rw [hfree] at hrest
      rcases h.next.1 with hrow | ⟨hnone, hlast⟩
      · have hc : s.seqRows.contains sid = true := contains_iff.mpr ⟨row, hrow⟩
        simpa [hc] using hrest
      · have hc : s.seqRows.contains sid = false := contains_eq_false.mpr hnone
        have hpos : 0 < s.freeRows.length :=
          length_pos_of_mem (mem_of_getLast? hlast)
        simp only [hc, Bool.false_eq_true, if_false, length_dropLast] at hrest
        simp only [hc, Bool.not_false, if_true]
        omega

theorem planned_appended {count : Int → Nat} (hi : Inv s) (h : Plannable s (requestsOf batch))
    (hcount : ∀ b ∈ batch, b.2.2 = count b.1) :
    ∃ writes s', appendLoop (planned s batch) [] s = (.ok writes, s') ∧
      Appended s s' (batch.map Prod.fst) count (batch.map fun b => b.2.2).sum := by
  obtain ⟨hfst, hsnd⟩ := map_planned h
  have hlengths : (planned s batch).map (fun e => e.2.2.length) = batch.map fun b => b.2.2 := by
    have := congrArg (List.map List.length) hsnd
    rw [List.map_map, List.map_map] at this
    refine this.trans (List.map_congr_left fun b _ => ?_)
    simp only [Function.comp_apply, positionsFrom, List.length_map, List.length_range]
  have hcount' : ∀ e ∈ planned s batch, e.2.2.length = count e.1 := by
    intro e he
    obtain ⟨i, hi⟩ := mem_iff_getElem?.mp he
    have h1 := congrArg (·[i]?) hfst
    have h2 := congrArg (·[i]?) hlengths
    simp only [getElem?_map, hi, map_some] at h1 h2
    obtain ⟨b, hb, hb1⟩ := map_eq_some_iff.mp h1.symm
    rw [hb, map_some, some_inj] at h2
    rw [h2, hcount b (mem_of_getElem? hb), hb1]
  have happended := appendLoop_appended (planned s batch) [] s hi (h.batch hi) hcount'
  rwa [hfst, hlengths] at happended

theorem applyAppend_appended {count : Int → Nat} (hi : Inv s) {plan : HeadAppendPlan}
    (hplan : s.planAppend (requestsOf batch) = .ok plan) (hcount : ∀ b ∈ batch, b.2.2 = count b.1) :
    ∃ writes s', applyAppend plan s = (.ok writes, s') ∧
      Appended s s' (batch.map Prod.fst) count (batch.map fun b => b.2.2).sum := by
  obtain ⟨hplannable, rfl⟩ := planAppend_iff.mp hplan
  obtain ⟨writes, s₁, hrun, ha⟩ := planned_appended hi hplannable hcount
  rw [planned] at hrun
  refine ⟨writes, { s₁ with generation := s₁.generation + 1 }, ?_, inv_generation ha.inv _,
    ⟨ha.shape.capacities, ha.shape.heads, ha.shape.width, ha.shape.rows⟩, ha.known, ha.longer, ha.others,
    ha.slots, ha.rows⟩
  simp only [applyAppend, bind_run, get_run, raiseIf, ne_eq, not_true_eq_false, if_false, hrun,
    modify_run, pure_run]

theorem compact_residency {selections : List (List (Option (List Int)))} {released : List Nat}
    (hi : Inv s) (hrun : compact sid selections s = (.ok released, s')) :
    Inv s' ∧ SameShape s s' ∧ s'.seqRows = s.seqRows ∧ s'.freeRows = s.freeRows ∧
      (∀ l < s.layers, s'.freeCounts l + s'.residency sid l = s.freeCounts l + s.residency sid l) ∧
      (∀ l < s.layers, ∀ h < s.heads, s'.headLength sid l h ≤ s.headLength sid l h) ∧
      ∀ x ≠ sid, ∀ l h, s'.headLength x l h = s.headLength x l h := by
  cases hsel : s.validateSelection sid selections with
  | error e => simp only [compact, bind_run, get_run, lift_run, hsel, Prod.mk.injEq, reduceCtorEq,
      false_and] at hrun
  | ok row =>
    obtain ⟨released', s₂, hcompact, hi', hshape, hrow, hrows, -, hkept, hothers⟩ := compact_spec hi hsel
    obtain rfl : s' = s₂ := (Prod.mk.inj (hrun.symm.trans hcompact)).2
    have hrow' : s'.seqRows.get? sid = some row := by rw [hrows, hrow]
    have hlen : ∀ l r h, r ≠ row → s'.lengths l r h = s.lengths l r h := fun l r h hr => by
      rw [lengths_eq, lengths_eq, hothers l r h hr]
    refine ⟨hi', hshape, hrows, (compact_free hrun).1, fun l hl => ?_, fun l hl h hh => ?_,
      fun x hx l h => ?_⟩
    · have := hi.conserved_row hi' hshape hl (hi.owned_lt sid row hrow) fun r hr h => hlen l r h hr
      simp only [residency, headLength_row hrow, headLength_row hrow', hshape.heads]
      exact this
    · rw [headLength_row hrow, headLength_row hrow', lengths_eq s', hkept l hl h hh, List.length_map]
      obtain ⟨-, hlayers, hheads, hvalid⟩ := validateSelection_ok hsel
      have hl' : l < selections.length := hlayers ▸ hl
      have hh' : h < selections[l].length := by rw [hheads _ (getElem_mem hl')]; exact hh
      have hsl : selections[l]? = some selections[l] := getElem?_eq_getElem hl'
      have hsh : selections[l][h]? = some selections[l][h] := getElem?_eq_getElem hh'
      have hle := (selectedFrom_of_valid (hvalid l _ h _ hsl hsh)).length_le
      rw [List.length_map] at hle
      rw [selectionAt, hsl, bind_some, hsh, getD_some]
      exact hle
    · cases hget : s.seqRows.get? x with
      | none => rw [headLength_unknown hget, headLength_unknown (by rw [hrows, hget])]
      | some r =>
        rw [headLength_row hget, headLength_row (by rw [hrows, hget])]
        refine hlen l r h ?_
        rintro rfl
        exact hx (hi.unique x sid r hget hrow)

theorem freeSeq_residency (hi : Inv s) (sid : Int) : ∃ s', freeSeq sid s = (.ok (), s') ∧ Inv s' ∧
    SameShape s s' ∧ s'.seqRows = s.seqRows.erase sid ∧
    s'.freeRows.length = s.freeRows.length + (if s.seqRows.contains sid then 1 else 0) ∧
    (∀ l < s.layers, s'.freeCounts l = s.freeCounts l + s.residency sid l) ∧
    ∀ x ≠ sid, ∀ l h, s'.headLength x l h = s.headLength x l h := by
  cases hrow : s.seqRows.get? sid with
  | none =>
    refine ⟨s, ?_, hi, .refl s, (erase_eq_self hrow).symm, ?_, fun l _ => ?_, fun _ _ _ _ => rfl⟩
    · simp only [freeSeq, bind_run, get_run, hrow, pure_run]
    · rw [contains_eq_false.mpr hrow]
      rfl
    · simp only [residency, headLength_unknown hrow, Finset.sum_const_zero, Nat.add_zero]
  | some row =>
    have hi' := hi.release hrow
    have hshape := released_shape s sid row
    have hrows := (released_owners s sid row).1
    refine ⟨s.released sid row, ?_, hi', hshape, hrows, ?_, fun l hl => ?_, fun x hx l h => ?_⟩
    · simp only [freeSeq, bind_run, get_run, hrow, modify_run]
      rfl
    · rw [(released_owners s sid row).2.1, contains_iff.mpr ⟨row, hrow⟩, length_append]
      rfl
    · have := hi.conserved_row hi' hshape hl (hi.owned_lt sid row hrow) fun r hr h =>
        (released_head hr).lengths
      simp only [released_lengths, Finset.sum_const_zero, Nat.add_zero] at this
      simp only [residency, headLength_row hrow]
      exact this
    · cases hget : s.seqRows.get? x with
      | none =>
        rw [headLength_unknown hget, headLength_unknown (by rw [hrows, get?_erase_ne _ hx, hget])]
      | some r =>
        rw [headLength_row hget, headLength_row (by rw [hrows, get?_erase_ne _ hx, hget])]
        refine (released_head ?_).lengths
        rintro rfl
        exact hx (hi.unique x sid r hget hrow)

end SparseEngine.HeadSlotAllocator
