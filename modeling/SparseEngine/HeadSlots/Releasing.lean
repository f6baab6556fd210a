import SparseEngine.HeadSlots.Ownership

/-! `compact` rewrites the heads of one row one after the other. -/

namespace SparseEngine.HeadSlotAllocator

open PyM List

variable {s s' s'' : HeadSlotAllocator} {sid : Int} {l row r h c : Nat} {indices : List Nat}

/-- The live `(slot, position)` pairs of a head. -/
def livePairs (s : HeadSlotAllocator) (l row h : Nat) : List (Int × Int) :=
  (List.range (s.lengths l row h)).map fun c => (s.slots l row h c, s.positions l row h c)

theorem cells_eq : s.cells l row h = (s.livePairs l row h).map Prod.fst := by
  rw [livePairs, List.map_map]
  rfl

theorem livePositions_eq : s.livePositions l row h = (s.livePairs l row h).map Prod.snd := by
  rw [livePairs, List.map_map]
  rfl

/-- Ordered indices of a head with `n` live cells. -/
structure SelectedFrom (n : Nat) (indices : List Nat) : Prop where
  sorted : indices.Pairwise (· < ·)
  lt : ∀ i ∈ indices, i < n

theorem SelectedFrom.nodup {n : Nat} (h : SelectedFrom n indices) : indices.Nodup :=
  h.sorted.imp fun hab => hab.ne

theorem SelectedFrom.length_le {n : Nat} (h : SelectedFrom n indices) : indices.length ≤ n := by
  have hsub : indices ⊆ List.range n := fun i hi => List.mem_range.mpr (h.lt i hi)
  simpa using (h.nodup.subperm hsub).length_le

/-- The head `(l, row, h)` of `s'` holds the selected pairs of `s`. -/
def Kept (s s' : HeadSlotAllocator) (l row h : Nat) (indices : List Nat) : Prop :=
  s'.livePairs l row h = indices.map fun i => (s.slots l row h i, s.positions l row h i)

structure SameHead (s s' : HeadSlotAllocator) (l r h : Nat) : Prop where
  lengths : s'.lengths l r h = s.lengths l r h
  slots : s'.slots l r h = s.slots l r h
  positions : s'.positions l r h = s.positions l r h

theorem SameHead.refl (s : HeadSlotAllocator) (l r h : Nat) : SameHead s s l r h := ⟨rfl, rfl, rfl⟩

theorem SameHead.trans (h₁ : SameHead s s' l r h) (h₂ : SameHead s' s'' l r h) :
    SameHead s s'' l r h :=
  ⟨h₂.lengths.trans h₁.lengths, h₂.slots.trans h₁.slots, h₂.positions.trans h₁.positions⟩

theorem SameHead.livePairs (hs : SameHead s s' l r h) : s'.livePairs l r h = s.livePairs l r h := by
  rw [HeadSlotAllocator.livePairs, HeadSlotAllocator.livePairs, hs.lengths, hs.slots, hs.positions]

theorem SameHead.kept (hs : SameHead s s' l row h) (hk : Kept s' s'' l row h indices) :
    Kept s s'' l row h indices := by
  rw [Kept, hk, hs.slots, hs.positions]

theorem Kept.same (hk : Kept s s' l row h indices) (hs : SameHead s' s'' l row h) :
    Kept s s'' l row h indices := hs.livePairs.trans hk

/-- The owners of rows and the dimensions are those of `s`. -/
structure SameOwners (s s' : HeadSlotAllocator) : Prop where
  shape : SameShape s s'
  seqRows : s'.seqRows = s.seqRows
  freeRows : s'.freeRows = s.freeRows
  generation : s'.generation = s.generation

theorem SameOwners.refl (s : HeadSlotAllocator) : SameOwners s s := ⟨.refl s, rfl, rfl, rfl⟩

theorem SameOwners.trans (h : SameOwners s s') (h' : SameOwners s' s'') : SameOwners s s'' :=
  ⟨h.shape.trans h'.shape, h'.seqRows.trans h.seqRows, h'.freeRows.trans h.freeRows,
    h'.generation.trans h.generation⟩

theorem compactHead_owners : SameOwners s (s.compactHead l row h indices) :=
  ⟨⟨rfl, rfl, rfl, rfl⟩, rfl, rfl, rfl⟩

theorem compactHead_same {l' r' h' : Nat} (hne : l' ≠ l ∨ r' ≠ row ∨ h' ≠ h) :
    SameHead s (s.compactHead l row h indices) l' r' h' := by
  have hno : ¬ (l' = l ∧ r' = row ∧ h' = h) := fun ⟨h1, h2, h3⟩ => by
    rcases hne with hne | hne | hne
    · exact hne h1
    · exact hne h2
    · exact hne h3
  have hno' : ∀ c, ¬ (l' = l ∧ r' = row ∧ h' = h ∧ c < s.lengths l row h) :=
    fun c hc => hno ⟨hc.1, hc.2.1, hc.2.2.1⟩
  refine ⟨?_, funext fun c => ?_, funext fun c => ?_⟩
  · simp only [compactHead, if_neg hno]
  · simp only [compactHead, if_neg (hno' c)]
  · simp only [compactHead, if_neg (hno' c)]

theorem compactHead_kept (hsel : SelectedFrom (s.lengths l row h) indices) :
    Kept s (s.compactHead l row h indices) l row h indices := by
  rw [Kept, livePairs]
  refine List.ext_getElem (by simp [compactHead]) fun c hc hc' => ?_
  have hc : c < indices.length := by simpa using hc'
  have hn : c < s.lengths l row h := lt_of_lt_of_le hc hsel.length_le
  simp [compactHead, hc, hn]

theorem discarded_add (hsel : SelectedFrom (s.lengths l row h) indices) :
    (s.discarded l row h indices : Multiset Int) + (indices.map (s.slots l row h) : List Int) =
      (s.cells l row h : Multiset Int) := by
  have hkept : ((List.range (s.lengths l row h)).filter fun c => decide (c ∈ indices)).Perm indices := by
    refine (List.perm_ext_iff_of_nodup (List.nodup_range.filter _) hsel.nodup).mpr fun i => ?_
    rw [List.mem_filter, List.mem_range, decide_eq_true_iff]
    exact and_iff_right_of_imp (hsel.lt i)
  have hall := filter_append_perm (fun c => decide (c ∈ indices)) (List.range (s.lengths l row h))
  rw [add_comm, Multiset.coe_add, Multiset.coe_eq_coe, discarded, ← List.map_append, cells]
  exact ((hkept.symm.append_right _).trans hall).map _

theorem compactHead_freeIds : (s.compactHead l row h indices).freeIds l =
    s.freeIds l ++ s.discarded l row h indices := freeIds_pushFree _

theorem compactHead_freeIds_ne {l' : Nat} (hl : l' ≠ l) :
    (s.compactHead l row h indices).freeIds l' = s.freeIds l' := freeIds_pushFree_ne hl _

theorem Inv.positions_lt (hi : Inv s) (hl : l < s.layers) (hh : h < s.heads) {i j : Nat} (hij : i < j)
    (hj : j < s.lengths l r h) : s.positions l r h i < s.positions l r h j := by
  have hp := pairwise_iff_getElem.mp (hi.increasing l hl r h hh) i j
    (by simpa [livePositions] using hij.trans hj) (by simpa [livePositions] using hj) hij
  simpa [livePositions] using hp

theorem swap_inner {M : Type} [AddCancelCommMonoid M] {x x' y y' z z' : M} (h : x' + y = x + y')
    (h' : y' + z = y + z') : x' + z = x + z' := by
  refine add_right_cancel (b := y) ?_
  calc x' + z + y = x' + y + z := add_right_comm _ _ _
    _ = x + (y' + z) := by rw [h, add_assoc]
    _ = x + z' + y := by rw [h', add_comm y, add_assoc]

theorem liveIds_head (hshape : SameShape s s') (hrow : row < s.rows) (hh : h < s.heads)
    (hrows : ∀ r ≠ row, ∀ h', s'.cells l r h' = s.cells l r h')
    (hheads : ∀ h' ≠ h, s'.cells l row h' = s.cells l row h') :
    s'.liveIds l + (s.cells l row h : Multiset Int) =
      s.liveIds l + (s'.cells l row h : Multiset Int) := by
  have hhead := Shares.sum_update (f := fun h' => (s.cells l row h' : Multiset Int))
    (g := fun h' => (s'.cells l row h' : Multiset Int)) (Finset.mem_range.mpr hh)
    fun h' _ hne => by rw [hheads h' hne]
  exact swap_inner (liveIds_row hshape hrow hrows) hhead

theorem compactHead_partition (hi : Inv s) (hrow : row < s.rows) (hh : h < s.heads)
    (hsel : SelectedFrom (s.lengths l row h) indices) (l' : Nat) (hl' : l' < s.layers) :
    ((s.compactHead l row h indices).freeIds l' : Multiset Int) +
      (s.compactHead l row h indices).liveIds l' = s.allIds l' := by
  have hcells : ∀ {r h'}, (l' ≠ l ∨ r ≠ row ∨ h' ≠ h) →
      (s.compactHead l row h indices).cells l' r h' = s.cells l' r h' := fun hne => by
    rw [cells_eq, cells_eq, (compactHead_same hne).livePairs]
  rw [← hi.partition l' hl']
  by_cases hll : l' = l
  · subst hll
    have hnew : (s.compactHead l' row h indices).cells l' row h = indices.map (s.slots l' row h) := by
      rw [cells_eq, compactHead_kept hsel, List.map_map]
      rfl
    -- The dropped cells go to the free stack.
    have hlive := liveIds_head compactHead_owners.shape hrow hh
      (fun r hr h' => hcells (Or.inr (Or.inl hr))) fun h' hne => hcells (Or.inr (Or.inr hne))
    rw [← discarded_add hsel, hnew, ← add_assoc] at hlive
    rw [compactHead_freeIds, ← Multiset.coe_add, ← add_right_cancel hlive, add_assoc,
      add_comm (s.discarded l' row h indices : Multiset Int)]
  · have hshape : SameShape s (s.compactHead l row h indices) := compactHead_owners.shape
    have hrows := liveIds_row (l := l') hshape hrow fun r hr h' => hcells (Or.inl hll)
    have hsame : ∀ h', (s.compactHead l row h indices).cells l' row h' = s.cells l' row h' :=
      fun h' => hcells (Or.inl hll)
    simp only [hsame] at hrows
    rw [compactHead_freeIds_ne hll, add_right_cancel hrows]

theorem compactHead_inv (hi : Inv s) (hsid : s.seqRows.get? sid = some row) (hl : l < s.layers)
    (hh : h < s.heads) (hsel : SelectedFrom (s.lengths l row h) indices) :
    Inv (s.compactHead l row h indices) := by
  have hrow := hi.owned_lt sid row hsid
  have hlen : ∀ l' r' h', (s.compactHead l row h indices).lengths l' r' h' =
      if l' = l ∧ r' = row ∧ h' = h then indices.length else s.lengths l' r' h' := fun _ _ _ => rfl
  refine ⟨hi.positive, fun l' hl' => ?_, hi.freeRows_nodup, hi.freeRows_lt, hi.owned_lt, hi.owner,
    hi.unique, fun r hr l' h' => ?_, fun l' hl' r h' hh' => ?_, fun l' r h' c hc => ?_,
    fun l' hl' r h' hh' => ?_⟩
  · rw [compactHead_owners.shape.allIds]
    exact compactHead_partition hi hrow hh hsel l' hl'
  · have hne : r ≠ row := by
      rintro rfl
      exact (hi.owner r hrow).mp hr sid hsid
    rw [hlen, if_neg fun h => hne h.2.1]
    exact hi.idle r hr l' h'
  · rw [hlen]
    split
    · exact le_trans hsel.length_le (hi.width l hl row h hh)
    · exact hi.width l' hl' r h' hh'
  · by_cases hthis : l' = l ∧ r = row ∧ h' = h
    · obtain ⟨rfl, rfl, rfl⟩ := hthis
      rw [hlen, if_pos ⟨rfl, rfl, rfl⟩] at hc
      simp only [compactHead, true_and, not_lt.mpr hc, if_false]
      split
      · exact ⟨rfl, rfl⟩
      · next hn => exact hi.blank l' r h' c (not_lt.mp hn)
    · have hsame : SameHead s (s.compactHead l row h indices) l' r h' := compactHead_same <| by
        by_contra hno
        push Not at hno
        exact hthis hno
      rw [hsame.lengths] at hc
      rw [hsame.slots, hsame.positions]
      exact hi.blank l' r h' c hc
  · by_cases hthis : l' = l ∧ r = row ∧ h' = h
    · obtain ⟨rfl, rfl, rfl⟩ := hthis
      rw [livePositions_eq, compactHead_kept hsel, List.map_map]
      refine List.pairwise_map.mpr (hsel.sorted.imp_of_mem fun _ hj hij => ?_)
      exact hi.positions_lt hl hh hij (hsel.lt _ hj)
    · have hsame : SameHead s (s.compactHead l row h indices) l' r h' := compactHead_same <| by
        by_contra hno
        push Not at hno
        exact hthis hno
      rw [livePositions_eq, hsame.livePairs, ← livePositions_eq]
      exact hi.increasing l' hl' r h' hh'

theorem compactHeads_spec (rest : List (List Nat)) : ∀ (h count : Nat)
    (s : HeadSlotAllocator), Inv s → s.seqRows.get? sid = some row → l < s.layers →
    h + rest.length ≤ s.heads →
    (∀ k indices, rest[k]? = some indices → SelectedFrom (s.lengths l row (h + k)) indices) →
    ∃ s' n, compactHeads l row h rest count s = (s', n) ∧ Inv s' ∧ SameOwners s s' ∧
      (∀ l' r' h', (l' ≠ l ∨ r' ≠ row ∨ h' < h) → SameHead s s' l' r' h') ∧
      ∀ k indices, rest[k]? = some indices → Kept s s' l row (h + k) indices := by
  induction rest with
  | nil =>
    intro h count s hi _ _ _ _
    exact ⟨s, count, rfl, hi, .refl s, fun _ _ _ _ => .refl s _ _ _, by simp⟩
  | cons indices rest ih =>
    intro h count s hi hsid hl hlen hsel
    rw [length_cons] at hlen
    have hh : h < s.heads := by omega
    have hsel₀ : SelectedFrom (s.lengths l row h) indices := hsel 0 indices rfl
    have hsame : ∀ l' r' h', (l' ≠ l ∨ r' ≠ row ∨ h' ≠ h) →
        SameHead s (s.compactHead l row h indices) l' r' h' := fun _ _ _ => compactHead_same
    obtain ⟨s', n, hrun, hi', hown, hrest, hkept⟩ := ih (h + 1)
      (count + (s.discarded l row h indices).length) (s.compactHead l row h indices)
      (compactHead_inv hi hsid hl hh hsel₀) hsid hl (le_of_eq_of_le (by omega) hlen)
      fun k is hk => by
        rw [(hsame l row (h + 1 + k) (Or.inr (Or.inr (by omega)))).lengths]
        have := hsel (k + 1) is hk
        rwa [show h + (k + 1) = h + 1 + k by omega] at this
    refine ⟨s', n, hrun, hi', compactHead_owners.trans hown, fun l' r' h' hne => ?_, fun k is hk => ?_⟩
    · refine (hsame l' r' h' (hne.imp_right (Or.imp_right ne_of_lt))).trans (hrest l' r' h' ?_)
      exact hne.imp_right (Or.imp_right fun hlt => hlt.trans (Nat.lt_succ_self h))
    · cases k with
      | zero =>
        obtain rfl : indices = is := Option.some.inj hk
        exact (compactHead_kept hsel₀).same (hrest l row h (Or.inr (Or.inr (Nat.lt_succ_self h))))
      | succ k =>
        rw [show h + (k + 1) = h + 1 + k by omega]
        exact (hsame l row _ (Or.inr (Or.inr (by omega)))).kept (hkept k is hk)

theorem compactLayers_spec (rest : List (List (List Nat))) : ∀ (l : Nat) (released : List Nat)
    (s : HeadSlotAllocator), Inv s → s.seqRows.get? sid = some row → l + rest.length ≤ s.layers →
    (∀ k heads, rest[k]? = some heads → heads.length ≤ s.heads ∧ ∀ h indices,
      heads[h]? = some indices → SelectedFrom (s.lengths (l + k) row h) indices) →
    ∃ s' released', compactLayers row l rest released s = (s', released') ∧ Inv s' ∧
      SameOwners s s' ∧ (∀ l' r' h', (l' < l ∨ r' ≠ row) → SameHead s s' l' r' h') ∧
      ∀ k heads h indices, rest[k]? = some heads → heads[h]? = some indices →
        Kept s s' (l + k) row h indices := by
  induction rest with
  | nil =>
    intro l released s hi _ _ _
    exact ⟨s, released, rfl, hi, .refl s, fun _ _ _ _ => .refl s _ _ _, by simp⟩
  | cons heads rest ih =>
    intro l released s hi hsid hlen hsel
    rw [length_cons] at hlen
    have hl : l < s.layers := by omega
    obtain ⟨hheads, hsel₀⟩ := hsel 0 heads rfl
    obtain ⟨s₁, n, hrun₁, hi₁, hown₁, hsame₁, hkept₁⟩ := compactHeads_spec heads 0 0 s hi hsid hl
      (by omega) fun k indices hk => by
        rw [Nat.zero_add]
        exact hsel₀ k indices hk
    obtain ⟨s', released', hrun, hi', hown, hsame, hkept⟩ := ih (l + 1) (released ++ [n]) s₁ hi₁
      (hown₁.seqRows ▸ hsid) (by rw [hown₁.shape.layers]; omega) fun k heads' hk => by
        obtain ⟨hk1, hk2⟩ := hsel (k + 1) heads' hk
        refine ⟨hown₁.shape.heads ▸ hk1, fun h indices hh => ?_⟩
        rw [(hsame₁ (l + 1 + k) row h (Or.inl (by omega))).lengths]
        have := hk2 h indices hh
        rwa [show l + (k + 1) = l + 1 + k by omega] at this
    refine ⟨s', released', ?_, hi', hown₁.trans hown, fun l' r' h' hne => ?_,
      fun k heads' h indices hk hh => ?_⟩
    · rw [compactLayers, hrun₁]
      exact hrun
    · refine (hsame₁ l' r' h' (hne.imp ne_of_lt Or.inl)).trans (hsame l' r' h' ?_)
      exact hne.imp_left fun hlt => hlt.trans (Nat.lt_succ_self l)
    · cases k with
      | zero =>
        obtain rfl : heads = heads' := Option.some.inj hk
        have := hkept₁ h indices hh
        rw [Nat.zero_add] at this
        exact this.same (hsame l row h (Or.inl (Nat.lt_succ_self l)))
      | succ k =>
        rw [show l + (k + 1) = l + 1 + k by omega]
        exact (hsame₁ _ row h (Or.inl (by omega))).kept (hkept k heads' h indices hk hh)

theorem all_zip_tail {α : Type} {R : α → α → Prop} [DecidableRel R] (l : List α) :
    ((l.zip l.tail).all fun p => decide (R p.1 p.2)) = true ↔ l.IsChain R := by
  induction l with
  | nil => simp
  | cons a l ih =>
    cases l with
    | nil => simp
    | cons b l =>
      rw [isChain_cons_cons, ← ih]
      simp

theorem validIndices_iff {n : Nat} {indices : Option (List Int)} :
    validIndices n indices = true ↔
      ∃ is, indices = some is ∧ is ≠ [] ∧ is.Pairwise (· < ·) ∧ ∀ i ∈ is, 0 ≤ i ∧ i < n := by
  cases indices with
  | none => simp [validIndices]
  | some is =>
    cases is with
    | nil => simp [validIndices]
    | cons first rest =>
      have hchain := all_zip_tail (R := (· < ·)) (first :: rest)
      rw [isChain_iff_pairwise] at hchain
      simp only [tail_cons] at hchain
      simp only [validIndices, Bool.and_eq_true, decide_eq_true_eq, hchain, Option.some.injEq,
        exists_eq_left', ne_eq, cons_ne_nil, not_false_eq_true, true_and]
      have hlast : (first :: rest).getLastD 0 = (first :: rest).getLast (cons_ne_nil _ _) := by
        rw [getLastD_eq_getLast?, getLast?_eq_some_getLast (cons_ne_nil _ _),
          Option.getD_some]
      rw [hlast]
      constructor
      · rintro ⟨⟨h0, hlt⟩, hsorted⟩
        refine ⟨hsorted, fun i hi => ⟨?_, ?_⟩⟩
        · rcases mem_cons.mp hi with rfl | hi
          · exact h0
          · exact le_trans h0 ((pairwise_cons.mp hsorted).1 i hi).le
        · exact lt_of_le_of_lt ((hsorted.imp fun h => le_of_lt h).rel_getLast hi) hlt
      · rintro ⟨hsorted, hall⟩
        exact ⟨⟨(hall first mem_cons_self).1, (hall _ (getLast_mem _)).2⟩, hsorted⟩

def selectionAt (selections : List (List (Option (List Int)))) (l h : Nat) : Option (List Int) :=
  ((selections[l]?.bind (·[h]?)).getD none)

variable {selections : List (List (Option (List Int)))}

theorem validateSelection_ok (h : s.validateSelection sid selections = .ok row) :
    s.seqRows.get? sid = some row ∧ selections.length = s.layers ∧
      (∀ heads ∈ selections, heads.length = s.heads) ∧
      ∀ l heads h indices, selections[l]? = some heads → heads[h]? = some indices →
        validIndices (s.lengths l row h) indices = true := by
  unfold validateSelection at h
  cases hget : s.seqRows.get? sid with
  | none => simp [hget] at h
  | some row' =>
    rw [hget] at h
    simp only at h
    split at h
    · cases h
    · next hshape =>
      split at h
      · cases h
      · next hvalid =>
        obtain rfl : row' = row := Except.ok.inj h
        rw [not_or, not_not] at hshape
        refine ⟨rfl, hshape.1, fun heads hheads => ?_, fun l heads h indices hl hh => ?_⟩
        · have := hshape.2
          rw [Bool.not_eq_true, any_eq_false] at this
          simpa using this heads hheads
        · have hno := hvalid
          rw [Bool.not_eq_true, any_eq_false] at hno
          have hlayer := hno (heads, l) (mem_zipIdx_iff_getElem?.mpr hl)
          rw [Bool.not_eq_true, any_eq_false] at hlayer
          simpa using hlayer (indices, h) (mem_zipIdx_iff_getElem?.mpr hh)

theorem selectedFrom_of_valid {n : Nat} {indices : Option (List Int)}
    (h : validIndices n indices = true) : SelectedFrom n ((indices.getD []).map Int.toNat) := by
  obtain ⟨is, rfl, -, hsorted, hall⟩ := validIndices_iff.mp h
  refine ⟨List.pairwise_map.mpr (hsorted.imp_of_mem fun hi hj hij => ?_), fun i hi => ?_⟩
  · have := (hall _ hi).1
    omega
  · obtain ⟨j, hj, rfl⟩ := mem_map.mp hi
    have := hall j hj
    omega

theorem compact_spec (hi : Inv s) (hsel : s.validateSelection sid selections = .ok row) :
    ∃ released s', compact sid selections s = (.ok released, s') ∧ Inv s' ∧ SameShape s s' ∧
      s.seqRows.get? sid = some row ∧ s'.seqRows = s.seqRows ∧ s'.generation = s.generation + 1 ∧
      (∀ l < s.layers, ∀ h < s.heads, s'.livePairs l row h =
        ((selectionAt selections l h).getD []).map fun i =>
          (s.slots l row h i.toNat, s.positions l row h i.toNat)) ∧
      ∀ l r h, r ≠ row → s'.livePairs l r h = s.livePairs l r h := by
  obtain ⟨hsid, hlayers, hheads, hvalid⟩ := validateSelection_ok hsel
  have hindices : ∀ (k : Nat) (heads : List (List Nat)), (indicesOf selections)[k]? = some heads →
      ∃ hs : List (Option (List Int)), selections[k]? = some hs ∧ heads = hs.map fun indices => (indices.getD []).map Int.toNat := by
    intro k heads hk
    rw [indicesOf, List.getElem?_map, Option.map_eq_some_iff] at hk
    obtain ⟨hs, hhs, rfl⟩ := hk
    exact ⟨hs, hhs, rfl⟩
  obtain ⟨s', released, hrun, hi', hown, hsame, hkept⟩ := compactLayers_spec (indicesOf selections) 0 []
    s hi hsid (by simp [indicesOf, hlayers]) fun k heads hk => by
      obtain ⟨hs, hhs, rfl⟩ := hindices k heads hk
      refine ⟨by simp [hheads hs (mem_of_getElem? hhs)], fun h indices hh => ?_⟩
      rw [List.getElem?_map, Option.map_eq_some_iff] at hh
      obtain ⟨is, his, rfl⟩ := hh
      rw [Nat.zero_add]
      exact selectedFrom_of_valid (hvalid k hs h is hhs his)
  have hblank : Inv { s' with generation := s'.generation + 1 } :=
    { hi' with }
  refine ⟨released, { s' with generation := s'.generation + 1 }, ?_, hblank,
    ⟨hown.shape.capacities, hown.shape.heads, hown.shape.width, hown.shape.rows⟩, hsid, hown.seqRows,
    congrArg (· + 1) hown.generation, fun l hl h hh => ?_, fun l r h hr => ?_⟩
  · simp only [compact, bind_run, get_run, lift_run, hsel, hrun, modify_run, pure_run]
  · have hl' : l < selections.length := hlayers ▸ hl
    have hh' : h < selections[l].length := by rw [hheads _ (getElem_mem hl')]; exact hh
    have hsl : selections[l]? = some selections[l] := getElem?_eq_getElem hl'
    have hsh : selections[l][h]? = some selections[l][h] := getElem?_eq_getElem hh'
    have hk := hkept l (selections[l].map fun indices => (indices.getD []).map Int.toNat) h
      ((selections[l][h].getD []).map Int.toNat) (by rw [indicesOf, List.getElem?_map, hsl]; rfl)
      (by rw [List.getElem?_map, hsh]; rfl)
    rw [Nat.zero_add, Kept, List.map_map] at hk
    rw [selectionAt, hsl, Option.bind_some, hsh, Option.getD_some]
    exact hk
  · exact (hsame l r h (Or.inr hr)).livePairs

theorem releaseRow_same (row : Nat) : ∀ (pairs : List (Nat × Nat)) (s : HeadSlotAllocator),
    ∃ free freeCounts, releaseRow row pairs s = { s with free := free, freeCounts := freeCounts }
  | [], s => ⟨s.free, s.freeCounts, rfl⟩
  | (l, h) :: rest, s => by
    obtain ⟨free, freeCounts, hrun⟩ := releaseRow_same row rest (s.pushFree l (s.cells l row h))
    exact ⟨free, freeCounts, hrun⟩

theorem releaseRow_freeIds (row : Nat) : ∀ (pairs : List (Nat × Nat)) (s : HeadSlotAllocator),
    ((releaseRow row pairs s).freeIds l : Multiset Int) = (s.freeIds l : Multiset Int) +
      (pairs.map fun lh => if lh.1 = l then (s.cells lh.1 row lh.2 : Multiset Int) else 0).sum
  | [], s => by simp [releaseRow]
  | (l', h) :: rest, s => by
    rw [releaseRow, releaseRow_freeIds row rest, List.map_cons, List.sum_cons]
    simp only [pushFree_cells]
    by_cases hl : l' = l
    · rw [if_pos hl, ← hl, freeIds_pushFree, ← Multiset.coe_add, add_assoc]
    · rw [if_neg hl, freeIds_pushFree_ne (Ne.symm hl), zero_add]

theorem sum_range_map {M : Type} [AddCommMonoid M] (f : Nat → M) (n : Nat) :
    ((List.range n).map f).sum = ∑ i ∈ Finset.range n, f i := by
  rw [Finset.sum_eq_multiset_sum, Finset.range_val, Multiset.range, Multiset.map_coe, Multiset.sum_coe]

theorem sum_layerHeads (hl : l < s.layers) (f : Nat → Nat → Multiset Int) :
    (s.layerHeads.map fun lh => if lh.1 = l then f lh.1 lh.2 else 0).sum =
      ∑ h ∈ Finset.range s.heads, f l h := by
  have hinner : ∀ l', ((List.range s.heads).map fun h => if l' = l then f l' h else 0).sum =
      if l' = l then ∑ h ∈ Finset.range s.heads, f l h else 0 := by
    intro l'
    rw [sum_range_map]
    by_cases hl' : l' = l
    · simp [hl']
    · simp [hl']
  have houter : (s.layerHeads.map fun lh => if lh.1 = l then f lh.1 lh.2 else 0).sum =
      ((List.range s.layers).map fun l' => ((List.range s.heads).map fun h =>
        if l' = l then f l' h else 0).sum).sum := by
    rw [layerHeads, List.product]
    induction List.range s.layers with
    | nil => rfl
    | cons l' ls ih =>
      rw [List.flatMap_cons, List.map_append, List.sum_append, ih, List.map_cons, List.sum_cons,
        List.map_map]
      rfl
  rw [houter, map_congr_left fun l' _ => hinner l', sum_range_map, Finset.sum_ite_eq',
    if_pos (Finset.mem_range.mpr hl)]

/-- The state after `free_seq` of a sequence with this row. -/
def released (s : HeadSlotAllocator) (sid : Int) (row : Nat) : HeadSlotAllocator :=
  (releaseRow row s.layerHeads { s with seqRows := s.seqRows.erase sid }).clearRow row

theorem released_shape (s : HeadSlotAllocator) (sid : Int) (row : Nat) : SameShape s (s.released sid row) := by
  obtain ⟨free, freeCounts, hrun⟩ := releaseRow_same row s.layerHeads
    { s with seqRows := s.seqRows.erase sid }
  rw [released, hrun]
  exact ⟨rfl, rfl, rfl, rfl⟩

theorem released_cells (h : Nat) : (s.released sid row).cells l row h = [] := by
  simp only [released, cells, clearRow, if_true, List.range_zero, List.map_nil]

theorem released_head (hr : r ≠ row) : SameHead s (s.released sid row) l r h := by
  obtain ⟨free, freeCounts, hrun⟩ := releaseRow_same row s.layerHeads
    { s with seqRows := s.seqRows.erase sid }
  rw [released, hrun]
  refine ⟨?_, funext fun c => ?_, funext fun c => ?_⟩
  all_goals simp only [clearRow, hr, if_false]

theorem released_lengths (l h : Nat) : (s.released sid row).lengths l row h = 0 := by
  simp only [released, clearRow, if_true]

theorem released_owners (s : HeadSlotAllocator) (sid : Int) (row : Nat) :
    (s.released sid row).seqRows = s.seqRows.erase sid ∧
    (s.released sid row).freeRows = s.freeRows ++ [row] ∧
    (s.released sid row).generation = s.generation + 1 := by
  obtain ⟨free, freeCounts, hrun⟩ := releaseRow_same row s.layerHeads
    { s with seqRows := s.seqRows.erase sid }
  rw [released, hrun]
  exact ⟨rfl, rfl, rfl⟩

theorem released_freeIds (hl : l < s.layers) : ((s.released sid row).freeIds l : Multiset Int) =
    (s.freeIds l : Multiset Int) + ∑ h ∈ Finset.range s.heads, (s.cells l row h : Multiset Int) := by
  have hpush := releaseRow_freeIds (l := l) row s.layerHeads
    { s with seqRows := s.seqRows.erase sid }
  have hsum := sum_layerHeads hl fun l h => (s.cells l row h : Multiset Int)
  exact hpush.trans (congrArg ((s.freeIds l : Multiset Int) + ·) hsum)

theorem Inv.release (hi : Inv s) (hsid : s.seqRows.get? sid = some row) :
    Inv (s.released sid row) := by
  have hrow := hi.owned_lt sid row hsid
  have hshape := released_shape s sid row
  obtain ⟨hseq, hfree, -⟩ := released_owners s sid row
  have hnot : row ∉ s.freeRows := fun hm => (hi.owner row hrow).mp hm sid hsid
  have hget : ∀ x r, (s.released sid row).seqRows.get? x = some r →
      x ≠ sid ∧ s.seqRows.get? x = some r := by
    intro x r hx
    rw [hseq, Dict.get?_erase] at hx
    split at hx
    · cases hx
    · next hne => exact ⟨hne, hx⟩
  refine ⟨?_, fun l hl => ?_, ?_, fun r hr => ?_, fun x r hx => ?_, fun r hr => ?_,
    fun x y r hx hy => hi.unique x y r (hget x r hx).2 (hget y r hy).2, fun r hr l h => ?_,
    fun l hl r h hh => ?_, fun l r h c hc => ?_, fun l hl r h hh => ?_⟩
  · rw [hshape.heads, hshape.width, hshape.layers]
    exact hi.positive
  · rw [hshape.layers] at hl
    have hlive := liveIds_row (l := l) hshape hrow fun r hr h => by
      rw [cells_eq, cells_eq, (released_head hr).livePairs]
    simp only [released_cells, Multiset.coe_nil, Finset.sum_const_zero, add_zero] at hlive
    rw [released_freeIds hl, hshape.allIds, ← hi.partition l hl, ← hlive, add_assoc,
      add_comm ((s.released sid row).liveIds l)]
  · rw [hfree, nodup_append]
    refine ⟨hi.freeRows_nodup, by simp, fun a ha b hb => ?_⟩
    rw [List.mem_singleton.mp hb]
    exact fun e => hnot (e ▸ ha)
  · rw [hshape.rows]
    rw [hfree] at hr
    rcases List.mem_append.mp hr with hr | hr
    · exact hi.freeRows_lt r hr
    · exact List.mem_singleton.mp hr ▸ hrow
  · rw [hshape.rows]
    exact hi.owned_lt x r (hget x r hx).2
  · rw [hshape.rows] at hr
    rw [hfree, List.mem_append, List.mem_singleton]
    constructor
    · rintro (hr' | rfl) x hx
      · exact (hi.owner r hr).mp hr' x (hget x r hx).2
      · exact (hget x r hx).1 (hi.unique x sid r (hget x r hx).2 hsid)
    · intro hno
      by_cases hrr : r = row
      · exact Or.inr hrr
      · refine Or.inl ((hi.owner r hr).mpr fun x hx => hno x ?_)
        have hne : x ≠ sid := by
          rintro rfl
          rw [hsid] at hx
          exact hrr (Option.some.inj hx).symm
        rw [hseq, Dict.get?_erase_ne _ hne, hx]
  · by_cases hrr : r = row
    · rw [hrr, released_lengths]
    · rw [hfree, List.mem_append, List.mem_singleton] at hr
      rw [(released_head hrr).lengths]
      exact hi.idle r (hr.resolve_right hrr) l h
  · rw [hshape.width]
    rw [hshape.layers] at hl
    rw [hshape.heads] at hh
    by_cases hrr : r = row
    · rw [hrr, released_lengths]
      exact Nat.zero_le _
    · rw [(released_head hrr).lengths]
      exact hi.width l hl r h hh
  · by_cases hrr : r = row
    · subst hrr
      simp only [released, clearRow, if_true, and_self]
    · rw [(released_head hrr).lengths] at hc
      rw [(released_head hrr).slots, (released_head hrr).positions]
      exact hi.blank l r h c hc
  · rw [hshape.layers] at hl
    rw [hshape.heads] at hh
    by_cases hrr : r = row
    · rw [hrr, livePositions, released_lengths]
      exact List.Pairwise.nil
    · rw [livePositions_eq, (released_head hrr).livePairs, ← livePositions_eq]
      exact hi.increasing l hl r h hh

theorem freeSeq_spec (hi : Inv s) (sid : Int) : ∃ s', freeSeq sid s = (.ok (), s') ∧ Inv s' ∧
    SameShape s s' ∧ (s' = s ∨ s'.generation = s.generation + 1) := by
  cases hget : s.seqRows.get? sid with
  | none =>
    refine ⟨s, ?_, hi, .refl s, Or.inl rfl⟩
    simp only [freeSeq, bind_run, get_run, hget, pure_run]
  | some row =>
    refine ⟨s.released sid row, ?_, hi.release hget, released_shape s sid row,
      Or.inr (released_owners s sid row).2.2⟩
    simp only [freeSeq, bind_run, get_run, hget, modify_run]
    rfl

end SparseEngine.HeadSlotAllocator
