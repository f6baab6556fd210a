import SparseEngine.HeadSlots.Batches
import SparseEngine.KVzip.Lifecycle

/-! `KVzipHeadSlotCacheManager` keeps its rows in a `HeadSlotAllocator`. -/

namespace SparseEngine.KVzip

open List HeadSlotAllocator

namespace HeadRows

open PyM HeadSlotAllocator

/-- `prefill_step_free_slots_for` of every request. -/
def checkRequests (s : HeadSlotAllocator) (reserve : Nat) :
    List (Int × Nat × Nat) → Except PyError Unit
  | [] => .ok ()
  | b :: rest =>
    match s.appendCapacity b.1 (List.replicate s.layers (reserve * s.heads : Int)) with
    | .error e => .error e
    | .ok capacity =>
      if capacity < b.2.2 then
        .error (.runtimeError "Head-slot batch would consume another chain's reservation.")
      else
        checkRequests s reserve rest

/-- `_append`, with `scratch_slot_reserve`. -/
def append (reserve : Nat) (batch : List (Int × Nat × Nat)) : PyM HeadSlotAllocator Unit := do
  let s ← get
  lift (checkRequests s reserve batch)
  raiseIf ((List.range s.layers).any fun l =>
      decide (s.freeCounts l < ((batch.map fun b => b.2.2).sum + reserve) * s.heads))
    (.runtimeError "Whole batch exceeds unreserved plus its own reserved head slots.")
  let plan ← lift (s.planAppend (requestsOf batch))
  let _ ← applyAppend plan
  return ()

def replayAppend (sid : Int) (length size : Nat) (o : ForwardOutcome) : PyM HeadSlotAllocator Unit :=
  if o.appends 0 then append 0 [(sid, length, size)] else pure ()

/-- The auxiliary forward inside `reconstruction_chunk`. -/
def forward (layers : Nat) (sid : Int) (length size : Nat) (o : ForwardOutcome) :
    PyM HeadSlotAllocator Unit := do
  replayAppend sid length size o
  o.finish layers

def firstCells (s : HeadSlotAllocator) (length : Nat) : List (List (Option (List Int))) :=
  List.replicate s.layers (List.replicate s.heads (some ((List.range length).map Int.ofNat)))

/-- `_release_reconstruction_suffix`. -/
def releaseSuffix (sid : Int) (length : Nat) : PyM HeadSlotAllocator Unit := do
  let s ← get
  match s.seqRows.get? sid with
  | none => raise (.keyError (toString sid))
  | some row => do
    raiseIf (s.layerHeads.any fun lh => decide (s.lengths lh.1 row lh.2 < length))
      (.runtimeError "KVzip replay lost original head-slot history.")
    let _ ← compact sid (firstCells s length)
    return ()

def compactReconstruction (sid : Int) (keep : List (List (Option (List Int)))) :
    PyM HeadSlotAllocator Unit := do
  let _ ← compact sid keep
  return ()

def prefillStepFreeSlots (s : HeadSlotAllocator) (reserve : Nat) : Nat :=
  ((List.range s.layers).map s.freeCounts).min?.getD 0 / s.heads - reserve

/-- The storage of a `KVzipHeadSlotCacheManager`. -/
def replayStore (layers heads reserve : Nat) :
    ReplayStore HeadSlotAllocator (List (List (Option (List Int)))) where
  layers := layers
  slotsPerToken := heads
  freeSlots s l := s.freeCounts l
  prefillStepFreeSlots s outstanding := prefillStepFreeSlots s reserve - outstanding
  decodeWindowBudget s l := s.freeCounts l - reserve * heads
  prefill := append reserve
  decode batch := append reserve (batch.map fun b => (b.1, b.2, 1))
  forward := forward layers
  releaseSuffix := releaseSuffix
  compact := compactReconstruction
  freeSeq := freeSeq

variable {s s' s₁ : HeadSlotAllocator} {sid : Int} {row length reserve : Nat} {pos : List Int}

/-- Every head of a sequence has `n` tokens. -/
def Holds (s : HeadSlotAllocator) (sid : Int) (n : Nat) : Prop :=
  match s.seqRows.get? sid with
  | none => n = 0
  | some row => ∀ l < s.layers, ∀ h < s.heads, s.lengths l row h = n

variable {n : Nat}

theorem holds_row (hrow : s.seqRows.get? sid = some row) :
    Holds s sid n ↔ ∀ l < s.layers, ∀ h < s.heads, s.lengths l row h = n := by
  rw [Holds, hrow]

theorem holds_iff (hi : HeadSlotAllocator.Inv s) :
    Holds s sid n ↔ ∀ l < s.layers, ∀ h < s.heads, s.headLength sid l h = n := by
  cases hrow : s.seqRows.get? sid with
  | none =>
    rw [Holds, hrow]
    simp only [headLength_unknown hrow]
    obtain ⟨hheads, -, hlayers⟩ := hi.positive
    exact ⟨fun h _ _ _ _ => h.symm, fun h => (h 0 hlayers 0 hheads).symm⟩
  | some row =>
    rw [holds_row hrow]
    simp only [headLength_row hrow]

theorem Holds.same (h : Holds s sid n) (hi : HeadSlotAllocator.Inv s)
    (hi' : HeadSlotAllocator.Inv s') (hshape : SameShape s s')
    (hsame : ∀ l < s.layers, ∀ h < s.heads, s'.headLength sid l h = s.headLength sid l h) :
    Holds s' sid n := by
  rw [holds_iff hi] at h
  rw [holds_iff hi', hshape.layers, hshape.heads]
  exact fun l hl k hk => (hsame l hl k hk).trans (h l hl k hk)

variable {batch : List (Int × Nat × Nat)}

theorem append_run (hi : HeadSlotAllocator.Inv s) :
    (∃ e, append reserve batch s = (.error e, s)) ∨
      ∃ writes s₂, (∀ l < s.layers, ((batch.map fun b => b.2.2).sum + reserve) * s.heads ≤
          s.freeCounts l) ∧ Plannable s (requestsOf batch) ∧
        appendLoop (planned s batch) [] s = (.ok writes, s₂) ∧
        append reserve batch s = (.ok (), { s₂ with generation := s₂.generation + 1 }) := by
  cases hcheck : checkRequests s reserve batch with
  | error e =>
    exact Or.inl ⟨e, by simp only [append, bind_run, get_run, lift_run, hcheck]⟩
  | ok u =>
    by_cases hroom : ((List.range s.layers).any fun l =>
        decide (s.freeCounts l < ((batch.map fun b => b.2.2).sum + reserve) * s.heads)) = true
    · exact Or.inl ⟨.runtimeError
        "Whole batch exceeds unreserved plus its own reserved head slots.", by
        simp only [append, bind_run, get_run, lift_run, hcheck, raiseIf, if_pos hroom]⟩
    · cases hplan : s.planAppend (requestsOf batch) with
      | error e =>
        exact Or.inl ⟨e, by
          simp only [append, bind_run, get_run, lift_run, hcheck, raiseIf, if_neg hroom, hplan]⟩
      | ok plan =>
        obtain ⟨hplannable, rfl⟩ := planAppend_iff.mp hplan
        obtain ⟨writes, s₂, hloop, -, -, -⟩ := appendLoop_spec _ [] s hi (hplannable.batch hi)
        have happly : appendLoop (planned s batch) [] s = (.ok writes, s₂) := hloop
        refine Or.inr ⟨writes, s₂, fun l hl => ?_, hplannable, happly, ?_⟩
        · rw [Bool.not_eq_true, any_eq_false] at hroom
          simpa using hroom l (List.mem_range.mpr hl)
        · rw [planned] at happly
          simp only [append, bind_run, get_run, lift_run, hcheck, raiseIf, if_neg hroom, hplan,
            applyAppend, ne_eq, not_true_eq_false, if_false, happly, modify_run, pure_run]

theorem append_ok (hi : HeadSlotAllocator.Inv s) (hrun : append reserve batch s = (.ok (), s')) :
    HeadSlotAllocator.Inv s' ∧ SameShape s s' ∧
      (∀ b ∈ batch, ∀ n, Holds s b.1 n → Holds s' b.1 (n + b.2.2)) ∧
      (∀ x ∉ batch.map Prod.fst, ∀ n, Holds s x n → Holds s' x n) ∧
      ∀ l < s.layers, reserve * s.heads ≤ s'.freeCounts l := by
  rcases append_run hi with ⟨e, herror⟩ | ⟨writes, s₂, hroom, hplannable, hloop, happend⟩
  · rw [herror] at hrun
    simp at hrun
  · rw [happend] at hrun
    obtain rfl := (Prod.mk.inj hrun).2
    have hnodup : (batch.map Prod.fst).Nodup := map_requestsOf.1 ▸ hplannable.distinct
    obtain ⟨_, s₃, hloop₃, ha⟩ := planned_appended hi hplannable (tokensOf_mem hnodup)
    obtain rfl : s₂ = s₃ := (Prod.mk.inj (hloop.symm.trans hloop₃)).2
    have hi₂ := inv_generation ha.inv (s₂.generation + 1)
    have hshape : SameShape s { s₂ with generation := s₂.generation + 1 } :=
      ⟨ha.shape.capacities, ha.shape.heads, ha.shape.width, ha.shape.rows⟩
    refine ⟨hi₂, hshape, fun b hb n hn => ?_, fun x hx n hn => hn.same hi hi₂ hshape
      fun l _ k _ => (ha.others x hx).2 l k, fun l hl => ?_⟩
    · rw [holds_iff hi] at hn
      rw [holds_iff hi₂]
      intro l hl k hk
      have hlonger := ha.longer b.1 (mem_map_of_mem hb) l k
      rw [← tokensOf_mem hnodup b hb, hn l (hshape.layers ▸ hl) k (hshape.heads ▸ hk)] at hlonger
      exact hlonger
    · have hleft := ha.slots l hl
      have hneed := hroom l hl
      rw [Nat.add_mul] at hneed
      dsimp only
      omega

/-- `s₁` is `s` with some more cells in the heads of `row`. -/
structure Prolonged (s s₁ : HeadSlotAllocator) (row : Nat) : Prop where
  inv : HeadSlotAllocator.Inv s₁
  shape : SameShape s s₁
  seqRows : s₁.seqRows = s.seqRows
  freeRows : s₁.freeRows = s.freeRows
  others : ∀ l r h, r ≠ row → s₁.livePairs l r h = s.livePairs l r h
  longer : ∀ l h, s.lengths l row h ≤ s₁.lengths l row h
  cells : ∀ l h, ∀ c < s.lengths l row h,
    s₁.slots l row h c = s.slots l row h c ∧ s₁.positions l row h c = s.positions l row h c

theorem Prolonged.refl (hi : HeadSlotAllocator.Inv s) : Prolonged s s row :=
  ⟨hi, .refl s, rfl, rfl, fun _ _ _ _ => rfl, fun _ _ => le_rfl, fun _ _ _ _ => ⟨rfl, rfl⟩⟩

theorem append_prolonged (hi : HeadSlotAllocator.Inv s) (hrow : s.seqRows.get? sid = some row)
    (start size : Nat) : Prolonged s (append reserve [(sid, start, size)] s).2 row := by
  rcases append_run hi with ⟨e, herror⟩ | ⟨writes, s₂, hroom, hplannable, hloop, happend⟩
  · rw [herror]
    exact .refl hi
  · rw [happend]
    have hplan : planned s [(sid, start, size)] = [(sid, row, positionsFrom start size)] := by
      simp [planned, requestsOf, assignRows_known hrow]
    have hbatch : Batch s (planned s [(sid, start, size)]) := hplannable.batch hi
    rw [hplan] at hbatch hloop
    obtain ⟨new, hone, hi'⟩ := appendOne_spec hi hbatch.next.1 (hbatch.fits _ List.mem_cons_self)
      fun l hl => by
        have := hbatch.room l hl
        rwa [List.map_cons, List.map_nil, slotsNeeded_one] at this
    have hsame : s.withRow sid row = s := by
      simp only [HeadSlotAllocator.withRow, Dict.set_eq_self hrow, Dict.contains_iff.mpr ⟨row, hrow⟩, if_true]
    rw [hsame] at hone hi'
    have hstate : s₂ = s.writeCells row (positionsFrom start size) := by
      rw [appendLoop, bind_run, hone] at hloop
      exact (Prod.mk.inj hloop).2.symm
    subst hstate
    refine ⟨inv_generation hi' _, ⟨rfl, rfl, rfl, rfl⟩, rfl, rfl, fun l r h hr => ?_, fun l h => ?_,
      fun l h c hc => ?_⟩
    · simp only [livePairs, writeCells, hr, if_false, false_and]
    · simp only [writeCells, if_true]
      exact Nat.le_add_right _ _
    · have hno : ¬ (row = row ∧ s.lengths l row h ≤ c ∧
          c < s.lengths l row h + (positionsFrom start size).length) :=
        fun hcond => absurd hcond.2.1 (not_le.mpr hc)
      exact ⟨if_neg hno, if_neg hno⟩

theorem forward_prolonged (hi : HeadSlotAllocator.Inv s) (hrow : s.seqRows.get? sid = some row)
    (layers start size : Nat) (o : ForwardOutcome) :
    Prolonged s (forward layers sid start size o s).2 row := by
  have hbody : Prolonged s (replayAppend sid start size o s).2 row := by
    rw [replayAppend]
    split
    · exact append_prolonged hi hrow start size
    · exact .refl hi
  rw [forward, bind_run]
  cases hrun : replayAppend sid start size o s with
  | mk res s₁ =>
    rw [hrun] at hbody
    cases res with
    | error e => exact hbody
    | ok u =>
      dsimp only
      rw [o.finish_state]
      exact hbody

theorem compact_ok {selections : List (List (Option (List Int)))} (hi : HeadSlotAllocator.Inv s)
    (hrun : compactReconstruction sid selections s = (.ok (), s')) :
    HeadSlotAllocator.Inv s' ∧ SameShape s s' ∧ (∀ x ≠ sid, ∀ n, Holds s x n → Holds s' x n) ∧
      ∀ l, s.freeCounts l ≤ s'.freeCounts l := by
  cases hcompact : HeadSlotAllocator.compact sid selections s with
  | mk result s₂ =>
    cases result with
    | error e =>
      simp only [compactReconstruction, bind_run, hcompact, Prod.mk.injEq, reduceCtorEq, false_and] at hrun
    | ok released =>
      obtain rfl : s₂ = s' := by
        simpa only [compactReconstruction, bind_run, hcompact, pure_run, Prod.mk.injEq, true_and] using hrun
      obtain ⟨hi₂, hshape, -, -, -, -, hothers⟩ := compact_residency hi hcompact
      exact ⟨hi₂, hshape, fun x hx n hn => hn.same hi hi₂ hshape fun l _ k _ => hothers x hx l k,
        (compact_free hcompact).2⟩

theorem freeSeq_ok (hi : HeadSlotAllocator.Inv s) (hrun : freeSeq sid s = (.ok (), s')) :
    HeadSlotAllocator.Inv s' ∧ SameShape s s' ∧ Holds s' sid 0 ∧
      ∀ x ≠ sid, ∀ n, Holds s x n → Holds s' x n := by
  obtain ⟨s₂, hfree, hi₂, hshape, hrows, -, -, hothers⟩ := freeSeq_residency hi sid
  obtain rfl : s' = s₂ := (Prod.mk.inj (hrun.symm.trans hfree)).2
  refine ⟨hi₂, hshape, ?_, fun x hx n hn => hn.same hi hi₂ hshape fun l _ k _ => hothers x hx l k⟩
  rw [Holds, hrows, Dict.get?_erase_self]

variable {l : Nat}

theorem selectionAt_firstCells {h : Nat} (hl : l < s.layers) (hh : h < s.heads) :
    selectionAt (firstCells s length) l h = some ((List.range length).map Int.ofNat) := by
  simp [selectionAt, firstCells, hl, hh]

theorem eq_of_getElem?_replicate {α : Type} {i : Nat} {a b : α}
    (h : (List.replicate n a)[i]? = some b) : i < n ∧ a = b := by
  rw [getElem?_replicate] at h
  split at h
  · next hi => exact ⟨hi, Option.some.inj h⟩
  · cases h

theorem validateSelection_firstCells (hrow : s.seqRows.get? sid = some row)
    (hlen : ∀ l < s.layers, ∀ h < s.heads, length ≤ s.lengths l row h) (hpos : 0 < length) :
    s.validateSelection sid (firstCells s length) = .ok row := by
  have hshape : ¬ ((firstCells s length).length ≠ s.layers ∨
      (firstCells s length).any fun heads => decide (heads.length ≠ s.heads)) := by
    simp [firstCells]
  have hvalid : ¬ ((firstCells s length).zipIdx.any fun sl => sl.1.zipIdx.any fun ih =>
      !validIndices (s.lengths sl.2 row ih.2) ih.1) := by
    rw [Bool.not_eq_true, any_eq_false]
    rintro ⟨heads, l⟩ hheads
    obtain ⟨hl, rfl⟩ := eq_of_getElem?_replicate (List.mem_zipIdx_iff_getElem?.mp hheads)
    rw [Bool.not_eq_true, any_eq_false]
    rintro ⟨indices, h⟩ hindices
    obtain ⟨hh, rfl⟩ := eq_of_getElem?_replicate (List.mem_zipIdx_iff_getElem?.mp hindices)
    have hok : validIndices (s.lengths l row h) (some ((List.range length).map Int.ofNat)) = true := by
      refine validIndices_iff.mpr ⟨_, rfl, ?_, ?_, fun i hi => ?_⟩
      · rw [ne_eq, List.map_eq_nil_iff, List.range_eq_nil]
        omega
      · exact List.pairwise_map.mpr (List.pairwise_lt_range.imp fun h => Int.ofNat_lt.mpr h)
      · obtain ⟨j, hj, rfl⟩ := List.mem_map.mp hi
        have := List.mem_range.mp hj
        have := hlen l hl h hh
        exact ⟨Int.natCast_nonneg j, Int.ofNat_lt.mpr (by omega)⟩
    simp [hok]
  simp only [validateSelection, hrow, if_neg hshape, if_neg hvalid]

/-- The rows, the cells and the free slots are those of `s`. -/
structure Restored (s s₂ : HeadSlotAllocator) : Prop where
  inv : HeadSlotAllocator.Inv s₂
  shape : SameShape s s₂
  seqRows : s₂.seqRows = s.seqRows
  freeRows : s₂.freeRows = s.freeRows
  pairs : ∀ l < s.layers, ∀ r, ∀ h < s.heads, s₂.livePairs l r h = s.livePairs l r h

variable {s₂ : HeadSlotAllocator}

theorem Restored.freeIds (hi : HeadSlotAllocator.Inv s) (h : Restored s s₂) (hl : l < s.layers) :
    (s₂.freeIds l : Multiset Int) = s.freeIds l := by
  have hlive : s₂.liveIds l = s.liveIds l := by
    rw [liveIds, liveIds, h.shape.rows, h.shape.heads]
    refine Finset.sum_congr rfl fun r _ => Finset.sum_congr rfl fun k hk => ?_
    rw [cells_eq, cells_eq, h.pairs l hl r k (Finset.mem_range.mp hk)]
  have hpart := h.inv.partition l (by rw [h.shape.layers]; exact hl)
  rw [h.shape.allIds, ← hi.partition l hl, hlive] at hpart
  exact add_right_cancel hpart

theorem Restored.freeCounts (hi : HeadSlotAllocator.Inv s) (h : Restored s s₂) (hl : l < s.layers) :
    s₂.freeCounts l = s.freeCounts l := by
  rw [← card_freeIds, ← card_freeIds, h.freeIds hi hl]

theorem Restored.holds (hi : HeadSlotAllocator.Inv s) (h : Restored s s₂) {x : Int}
    (hn : Holds s x n) : Holds s₂ x n := by
  refine hn.same hi h.inv h.shape fun l hl k hk => ?_
  rw [headLength, headLength, h.seqRows]
  cases s.seqRows.get? x with
  | none => rfl
  | some r =>
    dsimp only
    rw [lengths_eq, lengths_eq, h.pairs l hl r k hk]

theorem releaseSuffix_restores (hp : Prolonged s s₁ row) (hrow : s.seqRows.get? sid = some row)
    (hlen : ∀ l < s.layers, ∀ h < s.heads, s.lengths l row h = length) (hpos : 0 < length) :
    ∃ s₂, releaseSuffix sid length s₁ = (.ok (), s₂) ∧ Restored s s₂ := by
  have hrow₁ : s₁.seqRows.get? sid = some row := by rw [hp.seqRows, hrow]
  have hlen₁ : ∀ l < s₁.layers, ∀ h < s₁.heads, length ≤ s₁.lengths l row h := fun l hl h hh => by
    rw [hp.shape.layers] at hl
    rw [hp.shape.heads] at hh
    exact (hlen l hl h hh).ge.trans (hp.longer l h)
  obtain ⟨released, s₂, hcompact, hi₂, hshape, -, hrows, -, hkept, hothers⟩ :=
    compact_spec hp.inv (validateSelection_firstCells hrow₁ hlen₁ hpos)
  have hcheck : ¬ (s₁.layerHeads.any fun lh => decide (s₁.lengths lh.1 row lh.2 < length)) = true := by
    rw [Bool.not_eq_true, any_eq_false]
    intro lh hlh
    obtain ⟨hl, hh⟩ := mem_layerHeads.mp hlh
    simpa using hlen₁ lh.1 hl lh.2 hh
  refine ⟨s₂, ?_, hi₂, hp.shape.trans hshape, hrows.trans hp.seqRows,
    (compact_free hcompact).1.trans hp.freeRows, fun l hl r h hh => ?_⟩
  · simp only [releaseSuffix, bind_run, get_run, hrow₁, raiseIf, if_neg hcheck, hcompact, pure_run]
  · by_cases hr : r = row
    · have hl₁ : l < s₁.layers := hp.shape.layers ▸ hl
      have hh₁ : h < s₁.heads := hp.shape.heads ▸ hh
      rw [hr, hkept l hl₁ h hh₁, selectionAt_firstCells hl₁ hh₁, Option.getD_some, List.map_map, livePairs,
        hlen l hl h hh]
      refine List.map_congr_left fun c hc => ?_
      have hc : c < s.lengths l row h := by rw [hlen l hl h hh]; exact List.mem_range.mp hc
      obtain ⟨hslot, hposition⟩ := hp.cells l h c hc
      simp only [Function.comp_apply, Int.ofNat_eq_natCast, Int.toNat_natCast, hslot, hposition]
    · rw [hothers l r h hr, hp.others l r h hr]

/-- The rows with their `(slot, position)` pairs. -/
structure HeadView where
  layers : Nat
  heads : Nat
  seqRows : Dict Int Nat
  freeRows : List Nat
  pairs : Nat → Nat → Nat → List (Int × Int)
  free : Nat → Multiset Int

def viewOf (s : HeadSlotAllocator) : HeadView where
  layers := s.layers
  heads := s.heads
  seqRows := s.seqRows
  freeRows := s.freeRows
  pairs l r h := if l < s.layers ∧ h < s.heads then s.livePairs l r h else []
  free l := if l < s.layers then s.freeIds l else 0

theorem Restored.view (hi : HeadSlotAllocator.Inv s) (h : Restored s s₂) :
    viewOf s₂ = viewOf s := by
  have hpairs : (fun l r k => if l < s₂.layers ∧ k < s₂.heads then s₂.livePairs l r k else []) =
      fun l r k => if l < s.layers ∧ k < s.heads then s.livePairs l r k else [] := by
    funext l r k
    rw [h.shape.layers, h.shape.heads]
    split
    · next hlk => exact h.pairs l hlk.1 r k hlk.2
    · rfl
  have hfree : (fun l => if l < s₂.layers then (s₂.freeIds l : Multiset Int) else 0) =
      fun l => if l < s.layers then (s.freeIds l : Multiset Int) else 0 := by
    funext l
    rw [h.shape.layers]
    split
    · next hl => exact h.freeIds hi hl
    · rfl
  rw [viewOf, viewOf, hpairs, hfree, h.seqRows, h.freeRows, h.shape.layers, h.shape.heads]

def laws (layers heads reserve : Nat) : ReplayLaws (replayStore layers heads reserve) reserve where
  Good s := HeadSlotAllocator.Inv s ∧ s.layers = layers ∧ s.heads = heads
  Holds := Holds
  View := HeadView
  view := viewOf
  prefill_spec {s s' batch outstanding} hgood hrun _ _ := by
    obtain ⟨hi, hlayers, hheads⟩ := hgood
    obtain ⟨hi', hshape, hin, hout, hfree⟩ := append_ok hi hrun
    refine ⟨⟨hi', hshape.layers.trans hlayers, hshape.heads.trans hheads⟩, hin, hout, fun _ l hl => ?_⟩
    rw [← hheads]
    exact hfree l (hlayers ▸ hl)
  decode_spec {s s' batch} hgood hrun _ := by
    obtain ⟨hi, hlayers, hheads⟩ := hgood
    obtain ⟨hi', hshape, -, hout, -⟩ := append_ok hi hrun
    refine ⟨⟨hi', hshape.layers.trans hlayers, hshape.heads.trans hheads⟩, fun x hx => hout x ?_⟩
    rw [List.map_map]
    exact hx
  replay_restores {s sid length} size o hgood hholds hlength := by
    obtain ⟨hi, hlayers, hheads⟩ := hgood
    obtain ⟨row, hrow⟩ : ∃ row, s.seqRows.get? sid = some row := by
      cases hget : s.seqRows.get? sid with
      | none => rw [Holds, hget] at hholds; omega
      | some row => exact ⟨row, rfl⟩
    obtain ⟨s₂, hrelease, hrestored⟩ := releaseSuffix_restores
      (forward_prolonged hi hrow layers length size o) hrow ((holds_row hrow).mp hholds) hlength
    exact ⟨_, _, s₂, rfl, hrelease, hrestored.view hi, ⟨hrestored.inv,
      hrestored.shape.layers.trans hlayers, hrestored.shape.heads.trans hheads⟩,
      fun _ _ => hrestored.holds hi, fun l hl => hrestored.freeCounts hi (hlayers ▸ hl)⟩
  compact_spec {s s' sid keep} hgood hrun := by
    obtain ⟨hi, hlayers, hheads⟩ := hgood
    obtain ⟨hi', hshape, hout, hfree⟩ := compact_ok hi hrun
    exact ⟨⟨hi', hshape.layers.trans hlayers, hshape.heads.trans hheads⟩, hout, fun l _ => hfree l⟩
  freeSeq_spec {s s' sid} hgood hrun := by
    obtain ⟨hi, hlayers, hheads⟩ := hgood
    obtain ⟨hi', hshape, hzero, hout⟩ := freeSeq_ok hi hrun
    exact ⟨⟨hi', hshape.layers.trans hlayers, hshape.heads.trans hheads⟩, hzero, hout⟩

end HeadRows

end SparseEngine.KVzip
