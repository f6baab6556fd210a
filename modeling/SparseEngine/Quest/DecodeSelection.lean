import SparseEngine.Lib.Dict

/-! The scheduler fills a decode batch from one pool of token slots. -/

namespace SparseEngine.Quest

/-- What decode capacity reads of `QuestCacheManager`. -/
structure QuestCapacity where
  pageSize : Nat
  pageSize_pos : 0 < pageSize
  seqIdToRow : Dict Nat Nat
  rowSeqLens : Nat → Nat
  numFreePages : Nat
  reclaimablePages : Nat

/-- What decode selection reads of a `Sequence`. -/
structure DecodeSeq where
  seqId : Nat
  numCompletionTokens : Nat := 0
  numPendingOutputs : Nat := 0
  maxTokens : Nat
deriving DecidableEq, Repr

namespace QuestCapacity

def seqLen (s : QuestCapacity) (seqId : Nat) : Nat :=
  match s.seqIdToRow.get? seqId with
  | none => 0
  | some row => s.rowSeqLens row

def requiredNewPages (s : QuestCapacity) (seqId size : Nat) : Nat :=
  let curLen := s.seqLen seqId
  let beforePages := (curLen + s.pageSize - 1) / s.pageSize
  let afterPages := (curLen + size + s.pageSize - 1) / s.pageSize
  afterPages - beforePages

def partialDecodeSlots (s : QuestCapacity) : Nat :=
  (s.seqIdToRow.values.filter fun row => decide (s.rowSeqLens row % s.pageSize ≠ 0)).length

def decodeStepFreeSlots (s : QuestCapacity) : Nat :=
  (s.numFreePages + s.reclaimablePages) * s.pageSize + s.partialDecodeSlots

def decodeStepFreeSlotsFor (s : QuestCapacity) (seqId : Nat) : Nat :=
  if s.requiredNewPages seqId 1 = 0 then 1
  else if 0 < s.numFreePages + s.reclaimablePages then s.pageSize else 0

def decodeStepReservationCost (s : QuestCapacity) (seqId : Nat) : Nat :=
  if s.requiredNewPages seqId 1 = 0 then 1 else s.pageSize

/-- `_evict_prefix_cache_until_free`. -/
def evictPrefixCacheUntilFree (s : QuestCapacity) (neededPages : Nat) : QuestCapacity :=
  if neededPages ≤ s.numFreePages then s
  else
    let evicted := min (neededPages - s.numFreePages) s.reclaimablePages
    { s with
      numFreePages := s.numFreePages + evicted
      reclaimablePages := s.reclaimablePages - evicted }

/-- The new pages that `_allocate_batch` counts for one token of each sequence. -/
def neededPages (s : QuestCapacity) (batch : List DecodeSeq) : Nat :=
  (batch.filter fun seq => decide (s.seqLen seq.seqId % s.pageSize = 0)).length

/-- The page check of `_allocate_batch`. -/
def allocateBatch (s : QuestCapacity) (batch : List DecodeSeq) : Except String QuestCapacity :=
  let needed := s.neededPages batch
  let s := if 0 < needed then s.evictPrefixCacheUntilFree needed else s
  if s.numFreePages < needed then .error "Out of QuEST KV pages"
  else .ok s

end QuestCapacity

def DecodeSeq.finished (seq : DecodeSeq) : Bool :=
  decide (seq.maxTokens ≤ seq.numCompletionTokens + seq.numPendingOutputs)

/-- The loop of `_eligible_decode_batch`. -/
def selectDecode (s : QuestCapacity) (maxDecodingSeqs : Nat) :
    List DecodeSeq → Nat → List DecodeSeq → List DecodeSeq
  | [], _, batch => batch
  | seq :: queue, free, batch =>
    if seq.finished then
      selectDecode s maxDecodingSeqs queue free batch
    else
      let cost := s.decodeStepReservationCost seq.seqId
      if min free (s.decodeStepFreeSlotsFor seq.seqId) < cost then
        if free = 0 then batch else selectDecode s maxDecodingSeqs queue free batch
      else
        let batch := batch ++ [seq]
        if batch.length = maxDecodingSeqs then batch
        else selectDecode s maxDecodingSeqs queue (free - cost) batch

def eligibleDecodeBatch (s : QuestCapacity) (maxDecodingSeqs : Nat) (decoding : List DecodeSeq) :
    List DecodeSeq :=
  selectDecode s maxDecodingSeqs decoding s.decodeStepFreeSlots []

/-- The decode loop of `_schedule_impl`. -/
def decodeLoop (s : QuestCapacity) (maxDecodingSeqs : Nat) :
    Nat → List DecodeSeq → Nat → List DecodeSeq → List DecodeSeq × List DecodeSeq
  | 0, decoding, _, scheduled => (scheduled, decoding)
  | _ + 1, [], _, scheduled => (scheduled, [])
  | scanBudget + 1, seq :: decoding, free, scheduled =>
    if maxDecodingSeqs ≤ scheduled.length then
      (scheduled, seq :: decoding)
    else if seq.finished then
      decodeLoop s maxDecodingSeqs scanBudget (decoding ++ [seq]) free scheduled
    else
      let cost := s.decodeStepReservationCost seq.seqId
      if min free (s.decodeStepFreeSlotsFor seq.seqId) < cost then
        if 0 < free then
          decodeLoop s maxDecodingSeqs scanBudget (decoding ++ [seq]) free scheduled
        else if scheduled ≠ [] then
          (scheduled, decoding ++ [seq])
        else
          (scheduled, seq :: decoding)
      else
        decodeLoop s maxDecodingSeqs scanBudget decoding (free - cost) (scheduled ++ [seq])

def scheduleDecode (s : QuestCapacity) (maxDecodingSeqs : Nat) (decoding : List DecodeSeq) :
    List DecodeSeq :=
  (decodeLoop s maxDecodingSeqs decoding.length decoding s.decodeStepFreeSlots []).1

section

variable (s : QuestCapacity)

variable (seq : DecodeSeq)

def NeedsPage : Bool := decide (s.seqLen seq.seqId % s.pageSize = 0)

theorem requiredNewPages_one (seqId : Nat) :
    s.requiredNewPages seqId 1 = if s.seqLen seqId % s.pageSize = 0 then 1 else 0 := by
  have hpos := s.pageSize_pos
  simp only [QuestCapacity.requiredNewPages]
  generalize s.seqLen seqId = n
  generalize s.pageSize = d at *
  have hmod := Nat.mod_lt n hpos
  rw [show n + 1 + d - 1 = n + d by omega, Nat.add_div_right _ hpos]
  split
  · next hzero =>
    obtain ⟨q, rfl⟩ := Nat.dvd_of_mod_eq_zero hzero
    rw [Nat.add_sub_assoc hpos, Nat.mul_add_div hpos, Nat.mul_div_cancel_left _ hpos,
      Nat.div_eq_of_lt (show d - 1 < d by omega)]
    omega
  · next hne =>
    have hdiv := Nat.div_add_mod n d
    have hsplit : n + d - 1 = d * (n / d + 1) + (n % d - 1) := by
      rw [Nat.mul_add, Nat.mul_one]
      omega
    rw [hsplit, Nat.mul_add_div hpos, Nat.div_eq_of_lt (show n % d - 1 < d by omega)]
    omega

theorem cost_eq :
    s.decodeStepReservationCost seq.seqId = if NeedsPage s seq then s.pageSize else 1 := by
  rw [QuestCapacity.decodeStepReservationCost, requiredNewPages_one, NeedsPage]
  by_cases h : s.seqLen seq.seqId % s.pageSize = 0 <;> simp [h]

theorem freeFor_eq :
    s.decodeStepFreeSlotsFor seq.seqId = if NeedsPage s seq then
      (if 0 < s.numFreePages + s.reclaimablePages then s.pageSize else 0) else 1 := by
  rw [QuestCapacity.decodeStepFreeSlotsFor, requiredNewPages_one, NeedsPage]
  by_cases h : s.seqLen seq.seqId % s.pageSize = 0 <;> simp [h]

abbrev pages : Nat := s.numFreePages + s.reclaimablePages

def unfinished (decoding : List DecodeSeq) : List DecodeSeq :=
  decoding.filter fun seq => !seq.finished

/-- In the queue `w`, after `k` sequences that took a page and `p` that took a cell, the
sequence that asks for one page more than there are still finds a page of cells. -/
def Overspends (maxDecodingSeqs : Nat) (w : List DecodeSeq) (k p : Nat) : Prop :=
  0 < pages s ∧ ∃ before seq after, w = before ++ seq :: after ∧ NeedsPage s seq = true ∧
    k + before.countP (NeedsPage s) = pages s ∧
    s.pageSize + p + before.countP (fun q => !NeedsPage s q) ≤ s.partialDecodeSlots ∧
    (maxDecodingSeqs = 0 ∨ k + p + before.length < maxDecodingSeqs)

variable {s} {maxDecodingSeqs : Nat}

theorem overspends_nil {k p : Nat} : ¬ Overspends s maxDecodingSeqs [] k p := by
  rintro ⟨-, before, seq, after, h, -⟩
  simp at h

theorem overspends_page {seq : DecodeSeq} {w : List DecodeSeq} {k p : Nat}
    (hneed : NeedsPage s seq = true) (hk : k ≠ pages s) :
    Overspends s maxDecodingSeqs (seq :: w) k p ↔ Overspends s maxDecodingSeqs w (k + 1) p := by
  refine and_congr_right fun _ => ?_
  constructor
  · rintro ⟨before, x, after, hw, hx, hpages, hcells, hmax⟩
    cases before with
    | nil => exact absurd hpages hk
    | cons y before =>
      rw [List.cons_append, List.cons.injEq] at hw
      obtain ⟨rfl, rfl⟩ := hw
      rw [List.countP_cons_of_pos hneed] at hpages
      rw [List.countP_cons_of_neg (by simp [hneed])] at hcells
      rw [List.length_cons] at hmax
      exact ⟨before, x, after, rfl, hx, by omega, hcells, by omega⟩
  · rintro ⟨before, x, after, rfl, hx, hpages, hcells, hmax⟩
    refine ⟨seq :: before, x, after, rfl, hx, ?_, ?_, ?_⟩
    · rw [List.countP_cons_of_pos hneed]
      omega
    · rwa [List.countP_cons_of_neg (by simp [hneed])]
    · rw [List.length_cons]
      omega

theorem overspends_cell {seq : DecodeSeq} {w : List DecodeSeq} {k p : Nat}
    (hneed : NeedsPage s seq = false) :
    Overspends s maxDecodingSeqs (seq :: w) k p ↔ Overspends s maxDecodingSeqs w k (p + 1) := by
  refine and_congr_right fun _ => ?_
  constructor
  · rintro ⟨before, x, after, hw, hx, hpages, hcells, hmax⟩
    cases before with
    | nil =>
      rw [List.nil_append, List.cons.injEq] at hw
      rw [← hw.1, hneed] at hx
      cases hx
    | cons y before =>
      rw [List.cons_append, List.cons.injEq] at hw
      obtain ⟨rfl, rfl⟩ := hw
      rw [List.countP_cons_of_neg (by simp [hneed])] at hpages
      rw [List.countP_cons_of_pos (by simp [hneed])] at hcells
      rw [List.length_cons] at hmax
      exact ⟨before, x, after, rfl, hx, hpages, by omega, by omega⟩
  · rintro ⟨before, x, after, rfl, hx, hpages, hcells, hmax⟩
    refine ⟨seq :: before, x, after, rfl, hx, ?_, ?_, ?_⟩
    · rwa [List.countP_cons_of_neg (by simp [hneed])]
    · rw [List.countP_cons_of_pos (by simp [hneed])]
      omega
    · rw [List.length_cons]
      omega

theorem not_overspends_of_full {w : List DecodeSeq} {k p : Nat} (h : maxDecodingSeqs = k + p)
    (hpos : 0 < k + p) : ¬ Overspends s maxDecodingSeqs w k p := by
  rintro ⟨-, before, seq, after, -, -, -, -, hmax⟩
  omega

theorem not_overspends_of_cells {w : List DecodeSeq} {k p : Nat}
    (h : s.partialDecodeSlots < s.pageSize + p) : ¬ Overspends s maxDecodingSeqs w k p := by
  rintro ⟨-, before, seq, after, -, -, -, hcells, -⟩
  omega

theorem neededPages_append (batch : List DecodeSeq) (seq : DecodeSeq) :
    s.neededPages (batch ++ [seq]) = s.neededPages batch + if NeedsPage s seq then 1 else 0 := by
  simp only [QuestCapacity.neededPages, List.filter_append, List.length_append]
  cases h : NeedsPage s seq <;> simp_all [NeedsPage]

theorem neededPages_le_select : ∀ (queue : List DecodeSeq) (free : Nat) (batch : List DecodeSeq),
    s.neededPages batch ≤ s.neededPages (selectDecode s maxDecodingSeqs queue free batch)
  | [], _, _ => le_refl _
  | seq :: queue, free, batch => by
    have hadd : s.neededPages batch ≤ s.neededPages (batch ++ [seq]) := by
      rw [neededPages_append]
      exact Nat.le_add_right _ _
    unfold selectDecode
    split
    · exact neededPages_le_select queue free batch
    · simp only
      split
      · split
        · exact le_refl _
        · exact neededPages_le_select queue free batch
      · split
        · exact hadd
        · exact hadd.trans (neededPages_le_select queue _ _)

theorem select_within_pages : ∀ (queue : List DecodeSeq) (k p free : Nat) (batch : List DecodeSeq),
    batch.length = k + p → s.neededPages batch = k → k ≤ pages s →
    p + (unfinished queue).countP (fun q => !NeedsPage s q) ≤ s.partialDecodeSlots →
    free = (pages s - k) * s.pageSize + (s.partialDecodeSlots - p) →
    (maxDecodingSeqs = 0 ∨ k + p < maxDecodingSeqs) →
    (s.neededPages (selectDecode s maxDecodingSeqs queue free batch) ≤ pages s ↔
      ¬ Overspends s maxDecodingSeqs (unfinished queue) k p)
  | [], k, p, free, batch, _, hneed, hk, _, _, _ => by
    rw [selectDecode, hneed]
    exact iff_of_true hk overspends_nil
  | seq :: queue, k, p, free, batch, hlen, hneed, hk, hcells, hfree, hmax => by
    have hpos := s.pageSize_pos
    cases hfin : seq.finished with
    | true =>
      have hw : unfinished (seq :: queue) = unfinished queue := by simp [unfinished, hfin]
      rw [hw] at hcells ⊢
      rw [selectDecode, if_pos hfin]
      exact select_within_pages queue k p free batch hlen hneed hk hcells hfree hmax
    | false =>
      have hw : unfinished (seq :: queue) = seq :: unfinished queue := by simp [unfinished, hfin]
      rw [hw] at hcells ⊢
      rw [List.countP_cons] at hcells
      rw [selectDecode, hfin, if_neg Bool.false_ne_true, cost_eq, freeFor_eq]
      simp only
      cases hpage : NeedsPage s seq with
      | false =>
        -- A cell of its own page is left for the sequence.
        rw [hpage, Bool.not_false, if_pos rfl] at hcells
        have hone : ¬ min free 1 < 1 := by omega
        have hneed' : s.neededPages (batch ++ [seq]) = k := by
          rw [neededPages_append, hpage, hneed]
          rfl
        have hlen' : (batch ++ [seq]).length = k + (p + 1) := by
          rw [List.length_append, hlen]
          rfl
        rw [if_neg Bool.false_ne_true, if_neg Bool.false_ne_true, if_neg hone, overspends_cell hpage]
        split
        · next hfull =>
          rw [hneed']
          exact iff_of_true hk (not_overspends_of_full (hfull.symm.trans hlen') (by omega))
        · next hmore =>
          refine select_within_pages queue k (p + 1) _ _ hlen' hneed' hk (by omega) (by omega) ?_
          omega
      | true =>
        rw [hpage, Bool.not_true, if_neg Bool.false_ne_true, Nat.add_zero] at hcells
        rw [if_pos rfl, if_pos rfl]
        rcases Nat.eq_zero_or_pos (pages s) with hzero | hsome
        · -- Without pages no sequence at a boundary is selected.
          have hno : ∀ w k p, ¬ Overspends s maxDecodingSeqs w k p := fun w k p h =>
            absurd h.1 (by omega)
          rw [if_neg (show ¬ 0 < pages s by omega), Nat.min_zero, if_pos hpos]
          split
          · rw [hneed]
            exact iff_of_true hk (hno _ _ _)
          · have ih := select_within_pages queue k p free batch hlen hneed hk hcells hfree hmax
            exact ih.trans (iff_of_true (hno _ _ _) (hno _ _ _))
        · rw [if_pos (show 0 < s.numFreePages + s.reclaimablePages from hsome)]
          have hneed' : s.neededPages (batch ++ [seq]) = k + 1 := by
            rw [neededPages_append, hpage, hneed]
            rfl
          have hlen' : (batch ++ [seq]).length = k + 1 + p := by
            rw [List.length_append, hlen, List.length_singleton]
            omega
          rcases Nat.lt_or_ge k (pages s) with hless | hall
          · -- A page is left for the sequence.
            have hpage' : (pages s - k) * s.pageSize = (pages s - (k + 1)) * s.pageSize + s.pageSize := by
              rw [← Nat.succ_mul]
              congr 1
              omega
            rw [if_neg (by omega), overspends_page hpage (by omega)]
            split
            · next hfull =>
              rw [hneed']
              exact iff_of_true hless (not_overspends_of_full (hfull.symm.trans hlen') (by omega))
            · next hmore =>
              exact select_within_pages queue (k + 1) p _ _ hlen' hneed' hless hcells (by omega)
                (by omega)
          · -- All pages are spent; what is left are cells.
            have hk' : k = pages s := by omega
            rw [hk', Nat.sub_self, Nat.zero_mul, Nat.zero_add] at hfree
            split
            · next hshort =>
              have hcell : s.partialDecodeSlots < s.pageSize + p := by omega
              have hno := fun w : List DecodeSeq => @not_overspends_of_cells s maxDecodingSeqs w k p hcell
              split
              · rw [hneed]
                exact iff_of_true hk (hno _)
              · have hfree' : free = (pages s - k) * s.pageSize + (s.partialDecodeSlots - p) := by
                  rw [hk', Nat.sub_self, Nat.zero_mul, Nat.zero_add, hfree]
                have ih := select_within_pages queue k p free batch hlen hneed hk hcells hfree' hmax
                exact ih.trans (iff_of_true (hno _) (hno _))
            · next henough =>
              have hover : Overspends s maxDecodingSeqs (seq :: unfinished queue) k p :=
                ⟨hsome, [], seq, unfinished queue, rfl, hpage, by simpa using hk', by
                  simp only [List.countP_nil]
                  omega, by simpa using hmax⟩
              have hmore : ¬ k + 1 ≤ pages s := by omega
              refine iff_of_false (fun hle => hmore ?_) (not_not.mpr hover)
              split at hle
              · rwa [hneed'] at hle
              · exact (hneed' ▸ neededPages_le_select queue _ (batch ++ [seq])).trans hle

theorem cells_enough {decoding : List DecodeSeq} (nodup : (decoding.map (·.seqId)).Nodup) :
    (unfinished decoding).countP (fun q => !NeedsPage s q) ≤ s.partialDecodeSlots := by
  set inside := (unfinished decoding).filter fun q => !NeedsPage s q with hinside
  set entries := s.seqIdToRow.entries.filter
    fun e => decide (s.rowSeqLens e.2 % s.pageSize ≠ 0) with hentries
  have hslots : s.partialDecodeSlots = (entries.map Prod.fst).length := by
    rw [QuestCapacity.partialDecodeSlots, Dict.values, List.filter_map, List.length_map,
      List.length_map]
    rfl
  have hsub : inside.Sublist decoding := List.filter_sublist.trans List.filter_sublist
  have hids : (inside.map (·.seqId)).Nodup := (hsub.map _).nodup nodup
  have hmem : inside.map (·.seqId) ⊆ entries.map Prod.fst := by
    intro seqId hseq
    obtain ⟨seq, hin, rfl⟩ := List.mem_map.mp hseq
    have hcell : s.seqLen seq.seqId % s.pageSize ≠ 0 := by
      simpa [NeedsPage] using (List.mem_filter.mp hin).2
    rw [QuestCapacity.seqLen] at hcell
    cases hrow : s.seqIdToRow.get? seq.seqId with
    | none => simp [hrow] at hcell
    | some row =>
      rw [hrow] at hcell
      exact List.mem_map.mpr ⟨(seq.seqId, row), List.mem_filter.mpr
        ⟨Dict.mem_entries.mpr hrow, decide_eq_true hcell⟩, rfl⟩
  rw [List.countP_eq_length_filter, hslots, ← List.length_map (f := fun q : DecodeSeq => q.seqId)]
  exact (hids.subperm hmem).length_le

theorem evict_short_iff (n : Nat) :
    (if 0 < n then s.evictPrefixCacheUntilFree n else s).numFreePages < n ↔ pages s < n := by
  rw [pages, QuestCapacity.evictPrefixCacheUntilFree]
  split
  · split
    · omega
    · simp only
      omega
  · omega

theorem allocateBatch_ok_iff (batch : List DecodeSeq) :
    (∃ s', s.allocateBatch batch = .ok s') ↔ s.neededPages batch ≤ pages s := by
  simp only [QuestCapacity.allocateBatch, evict_short_iff]
  split
  · next hshort =>
    refine iff_of_false ?_ (by omega)
    rintro ⟨s', h⟩
    cases h
  · next henough => exact iff_of_true ⟨_, rfl⟩ (by omega)

theorem decodeLoop_eq : ∀ (queue requeued : List DecodeSeq) (free : Nat) (scheduled : List DecodeSeq),
    scheduled.length < maxDecodingSeqs →
    (decodeLoop s maxDecodingSeqs queue.length (queue ++ requeued) free scheduled).1 =
      selectDecode s maxDecodingSeqs queue free scheduled
  | [], requeued, free, scheduled, _ => rfl
  | seq :: queue, requeued, free, scheduled, hmax => by
    rw [List.length_cons, List.cons_append, decodeLoop, if_neg (by omega), selectDecode]
    split
    · rw [List.append_assoc]
      exact decodeLoop_eq queue (requeued ++ [seq]) free scheduled hmax
    · simp only
      split
      · rcases Nat.eq_zero_or_pos free with hzero | hsome
        · rw [if_neg (by omega), if_pos hzero]
          split <;> rfl
        · rw [if_pos hsome, if_neg (by omega), List.append_assoc]
          exact decodeLoop_eq queue (requeued ++ [seq]) free scheduled hmax
      · split
        · next hfull =>
          -- The batch is full: the loop stops before the next sequence.
          cases queue with
          | nil => rfl
          | cons x queue => rw [List.length_cons, List.cons_append, decodeLoop, if_pos (by omega)]
        · next hmore =>
          refine decodeLoop_eq queue requeued _ _ ?_
          rw [List.length_append, List.length_singleton] at hmore ⊢
          omega

/-- When the selected batch stays within the pages. -/
theorem eligible_batch_within_pages {decoding : List DecodeSeq}
    (distinct : (decoding.map (·.seqId)).Nodup) :
    (s.neededPages (eligibleDecodeBatch s maxDecodingSeqs decoding) ≤
        s.numFreePages + s.reclaimablePages ∧
      (∃ s', s.allocateBatch (eligibleDecodeBatch s maxDecodingSeqs decoding) = .ok s') ∧
      (0 < maxDecodingSeqs → scheduleDecode s maxDecodingSeqs decoding =
        eligibleDecodeBatch s maxDecodingSeqs decoding)) ↔
      ¬ Overspends s maxDecodingSeqs (unfinished decoding) 0 0 := by
  have hloop : 0 < maxDecodingSeqs → scheduleDecode s maxDecodingSeqs decoding =
      eligibleDecodeBatch s maxDecodingSeqs decoding := by
    intro hpos
    have h := @decodeLoop_eq s maxDecodingSeqs decoding [] s.decodeStepFreeSlots [] hpos
    rwa [List.append_nil] at h
  have hselect := @select_within_pages s maxDecodingSeqs decoding 0 0 s.decodeStepFreeSlots [] rfl rfl
    (Nat.zero_le _) (by rw [Nat.zero_add]; exact cells_enough distinct) (by simp [QuestCapacity.decodeStepFreeSlots])
    (by omega)
  rw [← hselect]
  exact ⟨fun h => h.1, fun h => ⟨h, (allocateBatch_ok_iff _).mpr h, hloop⟩⟩

def twoCells : QuestCapacity where
  pageSize := 2
  pageSize_pos := Nat.two_pos
  seqIdToRow := (((Dict.empty.set 0 0).set 1 1).set 2 2).set 3 3
  rowSeqLens row := if row < 2 then 2 else 1
  numFreePages := 1
  reclaimablePages := 0

/-- A queue that starts inside a page spends its cells on itself and stays within the page. -/
theorem eligible_batch_within_pages_demo :
    twoCells.neededPages (eligibleDecodeBatch twoCells 4 [⟨2, 0, 0, 8⟩, ⟨0, 0, 0, 8⟩, ⟨1, 0, 0, 8⟩]) ≤
      twoCells.numFreePages + twoCells.reclaimablePages :=
  ((@eligible_batch_within_pages twoCells 4 [⟨2, 0, 0, 8⟩, ⟨0, 0, 0, 8⟩, ⟨1, 0, 0, 8⟩] (by decide)).mpr
    (by
      rw [← @select_within_pages twoCells 4 _ 0 0 twoCells.decodeStepFreeSlots [] rfl rfl (by decide)
        (by decide) (by decide) (by decide)]
      decide)).1

/-- The two boundary sequences come first. -/
theorem eligible_batch_overspends :
    eligibleDecodeBatch twoCells 4 [⟨0, 0, 0, 8⟩, ⟨1, 0, 0, 8⟩, ⟨2, 0, 0, 8⟩, ⟨3, 0, 0, 8⟩] =
        [⟨0, 0, 0, 8⟩, ⟨1, 0, 0, 8⟩] ∧
      ¬ twoCells.neededPages
          (eligibleDecodeBatch twoCells 4 [⟨0, 0, 0, 8⟩, ⟨1, 0, 0, 8⟩, ⟨2, 0, 0, 8⟩, ⟨3, 0, 0, 8⟩]) ≤
        twoCells.numFreePages + twoCells.reclaimablePages ∧
      (∀ s', twoCells.allocateBatch
        (eligibleDecodeBatch twoCells 4
          [⟨0, 0, 0, 8⟩, ⟨1, 0, 0, 8⟩, ⟨2, 0, 0, 8⟩, ⟨3, 0, 0, 8⟩]) ≠ .ok s') := by
  refine ⟨by decide, by decide, fun s' h => ?_⟩
  have := (allocateBatch_ok_iff _).mp ⟨s', h⟩
  revert this
  decide

end

end SparseEngine.Quest
