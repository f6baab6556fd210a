import SparseEngine.Quantized.Contents
import Mathlib.Algebra.Order.Floor.Div

/-! A run is a sequence of prefill steps, decode steps and frees. -/

namespace SparseEngine.QuantizedCacheManager

open PyM QuantizedPagePool Blocks List Dict Shares

variable {τ : Type} {m m' : QuantizedCacheManager τ} {numPages : Nat} {sid : Int}
  {hist : Int → List τ} {enc : Int → List (PageWrite τ)}

/-- The pages of a sequence read back as all that was appended. -/
structure Consistent (numPages : Nat) (m : QuantizedCacheManager τ) (hist : Int → List τ)
    (enc : Int → List (PageWrite τ)) : Prop where
  layout : Layout numPages m
  contents : Contents m hist enc
  full : ∀ sid, (hist sid).length = m.pool.length sid

theorem recordAll_of_notMem {α : Type} {news : List (Int × List α)} (h : sid ∉ news.map Prod.fst)
    (f : Int → List α) : recordAll f news sid = f sid := by
  induction news generalizing f with
  | nil => rfl
  | cons new news ih =>
    rw [map_cons, mem_cons, not_or] at h
    exact (ih h.2 (record f new.1 new.2)).trans (record_ne h.1)

theorem recordAll_of_mem {α : Type} {news : List (Int × List α)} (hnd : (news.map Prod.fst).Nodup)
    {new : Int × List α} (h : new ∈ news) (f : Int → List α) :
    recordAll f news new.1 = f new.1 ++ new.2 := by
  induction news generalizing f with
  | nil => exact absurd h not_mem_nil
  | cons first news ih =>
    rw [map_cons, nodup_cons] at hnd
    rcases mem_cons.mp h with rfl | h
    · exact (recordAll_of_notMem hnd.1 _).trans record_self
    · have hne : new.1 ≠ first.1 := fun he => hnd.1 (mem_map.mpr ⟨new, h, he⟩)
      exact (ih hnd.2 h (record f first.1 first.2)).trans (by rw [record_ne hne])

theorem full_recordAll {news : List (Int × List τ)} (hnd : (news.map Prod.fst).Nodup)
    (hg : Grown m m' (news.map fun new => (new.1, new.2.length)))
    (hfull : ∀ sid, (hist sid).length = m.pool.length sid) (sid : Int) :
    (recordAll hist news sid).length = m'.pool.length sid := by
  by_cases hsid : sid ∈ news.map Prod.fst
  · obtain ⟨new, hnew, rfl⟩ := mem_map.mp hsid
    rw [recordAll_of_mem hnd hnew, length_append, hfull,
      hg.lengths (new.1, new.2.length) (mem_map_of_mem hnew)]
  · rw [recordAll_of_notMem hsid, hfull, (hg.others sid (by simpa using hsid)).1]

theorem sum_planned {pool : QuantizedPagePool} {rows : Dict Int Nat} {chunks : List (PrefillChunk τ)}
    (h : ∀ c ∈ chunks, c.tokens.length ≤ pool.length c.seqId) (offset : Nat) :
    ((planned pool rows chunks offset).map fun e => e.stop - e.start).sum =
      (chunks.flatMap (·.tokens)).length := by
  induction chunks generalizing offset with
  | nil => rfl
  | cons chunk chunks ih =>
    obtain ⟨hle, hrest⟩ := forall_mem_cons.mp h
    rw [planned, map_cons, sum_cons, ih hrest, flatMap_cons, length_append]
    exact congrArg (· + _) (Nat.sub_sub_self hle)

theorem Consistent.stored {m1 m2 : QuantizedCacheManager τ} {news : List (Int × List τ)}
    {raw : Nat → Nat → τ} {packed : Nat → List τ} {enc' : Int → List (PageWrite τ)}
    (h : Consistent numPages m hist enc) (hnd : (news.map Prod.fst).Nodup)
    (hg : Grown m m1 (news.map fun new => (new.1, new.2.length))) (hpool : m2.pool = m1.pool)
    (h2 : Layout numPages m2)
    (hc : Contents { m2 with raw := raw, packed := packed } (recordAll hist news) enc') :
    Consistent numPages { m2 with raw := raw, packed := packed } (recordAll hist news) enc' :=
  ⟨h2.withStore raw packed, hc, fun sid => (full_recordAll hnd hg h.full sid).trans (by rw [← hpool])⟩

theorem prefillStep_spec (h : Consistent numPages m hist enc) {chunks : List (PrefillChunk τ)}
    (hchunks : Continues m chunks) :
    (∃ e, prefillStep chunks m = (.error e, m)) ∨
    ∃ writes m', prefillStep chunks m = (.ok writes, m') ∧ m'.pool.pageSize = m.pool.pageSize ∧
      Consistent numPages m' (recordAll hist (chunks.map fun c => (c.seqId, c.tokens)))
        (recordAll enc ((chunks.map (·.seqId)).zip writes)) := by
  have hrequests : (chunks.map fun c => (c.seqId, (c.tokens.length : Int))) =
      (chunks.map PrefillChunk.request).map fun r : Int × Nat => (r.1, (r.2 : Int)) := by
    rw [map_map]
    rfl
  have hids : (chunks.map PrefillChunk.request).map Prod.fst = chunks.map (·.seqId) := by
    rw [map_map]
    rfl
  cases hneeded : m.neededPages (chunks.map fun c => (c.seqId, (c.tokens.length : Int))) with
  | error e =>
    exact Or.inl ⟨e, by simp only [prefillStep, preparePrefill, bind_run, get_run, lift_run, hneeded]⟩
  | ok n =>
    by_cases hroom : m.pool.free.length < n ∨ m.freeRows.length < m.newRows (chunks.map (·.seqId))
    · refine Or.inl
        ⟨.runtimeError "Insufficient quantized KV pages/rows for prefill batch.", ?_⟩
      simp only [prefillStep, preparePrefill, bind_run, get_run, lift_run, hneeded, raiseIf,
        if_pos hroom]
    obtain ⟨hpages, hrows⟩ := not_or.mp hroom
    have hneeded' := hneeded
    rw [hrequests] at hneeded'
    obtain ⟨hfits, hsum⟩ := neededPages_ok hneeded'
    have ha : Affordable m (chunks.map PrefillChunk.request) :=
      ⟨by rw [hids]; exact hchunks.nodup, hfits, by omega, by rw [hids]; omega⟩
    obtain ⟨slots, m1, hrun1, hslots, h1, hg⟩ := prefillLoop_spec [] h.layout hchunks ha
    rw [nil_append] at hrun1
    have hc1 := h.contents.grown h.layout hg
    have hknown : ∀ c ∈ chunks, ∃ row, m1.seqIdToRow.get? c.seqId = some row := fun c hc =>
      hg.known (PrefillChunk.request c) (mem_map_of_mem hc)
    have hlen : ∀ c ∈ chunks, (hist c.seqId).length + c.tokens.length = m1.pool.length c.seqId :=
      fun c hc => by
        rw [h.full]
        exact (hg.lengths (PrefillChunk.request c) (mem_map_of_mem hc)).symm
    have hplan := writePlanLoop_run h1 0 hknown
    -- The state that the store works on: the batch state and the write plan are set.
    obtain ⟨m2, hm2⟩ : ∃ m2, m2 = { m1 with
        slotMapping := slots
        prefillActive := true
        writePlan := planned m1.pool m1.seqIdToRow chunks 0 } := ⟨_, rfl⟩
    have hprepare : preparePrefill chunks m = (.ok (), m2) := by
      have hplan' : writePlanLoop { m1 with slotMapping := slots, prefillActive := true, writePlan := [] }
          chunks 0 = .ok (planned m1.pool m1.seqIdToRow chunks 0) :=
        writePlanLoop_run (m := { m1 with slotMapping := slots, prefillActive := true, writePlan := [] })
          (h1.withBatch _ _ _ _) 0 hknown
      simp only [preparePrefill, bind_run, get_run, lift_run, hneeded, raiseIf, if_neg hroom, hrun1,
        modify_run, hplan', hm2]
    have h2 : Layout numPages m2 := hm2 ▸ h1.withBatch slots _ true _
    have hc2 : Contents m2 hist enc := hm2 ▸ hc1.withBatch slots _ true _
    have hpool : m2.pool = m1.pool := by rw [hm2]
    have hrows2 : m2.seqIdToRow = m1.seqIdToRow := by rw [hm2]
    obtain ⟨new, raw, packed, hrun2, -, hc3⟩ := storeLoop_spec h2 hc2 hchunks.nodup
      (by rw [hrows2]; exact hknown) (by rw [hpool]; exact hlen) [] []
    have hnd : ((chunks.map fun c => (c.seqId, c.tokens)).map Prod.fst).Nodup := by
      rw [map_map]
      exact hchunks.nodup
    have hg' : Grown m m1 ((chunks.map fun c => (c.seqId, c.tokens)).map
        fun new => (new.1, new.2.length)) := by
      rw [map_map]
      exact hg
    refine Or.inr ⟨new, { m2 with raw := raw, packed := packed }, ?_, by rw [hpool, hg.pageSize],
      h.stored hnd hg' hpool h2 hc3⟩
    · have hcount : (m2.writePlan.map fun e => e.stop - e.start).sum =
          (chunks.flatMap (·.tokens)).length := by
        rw [hm2]
        exact sum_planned (fun c hc => (hlen c hc) ▸ Nat.le_add_left _ _) 0
      have hmapping : ¬ (chunks.flatMap (·.tokens)).length ≠ m2.slotMapping.length := by
        rw [not_not, hm2, hslots]
      have hactive : m2.prefillActive = true := by rw [hm2]
      have hwrite : m2.writePlan = planned m2.pool m2.seqIdToRow chunks 0 := by rw [hm2]
      have hstore : storeAttentionPayload (chunks.flatMap (·.tokens)) m2 =
          storeLoop (chunks.flatMap (·.tokens)) m2.writePlan [] m2 := by
        simp only [storeAttentionPayload, bind_run, get_run, raiseIf, if_neg hmapping, hactive,
          if_true, hcount, take_length]
      simp only [nil_append, length_nil, ← hwrite] at hrun2
      rw [prefillStep, bind_run, hprepare]
      exact hstore.trans hrun2

theorem decodeStep_spec (h : Consistent numPages m hist enc) (batch : List (Int × τ)) :
    (∃ e, decodeStep batch m = (.error e, m)) ∨
    ∃ writes m', decodeStep batch m = (.ok writes, m') ∧ m'.pool.pageSize = m.pool.pageSize ∧
      Consistent numPages m' (recordAll hist (batch.map fun b => (b.1, [b.2])))
        (recordAll enc ((batch.map Prod.fst).zip writes)) := by
  rcases allocateBatch_spec h.layout (batch.map Prod.fst) 1 with
    ⟨e, hrun⟩ | ⟨slots, m1, hrun1, -, hnodup, hslots, h1, hg⟩
  · exact Or.inl ⟨e, by simp only [decodeStep, prepareDecode, bind_run, hrun]⟩
  have hc1 := h.contents.grown h.layout hg
  have hmem : ∀ b ∈ batch, (b.1, 1) ∈ (batch.map Prod.fst).map fun sid => (sid, 1) := fun b hb =>
    mem_map_of_mem (mem_map_of_mem hb)
  have hknown : ∀ b ∈ batch, ∃ row, m1.seqIdToRow.get? b.1 = some row := fun b hb =>
    hg.known (b.1, 1) (hmem b hb)
  have hlen : ∀ b ∈ batch, (hist b.1).length + 1 = m1.pool.length b.1 := fun b hb => by
    rw [h.full]
    exact (hg.lengths (b.1, 1) (hmem b hb)).symm
  -- The batch state gives each request the row and the length of its sequence.
  have hlens : (batch.map Prod.fst).map (fun sid =>
      ((m1.seqIdToRow.get? sid).getD 0, m1.rowSeqLens ((m1.seqIdToRow.get? sid).getD 0))) =
      batch.map fun b => ((m1.seqIdToRow.get? b.1).getD 0, m1.pool.length b.1) := by
    rw [map_map]
    refine map_congr_left fun b hb => ?_
    obtain ⟨row, hrow⟩ := hknown b hb
    simp only [Function.comp_apply, hrow, Option.getD_some, (h1.lens _ _ hrow).1]
  obtain ⟨m2, hm2⟩ : ∃ m2, m2 = { m1 with
      slotMapping := slots
      reqLens := batch.map fun b : Int × τ => ((m1.seqIdToRow.get? b.1).getD 0, m1.pool.length b.1)
      prefillActive := false
      writePlan := [] } := ⟨_, rfl⟩
  have hprepare : prepareDecode (batch.map Prod.fst) m = (.ok (), m2) := by
    simp only [prepareDecode, bind_run, hrun1, modify_run, hm2, hlens]
  have h2 : Layout numPages m2 := hm2 ▸ h1.withBatch slots _ false []
  have hc2 : Contents m2 hist enc := hm2 ▸ hc1.withBatch slots _ false []
  have hpool : m2.pool = m1.pool := by rw [hm2]
  have hrows2 : m2.seqIdToRow = m1.seqIdToRow := by rw [hm2]
  obtain ⟨new, raw, packed, hrun2, -, hc3⟩ := decodeLoop_spec h2 hc2 hnodup
    (by rw [hrows2]; exact hknown) (by rw [hpool]; exact hlen) []
  have hnd : ((batch.map fun b => (b.1, [b.2])).map Prod.fst).Nodup := by
    rw [map_map]
    exact hnodup
  have hg' : Grown m m1 ((batch.map fun b => (b.1, [b.2])).map fun new => (new.1, new.2.length)) := by
    rw [map_map]
    rw [map_map] at hg
    exact hg
  refine Or.inr ⟨new, { m2 with raw := raw, packed := packed }, ?_, by rw [hpool, hg.pageSize],
    h.stored hnd hg' hpool h2 hc3⟩
  · have hmapping : ¬ (batch.map Prod.snd).length ≠ m2.slotMapping.length := by
      rw [not_not, hm2, hslots, length_map, length_map]
    have hactive : m2.prefillActive = false := by rw [hm2]
    have hzip : (batch.map Prod.snd).zip m2.reqLens =
        batch.map fun b => (b.2, (m2.seqIdToRow.get? b.1).getD 0, m2.pool.length b.1) := by
      rw [hm2, zip_map']
    rw [decodeStep, bind_run, hprepare]
    simp only [storeAttentionPayload, bind_run, get_run, raiseIf, if_neg hmapping, hactive,
      Bool.false_eq_true, if_false, hzip, hrun2, modify_run, pure_run, nil_append]

def forget {α : Type} (f : Int → List α) (sid : Int) : Int → List α :=
  fun x => if x = sid then [] else f x

theorem Consistent.freed (h : Consistent numPages m hist enc) (sid : Int) :
    (∃ e, freeSeq sid m = (.error e, m)) ∨
    ∃ m', freeSeq sid m = (.ok (), m') ∧ m'.pool.pageSize = m.pool.pageSize ∧
      Consistent numPages m' (forget hist sid) (forget enc sid) := by
  rcases freeSeq_spec h.layout sid with
    ⟨-, herr⟩ | ⟨row, m', -, hrun, h', hpages, hlengths, hP, hrows, hraw, hpacked⟩
  · exact Or.inl herr
  have hshare : ∀ x ≠ sid, share m'.pool.pages x = share m.pool.pages x := fun x hx => by
    rw [hpages, share, share, get?_erase_ne _ hx]
  have hfull : ∀ x, (forget hist sid x).length = m'.pool.length x := fun x => by
    by_cases hx : x = sid
    · simp [forget, hx, QuantizedPagePool.length, hlengths]
    · rw [forget, if_neg hx, h.full, QuantizedPagePool.length, QuantizedPagePool.length, hlengths,
        get?_erase_ne _ hx]
  refine Or.inr ⟨m', hrun, hP, h', ⟨fun x => (hfull x).le, fun x => ?_, fun x w hw => ?_,
    fun x r hx => ?_⟩, hfull⟩
  · by_cases hx : x = sid
    · simp [forget, hx, encoded]
    · rw [forget, forget, if_neg hx, if_neg hx, hP, hshare x hx, h.contents.encodes]
  · rw [forget] at hw
    split at hw
    · exact absurd hw not_mem_nil
    · rw [hpacked]
      exact h.contents.packed x w hw
  · rw [hrows, get?_erase] at hx
    split at hx
    · cases hx
    · next hxs =>
      rw [forget, if_neg hxs, hP, hraw]
      exact h.contents.tail x r hx

structure QuantizedRun (τ : Type) where
  manager : QuantizedCacheManager τ
  stored : Int → List τ
  writes : Int → List (PageWrite τ)

variable (r : QuantizedRun τ)

def QuantizedRun.prefill (chunks : List (PrefillChunk τ)) : QuantizedRun τ :=
  match prefillStep chunks r.manager with
  | (.ok writes, m) =>
    ⟨m, recordAll r.stored (chunks.map fun c => (c.seqId, c.tokens)),
      recordAll r.writes ((chunks.map (·.seqId)).zip writes)⟩
  | (.error _, m) => { r with manager := m }

def QuantizedRun.decode (batch : List (Int × τ)) : QuantizedRun τ :=
  match decodeStep batch r.manager with
  | (.ok writes, m) =>
    ⟨m, recordAll r.stored (batch.map fun b => (b.1, [b.2])),
      recordAll r.writes ((batch.map Prod.fst).zip writes)⟩
  | (.error _, m) => { r with manager := m }

def QuantizedRun.free (sid : Int) : QuantizedRun τ :=
  match freeSeq sid r.manager with
  | (.ok _, m) => ⟨m, forget r.stored sid, forget r.writes sid⟩
  | (.error _, m) => { r with manager := m }

/-- The states of all runs on `numPages` pages of `pageSize` tokens. -/
inductive Reachable (numPages pageSize : Nat) : QuantizedRun τ → Prop
  | create {pool : QuantizedPagePool} (maxLength rows : Nat) (blank : τ) :
      QuantizedPagePool.create numPages pageSize maxLength = .ok pool →
      Reachable numPages pageSize ⟨fresh pool rows blank, fun _ => [], fun _ => []⟩
  | prefill {r : QuantizedRun τ} (chunks : List (PrefillChunk τ)) : Reachable numPages pageSize r →
      Continues r.manager chunks → Reachable numPages pageSize (r.prefill chunks)
  | decode {r : QuantizedRun τ} (batch : List (Int × τ)) : Reachable numPages pageSize r →
      Reachable numPages pageSize (r.decode batch)
  | free {r : QuantizedRun τ} (sid : Int) : Reachable numPages pageSize r →
      Reachable numPages pageSize (r.free sid)

theorem consistent_fresh {pool : QuantizedPagePool} {pageSize maxLength rows : Nat} {blank : τ}
    (h : QuantizedPagePool.create numPages pageSize maxLength = .ok pool) :
    Consistent numPages (fresh pool rows blank) (fun _ => []) (fun _ => []) ∧
      pool.pageSize = pageSize := by
  unfold QuantizedPagePool.create at h
  split at h
  · cases h
  · next hpos =>
    obtain rfl := Except.ok.inj h
    simp only [not_or] at hpos
    have hP : 0 < pageSize := Nat.pos_of_ne_zero hpos.2.1
    have hencoded : ∀ sid, [] = encoded pageSize (share (empty : Dict Int (List Nat)) sid)
        ([] : List τ) := fun sid => by
      rw [encoded, length_nil, Nat.zero_div, range_zero, map_nil]
    have hzero : (0 + pageSize - 1) / pageSize = 0 := Nat.div_eq_of_lt (by omega)
    refine ⟨⟨⟨⟨hP, ?_, fun sid => ⟨fun _ => rfl, fun _ => rfl⟩, fun sid => ?_,
      fun sid => Nat.zero_le _⟩,
      fun sid => ⟨fun _ => rfl, fun _ => rfl⟩, fun sid sid' row hrow => (by cases hrow),
      nodup_range, fun sid row hrow => (by cases hrow), fun sid row hrow => (by cases hrow),
      fun sid row hrow => (by cases hrow)⟩,
      ⟨fun sid => Nat.zero_le _, fun sid => hencoded sid, fun sid w hw => (by cases hw),
      fun sid row hrow => (by cases hrow)⟩, fun sid => rfl⟩, rfl⟩
    · have hown : owned (empty : Dict Int (List Nat)) = 0 :=
        Finset.sum_eq_zero fun sid _ => rfl
      exact (congrArg _ hown).trans (add_zero _)
    · exact hzero.symm

theorem Reachable.consistent {pageSize : Nat} {r : QuantizedRun τ} (h : Reachable numPages pageSize r) :
    Consistent numPages r.manager r.stored r.writes ∧ r.manager.pool.pageSize = pageSize := by
  induction h with
  | create maxLength rows blank hpool => exact consistent_fresh hpool
  | @prefill r chunks _ hchunks ih =>
    rcases prefillStep_spec ih.1 hchunks with ⟨e, hrun⟩ | ⟨writes, m', hrun, hP, h'⟩
    · rw [QuantizedRun.prefill, hrun]
      exact ih
    · rw [QuantizedRun.prefill, hrun]
      exact ⟨h', hP.trans ih.2⟩
  | @decode r batch _ ih =>
    rcases decodeStep_spec ih.1 batch with ⟨e, hrun⟩ | ⟨writes, m', hrun, hP, h'⟩
    · rw [QuantizedRun.decode, hrun]
      exact ih
    · rw [QuantizedRun.decode, hrun]
      exact ⟨h', hP.trans ih.2⟩
  | @free r sid _ ih =>
    rcases ih.1.freed sid with ⟨e, hrun⟩ | ⟨m', hrun, hP, h'⟩
    · rw [QuantizedRun.free, hrun]
      exact ih
    · rw [QuantizedRun.free, hrun]
      exact ⟨h', hP.trans ih.2⟩

/-- In every state of every run: free pages and pages of sequences are all pages, each once; a
sequence of `n` tokens owns `ceil(n / page_size)` pages. -/
theorem quantized_pages {pageSize : Nat} {r : QuantizedRun τ} (h : Reachable numPages pageSize r) :
    ((r.manager.pool.free : Multiset Nat) + owned r.manager.pool.pages =
      (range numPages : List Nat)) ∧
    (∀ sid, r.manager.pool.length sid = (r.stored sid).length ∧
      (share r.manager.pool.pages sid).length = (r.stored sid).length ⌈/⌉ pageSize) ∧
    (∀ sid row, r.manager.seqIdToRow.get? sid = some row → ∀ i < (r.stored sid).length,
      r.manager.slots row i =
        (share r.manager.pool.pages sid).getD (i / pageSize) 0 * pageSize + i % pageSize) ∧
    (∀ sid row sid' row', r.manager.seqIdToRow.get? sid = some row →
      r.manager.seqIdToRow.get? sid' = some row' → ∀ i < (r.stored sid).length,
      ∀ i' < (r.stored sid').length, r.manager.slots row i = r.manager.slots row' i' →
      sid = sid' ∧ i = i') ∧
    ((∀ sid count e pool', append sid count r.manager.pool = (.error e, pool') →
        pool' = r.manager.pool) ∧
      (∀ seqIds size e m', allocateBatch seqIds size r.manager = (.error e, m') → m' = r.manager) ∧
      (∀ chunks, Continues r.manager chunks → ∀ e m',
        prefillStep chunks r.manager = (.error e, m') → m' = r.manager) ∧
      (∀ batch e m', decodeStep batch r.manager = (.error e, m') → m' = r.manager) ∧
      ∀ sid e m', freeSeq sid r.manager = (.error e, m') → m' = r.manager) ∧
    (∀ sid, (share r.manager.pool.pages sid).Nodup ∧
      r.writes sid = (range ((r.stored sid).length / pageSize)).map (fun j =>
        ((share r.manager.pool.pages sid).getD j 0,
          ((r.stored sid).drop (j * pageSize)).take pageSize)) ∧
      ∀ w ∈ r.writes sid, r.manager.packed w.1 = w.2) ∧
    ∀ sid row, r.manager.seqIdToRow.get? sid = some row →
      (range ((r.stored sid).length % pageSize)).map (r.manager.raw row) =
        (r.stored sid).drop ((r.stored sid).length / pageSize * pageSize) := by
  obtain ⟨hr, rfl⟩ := h.consistent
  refine ⟨hr.layout.pool.partition, fun sid => ⟨(hr.full sid).symm, ?_⟩, fun sid row hrow i hi => ?_,
    fun sid row sid' row' hrow hrow' i hi i' hi' heq => ?_, ⟨fun sid count e pool' hrun => ?_,
      fun seqIds size e m' hrun => ?_, fun chunks hchunks e m' hrun => ?_, fun batch e m' hrun => ?_,
      fun sid e m' hrun => ?_⟩,
    fun sid => ⟨nodup_share hr.layout.pool.nodup sid, hr.contents.encodes sid,
      hr.contents.packed sid⟩, hr.contents.tail⟩
  · rw [hr.layout.pool.size, hr.full]
    rfl
  · rw [hr.full] at hi
    exact hr.layout.slot sid row hrow i hi
  · rw [hr.full] at hi hi'
    exact hr.layout.slot_injective hrow hrow' hi hi' heq
  · rcases append_spec (p := r.manager.pool) sid count with ⟨_, hspec⟩ | ⟨_, -, -, -, hspec⟩
    · rw [hrun] at hspec
      exact (Prod.mk.inj hspec).2
    · rw [hrun] at hspec
      cases hspec
  · rcases allocateBatch_spec hr.layout seqIds size with ⟨_, hspec⟩ | ⟨_, _, hspec, -⟩
    · rw [hrun] at hspec
      exact (Prod.mk.inj hspec).2
    · rw [hrun] at hspec
      cases hspec
  · rcases prefillStep_spec hr hchunks with ⟨_, hspec⟩ | ⟨_, _, hspec, -⟩
    · rw [hrun] at hspec
      exact (Prod.mk.inj hspec).2
    · rw [hrun] at hspec
      cases hspec
  · rcases decodeStep_spec hr batch with ⟨_, hspec⟩ | ⟨_, _, hspec, -⟩
    · rw [hrun] at hspec
      exact (Prod.mk.inj hspec).2
    · rw [hrun] at hspec
      cases hspec
  · rcases hr.freed sid with ⟨_, hspec⟩ | ⟨_, hspec, -⟩
    · rw [hrun] at hspec
      exact (Prod.mk.inj hspec).2
    · rw [hrun] at hspec
      cases hspec

def demoPool : QuantizedPagePool := ⟨2, 8, [0, 1, 2, 3], .empty, .empty⟩

def demoRun : QuantizedRun Nat :=
  (((⟨fresh demoPool 1 0, fun _ => [], fun _ => []⟩ : QuantizedRun Nat).prefill
    [⟨7, 0, [10]⟩]).prefill [⟨7, 1, [11, 12]⟩]).decode [(7, 13)]

theorem reachable_demoRun : Reachable 4 2 demoRun := by
  refine .decode _ (.prefill _ (.prefill _ (.create 8 1 0 rfl) ⟨by decide, ?_⟩) ⟨by decide, ?_⟩)
  · decide
  · decide

theorem quantized_pages_demo : demoRun.stored 7 = [10, 11, 12, 13] ∧
    (share demoRun.manager.pool.pages 7).length = (demoRun.stored 7).length ⌈/⌉ 2 ∧
    demoRun.writes 7 = (range ((demoRun.stored 7).length / 2)).map (fun j =>
      ((share demoRun.manager.pool.pages 7).getD j 0,
        ((demoRun.stored 7).drop (j * 2)).take 2)) :=
  have h := quantized_pages reachable_demoRun
  ⟨by decide, (h.2.1 7).2, (h.2.2.2.2.2.1 7).2.1⟩

end SparseEngine.QuantizedCacheManager
