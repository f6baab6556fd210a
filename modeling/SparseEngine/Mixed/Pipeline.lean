import SparseEngine.Mixed.Backups

/-! `submit_d2h` reserves a whole chain, cuts it into staged batches and starts at most one of them.
-/

namespace SparseEngine.PrefixCacheCoordinator

open PyM RadixPrefixIndex MixedBackups List RadixPrefixIndex

variable {ι κ μ : Type} [LinearOrder ι]

section

variable {s : RadixPrefixIndex ι (MixedPrefixBlockPayload κ)} {b c : MixedBlock ι κ}

theorem abortD2h_live (h : WellFormed s) (hb : Live s.blocks b c)
    (ht : c.residency.transfer = some .d2h) :
    wp (abortD2h b) (fun _ s' => WellFormed s' ∧ s'.blocks =
      s.blocks.set b.stableBlockId { c with residency := { c.residency with transfer := none } })
      (fun _ _ => False) s := by
  have hd := (((validate_iff _).mp (h.residency.valid _ c hb.1)).2.1 ht).1
  obtain ⟨F, counts, hrun, hwf⟩ := commitResidency_indexed h hb.1 hb.2
    (r := { c.residency with transfer := none })
    ⟨(validate_iff _).mpr ⟨Or.inl hd, by simp, by simp⟩, Or.inl, Or.inl, Or.inl hd, id⟩
  simp only [abortD2h, wp_bind, wp_get, wp_raiseIf, deref_of_indexed hb.1 hb.2]
  refine ⟨fun hne => (hne ht).elim, fun _ => ?_⟩
  rw [wp_of_ok hrun]
  exact ⟨hwf, rfl⟩

theorem finishD2h_live (h : WellFormed s) (hb : Live s.blocks b c)
    (ht : c.residency.transfer = some .d2h)
    (hp : ∀ p, c.parentBlockId = some p → HostPresent s.blocks p) :
    wp (finishD2h b) (fun _ s' => WellFormed s' ∧ s'.blocks =
      s.blocks.set b.stableBlockId
        { c with residency := { c.residency with hostPresent := true, transfer := none } })
      (fun _ _ => False) s := by
  have hd := (((validate_iff _).mp (h.residency.valid _ c hb.1)).2.1 ht).1
  obtain ⟨F, counts, hrun, hwf⟩ := commitResidency_indexed h hb.1 hb.2
    (r := { c.residency with hostPresent := true, transfer := none })
    ⟨(validate_iff _).mpr ⟨Or.inl hd, by simp, by simp⟩, Or.inl, fun _ => Or.inr
      fun p pb hcp hpb => (hostPresent_iff hpb).mp (hp p hcp), Or.inl hd, fun _ => rfl⟩
  simp only [finishD2h, wp_bind, wp_get, wp_raiseIf,
    deref_of_indexed hb.1 hb.2]
  refine ⟨fun hne => (hne ht).elim, fun _ => ⟨fun hno => ?_, fun _ => ?_⟩⟩
  · obtain ⟨p, hcp, hno⟩ := (Option.any_eq_true _ _).mp hno
    obtain ⟨pb, hpb, hh⟩ := hp p hcp
    simp [blockWith, hpb, hh] at hno
  · rw [wp_of_ok hrun]
    exact ⟨hwf, rfl⟩

theorem beginD2h_parent (h : WellFormed s) (hb : Live s.blocks b c) :
    wp (beginD2h b) (fun _ _ => ∀ p, c.parentBlockId = some p →
      ∃ pb, s.blocks.get? p = some pb ∧
        (pb.residency.hostPresent = true ∨ pb.residency.transfer = some .d2h))
      (fun _ _ => True) s := by
  simp only [beginD2h, wp_bind, wp_get, wp_raiseIf, wp_lift,
    deref_of_indexed hb.1 hb.2, h.residency.valid _ c hb.1]
  refine ⟨fun _ => trivial, fun _ => ⟨fun _ => trivial, fun _ => ⟨fun _ => trivial, fun _ =>
    ⟨fun _ => trivial, fun _ => ⟨fun _ => trivial, fun hp => ?_⟩⟩⟩⟩⟩
  have parent : ∀ p, c.parentBlockId = some p → ∃ pb, s.blocks.get? p = some pb ∧
      (pb.residency.hostPresent = true ∨ pb.residency.transfer = some .d2h) := by
    intro p hcp
    rw [hcp] at hp
    cases hpb : s.blocks.get? p with
    | none => simp [blockWith, hpb] at hp
    | some pb =>
      have hp : pb.residency.hostPresent = false → pb.residency.transfer = some .d2h := by
        simpa [blockWith, hpb] using hp
      cases hh : pb.residency.hostPresent with
      | true => exact ⟨pb, rfl, Or.inl hh⟩
      | false => exact ⟨pb, rfl, Or.inr (hp hh)⟩
  unfold wp
  split
  · exact parent
  · trivial

end

variable {cfg : CoordinatorConfig ι κ μ} {c c' c'' : PrefixCacheCoordinator ι κ μ}
  {queue before after : List (MixedBlock ι κ)} {reserved : List Nat} {b : MixedBlock ι κ}

def blocksOf (batches : List (MixedD2HBatch ι κ)) : List (MixedBlock ι κ) :=
  batches.flatMap (·.blocks)

def indicesOf (batches : List (MixedD2HBatch ι κ)) : List Nat :=
  batches.flatMap (·.hostIndices)

/-- The index and the host pool. -/
structure Staged (c : PrefixCacheCoordinator ι κ μ) (queue : List (MixedBlock ι κ))
    (reserved : List Nat) : Prop where
  wf : WellFormed c.prefixCache
  marked : Marked c.prefixCache.blocks queue
  accounted : Accounted c.prefixCache.blocks c.offload.freeIndices c.offload.allocated reserved

structure SameQueue (c c' : PrefixCacheCoordinator ι κ μ) : Prop where
  operations : c'.offload.d2hOperations = c.offload.d2hOperations
  pending : c'.offload.pendingD2hBatches = c.offload.pendingD2hBatches

abbrev KeptHost (c c' : PrefixCacheCoordinator ι κ μ) : Prop :=
  Kept c.prefixCache.blocks c'.prefixCache.blocks

/-- The queue is staged, parents first, and at most one batch is in flight. -/
structure Pipelined (c : PrefixCacheCoordinator ι κ μ) : Prop where
  staged : Staged c (blocksOf (queuedBatches c)) (indicesOf (queuedBatches c))
  order : ParentFirst c.prefixCache.blocks (blocksOf (queuedBatches c))
  shape : ∀ batch ∈ queuedBatches c,
    batch.blocks ≠ [] ∧ batch.hostIndices.length = batch.blocks.length
  single : c.offload.d2hOperations.length ≤ 1

omit [LinearOrder ι] in
theorem SameQueue.refl (c : PrefixCacheCoordinator ι κ μ) : SameQueue c c := ⟨rfl, rfl⟩

omit [LinearOrder ι] in
theorem SameQueue.trans (h : SameQueue c c') (h' : SameQueue c' c'') : SameQueue c c'' :=
  ⟨h'.operations.trans h.operations, h'.pending.trans h.pending⟩

omit [LinearOrder ι] in
theorem SameQueue.queued (h : SameQueue c c') : queuedBatches c' = queuedBatches c := by
  rw [queuedBatches, h.operations, h.pending, queuedBatches]

theorem Staged.congr (h : Staged c queue reserved) (hp : c'.prefixCache = c.prefixCache)
    (hf : c'.offload.freeIndices = c.offload.freeIndices)
    (ha : c'.offload.allocated = c.offload.allocated) : Staged c' queue reserved :=
  ⟨hp ▸ h.wf, hp ▸ h.marked, by rw [hp, hf, ha]; exact h.accounted⟩

variable {s' : RadixPrefixIndex ι (MixedPrefixBlockPayload κ)}

theorem Staged.wrote {blocks' : Blocks ι κ} (hblocks : s'.blocks = blocks') (hwf : WellFormed s')
    (hm : Marked blocks' queue)
    (ha : Accounted blocks' c.offload.freeIndices c.offload.allocated reserved) :
    Staged { c with prefixCache := s' } queue reserved := by
  subst hblocks
  exact ⟨hwf, hm, ha⟩

theorem Staged.unchanged (h : Staged c queue reserved) (hs : Unchanged c.prefixCache s') :
    Staged { c with prefixCache := s' } queue reserved :=
  .wrote hs.2 (hs.1.wf h.wf) h.marked h.accounted

theorem kept_of_unchanged {s : RadixPrefixIndex ι (MixedPrefixBlockPayload κ)} (hs : Unchanged s s') :
    Kept s.blocks s'.blocks := by
  rw [hs.2]
  exact .refl _

theorem Pipelined.same (h : Pipelined c) (hq : SameQueue c c')
    (hs : Staged c' (blocksOf (queuedBatches c)) (indicesOf (queuedBatches c)))
    (hk : KeptHost c c') : Pipelined c' where
  staged := by rw [hq.queued]; exact hs
  order := by
    rw [hq.queued]
    exact h.order.mono (fun x => (hk.hosts x).mpr) hk.parents
  shape := by rw [hq.queued]; exact h.shape
  single := by rw [hq.operations]; exact h.single

omit [LinearOrder ι] in
theorem blocksOf_append (l l' : List (MixedD2HBatch ι κ)) :
    blocksOf (l ++ l') = blocksOf l ++ blocksOf l' := flatMap_append

omit [LinearOrder ι] in
theorem indicesOf_append (l l' : List (MixedD2HBatch ι κ)) :
    indicesOf (l ++ l') = indicesOf l ++ indicesOf l' := flatMap_append

theorem Pipelined.of_nothing (h : Staged c [] []) (hq : queuedBatches c = []) : Pipelined c where
  staged := by rw [hq]; exact h
  order := by rw [hq]; exact .nil
  shape := by rw [hq]; simp
  single := by rw [(append_eq_nil_iff.mp hq).1]; simp

theorem wp_abort (before after : List (MixedBlock ι κ))
    (h : Staged c (before ++ b :: after) reserved) :
    wp (onIndex (abortD2h b)) (fun _ c' =>
      Staged c' (before ++ after) reserved ∧ c'.offload = c.offload ∧ KeptHost c c')
      (fun _ _ => False) c := by
  obtain ⟨d, hd, ht⟩ := h.marked.live b (by simp)
  rw [onIndex, wp_zoom]
  refine wp_mono (abortD2h_live h.wf hd ht) ?_ fun _ _ he => he
  rintro - s' ⟨hwf, hblocks⟩
  refine ⟨.wrote hblocks hwf ?_ ?_, rfl, ?_⟩
  · exact h.marked.drop before after rfl
  · exact h.accounted.set hd.1 rfl fun _ => rfl
  · show Kept _ s'.blocks
    rw [hblocks]
    exact .set hd.1 rfl rfl

theorem wp_abort_front (h : Staged c (before ++ queue) reserved) :
    wp (forEach (fun b => onIndex (abortD2h b)) before) (fun _ c' =>
      Staged c' queue reserved ∧ c'.offload = c.offload ∧ KeptHost c c')
      (fun _ _ => False) c := by
  refine forEach_inv (I := fun l c' => Staged c' (l ++ queue) reserved ∧
    c'.offload = c.offload ∧ KeptHost c c') ?_ before c ⟨h, rfl, .refl _⟩
  rintro d l c₁ ⟨hs, ho, hk⟩
  refine wp_mono (wp_abort [] _ hs) ?_ fun _ _ he => he
  rintro - c₂ ⟨hs', ho', hk'⟩
  exact ⟨hs', ho'.trans ho, hk.trans hk'⟩

theorem wp_abort_back (h : Staged c (queue ++ after) reserved) :
    wp (forEach (fun b => onIndex (abortD2h b)) after.reverse) (fun _ c' =>
      Staged c' queue reserved ∧ c'.offload = c.offload ∧ KeptHost c c')
      (fun _ _ => False) c := by
  have hrun := forEach_inv (E := fun _ _ => False) (f := fun b : MixedBlock ι κ =>
      (onIndex (abortD2h b) : CoordM ι κ μ Unit))
    (I := fun l c' => Staged c' (queue ++ l.reverse) reserved ∧
      c'.offload = c.offload ∧ KeptHost c c') ?_ after.reverse c
    ⟨by rw [reverse_reverse]; exact h, rfl, .refl _⟩
  · simpa using hrun
  · rintro d l c₁ ⟨hs, ho, hk⟩
    rw [reverse_cons, ← append_assoc] at hs
    refine wp_mono (wp_abort _ [] hs) ?_ fun _ _ he => he
    rintro - c₂ ⟨hs', ho', hk'⟩
    exact ⟨by simpa using hs', ho'.trans ho, hk.trans hk'⟩

theorem wp_hostFree (indices reserved : List Nat)
    (h : Staged c queue (indices ++ reserved)) :
    wp (hostFree indices) (fun _ c' => Staged c' queue reserved ∧ SameQueue c c' ∧
      c'.prefixCache = c.prefixCache) (fun _ _ => False) c := by
  simp only [hostFree, modifyOffload, wp_bind, wp_get, wp_raiseIf, wp_modify]
  refine ⟨fun hdup => hdup (nodup_append.mp h.accounted.reservedNodup).1, fun _ =>
    ⟨fun hany => ?_, fun _ => ⟨⟨h.wf, h.marked, h.accounted.release⟩, ⟨rfl, rfl⟩, trivial⟩⟩⟩
  obtain ⟨i, hi, hno⟩ := any_eq_true.mp hany
  refine (of_decide_eq_true hno) ((h.accounted.exact i).mpr (Or.inl ?_))
  exact mem_append_left _ hi

theorem wp_abortBatch {batch : MixedD2HBatch ι κ} (queue : List (MixedBlock ι κ))
    (reserved : List Nat)
    (h : Staged c (batch.blocks ++ queue) (batch.hostIndices ++ reserved)) :
    wp (abortD2hBatch batch) (fun _ c' => Staged c' queue reserved ∧ SameQueue c c' ∧
      KeptHost c c') (fun _ _ => False) c := by
  simp only [abortD2hBatch, wp_bind]
  refine wp_mono (wp_abort_front h) ?_ fun _ _ he => he
  rintro - c₁ ⟨hs, ho, hk⟩
  refine wp_mono (wp_hostFree _ _ hs) ?_ fun _ _ he => he
  rintro - c₂ ⟨hs', hq, hp⟩
  exact ⟨hs', ⟨hq.operations.trans (by rw [ho]), hq.pending.trans (by rw [ho])⟩, by
    rw [KeptHost, hp]; exact hk⟩

theorem wp_abortPending {batch : MixedD2HBatch ι κ}
    (h : Staged c (blocksOf (batch :: c.offload.pendingD2hBatches))
      (indicesOf (batch :: c.offload.pendingD2hBatches)))
    (hops : c.offload.d2hOperations = []) :
    wp (abortPendingD2h batch) (fun _ c' => Pipelined c' ∧ queuedBatches c' = [] ∧ KeptHost c c')
      (fun _ _ => False) c := by
  simp only [abortPendingD2h, modifyOffload, wp_bind, wp_get, wp_modify]
  set pending := c.offload.pendingD2hBatches
  refine wp_mono (wp_abortBatch (blocksOf pending) (indicesOf pending)
    ⟨h.wf, h.marked, h.accounted⟩) ?_ fun _ _ he => he
  rintro - c₁ ⟨hs, hq, hk⟩
  -- The queue is already empty: what is left to give up are the batches of the loop.
  have hrun := forEach_inv (E := fun _ _ => False)
    (f := (abortD2hBatch : MixedD2HBatch ι κ → CoordM ι κ μ Unit))
    (I := fun l c' => Staged c' (blocksOf l) (indicesOf l) ∧ SameQueue c₁ c' ∧ KeptHost c₁ c')
    (by
      rintro d l c₂ ⟨hs₂, hq₂, hk₂⟩
      refine wp_mono (wp_abortBatch _ _ hs₂) ?_ fun _ _ he => he
      rintro - c₃ ⟨hs₃, hq₃, hk₃⟩
      exact ⟨hs₃, hq₂.trans hq₃, hk₂.trans hk₃⟩) pending c₁ ⟨hs, .refl _, .refl _⟩
  refine wp_mono hrun ?_ fun _ _ he => he
  rintro - c₂ ⟨hs₂, hq₂, hk₂⟩
  have hempty : queuedBatches c₂ = [] := by
    rw [queuedBatches, hq₂.operations, hq₂.pending, hq.operations, hq.pending]
    simp [hops]
  exact ⟨.of_nothing hs₂ hempty, hempty, Kept.trans hk hk₂⟩

theorem mapM_error {α β : Type} {f : α → Except PyError β} {P : PyError → Prop}
    (hf : ∀ a e, f a = .error e → P e) :
    ∀ {l : List α} {e : PyError}, l.mapM f = .error e → P e
  | [], _, h => by cases h
  | a :: l, e, h => by
    rw [mapM_cons] at h
    cases ha : f a with
    | error e' =>
      rw [ha] at h
      cases h
      exact hf a _ ha
    | ok r =>
      cases hl : l.mapM f with
      | error e' =>
        simp only [ha, hl, bind, Except.bind] at h
        cases h
        exact mapM_error hf hl
      | ok r' =>
        simp only [ha, hl, bind, Except.bind, pure, Except.pure] at h
        cases h

theorem checkDevicePayload_error {d : PrefixCacheCoordinator ι κ μ} {e : PyError}
    (h : checkDevicePayload cfg d b = .error e) : ∃ message, e = .runtimeError message := by
  simp only [checkDevicePayload] at h
  split at h
  · cases h
    exact ⟨_, rfl⟩
  · split at h
    · cases h
      exact ⟨_, rfl⟩
    · cases h

theorem wp_submitReserved (batch : MixedD2HBatch ι κ) :
    wp (submitReservedD2hBatch cfg batch)
      (fun _ c' => c'.prefixCache = c.prefixCache ∧
        c'.offload.freeIndices = c.offload.freeIndices ∧
        c'.offload.allocated = c.offload.allocated ∧
        c'.offload.d2hOperations = c.offload.d2hOperations ++ [batch] ∧
        c'.offload.pendingD2hBatches = c.offload.pendingD2hBatches)
      (fun e c' => (∃ message, e = .runtimeError message) ∧ c'.prefixCache = c.prefixCache ∧
        c'.offload.freeIndices = c.offload.freeIndices ∧
        c'.offload.allocated = c.offload.allocated ∧ SameQueue c c') c := by
  simp only [submitReservedD2hBatch, nextDeviceCall, modifyOffload, wp_bind, wp_get, wp_lift,
    wp_modify, wp_pure, wp_raiseIf]
  cases hmap : batch.blocks.mapM (checkDevicePayload cfg c) with
  | error e =>
    exact ⟨mapM_error (fun _ _ => checkDevicePayload_error) hmap, trivial, trivial, trivial,
      .refl c⟩
  | ok _ =>
    exact ⟨fun _ => ⟨⟨_, rfl⟩, trivial, trivial, trivial, ⟨rfl, rfl⟩⟩, fun _ => by simp⟩

theorem wp_startNext (h : Pipelined c) :
    wp (startNextD2hBatch cfg)
      (fun _ c' => Pipelined c' ∧ queuedBatches c' = queuedBatches c ∧ KeptHost c c' ∧
        (queuedBatches c ≠ [] → c'.offload.d2hOperations ≠ []))
      (fun e c' => Pipelined c' ∧ queuedBatches c' = [] ∧ KeptHost c c' ∧
        ∃ message, e = .runtimeError message) c := by
  simp only [startNextD2hBatch, wp_bind, wp_get]
  cases hops : c.offload.d2hOperations with
  | cons operation operations =>
    refine ⟨h, rfl, .refl _, fun _ hno => ?_⟩
    rw [hops] at hno
    cases hno
  | nil =>
    cases hpending : c.offload.pendingD2hBatches with
    | nil =>
      refine ⟨h, rfl, .refl _, fun hno => (hno ?_).elim⟩
      rw [queuedBatches, hops, hpending]
      rfl
    | cons batch batches =>
      have hqueue : queuedBatches c = batch :: batches := by
        rw [queuedBatches, hops, hpending]
        rfl
      have hstaged := h.staged
      rw [hqueue] at hstaged
      simp only [isEmpty_nil, Bool.true_eq_false, if_false, modifyOffload, wp_bind,
        wp_modify, wp_tryExcept]
      refine wp_mono (wp_submitReserved batch) ?_ ?_
      · rintro - c₁ ⟨hp, hf, ha, ho, hq⟩
        have ho : c₁.offload.d2hOperations = [batch] := by
          rw [ho]
          simp [hops]
        have hqueue₁ : queuedBatches c₁ = queuedBatches c := by
          rw [hqueue, queuedBatches, ho, hq]
          rfl
        refine ⟨⟨?_, ?_, ?_, ?_⟩, hqueue₁, ?_, fun _ => ?_⟩
        · rw [hqueue₁]
          exact h.staged.congr hp hf ha
        · rw [hqueue₁, hp]
          exact h.order
        · rw [hqueue₁]
          exact h.shape
        · rw [ho]
          exact le_rfl
        · rw [KeptHost, hp]
          exact .refl _
        · rw [ho]
          exact cons_ne_nil _ _
      · rintro e c₁ ⟨he, hp, hf, ha, hq⟩
        have hwaiting : c₁.offload.pendingD2hBatches = batches := hq.pending
        simp only [wp_raise]
        refine wp_mono (wp_abortPending (c := c₁) ?_ (hq.operations.trans hops)) ?_
          fun _ _ he => he.elim
        · rw [hwaiting]
          exact hstaged.congr hp hf ha
        · rintro - c₂ ⟨hpipe, hempty, hk⟩
          rw [KeptHost, hp] at hk
          exact ⟨hpipe, hempty, hk, he⟩

/-- The batches `done` left the front of the queue, and their blocks are what is new in host
memory. -/
structure Completes (c c' : PrefixCacheCoordinator ι κ μ) (done rest : List (MixedD2HBatch ι κ)) :
    Prop where
  queue : queuedBatches c = done ++ rest
  hosts : ∀ x, HostPresent c'.prefixCache.blocks x ↔
    HostPresent c.prefixCache.blocks x ∨ x ∈ names (blocksOf done)

theorem Completes.of_kept (h : KeptHost c c') : Completes c c' [] (queuedBatches c) :=
  ⟨rfl, fun x => by simpa [blocksOf] using h.hosts x⟩

theorem Completes.of_nothing (h : queuedBatches c = []) : Completes c c [] [] :=
  ⟨h, fun x => by simp [blocksOf]⟩

theorem Completes.kept {done rest : List (MixedD2HBatch ι κ)} (h : Completes c c' done rest)
    (hk : KeptHost c' c'') : Completes c c'' done rest :=
  ⟨h.queue, fun x => (hk.hosts x).trans (h.hosts x)⟩

theorem Completes.trans {done rest done' rest' : List (MixedD2HBatch ι κ)}
    (h : Completes c c' done rest) (hrest : queuedBatches c' = rest)
    (h' : Completes c' c'' done' rest') : Completes c c'' (done ++ done') rest' := by
  refine ⟨by rw [h.queue, ← hrest, h'.queue, append_assoc], fun x => ?_⟩
  rw [h'.hosts x, h.hosts x, blocksOf_append, names_append, mem_append, or_assoc]

theorem wp_finish {i : Nat} (h : Staged c (b :: queue) (i :: reserved))
    (ho : ParentFirst c.prefixCache.blocks (b :: queue)) :
    wp (do
        setPayload b fun payload => { payload with hostBlockIndex := some i }
        onIndex (finishD2h b))
      (fun _ c' => Staged c' queue reserved ∧ ParentFirst c'.prefixCache.blocks queue ∧
        c'.offload = c.offload ∧ ∀ x, HostPresent c'.prefixCache.blocks x ↔
          HostPresent c.prefixCache.blocks x ∨ x = b.stableBlockId)
      (fun _ _ => False) c := by
  obtain ⟨d, hd, ht⟩ := h.marked.live b (by simp)
  have hhost : d.residency.hostPresent = false :=
    (((validate_iff _).mp (h.wf.residency.valid _ d hd.1)).2.1 ht).2
  set d₁ : MixedBlock ι κ := { d with payload := { d.payload with hostBlockIndex := some i } }
    with hd₁
  have hid : SameIdentity d d₁ := ⟨rfl, rfl, rfl, rfl, rfl⟩
  have hwf₁ := h.wf.set_same hd.1 hid (.same h.wf.residency hd.1 rfl) rfl
  set s₁ : RadixPrefixIndex ι (MixedPrefixBlockPayload κ) :=
    { c.prefixCache with blocks := c.prefixCache.blocks.set b.stableBlockId d₁ } with hs₁
  have hassign : c.prefixCache.assign d₁ = s₁ := h.wf.assign_eq hd.1 hid
  have hlive₁ : Live s₁.blocks b d₁ := ⟨Dict.get?_set_self _ _ _, hd.2⟩
  have hkept : Kept c.prefixCache.blocks s₁.blocks := .set hd.1 rfl rfl
  have hparent : ∀ p, d₁.parentBlockId = some p → HostPresent s₁.blocks p := fun p hp =>
    (hkept.hosts p).mpr (ho.head ((parentMap_of_get hd.1).trans (congrArg some hp)))
  simp only [setPayload, onIndex, wp_bind, wp_zoom, wp_modify, deref_of_indexed hd.1 hd.2]
  rw [← hd₁, hassign]
  refine wp_mono (finishD2h_live hwf₁ hlive₁ ht hparent) ?_ fun _ _ he => he
  rintro - s' ⟨hwf, hblocks⟩
  set d₂ : MixedBlock ι κ :=
    { d₁ with residency := { d₁.residency with hostPresent := true, transfer := none } } with hd₂
  have hblocks : s'.blocks = c.prefixCache.blocks.set b.stableBlockId d₂ := by
    rw [hblocks, hs₁, Dict.set_set]
  have hosts : ∀ x, HostPresent s'.blocks x ↔
      HostPresent c.prefixCache.blocks x ∨ x = b.stableBlockId := by
    intro x
    rw [hblocks, hostPresent_set]
    split
    · next hx => simp [hd₂, hx]
    · next hx => simp [hx]
  refine ⟨.wrote hblocks hwf ?_ ?_, ?_, trivial, hosts⟩
  · exact h.marked.drop [] queue rfl
  · exact h.accounted.finish hd.1 hhost rfl rfl
  · refine ho.tail (fun x hx => (hosts x).mpr (Or.inl hx)) ((hosts _).mpr (Or.inr rfl)) ?_
    show parentMap s'.blocks = _
    rw [hblocks]
    exact parentMap_set_old hd.1 rfl

theorem wp_finishOperation (operation : MixedD2HBatch ι κ) (queue : List (MixedBlock ι κ))
    (reserved : List Nat)
    (h : Staged c (operation.blocks ++ queue) (operation.hostIndices ++ reserved))
    (ho : ParentFirst c.prefixCache.blocks (operation.blocks ++ queue))
    (hlen : operation.hostIndices.length = operation.blocks.length) :
    wp (finishD2hOperation operation)
      (fun _ c' => Staged c' queue reserved ∧ ParentFirst c'.prefixCache.blocks queue ∧
        c'.offload = c.offload ∧ ∀ x, HostPresent c'.prefixCache.blocks x ↔
          HostPresent c.prefixCache.blocks x ∨ x ∈ names operation.blocks)
      (fun _ _ => False) c := by
  have hfst : (operation.blocks.zip operation.hostIndices).map Prod.fst = operation.blocks :=
    map_fst_zip hlen.ge
  have hsnd : (operation.blocks.zip operation.hostIndices).map Prod.snd =
      operation.hostIndices := map_snd_zip hlen.le
  -- The entries that are still to come are the front of the queue and of the indices.
  have hrun := forEach_inv (E := fun _ _ => False)
    (f := fun e : MixedBlock ι κ × Nat => (do
      setPayload e.1 fun payload => { payload with hostBlockIndex := some e.2 }
      onIndex (finishD2h e.1) : CoordM ι κ μ Unit))
    (I := fun l c' => Staged c' (l.map Prod.fst ++ queue) (l.map Prod.snd ++ reserved) ∧
      ParentFirst c'.prefixCache.blocks (l.map Prod.fst ++ queue) ∧ c'.offload = c.offload ∧
      ∃ done, operation.blocks = done ++ l.map Prod.fst ∧ ∀ x,
        HostPresent c'.prefixCache.blocks x ↔
          HostPresent c.prefixCache.blocks x ∨ x ∈ names done)
    (by
      rintro e l c₁ ⟨hs, hp, hoff, done, hdone, hosts⟩
      refine wp_mono (wp_finish hs hp) ?_ fun _ _ he => he
      rintro - c₂ ⟨hs', hp', hoff', hosts'⟩
      refine ⟨hs', hp', hoff'.trans hoff, done ++ [e.1], by simpa using hdone, fun x => ?_⟩
      rw [hosts', hosts, names_append, mem_append, or_assoc]
      simp)
    (operation.blocks.zip operation.hostIndices) c
    ⟨by rw [hfst, hsnd]; exact h, by rw [hfst]; exact ho, rfl, [], by rw [hfst]; rfl,
      fun x => by simp⟩
  refine wp_mono hrun ?_ fun _ _ he => he
  rintro - c₁ ⟨hs, hp, hoff, done, hdone, hosts⟩
  obtain rfl : operation.blocks = done := by simpa using hdone
  exact ⟨hs, hp, hoff, hosts⟩

theorem wp_pollOperations : ∀ (ready : Nat) (c : PrefixCacheCoordinator ι κ μ), Pipelined c →
    wp (pollD2hOperations ready)
      (fun _ c' => Pipelined c' ∧ ∃ done, Completes c c' done (queuedBatches c') ∧
        (0 < ready → c.offload.d2hOperations ≠ [] → done ≠ []))
      (fun _ _ => False) c
  | 0, c, h => ⟨h, [], .of_kept (.refl _), fun hno => absurd hno (lt_irrefl 0)⟩
  | ready + 1, c, h => by
    simp only [pollD2hOperations, wp_bind, wp_get]
    cases hops : c.offload.d2hOperations with
    | nil => exact ⟨h, [], .of_kept (.refl _), fun _ hno => (hno rfl).elim⟩
    | cons operation operations =>
      have hqueue : queuedBatches c =
          operation :: (operations ++ c.offload.pendingD2hBatches) := by
        rw [queuedBatches, hops]
        rfl
      have hstaged := h.staged
      have horder := h.order
      have hshape := h.shape
      have hsingle := h.single
      rw [hqueue] at hstaged horder hshape
      rw [hops] at hsingle
      simp only [modifyOffload, wp_bind, wp_modify]
      refine wp_mono (wp_finishOperation operation
        (blocksOf (operations ++ c.offload.pendingD2hBatches))
        (indicesOf (operations ++ c.offload.pendingD2hBatches))
        ⟨hstaged.wf, hstaged.marked, hstaged.accounted⟩ horder
        (hshape operation mem_cons_self).2) ?_ fun _ _ he => he
      rintro - c₁ ⟨hs, hp, hoff, hosts⟩
      have hqueue₁ : queuedBatches c₁ = operations ++ c.offload.pendingD2hBatches := by
        rw [queuedBatches, hoff]
      have hpipe : Pipelined c₁ := by
        refine ⟨hqueue₁ ▸ hs, hqueue₁ ▸ hp, fun batch hb => ?_, ?_⟩
        · exact hshape batch (mem_cons_of_mem _ (hqueue₁ ▸ hb))
        · rw [hoff]
          exact (Nat.le_succ _).trans hsingle
      have hone : Completes c c₁ [operation] (queuedBatches c₁) :=
        ⟨by rw [hqueue, hqueue₁]; rfl, fun x => by simpa [blocksOf] using hosts x⟩
      refine wp_mono (wp_pollOperations ready c₁ hpipe) ?_ fun _ _ he => he
      rintro - c₂ ⟨hpipe₂, done, hdone, -⟩
      exact ⟨hpipe₂, [operation] ++ done, hone.trans rfl hdone, fun _ _ hno => by cases hno⟩

theorem wp_pollD2h {ready : Nat} (h : Pipelined c) :
    wp (pollD2h cfg ready)
      (fun _ c' => Pipelined c' ∧ ∃ done, Completes c c' done (queuedBatches c') ∧
        (0 < ready → c.offload.d2hOperations ≠ [] → done ≠ []))
      (fun e c' => Pipelined c' ∧ queuedBatches c' = [] ∧ (∃ done rest, Completes c c' done rest) ∧
        ∃ message, e = .runtimeError message) c := by
  simp only [pollD2h, wp_bind]
  refine wp_mono (wp_pollOperations ready c h) ?_ fun _ _ he => he.elim
  rintro - c₁ ⟨hpipe, done, hdone, hready⟩
  refine wp_mono (wp_startNext hpipe) ?_ ?_
  · rintro - c₂ ⟨hpipe₂, hqueue, hk, -⟩
    exact ⟨hpipe₂, done, hqueue ▸ hdone.kept hk, hready⟩
  · rintro e c₂ ⟨hpipe₂, hempty, hk, he⟩
    exact ⟨hpipe₂, hempty, ⟨done, _, hdone.kept hk⟩, he⟩

end SparseEngine.PrefixCacheCoordinator
