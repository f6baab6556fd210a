import SparseEngine.Mixed.Capacity
import SparseEngine.Mixed.Pipeline

/-! A run of the offload controller interleaves submissions, polls, waits and full synchronisations
with whatever else the engine does to the index. -/

namespace SparseEngine.PrefixCacheCoordinator

open PyM RadixPrefixIndex MixedBackups List Dict RadixPrefixIndex

variable {ι κ μ : Type} [LinearOrder ι] {cfg : CoordinatorConfig ι κ μ}
  {c c' c'' : PrefixCacheCoordinator ι κ μ} {queue : List (MixedBlock ι κ)}
  {reserved : List Nat} {b : MixedBlock ι κ}

section

variable {α β : Type}

theorem toChunks_go_flatten (n : Nat) : ∀ (l : List α) (acc : Array α) (out : Array (List α)),
    (toChunks.go n l acc out).flatten = out.toList.flatten ++ acc.toList ++ l
  | [], acc, out => by simp [toChunks.go]
  | x :: l, acc, out => by
    rw [toChunks.go]
    split
    · rw [toChunks_go_flatten n l]
      simp
    · rw [toChunks_go_flatten n l]
      simp

theorem toChunks_flatten : ∀ (n : Nat) (l : List α), (l.toChunks n).flatten = l
  | 0, [] => rfl
  | n + 1, [] => rfl
  | 0, x :: l => by simp [toChunks]
  | n + 1, x :: l => by simp [toChunks, toChunks_go_flatten]

def SameCut (ls : List (List α)) (ms : List (List β)) : Prop :=
  Forall₂ (fun l m => l ≠ [] ∧ m.length = l.length) ls ms

theorem sameCut_go (n : Nat) : ∀ (l : List α) (m : List β) (acc : Array α) (acc' : Array β)
    (out : Array (List α)) (out' : Array (List β)), m.length = l.length → acc.toList ≠ [] →
    acc'.size = acc.size → SameCut out.toList out'.toList →
    SameCut (toChunks.go n l acc out) (toChunks.go n m acc' out')
  | [], [], acc, acc', out, out', _, hne, hs, hout => by
    simp only [toChunks.go, Array.toList_push]
    exact rel_append hout (.cons ⟨hne, by simpa using hs⟩ .nil)
  | x :: l, y :: m, acc, acc', out, out', hl, hne, hs, hout => by
    have hl : m.length = l.length := by simpa using hl
    rw [toChunks.go, toChunks.go, hs]
    split
    · refine sameCut_go n l m _ _ _ _ hl (by simp) (by simp) ?_
      simp only [Array.toList_push]
      exact rel_append hout (.cons ⟨hne, by simpa using hs⟩ .nil)
    · exact sameCut_go n l m _ _ _ _ hl (by simp) (by simp [hs]) hout

theorem sameCut_toChunks : ∀ (n : Nat) {l : List α} {m : List β}, m.length = l.length →
    SameCut (l.toChunks n) (m.toChunks n)
  | n, [], [], _ => by cases n <;> exact .nil
  | 0, x :: l, y :: m, h => .cons ⟨by simp, h⟩ .nil
  | n + 1, x :: l, y :: m, h => by
    simp only [toChunks]
    exact sameCut_go _ l m _ _ _ _ (by simpa using h) (by simp) (by simp) .nil

end

omit [LinearOrder ι] in
theorem zipWith_mk_batches {ls : List (List (MixedBlock ι κ))} {ms : List (List Nat)}
    (h : SameCut ls ms) :
    blocksOf (ls.zipWith MixedD2HBatch.mk ms) = ls.flatten ∧
      indicesOf (ls.zipWith MixedD2HBatch.mk ms) = ms.flatten ∧
      ∀ batch ∈ ls.zipWith MixedD2HBatch.mk ms,
        batch.blocks ≠ [] ∧ batch.hostIndices.length = batch.blocks.length := by
  induction h with
  | nil => exact ⟨rfl, rfl, by simp⟩
  | cons hcut _ ih =>
    obtain ⟨hb, hi, hs⟩ := ih
    simp only [blocksOf, indicesOf] at hb hi ⊢
    exact ⟨by simp [hb], by simp [hi], by simpa using ⟨hcut, hs⟩⟩

omit [LinearOrder ι] in
theorem stagingBatches_spec (cfg : CoordinatorConfig ι κ μ) {blocks : List (MixedBlock ι κ)}
    {indices : List Nat}
    (h : indices.length = blocks.length) :
    blocksOf (stagingBatches cfg blocks indices) = blocks ∧
      indicesOf (stagingBatches cfg blocks indices) = indices ∧
      ∀ batch ∈ stagingBatches cfg blocks indices,
        batch.blocks ≠ [] ∧ batch.hostIndices.length = batch.blocks.length := by
  have hcut := zipWith_mk_batches (sameCut_toChunks cfg.d2hStagingBlocks h)
  rwa [toChunks_flatten, toChunks_flatten] at hcut

theorem wp_begin (h : Staged c queue reserved) (ho : ParentFirst c.prefixCache.blocks queue) :
    wp (onIndex (beginD2h b))
      (fun _ c' => (Staged c' (queue ++ [b]) reserved ∧
        ParentFirst c'.prefixCache.blocks (queue ++ [b])) ∧ c'.offload = c.offload ∧ KeptHost c c')
      (fun _ c' => (Staged c' queue reserved ∧ ParentFirst c'.prefixCache.blocks queue) ∧
        c'.offload = c.offload ∧ KeptHost c c') c := by
  have hspec := beginD2h_spec h.wf b
  have hparent : wp (beginD2h b) (fun _ _ => ∀ d, Live c.prefixCache.blocks b d →
      ∀ p, d.parentBlockId = some p → ∃ pb, c.prefixCache.blocks.get? p = some pb ∧
        (pb.residency.hostPresent = true ∨ pb.residency.transfer = some .d2h))
      (fun _ _ => True) c.prefixCache := by
    by_cases hlive : ∃ d, Live c.prefixCache.blocks b d
    · obtain ⟨d, hd⟩ := hlive
      refine wp_mono (beginD2h_parent h.wf hd) (fun _ _ hp d' hd' => ?_) fun _ _ _ => trivial
      obtain rfl : d = d' := Option.some.inj (hd.1.symm.trans hd'.1)
      exact hp
    · exact wp_mono hspec (fun _ _ _ d hd => (hlive ⟨d, hd⟩).elim) fun _ _ _ => trivial
  rw [onIndex, wp_zoom]
  refine wp_mono (wp_and hspec hparent) ?_ ?_
  · rintro - s' ⟨⟨hrecast, d, hget, hobj, -, hhost, ht⟩, hparent⟩
    have hd : Live c.prefixCache.blocks b d := ⟨hget, hobj.symm ▸ rfl⟩
    have hblocks : s'.blocks = c.prefixCache.blocks.set b.stableBlockId
        { d with residency := { d.residency with transfer := some .d2h } } := by
      rcases hrecast.blocks with ⟨d', hget', -, hblocks⟩ | ⟨hno, -⟩
      · obtain rfl : d = d' := Option.some.inj (hget.symm.trans hget')
        exact hblocks
      · rw [isIndexed_iff.mpr ⟨d, hget, hobj⟩] at hno
        cases hno
    have hkept : Kept c.prefixCache.blocks s'.blocks := hblocks ▸ .set hget rfl rfl
    refine ⟨⟨.wrote hblocks (hrecast.steps.wf h.wf) ?_ ?_, ?_⟩, rfl, hkept⟩
    · exact h.marked.push hd ht rfl rfl
    · exact h.accounted.set hget rfl fun _ => rfl
    · refine (ho.mono (fun x => (hkept.hosts x).mpr) hkept.parents).push fun p hp => ?_
      have hp : d.parentBlockId = some p := by
        rw [hkept.parents, parentMap_of_get hget] at hp
        exact Option.some.inj hp
      obtain ⟨pb, hpb, hp | hp⟩ := hparent d hd p hp
      · exact Or.inl ((hkept.hosts p).mpr ⟨pb, hpb, hp⟩)
      · exact Or.inr (h.marked.covers p pb hpb hp)
  · rintro e s' ⟨hs, -⟩
    have hkept := kept_of_unchanged hs
    exact ⟨⟨h.unchanged hs, ho.mono (fun x => (hkept.hosts x).mpr) hkept.parents⟩, rfl, hkept⟩

theorem wp_hostAllocate {count : Nat} (h : Staged c queue reserved) :
    wp (hostAllocate count)
      (fun indices c' => indices.length = count ∧ Staged c' queue (reserved ++ indices) ∧
        SameQueue c c' ∧ c'.prefixCache = c.prefixCache)
      (fun _ c' => c' = c) c := by
  simp only [hostAllocate, modifyOffload, wp_bind, wp_get, wp_raiseIf, wp_modify, wp_pure]
  refine ⟨fun _ => trivial, fun _ => ⟨fun _ => trivial, fun hlen => ?_⟩⟩
  refine ⟨by simp; omega, ⟨h.wf, h.marked, h.accounted.reserve ?_⟩, ⟨rfl, rfl⟩, trivial⟩
  rw [reverse_reverse, take_append_drop]

theorem wp_submitD2h (h : Pipelined c) (blocks : List (MixedBlock ι κ)) :
    wp (submitD2h cfg blocks)
      (fun _ c' => Pipelined c' ∧ KeptHost c c' ∧
        ∃ added, queuedBatches c' = queuedBatches c ++ added ∧ blocksOf added = blocks)
      (fun _ c' => Pipelined c' ∧ KeptHost c c' ∧
        (queuedBatches c' = queuedBatches c ∨ queuedBatches c' = [])) c := by
  unfold submitD2h
  cases hblocks : blocks.isEmpty with
  | true =>
    obtain rfl : blocks = [] := by simpa using hblocks
    exact ⟨h, .refl _, [], by simp, rfl⟩
  | false =>
    simp only [Bool.false_eq_true, if_false, nextDeviceCall, modifyOffload, wp_bind, wp_get,
      wp_modify, wp_pure, wp_raiseIf]
    set c₀ : PrefixCacheCoordinator ι κ μ :=
      { c with offload := { c.offload with deviceCalls := c.offload.deviceCalls + 1 } } with hc₀
    have hq₀ : SameQueue c c₀ := ⟨rfl, rfl⟩
    have hs₀ : Staged c₀ (blocksOf (queuedBatches c)) (indicesOf (queuedBatches c)) :=
      h.staged.congr rfl rfl rfl
    have hp₀ : Pipelined c₀ := h.same hq₀ hs₀ (.refl _)
    refine ⟨fun _ => ⟨hp₀, .refl _, Or.inl hq₀.queued⟩, fun _ => ?_⟩
    refine wp_mono (wp_hostAllocate hs₀) ?_ ?_
    · rintro indices c₁ ⟨hlen, hs₁, hq₁, hp₁⟩
      have ho₁ : ParentFirst c₁.prefixCache.blocks (blocksOf (queuedBatches c)) := by
        rw [hp₁]
        exact h.order
      have hk₁ : KeptHost c c₁ := by
        rw [KeptHost, hp₁]
        exact .refl _
      -- The blocks reserved so far are the end of the queue.
      have hbegin := untilError_inv (E := fun _ _ => False)
        (f := fun b : MixedBlock ι κ =>
          (onIndex (beginD2h b) : CoordM ι κ μ Unit))
        (I := fun d c' => (Staged c' (blocksOf (queuedBatches c) ++ d)
            (indicesOf (queuedBatches c) ++ indices) ∧
          ParentFirst c'.prefixCache.blocks (blocksOf (queuedBatches c) ++ d)) ∧
            c'.offload = c₁.offload ∧ KeptHost c₁ c')
        (R := fun d _ c' => (Staged c' (blocksOf (queuedBatches c) ++ d)
            (indicesOf (queuedBatches c) ++ indices) ∧
          ParentFirst c'.prefixCache.blocks (blocksOf (queuedBatches c) ++ d)) ∧
            c'.offload = c₁.offload ∧ KeptHost c₁ c')
        blocks [] c₁ ⟨⟨by simpa using hs₁, by simpa using ho₁⟩, rfl, .refl _⟩ (by
          rintro b d c₂ - ⟨⟨hs, ho⟩, hoff, hk⟩
          refine wp_mono (wp_begin hs ho) ?_ ?_
          · rintro - c₃ ⟨hso, hoff', hk'⟩
            exact ⟨by simpa using hso, hoff'.trans hoff, hk.trans hk'⟩
          · rintro e c₃ ⟨hso, hoff', hk'⟩
            exact ⟨hso, hoff'.trans hoff, hk.trans hk'⟩)
      refine wp_mono hbegin ?_ fun _ _ he => he.elim
      rintro ⟨begun, error⟩ c₂ hresult
      cases error with
      | some e =>
        obtain ⟨⟨hs₂, ho₂⟩, hoff₂, hk₂⟩ := hresult
        rw [nil_append] at hs₂ ho₂
        simp only [wp_bind, wp_raise]
        refine wp_mono (wp_abort_back hs₂) ?_ fun _ _ he => he.elim
        rintro - c₃ ⟨hs₃, hoff₃, hk₃⟩
        have hs₃ := hs₃
        refine wp_mono (wp_hostFree indices (indicesOf (queuedBatches c))
          ⟨hs₃.wf, hs₃.marked, hs₃.accounted.perm perm_append_comm⟩) ?_
          fun _ _ he => he.elim
        rintro - c₄ ⟨hs₄, hq₄, hp₄⟩
        have hq : SameQueue c c₄ := hq₀.trans (hq₁.trans
          ⟨by rw [hq₄.operations, hoff₃, hoff₂], by rw [hq₄.pending, hoff₃, hoff₂]⟩)
        have hk : KeptHost c c₄ := by
          rw [KeptHost, hp₄]
          exact (hk₁.trans hk₂).trans hk₃
        exact ⟨h.same hq hs₄ hk, hk, Or.inl hq.queued⟩
      | none =>
        obtain ⟨-, ⟨hs₂, ho₂⟩, hoff₂, hk₂⟩ := hresult
        rw [nil_append] at hs₂ ho₂
        obtain ⟨hstaged, hindices, hshape⟩ :=
          stagingBatches_spec cfg hlen
        simp only [wp_bind, wp_modify]
        set c₃ : PrefixCacheCoordinator ι κ μ :=
          { c₂ with
            offload :=
              { c₂.offload with
                pendingD2hBatches :=
                  c₂.offload.pendingD2hBatches ++ stagingBatches cfg blocks indices } } with hc₃
        have hops : c₃.offload.d2hOperations = c.offload.d2hOperations := by
          show c₂.offload.d2hOperations = _
          rw [hoff₂, hq₁.operations]
        have hqueue : queuedBatches c₃ = queuedBatches c ++ stagingBatches cfg blocks indices := by
          rw [queuedBatches, hops]
          show c.offload.d2hOperations ++ (c₂.offload.pendingD2hBatches ++ _) = _
          rw [hoff₂, hq₁.pending, ← append_assoc]
          rfl
        have hpipe : Pipelined c₃ := by
          refine ⟨?_, ?_, fun batch hb => ?_, hops ▸ h.single⟩
          · rw [hqueue, blocksOf_append, indicesOf_append, hstaged, hindices]
            exact ⟨hs₂.wf, hs₂.marked, hs₂.accounted⟩
          · rw [hqueue, blocksOf_append, hstaged]
            exact ho₂
          · rw [hqueue] at hb
            rcases mem_append.mp hb with hb | hb
            · exact h.shape batch hb
            · exact hshape batch hb
        have hk₃ : KeptHost c c₃ := hk₁.trans hk₂
        refine wp_mono (wp_startNext hpipe) ?_ ?_
        · rintro - c₄ ⟨hpipe₄, hqueue₄, hk₄, -⟩
          exact ⟨hpipe₄, hk₃.trans hk₄, _, hqueue₄.trans hqueue, hstaged⟩
        · rintro e c₄ ⟨hpipe₄, hempty, hk₄, -⟩
          exact ⟨hpipe₄, hk₃.trans hk₄, Or.inr hempty⟩
    · rintro e c₁ rfl
      exact ⟨hp₀, .refl _, Or.inl hq₀.queued⟩

theorem Pipelined.called (h : Pipelined c) (k : Nat) :
    Pipelined { c with offload := { c.offload with deviceCalls := k } } :=
  h.same ⟨rfl, rfl⟩ (h.staged.congr rfl rfl rfl) (.refl _)

theorem wp_startPoll {ready : Nat} (h : Pipelined c) (hk : KeptHost c' c)
    (hqueue : queuedBatches c = queuedBatches c') :
    wp (pollD2h cfg ready)
      (fun _ c'' => Pipelined c'' ∧ ∃ done, Completes c' c'' done (queuedBatches c'') ∧
        (0 < ready → c.offload.d2hOperations ≠ [] → done ≠ []))
      (fun e c'' => Pipelined c'' ∧ queuedBatches c'' = [] ∧
        (∃ done rest, Completes c' c'' done rest) ∧ ∃ message, e = .runtimeError message) c := by
  have hfirst : Completes c' c [] (queuedBatches c') := .of_kept hk
  refine wp_mono (wp_pollD2h h) ?_ ?_
  · rintro - c₁ ⟨hpipe, done, hdone, hready⟩
    exact ⟨hpipe, [] ++ done, hfirst.trans hqueue hdone, hready⟩
  · rintro e c₁ ⟨hpipe, hempty, ⟨done, rest, hdone⟩, he⟩
    exact ⟨hpipe, hempty, ⟨[] ++ done, rest, hfirst.trans hqueue hdone⟩, he⟩

theorem wp_waitOldestD2h (h : Pipelined c) :
    wp (waitOldestD2h cfg)
      (fun _ c' => Pipelined c' ∧ ∃ done, Completes c c' done (queuedBatches c'))
      (fun _ c' => Pipelined c' ∧ queuedBatches c' = [] ∧ ∃ done rest, Completes c c' done rest)
      c := by
  simp only [waitOldestD2h, nextDeviceCall, modifyOffload, wp_bind, wp_get]
  refine wp_mono (wp_startNext h) ?_ ?_
  · rintro - c₁ ⟨hpipe, hqueue, hk, -⟩
    cases hops : c₁.offload.d2hOperations.isEmpty with
    | true => exact ⟨hpipe, [], hqueue ▸ .of_kept hk⟩
    | false =>
      simp only [Bool.false_eq_true, if_false, wp_bind, wp_get, wp_modify, wp_pure]
      refine wp_mono (wp_startPoll (hpipe.called _) hk hqueue) ?_ ?_
      · rintro - c₂ ⟨hpipe₂, done, hdone, -⟩
        exact ⟨hpipe₂, done, hdone⟩
      · rintro e c₂ ⟨hpipe₂, hempty, hdone, -⟩
        exact ⟨hpipe₂, hempty, hdone⟩
  · rintro e c₁ ⟨hpipe, hempty, hk, -⟩
    exact ⟨hpipe, hempty, [], _, .of_kept hk⟩

omit [LinearOrder ι] in
theorem oldestD2h_run (h : c.offload.d2hOperations ≠ []) :
    ∃ operation, oldestD2h c = (.ok operation, c) := by
  cases hops : c.offload.d2hOperations with
  | nil => exact (h hops).elim
  | cons operation operations =>
    exact ⟨operation, by simp only [oldestD2h, bind_run, get_run, hops, pure_run]⟩

theorem wp_drainD2h : ∀ (fuel : Nat) (c : PrefixCacheCoordinator ι κ μ), Pipelined c →
    (queuedBatches c).length ≤ fuel →
    wp (drainD2h cfg fuel)
      (fun _ c' => Pipelined c' ∧ queuedBatches c' = [] ∧ ∃ done, Completes c c' done [])
      (fun e c' => Pipelined c' ∧ queuedBatches c' = [] ∧
        (∃ done rest, Completes c c' done rest) ∧ ∃ message, e = .runtimeError message) c
  | 0, c, h, hfuel => by
    have hempty : queuedBatches c = [] := eq_nil_of_length_eq_zero (Nat.le_zero.mp hfuel)
    simp only [drainD2h, wp_bind, wp_get, wp_raiseIf]
    refine ⟨fun hno => ?_, fun _ => ⟨h, hempty, [], .of_nothing hempty⟩⟩
    rw [hempty] at hno
    cases hno
  | fuel + 1, c, h, hfuel => by
    simp only [drainD2h, nextDeviceCall, modifyOffload, wp_bind, wp_get]
    cases hqueue : queuedBatches c with
    | nil => exact ⟨h, hqueue, [], .of_nothing hqueue⟩
    | cons batch batches =>
      simp only [isEmpty_cons, Bool.false_eq_true, if_false, wp_bind]
      refine wp_mono (wp_startNext h) ?_ ?_
      · rintro - c₁ ⟨hpipe, hsame, hk, hne⟩
        have hne := hne (by rw [hqueue]; exact cons_ne_nil _ _)
        -- The next batch is in flight, so there is an oldest operation.
        obtain ⟨operation, holdest⟩ := oldestD2h_run hne
        rw [wp_of_ok holdest]
        simp only [wp_get, wp_modify, wp_pure]
        refine wp_mono (wp_startPoll (hpipe.called _) hk hsame) ?_ ?_
        · rintro - c₂ ⟨hpipe₂, done, hdone, hready⟩
          have hdone_ne : done ≠ [] := hready (by omega) hne
          have hshort : (queuedBatches c₂).length ≤ fuel := by
            have hlen := congrArg length hdone.queue
            rw [length_append] at hlen
            have := length_pos_iff.mpr hdone_ne
            omega
          refine wp_mono (wp_drainD2h fuel c₂ hpipe₂ hshort) ?_ ?_
          · rintro - c₃ ⟨hpipe₃, hempty, done', hdone'⟩
            exact ⟨hpipe₃, hempty, done ++ done', hdone.trans rfl hdone'⟩
          · rintro e c₃ ⟨hpipe₃, hempty, ⟨done', rest, hdone'⟩, he⟩
            exact ⟨hpipe₃, hempty, ⟨done ++ done', rest, hdone.trans rfl hdone'⟩, he⟩
        · rintro e c₂ ⟨hpipe₂, hempty, hdone, he⟩
          exact ⟨hpipe₂, hempty, hdone, he⟩
      · rintro e c₁ ⟨hpipe, hempty, hk, he⟩
        exact ⟨hpipe, hempty, ⟨[], _, .of_kept hk⟩, he⟩

def BackupSteady (c c' : PrefixCacheCoordinator ι κ μ) : Prop :=
  ∀ queue reserved, Staged c queue reserved →
    Staged c' queue reserved ∧ SameQueue c c' ∧ KeptHost c c'

instance : Std.Refl (@BackupSteady ι κ μ _) := ⟨fun c _ _ h => ⟨h, .refl c, .refl _⟩⟩

instance : IsTrans (PrefixCacheCoordinator ι κ μ) BackupSteady :=
  ⟨fun _ _ _ h h' queue reserved hs =>
    have ⟨hs', hq, hk⟩ := h queue reserved hs
    have ⟨hs'', hq', hk'⟩ := h' queue reserved hs'
    ⟨hs'', hq.trans hq', hk.trans hk'⟩⟩

theorem backupSteady_finishH2d (b : MixedBlock ι κ) :
    Along (@BackupSteady ι κ μ _) (onIndex (finishH2d b)) := by
  intro c queue reserved hs
  suffices hkeeps : Keeps (fun c' : PrefixCacheCoordinator ι κ μ =>
      Staged c' queue reserved ∧ SameQueue c c' ∧ KeptHost c c')
      (onIndex (finishH2d b)) c from keeps_iff.mp hkeeps
  rw [Keeps, onIndex, wp_zoom]
  have unchanged : ∀ s', Unchanged c.prefixCache s' →
      Staged { c with prefixCache := s' } queue reserved ∧
        SameQueue c { c with prefixCache := s' } ∧ KeptHost c { c with prefixCache := s' } :=
    fun s' hs' => ⟨hs.unchanged hs', ⟨rfl, rfl⟩, kept_of_unchanged hs'⟩
  refine wp_mono (finishH2d_spec hs.wf b) ?_ fun e s' he => unchanged s' he
  rintro - s' ⟨⟨hsteps, ⟨d, hget, hobj, hblocks⟩ | ⟨-, hblocks⟩⟩, ht⟩
  · rw [deref_of_indexed hget hobj] at ht
    refine ⟨.wrote hblocks (hsteps.wf hs.wf) ?_ ?_, ⟨rfl, rfl⟩, ?_⟩
    · exact hs.marked.set hget rfl (by simp [ht])
    · exact hs.accounted.set hget rfl fun _ => rfl
    · show Kept _ s'.blocks
      rw [hblocks]
      exact .set hget rfl rfl
  · exact unchanged s' ⟨hsteps, hblocks⟩

theorem backupSteady_modifyOffload
    {f : MixedPrefixOffloadController ι κ → MixedPrefixOffloadController ι κ}
    (hf : ∀ o, (f o).freeIndices = o.freeIndices ∧ (f o).allocated = o.allocated ∧
      (f o).d2hOperations = o.d2hOperations ∧ (f o).pendingD2hBatches = o.pendingD2hBatches) :
    Along (@BackupSteady ι κ μ _) (modifyOffload f) := by
  intro c queue reserved hs
  obtain ⟨hfree, hall, hops, hpending⟩ := hf c.offload
  exact ⟨hs.congr rfl hfree hall, ⟨hops, hpending⟩, .refl _⟩

theorem backupSteady_pollH2d : ∀ ready : Nat, Along (@BackupSteady ι κ μ _) (pollH2d ready)
  | 0 => along_pure _
  | ready + 1 => by
    refine along_bind along_get fun c => ?_
    split
    · exact along_pure _
    · refine along_bind (backupSteady_modifyOffload fun _ => ⟨rfl, rfl, rfl, rfl⟩) fun _ => ?_
      refine along_bind (along_forEach fun b _ => ?_) fun _ => backupSteady_pollH2d ready
      exact along_bind (backupSteady_finishH2d b) fun _ =>
        backupSteady_modifyOffload fun _ => ⟨rfl, rfl, rfl, rfl⟩

theorem wp_synchronizeAll (h : Pipelined c) :
    wp (synchronizeAll cfg)
      (fun _ c' => Pipelined c' ∧ queuedBatches c' = [] ∧ ∃ done, Completes c c' done [])
      (fun _ c' => Pipelined c' ∧ queuedBatches c' = [] ∧ ∃ done rest, Completes c c' done rest)
      c := by
  simp only [synchronizeAll, wp_bind, wp_get]
  refine wp_mono (wp_drainD2h _ c h le_rfl) ?_ ?_
  · rintro - c₁ ⟨hpipe, hempty, done, hdone⟩
    have hsteady : ∀ c₂, BackupSteady c₁ c₂ → Pipelined c₂ ∧ queuedBatches c₂ = [] ∧
        Completes c c₂ done [] := by
      intro c₂ hs
      obtain ⟨hs₂, hq₂, hk₂⟩ := hs _ _ hpipe.staged
      exact ⟨hpipe.same hq₂ hs₂ hk₂, hq₂.queued.trans hempty, hdone.kept hk₂⟩
    refine (backupSteady_pollH2d _).wp (fun _ c₂ hs => ?_) fun _ c₂ hs => ?_
    · obtain ⟨hpipe₂, hempty₂, hdone₂⟩ := hsteady c₂ hs
      exact ⟨hpipe₂, hempty₂, done, hdone₂⟩
    · obtain ⟨hpipe₂, hempty₂, hdone₂⟩ := hsteady c₂ hs
      exact ⟨hpipe₂, hempty₂, done, [], hdone₂⟩
  · rintro e c₁ ⟨hpipe, hempty, hdone, -⟩
    exact ⟨hpipe, hempty, hdone⟩

def BackedUp (b : MixedBlock ι κ) : Prop :=
  b.residency.transfer = some .d2h ∨ b.residency.hostPresent = true

/-- `b'` is the object `b`. -/
structure SameBackup (b b' : MixedBlock ι κ) : Prop where
  objectId : b'.objectId = b.objectId
  parent : b'.parentBlockId = b.parentBlockId
  transfer : b'.residency.transfer = some .d2h ↔ b.residency.transfer = some .d2h
  host : b'.residency.hostPresent = b.residency.hostPresent
  index : b.residency.hostPresent = true → b'.payload.hostBlockIndex = b.payload.hostBlockIndex

/-- A step of the rest of the engine. -/
structure BackupsElsewhere (c c' : PrefixCacheCoordinator ι κ μ) : Prop where
  wf : WellFormed c'.prefixCache
  queue : SameQueue c c'
  free : c'.offload.freeIndices = c.offload.freeIndices
  allocated : c'.offload.allocated = c.offload.allocated
  forth : ∀ x b, c.prefixCache.blocks.get? x = some b → BackedUp b →
    ∃ b', c'.prefixCache.blocks.get? x = some b' ∧ SameBackup b b'
  back : ∀ x b', c'.prefixCache.blocks.get? x = some b' → BackedUp b' →
    ∃ b, c.prefixCache.blocks.get? x = some b ∧ SameBackup b b'

theorem BackupsElsewhere.hostOwns (h : BackupsElsewhere c c') (x : ι) (i : Nat) :
    HostOwns c'.prefixCache.blocks x i ↔ HostOwns c.prefixCache.blocks x i := by
  constructor
  · rintro ⟨b', hb', hh, hi⟩
    obtain ⟨b, hb, hs⟩ := h.back x b' hb' (Or.inr hh)
    have hh : b.residency.hostPresent = true := hs.host ▸ hh
    exact ⟨b, hb, hh, (hs.index hh).symm.trans hi⟩
  · rintro ⟨b, hb, hh, hi⟩
    obtain ⟨b', hb', hs⟩ := h.forth x b hb (Or.inr hh)
    exact ⟨b', hb', hs.host.trans hh, (hs.index hh).trans hi⟩

theorem BackupsElsewhere.hosts (h : BackupsElsewhere c c') (x : ι) :
    HostPresent c'.prefixCache.blocks x ↔ HostPresent c.prefixCache.blocks x := by
  constructor
  · rintro ⟨b', hb', hh⟩
    obtain ⟨b, hb, hs⟩ := h.back x b' hb' (Or.inr hh)
    exact ⟨b, hb, hs.host ▸ hh⟩
  · rintro ⟨b, hb, hh⟩
    obtain ⟨b', hb', hs⟩ := h.forth x b hb (Or.inr hh)
    exact ⟨b', hb', hs.host.trans hh⟩

theorem BackupsElsewhere.marked (h : BackupsElsewhere c c') (hm : Marked c.prefixCache.blocks queue) :
    Marked c'.prefixCache.blocks queue := by
  refine ⟨hm.nodup, fun b hb => ?_, fun x d' hd' ht => ?_⟩
  · obtain ⟨d, ⟨hd, ho⟩, ht⟩ := hm.live b hb
    obtain ⟨d', hd', hs⟩ := h.forth _ d hd (Or.inl ht)
    exact ⟨d', ⟨hd', hs.objectId.trans ho⟩, hs.transfer.mpr ht⟩
  · obtain ⟨d, hd, hs⟩ := h.back x d' hd' (Or.inl ht)
    exact hm.covers x d hd (hs.transfer.mp ht)

theorem BackupsElsewhere.accounted (h : BackupsElsewhere c c') {free : List Nat} {allocated : Finset Nat}
    (ha : Accounted c.prefixCache.blocks free allocated reserved) :
    Accounted c'.prefixCache.blocks free allocated reserved where
  __ := ha
  owned := fun x hx => by
    obtain ⟨i, hi⟩ := ha.owned x ((h.hosts x).mp hx)
    exact ⟨i, (h.hostOwns x i).mpr hi⟩
  apart := fun x y i hx hy => ha.apart x y i ((h.hostOwns x i).mp hx) ((h.hostOwns y i).mp hy)
  outside := fun x i hx => ha.outside x i ((h.hostOwns x i).mp hx)
  exact := fun i => by
    simp only [h.hostOwns]
    exact ha.exact i

theorem Pipelined.elsewhere (h : Pipelined c) (he : BackupsElsewhere c c') : Pipelined c' where
  staged := by
    rw [he.queue.queued]
    refine ⟨he.wf, he.marked h.staged.marked, ?_⟩
    rw [he.free, he.allocated]
    exact he.accounted h.staged.accounted
  order := by
    rw [he.queue.queued]
    intro before b after p hq hp
    have hmem : b ∈ blocksOf (queuedBatches c) := by
      rw [hq]
      simp
    obtain ⟨d, ⟨hd, -⟩, ht⟩ := h.staged.marked.live b hmem
    obtain ⟨d', hd', hs⟩ := he.forth _ d hd (Or.inl ht)
    rw [parentMap_of_get hd', hs.parent, ← parentMap_of_get hd] at hp
    exact (h.order before b after p hq hp).imp (he.hosts p).mpr id
  shape := by
    rw [he.queue.queued]
    exact h.shape
  single := by
    rw [he.queue.operations]
    exact h.single

theorem BackupsElsewhere.insert {s' : RadixPrefixIndex ι (MixedPrefixBlockPayload κ)}
    (hstep : InsertStep c.prefixCache b s') (hb : ¬ BackedUp b) :
    BackupsElsewhere c { c with prefixCache := s' } where
  wf := hstep.wf
  queue := ⟨rfl, rfl⟩
  free := rfl
  allocated := rfl
  forth := fun x d hd _ => by
    have hne : x ≠ b.stableBlockId := by
      rintro rfl
      rw [hstep.new] at hd
      cases hd
    refine ⟨d, ?_, rfl, rfl, .rfl, rfl, fun _ => rfl⟩
    show s'.blocks.get? x = some d
    rw [hstep.blocks, get?_set_ne _ _ hne]
    exact hd
  back := fun x d' hd' hup => by
    have hd' : s'.blocks.get? x = some d' := hd'
    rw [hstep.blocks] at hd'
    by_cases hx : x = b.stableBlockId
    · subst hx
      rw [get?_set_self] at hd'
      cases hd'
      exact (hb hup).elim
    · rw [get?_set_ne _ _ hx] at hd'
      exact ⟨d', hd', rfl, rfl, .rfl, rfl, fun _ => rfl⟩

inductive BackupCall (ι κ : Type) where
  | submitD2h (blocks : List (MixedBlock ι κ))
  | pollD2h (ready : Nat)
  | waitOldestD2h
  | synchronizeAll

def BackupCall.run (cfg : CoordinatorConfig ι κ μ) : BackupCall ι κ → CoordM ι κ μ Unit
  | .submitD2h blocks => PrefixCacheCoordinator.submitD2h cfg blocks
  | .pollD2h ready => PrefixCacheCoordinator.pollD2h cfg ready
  | .waitOldestD2h => do
    let _ ← PrefixCacheCoordinator.waitOldestD2h cfg
  | .synchronizeAll => PrefixCacheCoordinator.synchronizeAll cfg

structure FreshBackups (cfg : CoordinatorConfig ι κ μ) (c : PrefixCacheCoordinator ι κ μ) :
    Prop where
  index : c.prefixCache = {}
  offload : c.offload = { freeIndices := (range (cfg.hostCapacity.getD 0)).reverse }

inductive BackupReachable (cfg : CoordinatorConfig ι κ μ) : PrefixCacheCoordinator ι κ μ → Prop
  | start {c : PrefixCacheCoordinator ι κ μ} : FreshBackups cfg c → BackupReachable cfg c
  | call {c : PrefixCacheCoordinator ι κ μ} (e : BackupCall ι κ) : BackupReachable cfg c →
      BackupReachable cfg (e.run cfg c).2
  | elsewhere {c c' : PrefixCacheCoordinator ι κ μ} : BackupReachable cfg c → BackupsElsewhere c c' →
      BackupReachable cfg c'

/-- The queue after a call. -/
def Moves (c c' : PrefixCacheCoordinator ι κ μ) : Prop :=
  ∃ done rest added, Completes c c' done rest ∧ queuedBatches c' = rest ++ added

def GivesUp (c c' : PrefixCacheCoordinator ι κ μ) : Prop :=
  ∃ done rest, Completes c c' done rest ∧ (queuedBatches c' = rest ∨ queuedBatches c' = [])

theorem Moves.of_done {done : List (MixedD2HBatch ι κ)}
    (h : Completes c c' done (queuedBatches c')) : Moves c c' :=
  ⟨done, _, [], h, by simp⟩

theorem GivesUp.of_empty (hempty : queuedBatches c' = [])
    (h : ∃ done rest, Completes c c' done rest) : GivesUp c c' :=
  h.imp fun _ h => h.imp fun _ h => ⟨h, Or.inr hempty⟩

theorem wp_call (h : Pipelined c) (e : BackupCall ι κ) :
    wp (e.run cfg) (fun _ c' => Pipelined c' ∧ Moves c c')
      (fun _ c' => Pipelined c' ∧ GivesUp c c') c := by
  cases e with
  | submitD2h blocks =>
    refine wp_mono (wp_submitD2h h blocks) ?_ ?_
    · rintro - c₁ ⟨hpipe, hk, added, hqueue, -⟩
      exact ⟨hpipe, [], _, added, .of_kept hk, hqueue⟩
    · rintro e c₁ ⟨hpipe, hk, hqueue⟩
      exact ⟨hpipe, [], _, .of_kept hk, hqueue⟩
  | pollD2h ready =>
    refine wp_mono (wp_pollD2h h) ?_ ?_
    · rintro - c₁ ⟨hpipe, done, hdone, -⟩
      exact ⟨hpipe, .of_done hdone⟩
    · rintro e c₁ ⟨hpipe, hempty, hdone, -⟩
      exact ⟨hpipe, .of_empty hempty hdone⟩
  | waitOldestD2h =>
    simp only [BackupCall.run, wp_bind, wp_pure]
    refine wp_mono (wp_waitOldestD2h h) ?_ ?_
    · rintro - c₁ ⟨hpipe, done, hdone⟩
      exact ⟨hpipe, .of_done hdone⟩
    · rintro e c₁ ⟨hpipe, hempty, hdone⟩
      exact ⟨hpipe, .of_empty hempty hdone⟩
  | synchronizeAll =>
    refine wp_mono (wp_synchronizeAll h) ?_ ?_
    · rintro - c₁ ⟨hpipe, hempty, done, hdone⟩
      exact ⟨hpipe, .of_done (hempty ▸ hdone)⟩
    · rintro e c₁ ⟨hpipe, hempty, hdone⟩
      exact ⟨hpipe, .of_empty hempty hdone⟩

theorem FreshBackups.pipelined (h : FreshBackups cfg c) : Pipelined c := by
  have hqueue : queuedBatches c = [] := by
    rw [queuedBatches, h.offload]
    rfl
  refine .of_nothing ⟨h.index ▸ wf_empty, ?_, ?_⟩ hqueue
  · rw [h.index]
    exact ⟨nodup_nil, by simp, by simp⟩
  · rw [h.index, h.offload]
    refine ⟨nodup_reverse.mpr nodup_range, by simp, nodup_nil, ?_, ?_, ?_, ?_⟩
    · simp [HostPresent]
    · simp [HostOwns]
    · simp [HostOwns]
    · simp [HostOwns]

theorem BackupReachable.pipelined (h : BackupReachable cfg c) : Pipelined c := by
  induction h with
  | start hfresh => exact hfresh.pipelined
  | call e _ ih =>
    have hkeeps : Keeps Pipelined (e.run cfg) _ :=
      wp_mono (wp_call ih e) (fun _ _ h' => h'.1) fun _ _ h' => h'.1
    exact keeps_iff.mp hkeeps
  | elsewhere _ he ih => exact ih.elsewhere he

structure BackupSound (c : PrefixCacheCoordinator ι κ μ) : Prop where
  /-- At most one staged batch is in flight. -/
  single : c.offload.d2hOperations.length ≤ 1
  /-- No block is in host memory before its parent. -/
  parents : ∀ x b p, c.prefixCache.blocks.get? x = some b → b.parentBlockId = some p →
    HostPresent c.prefixCache.blocks x → HostPresent c.prefixCache.blocks p
  /-- The blocks with a D2H transfer are those of the queue. -/
  queued : ∀ x b, c.prefixCache.blocks.get? x = some b →
    (b.residency.transfer = some .d2h ↔ x ∈ names (blocksOf (queuedBatches c)))
  /-- No block is queued twice, in one batch or in two. -/
  once : (names (blocksOf (queuedBatches c))).Nodup
  /-- A block in host memory has an index. -/
  owned : ∀ x, HostPresent c.prefixCache.blocks x → ∃ i, HostOwns c.prefixCache.blocks x i
  /-- The allocated indices are those of the blocks in host memory, of the operations in flight
  and of the batches that wait. -/
  exact : ∀ i, i ∈ c.offload.allocated ↔ i ∈ indicesOf c.offload.d2hOperations ∨
    i ∈ indicesOf c.offload.pendingD2hBatches ∨ ∃ x, HostOwns c.prefixCache.blocks x i
  /-- No index is in two operations or batches, or twice in one. -/
  reservedOnce : (indicesOf c.offload.d2hOperations ++
    indicesOf c.offload.pendingD2hBatches).Nodup
  /-- No index of a block in host memory is reserved. -/
  outside : ∀ x i, HostOwns c.prefixCache.blocks x i →
    i ∉ indicesOf c.offload.d2hOperations ∧ i ∉ indicesOf c.offload.pendingD2hBatches
  /-- No two blocks in host memory share an index. -/
  apart : ∀ x y i, HostOwns c.prefixCache.blocks x i → HostOwns c.prefixCache.blocks y i → x = y
  /-- A free index is not allocated. -/
  free : ∀ i ∈ c.offload.freeIndices, i ∉ c.offload.allocated

theorem Pipelined.sound (h : Pipelined c) : BackupSound c := by
  have hacc := h.staged.accounted
  have hindices : indicesOf (queuedBatches c) = indicesOf c.offload.d2hOperations ++
      indicesOf c.offload.pendingD2hBatches := indicesOf_append _ _
  rw [hindices] at hacc
  refine ⟨h.single, fun x b p hb hp hh => ?_, fun x b hb => ⟨h.staged.marked.covers x b hb,
    fun hx => ?_⟩, h.staged.marked.nodup, hacc.owned, fun i => ?_, hacc.reservedNodup,
    fun x i hx => ?_, hacc.apart, hacc.freeOut⟩
  · have hmem := h.staged.wf.forest.closed x p ((parentMap_of_get hb).trans (congrArg some hp))
    obtain ⟨pb, hpb⟩ := mem_keySet.mp hmem
    exact ⟨pb, hpb, h.staged.wf.residency.host x b p pb hb hp hpb ((hostPresent_iff hb).mp hh)⟩
  · obtain ⟨d, hd, rfl⟩ := mem_map.mp hx
    obtain ⟨e, ⟨he, -⟩, ht⟩ := h.staged.marked.live d hd
    obtain rfl : b = e := Option.some.inj (hb.symm.trans he)
    exact ht
  · rw [hacc.exact, mem_append, or_assoc]
  · exact not_or.mp fun hi => hacc.outside x i hx (mem_append.mpr hi)

/-- The staged pipeline, over every run. The state is sound after every call, raised ones included.
-/
theorem BackupReachable.backups_sound (h : BackupReachable cfg c) :
    BackupSound c ∧
      (∀ e : BackupCall ι κ, wp (e.run cfg) (fun _ c' => BackupSound c' ∧ Moves c c')
        (fun _ c' => BackupSound c' ∧ GivesUp c c') c) ∧
      wp (drainD2h cfg (queuedBatches c).length) (fun _ c' => queuedBatches c' = [])
        (fun e c' => queuedBatches c' = [] ∧ ∃ message, e = .runtimeError message) c ∧
      wp (synchronizeAll cfg) (fun _ c' => queuedBatches c' = [])
        (fun _ c' => queuedBatches c' = []) c := by
  have hpipe := h.pipelined
  refine ⟨hpipe.sound, fun e => ?_, ?_, ?_⟩
  · exact wp_mono (wp_call hpipe e) (fun _ _ h' => ⟨h'.1.sound, h'.2⟩)
      fun _ _ h' => ⟨h'.1.sound, h'.2⟩
  · exact wp_mono (wp_drainD2h _ c hpipe le_rfl) (fun _ _ h' => h'.2.1)
      fun _ _ h' => ⟨h'.2.1, h'.2.2.2⟩
  · exact wp_mono (wp_synchronizeAll hpipe) (fun _ _ h' => h'.2.1) fun _ _ h' => h'.2.1

def stagingConfig : CoordinatorConfig Nat Unit Unit :=
  { demoCoordinatorConfig with
    hostCapacity := some 2
    fault := fun k => if k = 3 then some .copy else none }

def stagedBlock : MixedBlock Nat Unit where
  objectId := 0
  stableBlockId := 7
  parentBlockId := none
  logicalBlockIdx := 0
  payload :=
    { kvPayload := ()
      recurrentPayload := { objectId := 0, nbytes := 8 }
      tokenCount := 2
      accountingBytes := 24
      recurrentBytes := 8 }
  lastAccess := 1

def stagingStart : PrefixCacheCoordinator Nat Unit Unit where
  managers := ()
  offload := { freeIndices := [1, 0] }

def stagingIndexed : PrefixCacheCoordinator Nat Unit Unit :=
  (onIndex (insertBlock stagingConfig.index stagedBlock) stagingStart).2

theorem backupsElsewhere_stagingIndexed : BackupsElsewhere stagingStart stagingIndexed := by
  have hnew := insertBlock_new stagingConfig.index (wf_empty (ι := Nat)
    (π := MixedPrefixBlockPayload Unit)) (b := stagedBlock) rfl rfl (by
      rintro ⟨m, hm, hle⟩
      cases hm
      exact absurd hle (by decide))
  have hadm : Admissible (empty : Dict Nat (MixedBlock Nat Unit)) stagedBlock :=
    ⟨rfl, fun p hp => by cases hp⟩
  obtain ⟨r, s', hrun, n, rfl, hstep⟩ :=
    exists_of_wp (wp_mono hnew (fun _ _ h' => h') fun _ _ h' => h'.2 hadm)
  have hindexed : stagingIndexed = { stagingStart with prefixCache := s' } := by
    show { stagingStart with
      prefixCache := (insertBlock stagingConfig.index stagedBlock {}).2 } = _
    rw [hrun]
  rw [hindexed]
  exact .insert hstep (by rintro (h | h) <;> cases h)

def stagingInFlight : PrefixCacheCoordinator Nat Unit Unit :=
  (BackupCall.run stagingConfig (.submitD2h [stagedBlock]) stagingIndexed).2

/-- The block is in flight at the host index `0`. -/
theorem backups_sound_in_flight :
    stagingInFlight.offload.d2hOperations.map (·.hostIndices) = [[0]] ∧
      BackupSound stagingInFlight := by
  have hstart : BackupReachable stagingConfig stagingStart := .start ⟨rfl, rfl⟩
  have hreach : BackupReachable stagingConfig stagingInFlight :=
    .call _ (.elsewhere hstart backupsElsewhere_stagingIndexed)
  exact ⟨by decide +kernel, hreach.backups_sound.1⟩

end SparseEngine.PrefixCacheCoordinator
