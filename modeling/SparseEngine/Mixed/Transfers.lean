import SparseEngine.Mixed.Coordinator

/-! Polls, waits, submissions to the host and the return of device copies are built from few steps.
-/

namespace SparseEngine.PrefixCacheCoordinator

open PyM RadixPrefixIndex

variable {ι κ μ : Type} [LinearOrder ι]

/-- `R` holds along the steps that transfers are made of. -/
structure Tolerates (R : PrefixCacheCoordinator ι κ μ → PrefixCacheCoordinator ι κ μ → Prop) :
    Prop where
  managers : ∀ {α : Type} (m : PyM μ α), Along R (onManagers m)
  offload : ∀ f, Along R (modifyOffload f)
  payload : ∀ (b : MixedBlock ι κ) {f : MixedPrefixBlockPayload κ → MixedPrefixBlockPayload κ},
    (∀ p, (f p).recurrentBytes = p.recurrentBytes ∧
      (f p).recurrentPayload.objectId = p.recurrentPayload.objectId) → Along R (setPayload b f)
  beginD2h : ∀ b : MixedBlock ι κ, Along R (onIndex (RadixPrefixIndex.beginD2h b))
  finishD2h : ∀ b : MixedBlock ι κ, Along R (onIndex (RadixPrefixIndex.finishD2h b))
  abortD2h : ∀ b : MixedBlock ι κ, Along R (onIndex (RadixPrefixIndex.abortD2h b))
  finishH2d : ∀ b : MixedBlock ι κ, Along R (onIndex (RadixPrefixIndex.finishH2d b))

section

variable {R : PrefixCacheCoordinator ι κ μ → PrefixCacheCoordinator ι κ μ → Prop} [Std.Refl R]
  [IsTrans (PrefixCacheCoordinator ι κ μ) R] {cfg : CoordinatorConfig ι κ μ}

theorem Tolerates.nextDeviceCall (h : Tolerates R) : Along R nextDeviceCall :=
  along_bind along_get fun _ => along_bind (h.offload _) fun _ => along_pure _

theorem Tolerates.hostAllocate (h : Tolerates R) (count : Nat) : Along R (hostAllocate count) :=
  along_bind along_get fun _ => along_bind (along_raiseIf _ _) fun _ =>
    along_bind (along_raiseIf _ _) fun _ =>
      along_bind (h.offload _) fun _ => along_pure _

theorem Tolerates.hostFree (h : Tolerates R) (indices : List Nat) : Along R (hostFree indices) :=
  along_bind along_get fun _ => along_bind (along_raiseIf _ _) fun _ =>
    along_bind (along_raiseIf _ _) fun _ => h.offload _

theorem Tolerates.takeHostIndices (h : Tolerates R) : ∀ blocks : List (MixedBlock ι κ),
    Along R (takeHostIndices blocks)
  | [] => along_pure _
  | b :: blocks => by
    refine along_bind along_get fun c => ?_
    dsimp only
    split
    · exact h.takeHostIndices blocks
    · refine along_bind (along_lift _) fun i => ?_
      refine along_bind (h.payload b fun _ => ⟨rfl, rfl⟩) fun _ => ?_
      exact along_bind (h.takeHostIndices blocks) fun _ => along_pure _

theorem Tolerates.freeHostPayloads (h : Tolerates R) (blocks : List (MixedBlock ι κ)) :
    Along R (freeHostPayloads blocks) := by
  refine along_bind (h.takeHostIndices blocks) fun indices => ?_
  split
  · exact along_pure _
  · exact h.hostFree indices

theorem Tolerates.finishD2hOperation (h : Tolerates R) (operation : MixedD2HBatch ι κ) :
    Along R (finishD2hOperation operation) :=
  along_forEach fun e _ => along_bind (h.payload e.1 fun _ => ⟨rfl, rfl⟩) fun _ =>
    h.finishD2h e.1

theorem Tolerates.pollD2hOperations (h : Tolerates R) : ∀ ready : Nat,
    Along R (pollD2hOperations ready)
  | 0 => along_pure _
  | ready + 1 => by
    refine along_bind along_get fun c => ?_
    split
    · exact along_pure _
    · exact along_bind (h.offload _) fun _ =>
        along_bind (h.finishD2hOperation _) fun _ => h.pollD2hOperations ready

theorem Tolerates.abortD2hBatch (h : Tolerates R) (batch : MixedD2HBatch ι κ) :
    Along R (abortD2hBatch batch) :=
  along_bind (along_forEach fun b _ => h.abortD2h b) fun _ =>
    h.hostFree _

theorem Tolerates.abortPendingD2h (h : Tolerates R) (current : MixedD2HBatch ι κ) :
    Along R (abortPendingD2h current) :=
  along_bind along_get fun _ => along_bind (h.offload _) fun _ =>
    along_bind (h.abortD2hBatch current) fun _ =>
      along_forEach fun batch _ => h.abortD2hBatch batch

theorem Tolerates.submitReservedD2hBatch (h : Tolerates R) (batch : MixedD2HBatch ι κ) :
    Along R (submitReservedD2hBatch cfg batch) :=
  along_bind along_get fun _ => along_bind (along_lift _) fun _ =>
    along_bind h.nextDeviceCall fun _ =>
      along_bind (along_raiseIf _ _) fun _ => h.offload _

theorem Tolerates.startNextD2hBatch (h : Tolerates R) : Along R (startNextD2hBatch cfg) := by
  refine along_bind along_get fun c => ?_
  dsimp only
  split
  · exact along_pure _
  · split
    · exact along_pure _
    · refine along_bind (h.offload _) fun _ => ?_
      exact along_tryExcept (h.submitReservedD2hBatch _) fun e =>
        along_bind (h.abortPendingD2h _) fun _ => along_raise e

theorem Tolerates.submitD2h (h : Tolerates R) (blocks : List (MixedBlock ι κ)) : Along R (submitD2h cfg blocks) := by
  unfold PrefixCacheCoordinator.submitD2h
  split
  · exact along_pure _
  · refine along_bind h.nextDeviceCall fun k => along_bind (along_raiseIf _ _) fun _ => ?_
    refine along_bind (h.hostAllocate _) fun hostIndices => ?_
    refine along_bind (along_untilError (fun b => h.beginD2h b) _) fun r => ?_
    obtain ⟨begun, error⟩ := r
    cases error with
    | some e =>
      refine along_bind (along_forEach fun b _ => h.abortD2h b) fun _ => ?_
      exact along_bind (h.hostFree _) fun _ => along_raise e
    | none => exact along_bind (h.offload _) fun _ => h.startNextD2hBatch

theorem Tolerates.pollD2h (h : Tolerates R) (ready : Nat) : Along R (pollD2h cfg ready) :=
  along_bind (h.pollD2hOperations ready) fun _ => h.startNextD2hBatch

theorem Tolerates.pollH2d (h : Tolerates R) : ∀ ready : Nat, Along R (pollH2d ready)
  | 0 => along_pure _
  | ready + 1 => by
    refine along_bind along_get fun c => ?_
    split
    · exact along_pure _
    · refine along_bind (h.offload _) fun _ => ?_
      refine along_bind (along_forEach fun b _ => ?_) fun _ => h.pollH2d ready
      exact along_bind (h.finishH2d b) fun _ => h.offload _

theorem Tolerates.pollOffload (h : Tolerates R) : Along R (pollOffload cfg) := by
  unfold PrefixCacheCoordinator.pollOffload
  split
  · exact along_bind h.nextDeviceCall fun _ =>
      along_bind (h.pollD2h _) fun _ => h.pollH2d _
  · exact along_pure _

theorem Tolerates.waitOldestD2h (h : Tolerates R) : Along R (waitOldestD2h cfg) := by
  refine along_bind h.startNextD2hBatch fun _ => along_bind along_get fun c => ?_
  split
  · exact along_pure _
  · exact along_bind h.nextDeviceCall fun _ =>
      along_bind (h.pollD2h _) fun _ => along_pure _

omit [LinearOrder ι] in
theorem along_oldestD2h : Along R oldestD2h := by
  refine along_bind along_get fun c => ?_
  split
  · exact along_raise _
  · exact along_pure _

theorem Tolerates.drainD2h (h : Tolerates R) : ∀ fuel : Nat, Along R (drainD2h cfg fuel)
  | 0 => along_bind along_get fun _ => along_raiseIf _ _
  | fuel + 1 => by
    refine along_bind along_get fun c => ?_
    split
    · exact along_pure _
    · exact along_bind h.startNextD2hBatch fun _ => along_bind along_oldestD2h fun _ =>
        along_bind h.nextDeviceCall fun _ =>
          along_bind (h.pollD2h _) fun _ => h.drainD2h fuel

theorem Tolerates.synchronizeAll (h : Tolerates R) : Along R (synchronizeAll cfg) :=
  along_bind along_get fun _ => along_bind (h.drainD2h _) fun _ =>
    along_bind along_get fun _ => h.pollH2d _

theorem Tolerates.allocateDeviceRecurrent (h : Tolerates R) (blocks : List (MixedBlock ι κ)) :
    Along R (allocateDeviceRecurrent blocks) :=
  along_forEach fun b _ => along_bind along_get fun _ => along_bind (along_raiseIf _ _) fun _ =>
    h.payload b fun _ => ⟨rfl, rfl⟩

theorem Tolerates.freeDeviceRecurrent (h : Tolerates R) (b : MixedBlock ι κ) :
    Along R (freeDeviceRecurrent b) :=
  along_bind along_get fun _ => along_bind (along_raiseIf _ _) fun _ =>
    h.payload b fun _ => ⟨rfl, rfl⟩

theorem Tolerates.freeDeviceBlock (h : Tolerates R) (b : MixedBlock ι κ) : Along R (freeDeviceBlock cfg b) :=
  along_bind along_get fun _ => along_bind (h.managers _) fun _ =>
    h.freeDeviceRecurrent b

theorem Tolerates.undoPromotion (h : Tolerates R) (b : MixedBlock ι κ) : Along R (undoPromotion cfg b) := by
  refine along_bind along_get fun c => ?_
  dsimp only
  have hkv : Along R
      (if (cfg.managers.deviceSlotCount (c.prefixCache.deref b).payload.kvPayload c.managers).isSome
        then onManagers (cfg.managers.freePrefixKvPayloadDevice
          (c.prefixCache.deref b).payload.kvPayload)
        else pure ()) := by
    split
    · exact h.managers _
    · exact along_pure _
  split
  · exact along_bind (h.freeDeviceRecurrent b) fun _ => hkv
  · exact along_bind (along_pure ()) fun _ => hkv

end

end SparseEngine.PrefixCacheCoordinator
