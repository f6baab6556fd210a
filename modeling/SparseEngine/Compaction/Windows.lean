import SparseEngine.Compaction.Methods

/-! Two ways to compact. -/

namespace SparseEngine.Compaction

variable {cfg : Config} {r r' mid : Row} {scored : Bool} {k n : Nat}

theorem store_kvLen (cfg : Config) (r : Row) : (r.store cfg).kvLen = r.kvLen + 1 := rfl

theorem decodeStep_ok (ok : decodeStep cfg scored r = .ok r') :
    ∃ done, finishStep cfg scored (r.store cfg) = .ok done ∧
      r' = { done with numTokens := done.numTokens + 1 } := by
  simp only [decodeStep] at ok
  cases finished : finishStep cfg scored (r.store cfg) with
  | error e =>
    rw [finished] at ok
    exact nomatch ok
  | ok done =>
    rw [finished] at ok
    exact ⟨done, rfl, (Except.ok.inj ok).symm⟩

theorem decodeStep_of_finishStep {done : Row}
    (finished : finishStep cfg scored (r.store cfg) = .ok done) :
    decodeStep cfg scored r = .ok { done with numTokens := done.numTokens + 1 } := by
  rw [decodeStep, finished]
  rfl

theorem selectIndices_eq {kvLen budget : Nat} (long : budget < kvLen)
    (parts : cfg.sinkKeepTokens + cfg.recentKeepTokens ≤ budget) :
    selectIndices cfg kvLen budget = budget := by
  simp only [selectIndices]
  split <;> omega

theorem streamingllmSelectIndices_eq {kvLen : Nat}
    (long : cfg.sinkKeepTokens + cfg.recentKeepTokens < kvLen) :
    streamingllmSelectIndices cfg kvLen = cfg.sinkKeepTokens + cfg.recentKeepTokens := by
  simp only [streamingllmSelectIndices]
  omega

theorem freePartSlots_ok {keep : Nat} (ok : freePartSlots r keep = .ok r') : r'.kvLen = keep := by
  simp only [freePartSlots] at ok
  split at ok
  next => exact nomatch ok
  next => rw [← Except.ok.inj ok]

def CutsAt (cfg : Config) (triggerLen : Nat) : Prop :=
  ∀ scored r r', decodeStep cfg scored r = .ok r' →
    r'.kvLen < triggerLen ∧ r'.kvLen ≤ r.kvLen + 1

variable {triggerLen : Nat}

theorem Decodes.kvLen_lt (cuts : CutsAt cfg triggerLen) (run : Decodes cfg r k mid) :
    mid.kvLen ≤ r.kvLen + k ∧ (k ≠ 0 → mid.kvLen < triggerLen) := by
  induction run with
  | refl => exact ⟨le_rfl, fun h => absurd rfl h⟩
  | step scored _ ok ih =>
    obtain ⟨below, grows⟩ := cuts _ _ _ ok
    exact ⟨by omega, fun _ => below⟩

theorem windowCostsHold_of_cutsAt (cuts : CutsAt cfg triggerLen)
    (cost : ∀ existing tokens, decodeWindowCosts cfg existing tokens =
      min tokens (max 1 (triggerLen - existing))) : WindowCostsHold cfg r where
  between n k mid run hk := by
    have := run.kvLen_lt cuts
    rw [cost]
    omega
  within n k mid run hk := by
    have := run.kvLen_lt cuts
    rw [cost, store_kvLen]
    omega
  mono := by
    intro n m hnm
    simp only [cost]
    omega

theorem windowCostsHold_of_grows
    (grows : ∀ scored r r', decodeStep cfg scored r = .ok r' → r'.kvLen ≤ r.kvLen + 1)
    (cost : ∀ existing tokens, decodeWindowCosts cfg existing tokens = tokens) :
    WindowCostsHold cfg r := by
  have bound : ∀ k mid, Decodes cfg r k mid → mid.kvLen ≤ r.kvLen + k := by
    intro k mid run
    induction run with
    | refl => exact le_rfl
    | step scored _ ok ih =>
      have := grows _ _ _ ok
      omega
  refine ⟨fun n k mid run hk => ?_, fun n k mid run hk => ?_, fun n m hnm => ?_⟩
  · have := bound k mid run
    rw [cost]
    omega
  · have := bound k mid run
    rw [cost, store_kvLen]
    omega
  · simp only [cost]
    exact hnm

theorem cutsAt_of_finishStep (budget : Nat) (below : budget < triggerLen)
    (finish : ∀ scored r done, finishStep cfg scored r = .ok done →
      (r.kvLen ≤ budget ∨ r.kvLen < triggerLen) ∧ done = r ∨
        budget < r.kvLen ∧ done.kvLen = budget) : CutsAt cfg triggerLen := by
  intro scored r r' ok
  obtain ⟨done, finished, rfl⟩ := decodeStep_ok ok
  show done.kvLen < triggerLen ∧ done.kvLen ≤ r.kvLen + 1
  rcases finish scored (r.store cfg) done finished with ⟨short, rfl⟩ | ⟨long, cut⟩
  · rw [store_kvLen] at short ⊢
    omega
  · rw [store_kvLen] at long
    omega

theorem snapkv_cutsAt (hmethod : cfg.method = .snapkv true ∨ cfg.method = .pyramidkv) :
    CutsAt cfg (layerBudget cfg + cfg.decodeEvictionInterval) := by
  have interval := cfg.decode_pos
  have parts : cfg.sinkKeepTokens + cfg.recentKeepTokens ≤ layerBudget cfg := by
    unfold layerBudget tokenBudget
    split <;> omega
  refine cutsAt_of_finishStep (layerBudget cfg) (by omega) fun scored r done finished => ?_
  have evicted : snapkvDecodeEviction cfg scored r = .ok done := by
    rcases hmethod with hmethod | hmethod <;>
    · simp only [finishStep, hmethod] at finished
      exact finished
  simp only [snapkvDecodeEviction] at evicted
  split at evicted
  next short => exact .inl ⟨short, (Except.ok.inj evicted).symm⟩
  next long =>
    split at evicted
    next =>
      have len := freePartSlots_ok evicted
      rw [selectIndices_eq (by omega) parts] at len
      exact .inr ⟨by omega, len⟩
    next => exact nomatch evicted

theorem skipkv_cutsAt (hmethod : cfg.method = .skipkv) (hbudget : 0 < tokenBudget cfg) :
    CutsAt cfg (tokenBudget cfg + cfg.skipkvCompressionInterval) := by
  have interval := cfg.skipkv_pos
  have parts : cfg.sinkKeepTokens + cfg.recentKeepTokens ≤ tokenBudget cfg := by
    unfold tokenBudget
    omega
  refine cutsAt_of_finishStep (tokenBudget cfg) (by omega) fun scored r done finished => ?_
  simp only [finishStep, hmethod, jointDecodeEviction, if_neg hbudget.ne'] at finished
  split at finished
  next short => exact .inl ⟨short, (Except.ok.inj finished).symm⟩
  next long =>
    have len := freePartSlots_ok finished
    rw [selectIndices_eq (by omega) parts] at len
    exact .inr ⟨by omega, len⟩

theorem streamingllm_cutsAt (hmethod : cfg.method = .streamingllm)
    (hbudget : 0 < cfg.sinkKeepTokens + cfg.recentKeepTokens) :
    CutsAt cfg (2 * (cfg.sinkKeepTokens + cfg.recentKeepTokens)) := by
  refine cutsAt_of_finishStep (cfg.sinkKeepTokens + cfg.recentKeepTokens) (by omega)
    fun scored r done finished => ?_
  simp only [finishStep, hmethod, streamingllmDecodeEviction, if_neg hbudget.ne'] at finished
  split at finished
  next short => exact .inl ⟨short, (Except.ok.inj finished).symm⟩
  next long =>
    have len := freePartSlots_ok finished
    rw [streamingllmSelectIndices_eq (by omega)] at len
    exact .inr ⟨by omega, len⟩

theorem idle_grows (idle : ∀ scored r, finishStep cfg scored r = .ok r) (scored : Bool)
    (r r' : Row) (ok : decodeStep cfg scored r = .ok r') : r'.kvLen ≤ r.kvLen + 1 := by
  obtain ⟨done, finished, rfl⟩ := decodeStep_ok ok
  obtain rfl := Except.ok.inj ((idle scored (r.store cfg)).symm.trans finished)
  exact le_rfl

theorem snapkv_plain_costs (hmethod : cfg.method = .snapkv false) (existing tokens : Nat) :
    decodeWindowCosts cfg existing tokens = tokens := by
  simp only [decodeWindowCosts, chainCapacityRequired, reservedTrigger, hmethod]
  simp

theorem triggered_costs (hstream : cfg.method ≠ .streamingllm) (hrkv : cfg.method ≠ .rkv)
    (htrigger : reservedTrigger cfg = some triggerLen) (existing tokens : Nat) :
    decodeWindowCosts cfg existing tokens =
      min tokens (max 1 (triggerLen - existing)) := by
  have cost : decodeWindowCosts cfg existing tokens =
      chainCapacityRequired cfg existing 0 (tokens + 1) := by
    unfold decodeWindowCosts
    split
    next h => exact absurd h hstream
    next => rfl
  rw [cost]
  simp only [chainCapacityRequired, htrigger, if_neg hrkv, true_or, if_true, Nat.add_sub_cancel,
    Nat.add_zero]
  have growth : ∀ more, max existing (existing + more) - existing = more := fun more => by
    rw [max_eq_right (Nat.le_add_right _ _), Nat.add_sub_cancel_left]
  split_ifs with none long
  · simp [none]
  · rw [growth]
    omega
  · rw [growth]
    omega

theorem rkv_costs (hmethod : cfg.method = .rkv) (existing tokens : Nat) :
    decodeWindowCosts cfg existing tokens =
      min (existing + tokens) (max existing (tokenBudget cfg + cfg.rkvCompressionInterval - 1) +
        cfg.rkvCompressionInterval) - existing := by
  have interval := cfg.rkv_pos
  have trigger : max (tokenBudget cfg + 1) (tokenBudget cfg + cfg.rkvCompressionInterval) =
      tokenBudget cfg + cfg.rkvCompressionInterval := max_eq_right (by omega)
  simp only [decodeWindowCosts, chainCapacityRequired, reservedTrigger, hmethod, trigger, true_or,
    if_true, Nat.add_sub_cancel, Nat.add_zero]
  split_ifs with none
  · rw [none, Nat.add_zero, min_eq_left (le_add_right (le_max_left _ _)), max_self]
  · rw [max_eq_right (le_min (Nat.le_add_right _ _) (le_add_right (le_max_left _ _)))]

theorem streamingllm_costs (hmethod : cfg.method = .streamingllm)
    (hbudget : 0 < cfg.sinkKeepTokens + cfg.recentKeepTokens) (existing tokens : Nat) :
    decodeWindowCosts cfg existing tokens =
      min tokens (max 1 (2 * (cfg.sinkKeepTokens + cfg.recentKeepTokens) - existing)) := by
  simp only [decodeWindowCosts, hmethod, if_pos hbudget]

end SparseEngine.Compaction
