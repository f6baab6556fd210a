import SparseEngine.Compaction.Windows

/-! R-KV looks at a row at the decode counts that are a multiple of its interval. -/

namespace SparseEngine.Compaction

variable {cfg : Config} {r r' mid : Row} {scored : Bool} {k n : Nat}

def toBoundary (cfg : Config) (r : Row) : Nat :=
  cfg.rkvCompressionInterval -
    (r.numTokens - r.numPromptTokens - 1) % cfg.rkvCompressionInterval

/-- The queries that a boundary `steps` steps on asks for and that were stored before now are
kept. -/
def ObservedFor (cfg : Config) (r : Row) (steps : Nat) : Prop :=
  ∀ p < r.kvLen, r.kvLen + steps ≤ p + cfg.rkvObservationTokens →
    r.positions (p % cfg.rkvObservationTokens) = some p

def rkvTrigger (cfg : Config) : Nat :=
  tokenBudget cfg + cfg.rkvCompressionInterval

def BoundaryCuts (cfg : Config) (r : Row) : Prop :=
  r.kvLen + toBoundary cfg r < rkvTrigger cfg ∨ ObservedFor cfg r (toBoundary cfg r)

theorem observedFor_store (cfg : Config) (r : Row) (steps : Nat) :
    ObservedFor cfg (r.store cfg) steps ↔ ObservedFor cfg r (steps + 1) := by
  have other : ∀ p < r.kvLen, r.kvLen + (steps + 1) ≤ p + cfg.rkvObservationTokens →
      (r.store cfg).positions (p % cfg.rkvObservationTokens) =
        r.positions (p % cfg.rkvObservationTokens) := by
    intro p hp asked
    refine Function.update_of_ne (fun same => ?_) _ _
    have close : (r.kvLen - p) % cfg.rkvObservationTokens = 0 :=
      Nat.sub_mod_eq_zero_of_mod_eq same.symm
    rw [Nat.mod_eq_of_lt (by omega)] at close
    omega
  constructor
  · intro h p hp asked
    rw [← other p hp asked]
    exact h p (by rw [store_kvLen]; omega) (by rw [store_kvLen]; omega)
  · intro h p hp asked
    rw [store_kvLen] at hp asked
    rcases Nat.lt_succ_iff_lt_or_eq.mp hp with old | rfl
    · rw [other p old (by omega)]
      exact h p old (by omega)
    · exact Function.update_self _ _ _

theorem observedFor_of_le {steps : Nat} (h : cfg.rkvObservationTokens ≤ steps) :
    ObservedFor cfg r steps := by
  intro p hp asked
  omega

theorem toBoundary_pos (cfg : Config) (r : Row) : 0 < toBoundary cfg r := by
  have := Nat.mod_lt (r.numTokens - r.numPromptTokens - 1) cfg.rkv_pos
  unfold toBoundary
  omega

theorem toBoundary_le (cfg : Config) (r : Row) : toBoundary cfg r ≤ cfg.rkvCompressionInterval :=
  Nat.sub_le _ _

theorem succ_mod {interval : Nat} (pos : 0 < interval) (m : Nat) :
    (m + 1) % interval = if m % interval + 1 = interval then 0 else m % interval + 1 := by
  have bound := Nat.mod_lt m pos
  rw [← Nat.mod_add_mod]
  split
  next last => rw [last, Nat.mod_self]
  next inside => exact Nat.mod_eq_of_lt (by omega)

theorem toBoundary_eq_one_iff (hdecode : r.numPromptTokens < r.numTokens) :
    toBoundary cfg r = 1 ↔ (r.numTokens - r.numPromptTokens) % cfg.rkvCompressionInterval = 0 := by
  obtain ⟨m, hm⟩ : ∃ m, r.numTokens - r.numPromptTokens = m + 1 :=
    ⟨r.numTokens - r.numPromptTokens - 1, by omega⟩
  have bound := Nat.mod_lt m cfg.rkv_pos
  rw [toBoundary, hm, Nat.add_sub_cancel, succ_mod cfg.rkv_pos]
  split <;> omega

theorem toBoundary_next (cfg : Config) (hdecode : r.numPromptTokens < r.numTokens)
    (tokens : r'.numTokens = r.numTokens + 1) (prompt : r'.numPromptTokens = r.numPromptTokens) :
    toBoundary cfg r' =
      if toBoundary cfg r = 1 then cfg.rkvCompressionInterval else toBoundary cfg r - 1 := by
  obtain ⟨m, hm⟩ : ∃ m, r.numTokens - r.numPromptTokens = m + 1 :=
    ⟨r.numTokens - r.numPromptTokens - 1, by omega⟩
  have next : r'.numTokens - r'.numPromptTokens = m + 2 := by omega
  have bound := Nat.mod_lt m cfg.rkv_pos
  simp only [toBoundary, hm, next, Nat.add_sub_cancel]
  rw [show m + 2 - 1 = m + 1 from rfl, succ_mod cfg.rkv_pos]
  split_ifs <;> omega

def Row.advance (cfg : Config) (r : Row) : Row :=
  { r.store cfg with numTokens := r.numTokens + 1 }

theorem toBoundary_advance (cfg : Config) (hdecode : r.numPromptTokens < r.numTokens) :
    toBoundary cfg (r.advance cfg) =
      if toBoundary cfg r = 1 then cfg.rkvCompressionInterval else toBoundary cfg r - 1 :=
  toBoundary_next cfg hdecode rfl rfl

theorem observedFor_advance (cfg : Config) (r : Row) (steps : Nat) :
    ObservedFor cfg (r.advance cfg) steps ↔ ObservedFor cfg r (steps + 1) :=
  observedFor_store cfg r steps

theorem rkv_step_cases (hmethod : cfg.method = .rkv) (hdecode : r.numPromptTokens < r.numTokens)
    (ok : decodeStep cfg scored r = .ok r') :
    (r' = r.advance cfg ∧ (toBoundary cfg r = 1 → rkvTrigger cfg ≤ r.kvLen + 1 →
      ¬ ObservedFor cfg r 1)) ∨
    (toBoundary cfg r = 1 ∧ rkvTrigger cfg ≤ r.kvLen + 1 ∧ r'.kvLen = tokenBudget cfg ∧
      r'.numTokens = r.numTokens + 1 ∧ r'.numPromptTokens = r.numPromptTokens) := by
  obtain ⟨done, finished, rfl⟩ := decodeStep_ok ok
  have decoded : 0 < r.numTokens - r.numPromptTokens := by omega
  simp only [finishStep, hmethod, rkvFinishStep] at finished
  rw [show (r.store cfg).numTokens = r.numTokens from rfl,
    show (r.store cfg).numPromptTokens = r.numPromptTokens from rfl, store_kvLen] at finished
  split at finished
  next due =>
    split at finished
    next ready =>
      split at finished
      next =>
        refine Or.inr ⟨(toBoundary_eq_one_iff hdecode).mpr due.2.1, due.2.2, ?_, ?_, ?_⟩
        · rw [← Except.ok.inj finished]
          exact Nat.sub_add_cancel (cfg.observation_lt hmethod).le
        · rw [← Except.ok.inj finished]
        · rw [← Except.ok.inj finished]
      next => cases finished
    next missing =>
      split at finished
      next => cases finished
      next =>
        rw [← Except.ok.inj finished]
        exact Or.inl ⟨rfl, fun _ _ observed => missing ((observedFor_store cfg r 0).mpr observed)⟩
  next early =>
    rw [← Except.ok.inj finished]
    exact Or.inl ⟨rfl, fun last long =>
      absurd ⟨decoded, (toBoundary_eq_one_iff hdecode).mp last, long⟩ early⟩

theorem rkv_advances (hmethod : cfg.method = .rkv) (hdecode : r.numPromptTokens < r.numTokens)
    (h : toBoundary cfg r = 1 → ¬ ObservedFor cfg r 1 ∧ r.numTokens ≤ r.kvLen + 1) :
    decodeStep cfg true r = .ok (r.advance cfg) := by
  suffices finished : finishStep cfg true (r.store cfg) = .ok (r.store cfg) from
    decodeStep_of_finishStep finished
  simp only [finishStep, hmethod, rkvFinishStep]
  rw [show (r.store cfg).numTokens = r.numTokens from rfl,
    show (r.store cfg).numPromptTokens = r.numPromptTokens from rfl, store_kvLen]
  split
  next due =>
    obtain ⟨missing, whole⟩ := h ((toBoundary_eq_one_iff hdecode).mpr due.2.1)
    have unready : ¬ rkvObservationReady cfg (r.store cfg) := fun ready =>
      missing ((observedFor_store cfg r 0).mp ready)
    rw [if_neg unready, if_neg (by omega)]
  next => rfl

theorem BoundaryCuts.fresh (h : toBoundary cfg r = cfg.rkvCompressionInterval) :
    BoundaryCuts cfg r :=
  Or.inr (h ▸ observedFor_of_le cfg.observation_le)

theorem BoundaryCuts.advance (hdecode : r.numPromptTokens < r.numTokens)
    (h : toBoundary cfg r = 1 ∨ BoundaryCuts cfg r) : BoundaryCuts cfg (r.advance cfg) := by
  have next := toBoundary_advance cfg hdecode
  have pos := toBoundary_pos cfg r
  by_cases last : toBoundary cfg r = 1
  · exact BoundaryCuts.fresh (next.trans (if_pos last))
  rw [if_neg last] at next
  rcases h.resolve_left last with short | observed
  · left
    rw [next]
    show r.kvLen + 1 + _ < _
    omega
  · right
    rw [next, observedFor_advance, Nat.sub_add_cancel pos]
    exact observed

/-- Where a row is cut when it has to be, what it will have grown to at its next boundary stays
within one interval of where it began, or of the trigger. -/
structure Within (cfg : Config) (r : Row) (k : Nat) (mid : Row) : Prop where
  decode : mid.numPromptTokens < mid.numTokens
  cuts : BoundaryCuts cfg mid
  peak : mid.kvLen + toBoundary cfg mid ≤
    max r.kvLen (rkvTrigger cfg - 1) + cfg.rkvCompressionInterval
  grows : mid.kvLen ≤ r.kvLen + k

theorem Within.step (hmethod : cfg.method = .rkv) (h : Within cfg r k mid)
    (ok : decodeStep cfg scored mid = .ok r') : Within cfg r (k + 1) r' := by
  have pos := cfg.rkv_pos
  have grows := h.grows
  have peak := h.peak
  have boundary := toBoundary_pos cfg mid
  rcases rkv_step_cases hmethod h.decode ok with ⟨rfl, left⟩ | ⟨last, long, len, tokens, prompt⟩
  · have next := toBoundary_advance cfg h.decode
    refine ⟨h.decode.trans (Nat.lt_succ_self _), BoundaryCuts.advance h.decode (Or.inr h.cuts), ?_, ?_⟩
    · rw [next]
      show mid.kvLen + 1 + _ ≤ _
      split
      next last =>
        -- The row was left at its boundary, so it was short.
        have short : mid.kvLen + 1 < rkvTrigger cfg := by
          rcases h.cuts with short | observed
          · rwa [last] at short
          · by_contra long
            exact left last (Nat.not_lt.mp long) (last ▸ observed)
        omega
      next => omega
    · show mid.kvLen + 1 ≤ _
      omega
  · have next := toBoundary_next cfg h.decode tokens prompt
    rw [if_pos last] at next
    refine ⟨by rw [tokens, prompt]; exact h.decode.trans (Nat.lt_succ_self _),
      BoundaryCuts.fresh next, ?_, ?_⟩
    · rw [len, next]
      unfold rkvTrigger
      omega
    · rw [len]
      unfold rkvTrigger at long
      omega

theorem Decodes.within (hmethod : cfg.method = .rkv) (hdecode : r.numPromptTokens < r.numTokens)
    (cuts : BoundaryCuts cfg r) (run : Decodes cfg r k mid) : Within cfg r k mid := by
  induction run with
  | refl =>
    refine ⟨hdecode, cuts, ?_, le_rfl⟩
    have := toBoundary_le cfg r
    omega
  | step scored _ ok ih => exact ih.step hmethod ok

theorem windowCostsHold_of_boundaryCuts (hmethod : cfg.method = .rkv)
    (hdecode : r.numPromptTokens < r.numTokens) (cuts : BoundaryCuts cfg r) :
    WindowCostsHold cfg r where
  between n k mid run hk := by
    have within := run.within hmethod hdecode cuts
    have peak := within.peak
    have grows := within.grows
    rw [rkv_costs hmethod]
    unfold rkvTrigger at peak
    omega
  within n k mid run hk := by
    have within := run.within hmethod hdecode cuts
    have peak := within.peak
    have grows := within.grows
    have boundary := toBoundary_pos cfg mid
    rw [rkv_costs hmethod, store_kvLen]
    unfold rkvTrigger at peak
    omega
  mono := by
    intro n m hnm
    simp only [rkv_costs hmethod]
    omega

theorem Decodes.trans {first last : Row} (run : Decodes cfg first k mid)
    (more : Decodes cfg mid n last) : Decodes cfg first (k + n) last := by
  induction more with
  | refl => exact run
  | step scored _ ok ih => exact .step scored ih ok

theorem decodes_before_boundary (hmethod : cfg.method = .rkv)
    (hdecode : r.numPromptTokens < r.numTokens) :
    ∀ k < toBoundary cfg r, ∃ mid, Decodes cfg r k mid ∧ mid.kvLen = r.kvLen + k ∧
      mid.numTokens = r.numTokens + k ∧ mid.numPromptTokens = r.numPromptTokens ∧
      toBoundary cfg mid = toBoundary cfg r - k ∧
      ∀ steps, ObservedFor cfg mid steps ↔ ObservedFor cfg r (steps + k) := by
  intro k
  induction k with
  | zero => exact fun _ => ⟨r, .refl, rfl, rfl, rfl, rfl, fun _ => Iff.rfl⟩
  | succ k ih =>
    intro hk
    obtain ⟨mid, run, len, tokens, prompt, boundary, observed⟩ := ih (by omega)
    have decode : mid.numPromptTokens < mid.numTokens := by omega
    have further : toBoundary cfg mid ≠ 1 := by omega
    have next := toBoundary_advance cfg decode
    rw [if_neg further] at next
    refine ⟨mid.advance cfg, .step true run
      (rkv_advances hmethod decode fun last => absurd last further), ?_, ?_, prompt, by omega,
      fun steps => ?_⟩
    · show mid.kvLen + 1 = _
      omega
    · show mid.numTokens + 1 = _
      omega
    · rw [observedFor_advance, observed, Nat.add_right_comm, Nat.add_assoc]

theorem not_windowCostsHold_of_not_boundaryCuts (hmethod : cfg.method = .rkv)
    (hdecode : r.numPromptTokens < r.numTokens) (whole : r.numTokens ≤ r.kvLen + 1)
    (left : ¬ BoundaryCuts cfg r) : ¬ WindowCostsHold cfg r := by
  intro holds
  obtain ⟨long, missing⟩ := not_or.mp left
  have pos := toBoundary_pos cfg r
  have interval := cfg.rkv_pos
  obtain ⟨mid, run, len, tokens, prompt, boundary, observed⟩ :=
    decodes_before_boundary hmethod hdecode (toBoundary cfg r - 1) (by omega)
  have decode : mid.numPromptTokens < mid.numTokens := by omega
  have last : toBoundary cfg mid = 1 := by omega
  have passed : decodeStep cfg true mid = .ok (mid.advance cfg) := by
    refine rkv_advances hmethod decode fun _ => ⟨?_, by omega⟩
    rw [observed, Nat.add_sub_cancel' pos]
    exact missing
  have decode' : (mid.advance cfg).numPromptTokens < (mid.advance cfg).numTokens :=
    decode.trans (Nat.lt_succ_self _)
  have boundary' : toBoundary cfg (mid.advance cfg) = cfg.rkvCompressionInterval := by
    rw [toBoundary_advance cfg decode, if_pos last]
  have len' : (mid.advance cfg).kvLen = mid.kvLen + 1 := rfl
  obtain ⟨late, runLate, lenLate, -⟩ :=
    decodes_before_boundary hmethod decode' (cfg.rkvCompressionInterval - 1) (by omega)
  have bound := holds.within (toBoundary cfg r + cfg.rkvCompressionInterval) _ late
    ((Decodes.step true run passed).trans runLate) (by omega)
  rw [rkv_costs hmethod, store_kvLen] at bound
  unfold rkvTrigger at long
  omega

def Spared (cfg : Config) (r : Row) : Prop :=
  match cfg.method with
  | .skipkv => 0 < tokenBudget cfg
  | .rkv => BoundaryCuts cfg r
  | _ => True

theorem Reachable.rkv (hmethod : cfg.method = .rkv) (reached : Reachable cfg r) :
    r.numPromptTokens < r.numTokens ∧ (BoundaryCuts cfg r ∨ r.numTokens ≤ r.kvLen + 1) := by
  induction reached with
  | @prefilled promptLen kvLen =>
    refine ⟨Nat.lt_succ_self _, Or.inl (BoundaryCuts.fresh ?_)⟩
    show cfg.rkvCompressionInterval -
      (promptLen + 1 - promptLen - 1) % cfg.rkvCompressionInterval = _
    rw [Nat.add_sub_cancel_left, Nat.sub_self, Nat.zero_mod, Nat.sub_zero]
  | replayed pos accepted fits whole =>
    exact ⟨Nat.lt_add_of_pos_right accepted, Or.inr (whole hmethod).ge⟩
  | decode scored reached ok ih =>
    obtain ⟨decode, state⟩ := ih
    rcases rkv_step_cases hmethod decode ok with ⟨rfl, -⟩ | ⟨last, -, -, tokens, prompt⟩
    · refine ⟨decode.trans (Nat.lt_succ_self _), ?_⟩
      exact state.imp (fun cuts => BoundaryCuts.advance decode (Or.inr cuts)) Nat.succ_le_succ
    · have next := toBoundary_next cfg decode tokens prompt
      rw [if_pos last] at next
      exact ⟨by rw [tokens, prompt]; exact decode.trans (Nat.lt_succ_self _),
        Or.inl (BoundaryCuts.fresh next)⟩

theorem not_windowCostsHold_skipkv (hmethod : cfg.method = .skipkv)
    (hbudget : tokenBudget cfg = 0) : ¬ WindowCostsHold cfg r := by
  intro holds
  have grows : ∀ k, ∃ mid, Decodes cfg r k mid ∧ mid.kvLen = r.kvLen + k := by
    intro k
    induction k with
    | zero => exact ⟨r, .refl, rfl⟩
    | succ k ih =>
      obtain ⟨mid, run, len⟩ := ih
      have finished : finishStep cfg true (mid.store cfg) = .ok (mid.store cfg) := by
        simp only [finishStep, hmethod, jointDecodeEviction, if_pos hbudget]
      refine ⟨_, .step true run (decodeStep_of_finishStep finished), ?_⟩
      show mid.kvLen + 1 = _
      omega
  have trigger : reservedTrigger cfg = some (max (tokenBudget cfg + 1)
      (tokenBudget cfg + cfg.skipkvCompressionInterval)) := by
    simp only [reservedTrigger, hmethod]
  have cost := triggered_costs (by simp [hmethod]) (by simp [hmethod]) trigger r.kvLen
  obtain ⟨mid, run, len⟩ := grows (max 1 (max (tokenBudget cfg + 1)
    (tokenBudget cfg + cfg.skipkvCompressionInterval) - r.kvLen) + 1)
  have bound := holds.between _ _ mid run le_rfl
  rw [cost] at bound
  omega

theorem windowCostsHold_iff (reached : Reachable cfg r) :
    WindowCostsHold cfg r ↔ Spared cfg r := by
  unfold Spared
  cases hmethod : cfg.method with
  | snapkv decodeEviction =>
    refine iff_of_true ?_ trivial
    cases decodeEviction with
    | false =>
      refine windowCostsHold_of_grows (idle_grows fun scored r => ?_) (snapkv_plain_costs hmethod)
      simp only [finishStep, hmethod]
    | true =>
      refine windowCostsHold_of_cutsAt (snapkv_cutsAt (Or.inl hmethod)) ?_
      exact triggered_costs (by simp [hmethod]) (by simp [hmethod])
        (by simp only [reservedTrigger, hmethod])
  | pyramidkv =>
    refine iff_of_true (windowCostsHold_of_cutsAt (snapkv_cutsAt (Or.inr hmethod)) ?_) trivial
    exact triggered_costs (by simp [hmethod]) (by simp [hmethod])
      (by simp only [reservedTrigger, hmethod])
  | rkv =>
    obtain ⟨decode, state⟩ := reached.rkv hmethod
    refine ⟨fun holds => ?_, windowCostsHold_of_boundaryCuts hmethod decode⟩
    by_contra left
    exact not_windowCostsHold_of_not_boundaryCuts hmethod decode (state.resolve_left left) left
      holds
  | skipkv =>
    refine ⟨fun holds => Nat.pos_of_ne_zero fun none =>
      not_windowCostsHold_skipkv hmethod none holds, fun hbudget => ?_⟩
    refine windowCostsHold_of_cutsAt (skipkv_cutsAt hmethod hbudget) ?_
    refine triggered_costs (by simp [hmethod]) (by simp [hmethod]) ?_
    have interval := cfg.skipkv_pos
    simp only [reservedTrigger, hmethod]
    congr 1
    omega
  | streamingllm =>
    refine iff_of_true ?_ trivial
    rcases Nat.eq_zero_or_pos (cfg.sinkKeepTokens + cfg.recentKeepTokens) with none | some
    · refine windowCostsHold_of_grows (idle_grows fun scored r => ?_) fun existing tokens => ?_
      · simp only [finishStep, hmethod, streamingllmDecodeEviction, if_pos none]
      · simp only [decodeWindowCosts, hmethod, none, Nat.lt_irrefl, if_false]
    · exact windowCostsHold_of_cutsAt (streamingllm_cutsAt hmethod some)
        (streamingllm_costs hmethod some)

def rkvConfig : Config where
  method := .rkv
  sinkKeepTokens := 1
  decodeKeepTokens := 1
  recentKeepTokens := 1
  scaledTopTokens := 0
  decodeEvictionInterval := 1
  rkvCompressionInterval := 2
  skipkvCompressionInterval := 1
  rkvObservationTokens := 2
  decode_pos := by decide
  rkv_pos := by decide
  skipkv_pos := by decide
  observation_pos := by decide
  observation_le := by decide
  observation_lt := by decide

theorem windowCostsHold_after_prompt :
    WindowCostsHold rkvConfig ⟨4, 5, 4, fun _ => none⟩ :=
  (windowCostsHold_iff (Reachable.prefilled (by decide) (by decide))).mpr
    (Or.inr (observedFor_of_le (by decide)))

/-- A prompt of four tokens replayed up to its second accepted token. -/
theorem not_windowCostsHold : ¬ ∀ cfg r, Reachable cfg r → WindowCostsHold cfg r := by
  intro holds
  have reached : Reachable rkvConfig ⟨5, 6, 4, fun _ => none⟩ :=
    @Reachable.replayed rkvConfig 4 2 5 (by decide) (by decide) (by decide) fun _ => rfl
  refine not_windowCostsHold_of_not_boundaryCuts rfl (by decide) (by decide) ?_
    (holds rkvConfig _ reached)
  rintro (short | observed)
  · exact absurd short (by decide)
  · exact nomatch observed 4 (by decide) (by decide)

end SparseEngine.Compaction
