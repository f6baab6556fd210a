import SparseEngine.Chain.Lifecycle

/-! A chain that lacks rows or slots is admitted over the chains that were used least recently. -/

namespace SparseEngine.ChainCacheIndex

open PyM List Dict ChainCacheIndex

variable {ι φ δ : Type}

def heldRows (chains : List (ChainRecord ι φ δ)) : Int := (chains.map (·.residentRows)).sum

def heldSlots (chains : List (ChainRecord ι φ δ)) (layer : Nat) : Int :=
  (chains.map fun r => r.allocatedCapacity.getD layer 0).sum

def Covers (chains : List (ChainRecord ι φ δ)) (rows : Int) (deficits : List Int) : Prop :=
  rows ≤ heldRows chains ∧
    ∀ layer < deficits.length, deficits.getD layer 0 ≤ heldSlots chains layer

def Sized (r : ChainRecord ι φ δ) : Prop := 0 ≤ r.residentRows ∧ ∀ n ∈ r.allocatedCapacity, 0 ≤ n

variable {chains : List (ChainRecord ι φ δ)} {r : ChainRecord ι φ δ} {rows : Int}
  {deficits : List Int}

theorem Sized.slots (h : Sized r) (layer : Nat) : 0 ≤ r.allocatedCapacity.getD layer 0 := by
  rw [getD_eq_getElem?_getD]
  cases hn : r.allocatedCapacity[layer]? with
  | none => exact le_rfl
  | some n => exact h.2 n (mem_of_getElem? hn)

theorem heldRows_nonneg (h : ∀ r ∈ chains, Sized r) : 0 ≤ heldRows chains :=
  sum_nonneg fun n hn => by
    obtain ⟨r, hr, rfl⟩ := mem_map.mp hn
    exact (h r hr).1

theorem heldSlots_nonneg (h : ∀ r ∈ chains, Sized r) (layer : Nat) : 0 ≤ heldSlots chains layer :=
  sum_nonneg fun n hn => by
    obtain ⟨r, hr, rfl⟩ := mem_map.mp hn
    exact (h r hr).slots layer

theorem Covers.mono {part : List (ChainRecord ι φ δ)} (h : ∀ r ∈ chains, Sized r)
    (hsub : part.Sublist chains) (hpart : Covers part rows deficits) : Covers chains rows deficits := by
  refine ⟨hpart.1.trans ?_, fun layer hlayer => (hpart.2 layer hlayer).trans ?_⟩
  · refine (hsub.map _).sum_le_sum fun n hn => ?_
    obtain ⟨r, hr, rfl⟩ := mem_map.mp hn
    exact (h r hr).1
  · refine (hsub.map _).sum_le_sum fun n hn => ?_
    obtain ⟨r, hr, rfl⟩ := mem_map.mp hn
    exact (h r hr).slots layer

theorem covers_clamped (h : ∀ r ∈ chains, Sized r) :
    Covers chains (max 0 rows) (deficits.map (max 0)) ↔ Covers chains rows deficits := by
  have hrows := heldRows_nonneg h
  unfold Covers
  rw [length_map, max_le_iff, and_iff_right hrows]
  refine and_congr_right fun _ => forall₂_congr fun layer hlayer => ?_
  have hslots := heldSlots_nonneg h layer
  have hget : (deficits.map (max 0)).getD layer 0 = max 0 (deficits.getD layer 0) := by
    simp [getD_eq_getElem?_getD, getElem?_map, getElem?_eq_getElem hlayer]
  rw [hget, max_le_iff, and_iff_right hslots]

theorem reduceDeficits_nonneg (deficits capacity : List Int) : ∀ d ∈ reduceDeficits deficits capacity, 0 ≤ d := by
  intro d hd
  unfold reduceDeficits at hd
  obtain ⟨i, -, rfl⟩ := mem_map.mp hd
  exact le_max_left _ _

theorem covers_nil (h : ∀ d ∈ deficits, 0 ≤ d) :
    Covers ([] : List (ChainRecord ι φ δ)) rows deficits ↔ rows ≤ 0 ∧ deficits.all (· = 0) = true := by
  refine and_congr_right fun _ => ?_
  rw [all_eq_true]
  refine ⟨fun hall d hd => ?_, fun hall layer hlayer => ?_⟩
  · obtain ⟨layer, hlayer, rfl⟩ := mem_iff_getElem.mp hd
    have hle := hall layer hlayer
    rw [getD_eq_getElem?_getD, getElem?_eq_getElem hlayer] at hle
    exact decide_eq_true (le_antisymm hle (h _ hd))
  · rw [getD_eq_getElem?_getD, getElem?_eq_getElem hlayer]
    exact (of_decide_eq_true (hall _ (getElem_mem hlayer))).le

theorem covers_cons (h : ∀ r ∈ chains, Sized r) :
    Covers (r :: chains) rows deficits ↔
      Covers chains (max 0 (rows - r.residentRows)) (reduceDeficits deficits r.allocatedCapacity) := by
  have hrows := heldRows_nonneg h
  have hheld : heldRows (r :: chains) = r.residentRows + heldRows chains := by
    simp [heldRows]
  have hlength : (reduceDeficits deficits r.allocatedCapacity).length = deficits.length := by
    simp [reduceDeficits]
  unfold Covers
  rw [hheld, hlength, max_le_iff, and_iff_right hrows, sub_le_iff_le_add']
  refine and_congr_right fun _ => forall₂_congr fun layer hlayer => ?_
  have hslots := heldSlots_nonneg h layer
  have hcons : heldSlots (r :: chains) layer =
      r.allocatedCapacity.getD layer 0 + heldSlots chains layer := by
    simp [heldSlots]
  have hget : (reduceDeficits deficits r.allocatedCapacity).getD layer 0 =
      max 0 (deficits.getD layer 0 - r.allocatedCapacity.getD layer 0) := by
    simp [reduceDeficits, getD_eq_getElem?_getD, getElem?_map,
      getElem?_range hlayer]
  rw [hcons, hget, max_le_iff, and_iff_right hslots, sub_le_iff_le_add']

theorem takeVictims_prefix : ∀ (candidates : List (ChainRecord ι φ δ)) (rows : Int)
    (deficits : List Int), (∀ r ∈ candidates, Sized r) → (∀ d ∈ deficits, 0 ≤ d) →
    ∃ n ≤ candidates.length,
      (takeVictims candidates rows deficits).1 = (candidates.take n).map (·.chainId) ∧
      (∀ m < n, ¬ Covers (candidates.take m) rows deficits) ∧
      (Covers (candidates.take n) rows deficits ∨ n = candidates.length) ∧
      (¬ (0 < (takeVictims candidates rows deficits).2.1 ∨
          ¬ (takeVictims candidates rows deficits).2.2.all (· = 0)) ↔
        Covers (candidates.take n) rows deficits)
  | [], rows, deficits, _, hdeficits => by
    refine ⟨0, le_rfl, rfl, fun m hm => absurd hm (Nat.not_lt_zero m), .inr rfl, ?_⟩
    rw [take_zero, covers_nil hdeficits, not_or, not_lt, not_not]
    rfl
  | r :: candidates, rows, deficits, hsized, hdeficits => by
    have hrest : ∀ q ∈ candidates, Sized q := fun q hq => hsized q (mem_cons_of_mem _ hq)
    by_cases hcovered : rows ≤ 0 ∧ deficits.all (· = 0) = true
    · have hnil := (covers_nil (ι := ι) (φ := φ) (δ := δ) hdeficits).mpr hcovered
      have hloop : takeVictims (r :: candidates) rows deficits = ([], rows, deficits) := by
        unfold takeVictims
        exact if_pos hcovered
      refine ⟨0, Nat.zero_le _, ?_, fun m hm => absurd hm (Nat.not_lt_zero m), .inl hnil, ?_⟩
      · rw [hloop]
        rfl
      · rw [hloop, take_zero, iff_true_right hnil, not_or, not_lt, not_not]
        exact hcovered
    · obtain ⟨n, hn, hvictims, hless, hend, hleft⟩ := takeVictims_prefix candidates
        (max 0 (rows - r.residentRows)) (reduceDeficits deficits r.allocatedCapacity) hrest
        (reduceDeficits_nonneg _ _)
      have hloop : takeVictims (r :: candidates) rows deficits =
          (r.chainId :: (takeVictims candidates (max 0 (rows - r.residentRows))
              (reduceDeficits deficits r.allocatedCapacity)).1,
            (takeVictims candidates (max 0 (rows - r.residentRows))
              (reduceDeficits deficits r.allocatedCapacity)).2) := by
        rw [takeVictims, if_neg hcovered]
      have hstep : ∀ k, Covers ((r :: candidates).take (k + 1)) rows deficits ↔
          Covers (candidates.take k) (max 0 (rows - r.residentRows))
            (reduceDeficits deficits r.allocatedCapacity) := by
        intro k
        rw [take_succ_cons]
        exact covers_cons fun q hq => hrest q (mem_of_mem_take hq)
      refine ⟨n + 1, Nat.succ_le_succ hn, ?_, fun m hm => ?_, ?_, ?_⟩
      · rw [hloop, hvictims, take_succ_cons, map_cons]
      · cases m with
        | zero => exact fun hnil => hcovered ((covers_nil hdeficits).mp hnil)
        | succ m => exact (hstep m).not.mpr (hless m (Nat.lt_of_succ_lt_succ hm))
      · rw [hstep, length_cons, Nat.succ_inj]
        exact hend
      · rw [hstep, hloop]
        exact hleft

section

variable [LinearOrder ι] [DecidableEq φ] [DecidableEq δ]
  {cfg : ChainIndexConfig δ} {s : ChainCacheIndex ι φ δ} {req : AdmissionRequest ι φ δ}

/-- The chain checks of an admission pass. -/
def ChecksPass (cfg : ChainIndexConfig δ) (s : ChainCacheIndex ι φ δ)
    (req : AdmissionRequest ι φ δ) : Prop :=
  (s.records.get? req.chainId = none ∧ s.tombstones.get? req.chainId = none) ∨
  ∃ r digest, s.records.get? req.chainId = some r ∧ r.state = .idle ∧
    r.fingerprint = req.fingerprint ∧ r.seqId = req.seqId ∧
    req.input.prefixDigest cfg r.processedTokenCount = .ok digest ∧
    r.processedTokenDigest = some digest

/-- `ChainCapacityError`. -/
def IsCapacityError (e : PyError) : Prop := ∃ message, e = ChainErrorClass.capacity.error message

def evictable (s : ChainCacheIndex ι φ δ) (chainId : ι) : List (ChainRecord ι φ δ) :=
  (idleResidentLru s).filter fun r => decide (r.chainId ≠ chainId)

omit [LinearOrder ι] [DecidableEq φ] [DecidableEq δ] in
theorem not_capacity_of_prefixDigest {input : PrefixInput δ} {count : Nat} {e : PyError}
    (h : input.prefixDigest cfg count = .error e) : ¬ IsCapacityError e := by
  rintro ⟨message, rfl⟩
  cases input with
  | tokens tokenIds =>
    unfold PrefixInput.prefixDigest stableTokenDigest at h
    dsimp only at h
    split_ifs at h <;> cases h
  | digest inputTokenCount prefixDigest =>
    unfold PrefixInput.prefixDigest at h
    dsimp only at h
    split_ifs at h
    cases h

omit [DecidableEq φ] [DecidableEq δ] in
theorem lookup_error (id : ι) :
    wp (lookup id) (fun r s' => s' = s ∧ s.records.get? id = some r)
      (fun e s' => s' = s ∧ ¬ IsCapacityError e) s := by
  unfold lookup
  rw [wp_bind, wp_get]
  split
  · next r hr => exact ⟨rfl, hr⟩
  · split
    · refine ⟨rfl, ?_⟩
      rintro ⟨message, he⟩
      cases he
    · refine ⟨rfl, ?_⟩
      rintro ⟨message, he⟩
      cases he

theorem admissionStatus_checks :
    wp (admissionStatus cfg req) (fun _ s' => s' = s ∧ ChecksPass cfg s req)
      (fun e s' => s' = s ∧ ¬ ChecksPass cfg s req ∧ ¬ IsCapacityError e) s := by
  unfold admissionStatus
  rw [wp_bind, wp_get]
  cases hr : s.records.get? req.chainId with
  | none =>
    dsimp only
    split
    · next htomb =>
      rw [wp_bind]
      refine wp_mono (lookup_error req.chainId) ?_ ?_
      · rintro r s₁ ⟨-, hr'⟩
        rw [hr] at hr'
        cases hr'
      · rintro e s₁ ⟨rfl, he⟩
        refine ⟨rfl, ?_, he⟩
        rintro (⟨-, hnone⟩ | ⟨r, -, hr', -⟩)
        · rw [contains_eq_false.mpr hnone] at htomb
          cases htomb
        · rw [hr] at hr'
          cases hr'
    · next htomb =>
      rw [Bool.not_eq_true, contains_eq_false] at htomb
      exact ⟨rfl, .inl ⟨hr, htomb⟩⟩
  | some r =>
    have hpass : ChecksPass cfg s req ↔ ∃ digest, r.state = .idle ∧
        r.fingerprint = req.fingerprint ∧ r.seqId = req.seqId ∧
        req.input.prefixDigest cfg r.processedTokenCount = .ok digest ∧
        r.processedTokenDigest = some digest := by
      unfold ChecksPass
      rw [hr]
      constructor
      · rintro (⟨hnone, -⟩ | ⟨q, digest, hq, hrest⟩)
        · cases hnone
        · cases hq
          exact ⟨digest, hrest⟩
      · rintro ⟨digest, hrest⟩
        exact .inr ⟨r, digest, rfl, hrest⟩
    have hother : ∀ {c : ChainErrorClass} {message : String}, c ≠ .capacity →
        ¬ IsCapacityError (c.error message) := by
      rintro c message hc ⟨_, he⟩
      cases c <;> first | exact hc rfl | cases he
    rw [hpass]
    dsimp only
    rw [wp_bind, wp_raiseIf]
    refine ⟨fun hactive => ⟨rfl, ?_, hother (by simp)⟩, fun hstate => ?_⟩
    · rintro ⟨digest, hidle, -⟩
      rw [hactive] at hidle
      cases hidle
    have hidle : r.state = .idle := by
      cases hstate' : r.state with
      | active => exact absurd hstate' hstate
      | idle => rfl
    rw [wp_bind, wp_raiseIf]
    refine ⟨fun hne => ⟨rfl, by rintro ⟨_, _, heq, _⟩; exact hne heq, hother (by simp)⟩, fun hfingerprint => ?_⟩
    rw [wp_bind, wp_raiseIf]
    refine ⟨fun hne => ⟨rfl, by rintro ⟨_, _, _, heq, _⟩; exact hne heq, hother (by simp)⟩, fun hseq => ?_⟩
    rw [wp_bind, wp_lift]
    split
    · next digest hdigest =>
      rw [wp_bind, wp_raiseIf]
      refine ⟨fun hne => ⟨rfl, ?_, hother (by simp)⟩, fun heq => ⟨rfl, digest, hidle, not_not.mp hfingerprint,
        not_not.mp hseq, hdigest, (not_not.mp heq).symm⟩⟩
      rintro ⟨digest', -, -, -, hdigest', hstored⟩
      rw [hdigest] at hdigest'
      cases hdigest'
      exact hne hstored.symm
    · next e he =>
      refine ⟨rfl, ?_, not_capacity_of_prefixDigest he⟩
      rintro ⟨digest, -, -, -, hok, -⟩
      rw [he] at hok
      cases hok

def ShortestVictims (candidates : List (ChainRecord ι φ δ)) (rows : Int) (deficits : List Int)
    (victims : List ι) : Prop :=
  ∃ n, victims = (candidates.take n).map (·.chainId) ∧
    Covers (candidates.take n) rows deficits ∧ ∀ m < n, ¬ Covers (candidates.take m) rows deficits

theorem planAdmission_victims (hsized : ∀ r ∈ evictable s req.chainId, Sized r) :
    wp (planAdmission cfg req)
      (fun plan s' => s' = s ∧ ChecksPass cfg s req ∧
        Covers (evictable s req.chainId) req.rowDeficit req.requiredSlotsByLayer ∧
        ShortestVictims (evictable s req.chainId) req.rowDeficit req.requiredSlotsByLayer
          plan.victimChainIds)
      (fun e s' => s' = s ∧
        ((ChecksPass cfg s req ∧
            ¬ Covers (evictable s req.chainId) req.rowDeficit req.requiredSlotsByLayer ∧
            IsCapacityError e) ∨
          (¬ ChecksPass cfg s req ∧ ¬ IsCapacityError e))) s := by
  unfold planAdmission
  rw [wp_bind]
  refine wp_mono admissionStatus_checks ?_ ?_
  · rintro ⟨status, reused⟩ s₁ ⟨rfl, hpass⟩
    dsimp only
    rw [wp_bind, wp_get, wp_bind, wp_raiseIf]
    have hclamped : ∀ d ∈ req.requiredSlotsByLayer.map (max 0), 0 ≤ d := by
      intro d hd
      obtain ⟨n, -, rfl⟩ := mem_map.mp hd
      exact le_max_left _ _
    -- The candidates that the loop sees: none where nothing is missing.
    generalize hcandidates : (if 0 < max 0 req.rowDeficit ∨
        ¬ (req.requiredSlotsByLayer.map (max 0)).all (· = 0) then
      (idleResidentLru s₁).filter fun r => decide (r.chainId ≠ req.chainId) else []) = candidates
    have hseen : candidates = evictable s₁ req.chainId ∨ candidates = [] ∧
        Covers ([] : List (ChainRecord ι φ δ)) req.rowDeficit req.requiredSlotsByLayer := by
      split_ifs at hcandidates with hmissing
      · exact .inl hcandidates.symm
      · rw [not_or, not_lt, not_not] at hmissing
        exact .inr ⟨hcandidates.symm, (covers_clamped fun r hr => absurd hr not_mem_nil).mp
          ((covers_nil hclamped).mpr hmissing)⟩
    have hcandidate : ∀ r ∈ candidates, Sized r := by
      intro r hr
      rcases hseen with rfl | ⟨rfl, -⟩
      · exact hsized r hr
      · cases hr
    obtain ⟨n, hn, hvictims, hless, hend, hleft⟩ := takeVictims_prefix candidates
      (max 0 req.rowDeficit) (req.requiredSlotsByLayer.map (max 0)) hcandidate hclamped
    have hclamp : ∀ m, Covers (candidates.take m) (max 0 req.rowDeficit)
          (req.requiredSlotsByLayer.map (max 0)) ↔
        Covers (candidates.take m) req.rowDeficit req.requiredSlotsByLayer := fun m =>
      covers_clamped fun r hr => hcandidate r (mem_of_mem_take hr)
    rw [hclamp] at hend hleft
    refine ⟨fun hraise => ⟨rfl, .inl ⟨hpass, fun hcovers => ?_, _, rfl⟩⟩, fun hdone => ?_⟩
    · refine absurd hraise (hleft.mpr ?_)
      rcases hseen with rfl | ⟨rfl, hnil⟩
      · rcases hend with hprefix | rfl
        · exact hprefix
        · rwa [take_length]
      · rwa [take_nil]
    · have hprefix := hleft.mp hdone
      refine ⟨rfl, hpass, ?_, ?_⟩
      · rcases hseen with rfl | ⟨rfl, hnil⟩
        · exact hprefix.mono hsized (take_sublist _ _)
        · exact hnil.mono hsized (nil_sublist _)
      · rcases hseen with rfl | ⟨rfl, hnil⟩
        · exact ⟨n, hvictims, hprefix, fun m hm => (hclamp m).not.mp (hless m hm)⟩
        · rw [take_nil] at hvictims
          exact ⟨0, hvictims, hnil, fun m hm => absurd hm (Nat.not_lt_zero m)⟩
  · rintro e s₁ ⟨rfl, hpass, he⟩
    exact ⟨rfl, .inr ⟨hpass, he⟩⟩

omit [DecidableEq φ] [DecidableEq δ] in
theorem mem_evictable (h : Inv cfg s) {chainId : ι} {r : ChainRecord ι φ δ} :
    r ∈ evictable s chainId ↔
      s.records.get? r.chainId = some r ∧ r.state = .idle ∧ 0 < r.residentRows ∧ r.chainId ≠ chainId := by
  unfold evictable
  rw [mem_filter, decide_eq_true_eq, mem_idleResidentLru, mem_values]
  constructor
  · rintro ⟨⟨⟨id, hr⟩, hidle, hrows⟩, hne⟩
    have hid := h.keys id r hr
    subst hid
    exact ⟨hr, hidle, hrows, hne⟩
  · rintro ⟨hr, hidle, hrows, hne⟩
    exact ⟨⟨⟨r.chainId, hr⟩, hidle, hrows⟩, hne⟩

omit [DecidableEq φ] [DecidableEq δ] in
theorem sorted_evictable (h : Inv cfg s) (chainId : ι) :
    (evictable s chainId).Pairwise fun r q =>
      r.lastAccess < q.lastAccess ∨ r.lastAccess = q.lastAccess ∧ r.chainId < q.chainId := by
  have : Std.Total (lruLe (ι := ι) (φ := φ) (δ := δ)) := ⟨fun r q => by
    unfold lruLe
    rcases lt_trichotomy r.lastAccess q.lastAccess with hlt | heq | hgt
    · exact .inl (.inl hlt)
    · rcases le_total r.chainId q.chainId with hle | hle
      · exact .inl (.inr ⟨heq, hle⟩)
      · exact .inr (.inr ⟨heq.symm, hle⟩)
    · exact .inr (.inl hgt)⟩
  have : IsTrans (ChainRecord ι φ δ) lruLe := ⟨fun r q t => by
    unfold lruLe
    rintro (hlt | ⟨heq, hle⟩) (hlt' | ⟨heq', hle'⟩)
    · exact .inl (hlt.trans hlt')
    · exact .inl (heq' ▸ hlt)
    · exact .inl (heq ▸ hlt')
    · exact .inr ⟨heq.trans heq', hle.trans hle'⟩⟩
  have hsorted : (idleResidentLru s).Pairwise lruLe := pairwise_insertionSort _ _
  have hdistinct : (idleResidentLru s).Pairwise fun r q => r.chainId ≠ q.chainId :=
    pairwise_map.mp h.nodup_idleResidentLru
  refine ((hsorted.and hdistinct).filter _).imp ?_
  rintro r q ⟨hlt | ⟨heq, hle⟩, hne⟩
  · exact .inl hlt
  · exact .inr ⟨heq, lt_of_le_of_ne hle hne⟩

omit [DecidableEq φ] [DecidableEq δ] in
theorem evictVictims_total : ∀ (victims : List ι) (s : ChainCacheIndex ι φ δ), Inv cfg s →
    victims.Nodup →
    (∀ victim ∈ victims, ∃ r, s.records.get? victim = some r ∧ r.state = .idle) →
    wp (forEach (fun victim => do
        let _ ← evict cfg victim) victims) (fun _ _ => True) (fun _ _ => False) s
  | [], _, _, _, _ => trivial
  | victim :: victims, s, h, hnodup, hidle => by
    obtain ⟨hnot, hnodup⟩ := nodup_cons.mp hnodup
    obtain ⟨r, hr, hrest⟩ := hidle victim mem_cons_self
    rw [forEach, wp_bind, wp_bind]
    refine wp_mono (evict_spec h victim) ?_ ?_
    · rintro q s₁ ⟨hinv, hremoved, -⟩
      rw [wp_pure]
      refine evictVictims_total victims s₁ hinv hnodup fun v hv => ?_
      have hne : v ≠ victim := fun heq => hnot (heq ▸ hv)
      rw [hremoved.records, get?_erase_ne _ hne]
      exact hidle v (mem_cons_of_mem _ hv)
    · rintro e s₁ ⟨rfl, hactive⟩
      rw [hactive r hr] at hrest
      cases hrest

omit [DecidableEq φ] [DecidableEq δ] in
theorem applyAdmission_total (h : Inv cfg s) {plan : ChainAdmissionPlan ι} (hplan : Planned s plan)
    (howner : ∀ id, s.seqIdToChainId.get? plan.seqId = some id →
      id = plan.chainId ∨ id ∈ plan.victimChainIds) (fingerprint : φ) :
    wp (applyAdmission cfg plan fingerprint) (fun q _ => AdmittedBy plan q) (fun _ _ => False) s := by
  unfold applyAdmission
  rw [wp_bind]
  refine wp_mono (wp_and (evictVictims_spec plan.victimChainIds s h)
    (evictVictims_total plan.victimChainIds s h hplan.nodup fun v hv => ?_)) ?_ fun _ _ he => he.2
  · obtain ⟨-, r, hr, hidle, -⟩ := hplan.victims v hv
    exact ⟨r, hr, hidle⟩
  rintro - s₁ ⟨⟨hinv, hevicted, hgone⟩, -⟩
  have hnot : plan.chainId ∉ plan.victimChainIds := fun hmem => (hplan.victims _ hmem).1 rfl
  cases hstatus : plan.status with
  | created =>
    have hnew := hplan.created hstatus
    have habsent : s₁.records.get? plan.chainId = none := by rw [hevicted.others _ hnot, hnew.1]
    have hunowned : s₁.seqIdToChainId.get? plan.seqId = none := by
      cases hid : s₁.seqIdToChainId.get? plan.seqId with
      | none => rfl
      | some id =>
        obtain ⟨r, hr, hseq⟩ := hinv.owned _ _ hid
        have hbefore := hevicted.kept id r hr
        rcases howner id (hseq ▸ h.owners id r hbefore) with rfl | hvictim
        · rw [hnew.1] at hbefore
          cases hbefore
        · rw [hgone id hvictim] at hr
          cases hr
    dsimp only
    unfold createRecord
    rw [wp_bind, wp_get, wp_bind, wp_raiseIf]
    refine ⟨fun hcontains => ?_, fun _ => ?_⟩
    · rw [contains_eq_false.mpr habsent] at hcontains
      cases hcontains
    rw [wp_bind, wp_raiseIf]
    refine ⟨fun hcontains => ?_, fun _ => ?_⟩
    · rw [contains_eq_false.mpr hunowned] at hcontains
      cases hcontains
    rw [wp_bind, tick, wp_bind, wp_modify, wp_bind, wp_get, wp_pure, wp_bind,
      setRecordState, wp_modify, wp_bind, wp_modify, wp_pure]
    exact ⟨rfl, rfl⟩
  | resumed =>
    obtain ⟨r, hr, hidle, -⟩ := hplan.resumed hstatus
    have hr₁ : s₁.records.get? plan.chainId = some r := by rw [hevicted.others _ hnot, hr]
    dsimp only
    unfold resumeRecord
    rw [wp_bind]
    refine wp_mono (lookup_spec plan.chainId) ?_ ?_
    · rintro q s₂ ⟨rfl, hq⟩
      rw [hr₁] at hq
      cases hq
      rw [wp_bind, wp_raiseIf]
      refine ⟨fun hactive => hactive hidle, fun _ => ?_⟩
      rw [wp_bind, tick, wp_bind, wp_modify, wp_bind, wp_get, wp_pure, wp_bind,
        setRecordState, wp_modify, wp_pure]
      exact ⟨rfl, hinv.keys _ r hr₁⟩
    · rintro - s₂ ⟨-, hnone⟩
      rw [hr₁] at hnone
      cases hnone

/-- The victims of a plan are the shortest prefix of the IDLE chains with rows on the device other
than the requested one, by their last access and then their chain id, that covers the deficits. -/
theorem chain_victims_shortest (h : Inv cfg s)
    (hcounts : ∀ r ∈ s.records.values, ∀ n ∈ r.allocatedCapacity, 0 ≤ n)
    (req : AdmissionRequest ι φ δ) :
    ∃ candidates : List (ChainRecord ι φ δ),
      (∀ r, r ∈ candidates ↔ s.records.get? r.chainId = some r ∧ r.state = .idle ∧
        0 < r.residentRows ∧ r.chainId ≠ req.chainId) ∧
      (candidates.Pairwise fun r q =>
        r.lastAccess < q.lastAccess ∨ r.lastAccess = q.lastAccess ∧ r.chainId < q.chainId) ∧
      (planAdmission cfg req s).2 = s ∧
      ((∃ plan, (planAdmission cfg req s).1 = .ok plan) ↔
        ChecksPass cfg s req ∧ Covers candidates req.rowDeficit req.requiredSlotsByLayer) ∧
      ((∃ e, (planAdmission cfg req s).1 = .error e ∧ IsCapacityError e) ↔
        ChecksPass cfg s req ∧ ¬ Covers candidates req.rowDeficit req.requiredSlotsByLayer) ∧
      ∀ plan, (planAdmission cfg req s).1 = .ok plan →
        ShortestVictims candidates req.rowDeficit req.requiredSlotsByLayer plan.victimChainIds ∧
        (∀ victim ∈ plan.victimChainIds, ∃ r, s.records.get? victim = some r ∧ r.state = .idle) ∧
        ∀ fingerprint,
          (∀ id, s.seqIdToChainId.get? plan.seqId = some id →
            id = plan.chainId ∨ id ∈ plan.victimChainIds) →
          ∃ q s', applyAdmission cfg plan fingerprint s = (.ok q, s') ∧ AdmittedBy plan q := by
  have hsized : ∀ r ∈ evictable s req.chainId, Sized r := fun r hr => by
    obtain ⟨hget, -, hrows, -⟩ := (mem_evictable h).mp hr
    exact ⟨hrows.le, hcounts r (mem_values.mpr ⟨r.chainId, hget⟩)⟩
  have hplan := wp_and (planAdmission_victims hsized) (planAdmission_spec h req)
  refine ⟨evictable s req.chainId, fun r => mem_evictable h, sorted_evictable h req.chainId, ?_⟩
  cases hrun : planAdmission cfg req s with
  | mk result s' =>
    cases result with
    | error e =>
      obtain ⟨⟨rfl, hwhy⟩, -⟩ := (wp_of_error hrun).mp hplan
      refine ⟨rfl, iff_of_false nofun ?_, ?_, nofun⟩
      · rintro ⟨hpass, hcovers⟩
        rcases hwhy with ⟨-, hnot, -⟩ | ⟨hnot, -⟩
        · exact hnot hcovers
        · exact hnot hpass
      · rcases hwhy with ⟨hpass, hnot, hcapacity⟩ | ⟨hnot, hcapacity⟩
        · exact iff_of_true ⟨e, rfl, hcapacity⟩ ⟨hpass, hnot⟩
        · refine iff_of_false ?_ fun hpass => hnot hpass.1
          rintro ⟨_, ⟨⟩, he⟩
          exact hcapacity he
    | ok plan =>
      obtain ⟨⟨rfl, hpass, hcovers, hvictims⟩, -, hplanned, -⟩ := (wp_of_ok hrun).mp hplan
      refine ⟨rfl, iff_of_true ⟨plan, rfl⟩ ⟨hpass, hcovers⟩, iff_of_false nofun fun hnot =>
        hnot.2 hcovers, ?_⟩
      rintro _ ⟨⟩
      refine ⟨hvictims, fun victim hvictim => ?_, fun fingerprint howner =>
        exists_of_wp (applyAdmission_total h hplanned howner fingerprint)⟩
      obtain ⟨-, r, hr, hidle, -⟩ := hplanned.victims victim hvictim
      exact ⟨r, hr, hidle⟩

end

def demoEvictingPlan : ChainAdmissionPlan Nat :=
  { chainId := 9, seqId := 4, status := .created, reusedTokens := 0, inputTokenCount := 1,
    victimChainIds := [7] }

/-- The plan is applied to the IDLE chain of the demonstration. -/
theorem chain_victims_shortest_demo :
    ∃ q s', applyAdmission demoChainConfig demoEvictingPlan () demoFinished = (.ok q, s') ∧
      q.chainId = 9 := by
  obtain ⟨candidates, -, -, -, -, -, hplans⟩ := chain_victims_shortest demoFinished_reachable.inv
    (by decide +kernel)
    { chainId := 9, seqId := 4, input := .tokens [1], fingerprint := (), requiredSlotsByLayer := [1],
      rowDeficit := 1 }
  obtain ⟨-, -, happly⟩ := hplans demoEvictingPlan (by decide +kernel)
  have hunowned : demoFinished.seqIdToChainId.get? demoEvictingPlan.seqId = none := by decide +kernel
  obtain ⟨q, s', hrun, hq⟩ := happly () fun id hid => by
    rw [hunowned] at hid
    cases hid
  exact ⟨q, s', hrun, hq.chainId⟩

end SparseEngine.ChainCacheIndex
