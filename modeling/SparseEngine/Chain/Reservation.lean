import SparseEngine.Chain.TokenHistory

/-! Every call of the engine keeps its reservations. -/

namespace SparseEngine.ChainEngine

open PyM Dict ChainCacheIndex ChainRuntime

variable {ι φ δ μ κ : Type} [LinearOrder ι]

variable {hooks : ChainManager μ κ} {cfg : ChainRuntimeConfig φ δ} {s s' : ChainEngine ι φ δ μ κ}
  {id : ι} {r q : ChainRecord ι φ δ}

omit [LinearOrder ι] in
theorem wp_onRuntime {α : Type} {m : PyM (ChainRuntime ι φ δ μ κ) α}
    {Q : α → ChainEngine ι φ δ μ κ → Prop} {E : PyError → ChainEngine ι φ δ μ κ → Prop} :
    wp (onRuntime m) Q E s ↔
      wp m (fun a t => Q a { s with runtime := t }) (fun e t => E e { s with runtime := t })
        s.runtime :=
  wp_zoom

variable {runtime : ChainRuntime ι φ δ μ κ}

theorem Inv.remove (h : Inv hooks cfg s) (hacc : Accounts hooks cfg [] runtime)
    (hremoved : Removed id r s.runtime.index runtime.index) :
    Inv hooks cfg { s with runtime := runtime } := by
  refine h.thin hacc fun k q hq => ?_
  rw [hremoved.records, get?_erase] at hq
  split at hq
  · cases hq
  · exact ⟨q, hq, .refl q⟩

theorem invalidate_spec (hl : hooks.Lawful) (h : Inv hooks cfg s) (chainId : ι)
    (expectedSeqId : Option Nat) :
    wp (onRuntime (chainInvalidate hooks cfg chainId expectedSeqId))
      (fun _ s' => Inv hooks cfg s' ∧ s'.activeChainSequences = s.activeChainSequences ∧
        s'.nextSeqId = s.nextSeqId)
      (fun _ s' => s' = s) s := by
  rw [wp_onRuntime]
  refine wp_mono (chainInvalidate_spec hl h.accounts chainId expectedSeqId) ?_ ?_
  · rintro - runtime ⟨hacc, r, hremoved⟩
    exact ⟨h.remove hacc hremoved, rfl, rfl⟩
  · rintro - runtime ⟨rfl, -⟩
    rfl

theorem abortRequest_keeps (hl : hooks.Lawful) (h : Inv hooks cfg s) (seqId : Nat) :
    Keeps (Inv hooks cfg) (abortRequest hooks cfg seqId) s := by
  unfold Keeps abortRequest
  rw [wp_bind, wp_get]
  split
  · rw [wp_bind]
    refine wp_mono (invalidate_spec hl h _ _) ?_ fun _ _ he => he ▸ h
    rintro - s₁ ⟨h₁, -⟩
    exact h₁.forget seqId
  · split
    · exact wp_mono (invalidate_spec hl h _ _) (fun _ _ hs => hs.1) fun _ _ he => he ▸ h
    · exact h

theorem invalidateChain_keeps (hl : hooks.Lawful) (h : Inv hooks cfg s) (chainId : ι) :
    Keeps (Inv hooks cfg) (invalidateChain hooks cfg chainId) s := by
  unfold Keeps invalidateChain
  rw [wp_bind, wp_onRuntime, wp_onIndex]
  refine wp_mono (lookup_spec chainId) ?_ ?_
  · rintro r index ⟨rfl, -⟩
    rw [wp_bind, forgetSequence, wp_modify]
    exact wp_mono (invalidate_spec hl (h.forget r.seqId) _ _) (fun _ _ hs => hs.1)
      fun _ _ he => he ▸ h.forget r.seqId
  · rintro - index ⟨rfl, -⟩
    exact h

theorem discardChain_keeps (hl : hooks.Lawful) (h : Inv hooks cfg s) (chainId : ι)
    (expectedSeqId : Nat) : Keeps (Inv hooks cfg) (discardChain hooks cfg chainId expectedSeqId) s := by
  unfold Keeps discardChain
  rw [wp_bind, wp_get]
  split
  · exact h
  · next r _ =>
    rw [wp_bind, wp_raiseIf]
    refine ⟨fun _ => h, fun _ => ?_⟩
    rw [wp_bind, forgetSequence, wp_modify]
    exact wp_mono (invalidate_spec hl (h.forget r.seqId) _ _) (fun _ _ hs => hs.1)
      fun _ _ he => he ▸ h.forget r.seqId

theorem reclaimFailed_spec (hl : hooks.Lawful) (h : Inv hooks cfg s) (seqId : Nat) :
    wp (reclaimFailed hooks cfg seqId) (fun _ => Inv hooks cfg) (fun _ => Inv hooks cfg) s := by
  unfold reclaimFailed
  rw [wp_bind, wp_get]
  split
  · exact h
  · rw [wp_bind, wp_attempt]
    refine wp_mono (invalidate_spec hl h _ _) ?_ ?_
    · rintro - s₁ ⟨h₁, -⟩
      exact h₁.forget seqId
    · rintro e s₁ rfl
      exact h

/-- An error that is no `ChainCapacityError`. -/
def NotCapacity (e : PyError) : Prop := ∀ message, e ≠ ChainErrorClass.capacity.error message

theorem notCapacity_error {c : ChainErrorClass} (hc : c ≠ .capacity) (message : String) :
    NotCapacity (c.error message) := by
  intro message' heq
  have hnumber : c.number = ChainErrorClass.capacity.number := by
    injection heq
  cases c <;> first | exact hc rfl | cases hnumber

variable {tokenIds : List Int} {count : Nat}

omit [LinearOrder ι] in
theorem notCapacity_stableTokenDigest {e : PyError}
    (h : stableTokenDigest cfg.index tokenIds count = .error e) :
    NotCapacity e := by
  unfold stableTokenDigest at h
  split at h
  · split at h
    · cases h
      exact notCapacity_error (by decide) _
    · cases h
  · cases h
    nofun

def HasRoom (cfg : ChainRuntimeConfig φ δ) (i : ChainCacheIndex ι φ δ) (r : ChainRecord ι φ δ)
    (count : Nat) : Prop :=
  ∀ n, cfg.index.maxTokenHistoryTokens = some n → i.tokenHistoryTokens - r.tokenIds.length + count ≤ n

variable {i : ChainCacheIndex ι φ δ}

omit [LinearOrder ι] in
theorem checkCapacity_spec (hroom : HasRoom cfg i r count) :
    wp (checkTokenHistoryCapacity cfg.index r count) (fun _ i' => i' = i)
      (fun _ _ => False) i := by
  refine wp_mono (checkTokenHistoryCapacity_spec r count) (fun _ _ hs => hs.1) ?_
  rintro - i' ⟨-, n, hn, hlt⟩
  exact absurd (hroom n hn) (not_le.mpr hlt)

omit [LinearOrder ι] in
theorem prepareTokenHistory_spec (hroom : HasRoom cfg i r tokenIds.length) (processed : Nat) :
    wp (prepareTokenHistory cfg.index r tokenIds processed)
      (fun tokens i' => i' = i ∧ tokens = tokenIds) (fun e i' => i' = i ∧ NotCapacity e) i := by
  unfold prepareTokenHistory
  rw [wp_bind, wp_raiseIf]
  refine ⟨fun _ => ⟨rfl, notCapacity_error (by decide) _⟩, fun _ => ?_⟩
  rw [wp_bind, wp_raiseIf]
  refine ⟨fun _ => ⟨rfl, notCapacity_error (by decide) _⟩, fun _ => ?_⟩
  rw [wp_bind]
  refine wp_mono (checkCapacity_spec hroom) ?_ fun _ _ hf => hf.elim
  rintro - i' rfl
  exact ⟨rfl, rfl⟩

theorem prepareProcessedTokens_reads (id : ι) (seqId : Nat) (tokenIds : List Int)
    (processed : Nat) :
    wp (prepareProcessedTokens cfg.index id seqId tokenIds processed)
      (fun prepared i' => i' = i ∧ prepared.chainId = id ∧ prepared.seqId = seqId ∧
        prepared.processedTokenCount = processed ∧ prepared.tokens = tokenIds)
      (fun _ i' => i' = i) i := by
  unfold prepareProcessedTokens prepareTokenHistory
  rw [wp_bind]
  refine wp_mono (lookup_spec id) ?_ fun _ _ he => he.1
  rintro r i' ⟨rfl, -⟩
  rw [wp_bind, wp_raiseIf]
  refine ⟨fun _ => rfl, fun _ => ?_⟩
  rw [wp_bind, wp_bind, wp_raiseIf]
  refine ⟨fun _ => rfl, fun _ => ?_⟩
  rw [wp_bind, wp_raiseIf]
  refine ⟨fun _ => rfl, fun _ => ?_⟩
  rw [wp_bind]
  refine wp_mono (checkTokenHistoryCapacity_spec r tokenIds.length) ?_
    fun _ _ he => he.1
  rintro - i'' ⟨rfl, -⟩
  rw [wp_pure, wp_bind, wp_lift]
  split
  · exact ⟨rfl, rfl, rfl, rfl, rfl⟩
  · exact rfl

variable {seqId : Nat}

theorem prepareProcessedTokens_spec (hr : i.records.get? id = some r)
    (hroom : HasRoom cfg i r tokenIds.length) (processed : Nat) :
    wp (prepareProcessedTokens cfg.index id seqId tokenIds processed)
      (fun prepared i' => i' = i ∧ prepared.chainId = id ∧ prepared.seqId = seqId ∧
        prepared.processedTokenCount = processed ∧ prepared.tokens = tokenIds)
      (fun e i' => i' = i ∧ NotCapacity e) i := by
  unfold prepareProcessedTokens
  rw [wp_bind]
  refine wp_mono (lookup_spec id) ?_ ?_
  · rintro r' i' ⟨rfl, hr'⟩
    rw [hr] at hr'
    cases hr'
    rw [wp_bind, wp_raiseIf]
    refine ⟨fun _ => ⟨rfl, notCapacity_error (by decide) _⟩, fun _ => ?_⟩
    rw [wp_bind]
    refine wp_mono (prepareTokenHistory_spec hroom processed) ?_ fun _ _ he => he
    rintro tokens i'' ⟨rfl, rfl⟩
    rw [wp_bind, wp_lift]
    split
    · exact ⟨rfl, rfl, rfl, rfl, rfl⟩
    · next e he => exact ⟨rfl, notCapacity_stableTokenDigest he⟩
  · rintro e i' ⟨-, hnone⟩
    rw [hr] at hnone
    cases hnone

theorem storeTokenHistory_room {tokens : List Int} (hroom : HasRoom cfg i r tokens.length) :
    wp (storeTokenHistory cfg.index r tokens) (fun _ _ => True)
      (fun _ _ => False) i := by
  unfold storeTokenHistory
  rw [wp_bind]
  refine wp_mono (checkCapacity_spec hroom) ?_ fun _ _ hf => hf
  rintro - i' rfl
  exact trivial

theorem rememberPreparedTokens_room [DecidableEq δ]
    {prepared : PreparedChainTokens ι δ}
    (hroom : ∀ r, i.records.get? prepared.chainId = some r → HasRoom cfg i r prepared.tokens.length)
    (hfound : ∃ r, i.records.get? prepared.chainId = some r) :
    wp (rememberPreparedTokens cfg.index prepared) (fun _ _ => True)
      (fun e _ => NotCapacity e) i := by
  unfold rememberPreparedTokens
  rw [wp_bind]
  refine wp_mono (lookup_spec prepared.chainId) ?_ ?_
  · rintro r i' ⟨rfl, hr⟩
    rw [wp_bind, wp_raiseIf]
    refine ⟨fun _ => notCapacity_error (by decide) _, fun _ => ?_⟩
    rw [wp_bind, wp_raiseIf]
    refine ⟨fun _ => notCapacity_error (by decide) _, fun _ => ?_⟩
    exact wp_mono (storeTokenHistory_room (hroom r hr)) (fun _ _ ht => ht) fun _ _ hf => hf.elim
  · rintro e i' ⟨-, hnone⟩
    obtain ⟨r, hr⟩ := hfound
    rw [hr] at hnone
    cases hnone

theorem finish_room (hinv : ChainCacheIndex.Inv cfg.index i) (hr : i.records.get? id = some r)
    (hroom : HasRoom cfg i r tokenIds.length) (processed : Nat) (physical : List Int) (rows : Int)
    (capacity : Option (List Int)) :
    wp (ChainCacheIndex.finish cfg.index id tokenIds processed physical rows capacity)
      (fun _ _ => True) (fun e _ => NotCapacity e) i := by
  have hdigest : ∀ turn, wp (finishDigest cfg.index id turn) (fun _ _ => True)
      (fun e _ => NotCapacity e) i := by
    intro turn
    unfold finishDigest
    rw [wp_bind]
    refine wp_mono (lookup_spec id) ?_ ?_
    · rintro r' i' ⟨rfl, -⟩
      rw [wp_bind, wp_raiseIf]
      refine ⟨fun _ => notCapacity_error (by decide) _, fun _ => ?_⟩
      rw [wp_bind, wp_raiseIf]
      refine ⟨fun _ => notCapacity_error (by decide) _, fun _ => ?_⟩
      rw [wp_bind, wp_raiseIf]
      exact ⟨fun _ => nofun, fun _ => trivial⟩
    · rintro e i' ⟨-, hnone⟩
      rw [hr] at hnone
      cases hnone
  unfold ChainCacheIndex.finish
  rw [wp_bind]
  refine wp_mono (lookup_spec id) ?_ ?_
  · rintro r' i' ⟨rfl, hr'⟩
    rw [hr] at hr'
    cases hr'
    rw [wp_bind]
    refine wp_mono (prepareTokenHistory_spec hroom processed) ?_ fun _ _ he => he.2
    rintro tokens i'' ⟨rfl, rfl⟩
    rw [wp_bind, wp_lift]
    split
    · rw [wp_bind]
      refine wp_mono (wp_and (hdigest _) (finishDigest_spec hinv id _)) ?_
        fun _ _ he => he.1
      rintro q i₁ ⟨-, hinv₁, r', hrewritten, hfin⟩
      have hbefore := hrewritten.before
      rw [hr] at hbefore
      cases hbefore
      -- The history is the same as before: the record was rewritten with its tokens.
      have hsum : i₁.tokenHistoryTokens = i''.tokenHistoryTokens := by
        have hset := sumBy_set_old
          (fun (_ : ι) (r : ChainRecord ι φ δ) => r.tokenIds.length) q hr
        rw [hinv₁.history, hinv.history]
        unfold rememberedTokens
        rw [hrewritten.records]
        rw [hfin.tokenIds] at hset
        exact congrArg Nat.cast (Nat.add_right_cancel hset)
      refine wp_mono (storeTokenHistory_room ?_) (fun _ _ ht => ht) fun _ _ hf => hf.elim
      intro n hn
      rw [hsum, hfin.tokenIds]
      exact hroom n hn
    · next e he => exact notCapacity_stableTokenDigest he
  · rintro e i' ⟨-, hnone⟩
    rw [hr] at hnone
    cases hnone

theorem Inv.hasRoom (h : Inv hooks cfg s) {turn : ActiveTurn ι}
    (hturn : s.activeChainSequences.get? seqId = some turn)
    (hr : s.runtime.index.records.get? turn.chainId = some r) (hactive : r.state = .active)
    (hcount : count ≤ turn.budget) {j : ChainCacheIndex ι φ δ}
    (hj : ChainCacheIndex.Inv cfg.index j) (hq : j.records.get? turn.chainId = some q)
    (hothers : ∀ id r', id ≠ turn.chainId → j.records.get? id = some r' →
      ∃ r, s.runtime.index.records.get? id = some r ∧ r'.tokenIds.length ≤ r.tokenIds.length) :
    HasRoom cfg j q count := by
  intro n hn
  have hreserved := h.reserved n hn
  have hweight : turnWeight s.activeChainSequences turn.chainId r = turn.budget := by
    unfold turnWeight
    rw [hactive, (h.turns seqId turn r hturn hr).1, hturn]
    exact if_pos rfl
  have hcharged := sumBy_erase (turnWeight s.activeChainSequences) hr
  have hremembered := sumBy_erase (fun (_ : ι) (r : ChainRecord ι φ δ) => r.tokenIds.length) hq
  have hle : (j.records.erase turn.chainId).sumBy
      (fun (_ : ι) (r : ChainRecord ι φ δ) => r.tokenIds.length) ≤
      (s.runtime.index.records.erase turn.chainId).sumBy (turnWeight s.activeChainSequences) := by
    refine sumBy_mono fun id r' hr' => ?_
    rw [get?_erase] at hr'
    split at hr'
    · cases hr'
    · next hne =>
      obtain ⟨r₀, hr₀, hlen⟩ := hothers id r' hne hr'
      exact ⟨r₀, by rw [get?_erase_ne _ hne, hr₀], le_trans hlen (h.length_le_weight hr₀)⟩
  rw [hj.history]
  unfold rememberedTokens
  unfold reservedTokens at hreserved
  omega

/-- Only the record of `c` changed: its turn is over. -/
structure Finished (c : ι) (r q : ChainRecord ι φ δ) (i i' : ChainCacheIndex ι φ δ) : Prop where
  before : i.records.get? c = some r
  record : i'.records.get? c = some q
  seqId : q.seqId = r.seqId
  tokenIds : q.tokenIds = r.tokenIds
  state : q.state = .idle
  forward : r.processedTokenCount ≤ q.processedTokenCount
  others : ∀ id r', id ≠ c → i'.records.get? id = some r' → i.records.get? id = some r'

theorem finished_of_rewritten {c : ι} {i₁ i' : ChainCacheIndex ι φ δ}
    (hrewritten : Rewritten c r q i i₁) (hspares : Spares c i₁ i')
    (htokens : q.tokenIds = r.tokenIds) (hidle : q.state = .idle)
    (hforward : r.processedTokenCount ≤ q.processedTokenCount) : Finished c r q i i' := by
  have hq : i₁.records.get? c = some q := by
    rw [hrewritten.records, get?_set_self]
  refine ⟨hrewritten.before, hspares.stays c q hq (.inl rfl), hrewritten.seqId, htokens, hidle,
    hforward, fun id r' hne hr' => ?_⟩
  have hr'' := hspares.kept id r' hr'
  rw [hrewritten.records, get?_set_ne _ _ hne] at hr''
  exact hr''

theorem Inv.finish (h : Inv hooks cfg s) {c : ι} (hacc : Accounts hooks cfg [] runtime)
    {turn : ActiveTurn ι} (hturn : s.activeChainSequences.get? seqId = some turn)
    (hid : turn.chainId = c) (hfin : Finished c r q s.runtime.index i)
    (hindex : runtime.index.records = i.records ∨ ∃ tokens : List Int,
      runtime.index.records = i.records.set c { q with tokenIds := tokens } ∧
        tokens.length ≤ turn.budget ∧ tokens.length ≤ q.processedTokenCount + 1)
    (hactive : r.state = .active) : Inv hooks cfg { s with runtime := runtime } := by
  subst hid
  have howner := (h.turns seqId turn r hturn hfin.before).1
  have hlen := (h.turns seqId turn r hturn hfin.before).2
  -- The record of the chain, before or after its tokens were stored.
  have hchain : ∃ q', runtime.index.records.get? turn.chainId = some q' ∧ q'.seqId = r.seqId ∧
      q'.state = .idle ∧ q'.tokenIds.length ≤ turn.budget ∧
      q'.tokenIds.length ≤ q'.processedTokenCount + 1 := by
    rcases hindex with hsame | ⟨tokens, hset, hbudget, hboundary⟩
    · refine ⟨q, by rw [hsame, hfin.record], hfin.seqId, hfin.state, hfin.tokenIds ▸ hlen, ?_⟩
      have hhistory := h.histories _ r hfin.before
      have hforward := hfin.forward
      rw [hfin.tokenIds]
      omega
    · exact ⟨{ q with tokenIds := tokens }, by rw [hset, get?_set_self], hfin.seqId, hfin.state,
        hbudget, hboundary⟩
  have hothers : ∀ id r', id ≠ turn.chainId → runtime.index.records.get? id = some r' →
      s.runtime.index.records.get? id = some r' := by
    intro id r' hne hr'
    rcases hindex with hsame | ⟨tokens, hset, -, -⟩
    · exact hfin.others id r' hne (hsame ▸ hr')
    · rw [hset, get?_set_ne _ _ hne] at hr'
      exact hfin.others id r' hne hr'
  obtain ⟨q', hq', hseq', hidle', hbudget', hboundary'⟩ := hchain
  refine h.mono hacc (fun id r' hr' => ?_) (fun i' turn' hturn' => ⟨hturn', fun r' hr' => ?_⟩) le_rfl
  · by_cases hid : id = turn.chainId
    · subst hid
      replace hr' : runtime.index.records.get? turn.chainId = some r' := hr'
      rw [hq'] at hr'
      cases hr'
      refine ⟨r, hfin.before, hseq', hboundary', ?_⟩
      rw [turnWeight_idle hidle']
      refine le_trans hbudget' (le_of_eq ?_)
      unfold turnWeight
      rw [hactive, howner, hturn]
      exact (if_pos rfl).symm
    · have hr := hothers id r' hid hr'
      exact ⟨r', hr, rfl, h.histories id r' hr, le_rfl⟩
  · by_cases hid : turn'.chainId = turn.chainId
    · -- Both sequences own the chain, so they are one.
      have hseq := (h.turns i' turn' r hturn' (hid ▸ hfin.before)).1
      rw [← hseq, howner, hturn] at hturn'
      cases hturn'
      replace hr' : runtime.index.records.get? turn.chainId = some r' := hr'
      rw [hq'] at hr'
      cases hr'
      exact hbudget'
    · exact (h.turns i' turn' r' hturn' (hothers _ r' hid hr')).2

theorem completeSequence_keeps [DecidableEq δ] (hl : hooks.Lawful) (h : Inv hooks cfg s) (seqId : Nat)
    (tokenIds : List Int) (polled : Nat)
    (hbudget : ∀ turn, s.activeChainSequences.get? seqId = some turn →
      tokenIds.length ≤ turn.budget) :
    Keeps (Inv hooks cfg) (completeSequence hooks cfg seqId tokenIds polled) s := by
  unfold Keeps completeSequence
  rw [wp_bind, wp_get]
  split
  · exact h
  · next turn hturn =>
    rw [wp_bind, wp_onRuntime, wp_onIndex]
    refine wp_mono (prepareProcessedTokens_reads _ seqId tokenIds _) ?_ ?_
    · rintro prepared index ⟨rfl, hid, hseq, hcount, htokens⟩
      rw [hid, hseq, hcount, wp_bind, wp_onRuntime]
      refine wp_mono (chainFinish_spec hl h.accounts _ _ _ _ polled) ?_ ?_
      · rintro q runtime ⟨hacc, r, i₁, hrewritten, hspares, -, hactive, hforward, hsame, hidle, hn⟩
        have hfin := finished_of_rewritten hrewritten hspares hsame hidle (hn ▸ hforward)
        have h₁ := h.finish hacc hturn rfl hfin (.inl rfl) hactive
        rw [wp_bind, wp_onRuntime, wp_onIndex]
        refine wp_mono (rememberPreparedTokens_spec hacc.index prepared) ?_ ?_
        · rintro q' index ⟨hinv, r', hrewritten', rfl, -, -⟩
          have hr' := hrewritten'.before
          rw [hid, hfin.record] at hr'
          cases hr'
          refine Inv.forget ?_ seqId
          refine h.finish (hacc.rewrite hinv hrewritten' fun hb =>
            hacc.records _ q hrewritten'.before hb) hturn rfl hfin (.inr ⟨prepared.tokens, ?_, ?_, ?_⟩)
            hactive
          · show index.records = _
            rw [hrewritten'.records, hid]
          · exact htokens ▸ hbudget turn hturn
          · rw [htokens, hn]
            omega
        · rintro e index rfl
          exact h₁
      · rintro e runtime ⟨hacc, hkept⟩
        exact h.thin hacc fun id r hr => ⟨r, hkept id r hr, .refl r⟩
    · rintro e index rfl
      exact h

theorem validateTokenHistoryAdmission_spec (plan : ChainAdmissionPlan ι) (counts : Dict ι Nat) :
    wp (validateTokenHistoryAdmission cfg.index plan counts)
      (fun _ i' => i' = i ∧ ∀ n, cfg.index.maxTokenHistoryTokens = some n →
        i.tokenHistoryTokens -
          (plan.victimChainIds.map fun v => (historyLength i v : Int)).sum +
          (counts.entries.map fun e => (e.2 : Int) - historyLength i e.1).sum ≤ n)
      (fun _ i' => i' = i) i := by
  unfold validateTokenHistoryAdmission
  split
  · next hnone =>
    refine ⟨rfl, fun n hn => ?_⟩
    rw [hnone] at hn
    cases hn
  · next capacity hcap =>
    rw [wp_bind, wp_get, wp_bind, wp_raiseIf]
    refine ⟨fun _ => rfl, fun _ => ?_⟩
    rw [wp_raiseIf]
    refine ⟨fun _ => rfl, fun hfits => ⟨rfl, fun n hn => ?_⟩⟩
    rw [hcap] at hn
    cases hn
    exact not_lt.mp hfits

theorem Inv.historyLength_le_prompt (h : Inv hooks cfg s) {plan : ChainAdmissionPlan ι} {prompt : Nat}
    (hplan : PlannedHere s.runtime.index plan)
    (hsuffix : plan.status = .resumed → plan.reusedTokens < prompt) :
    historyLength s.runtime.index plan.chainId ≤ prompt := by
  unfold historyLength
  cases hstatus : plan.status with
  | created =>
    rw [(hplan.planned.created hstatus).1]
    exact Nat.zero_le _
  | resumed =>
    obtain ⟨r, hr, -, -, hcount⟩ := hplan.planned.resumed hstatus
    have hlen := h.histories _ r hr
    have hless := hsuffix hstatus
    rw [hr]
    dsimp only [Option.elim]
    omega

theorem Inv.admission (h : Inv hooks cfg s) {plan : ChainAdmissionPlan ι} {prompt maxTokens : Nat}
    (hplan : PlannedHere s.runtime.index plan)
    (hnew : plan.status = .created → ∀ i turn, s.activeChainSequences.get? i = some turn →
      turn.chainId ≠ plan.chainId) (hseq : plan.seqId < s.nextSeqId)
    (hsuffix : plan.status = .resumed → plan.reusedTokens < prompt)
    (hvalid : ∀ n, cfg.index.maxTokenHistoryTokens = some n →
      s.runtime.index.tokenHistoryTokens -
        (plan.victimChainIds.map fun v =>
          (historyLength s.runtime.index v : Int)).sum +
        ((maxTokenCounts s plan.chainId (prompt + maxTokens)).entries.map fun e =>
          (e.2 : Int) - historyLength s.runtime.index e.1).sum ≤ n)
    (hacc : Accounts hooks cfg [] runtime) {i₁ : ChainCacheIndex ι φ δ}
    {q' : ChainRecord ι φ δ} (hadm : AdmittedChain plan q s.runtime.index i₁)
    (hq' : runtime.index.records.get? plan.chainId = some q') (hsame : SameTurn q q')
    (hothers : ∀ k, k ≠ plan.chainId → runtime.index.records.get? k = i₁.records.get? k) :
    Inv hooks cfg
      { s with
        runtime := runtime
        activeChainSequences :=
          s.activeChainSequences.set plan.seqId ⟨plan.chainId, prompt, maxTokens⟩ } := by
  have hprompt := h.historyLength_le_prompt hplan hsuffix
  have hself : plan.chainId ∉ plan.victimChainIds := fun hmem =>
    (hplan.planned.victims _ hmem).1 rfl
  have howner : q'.seqId = plan.seqId := by
    rw [hsame.seqId]
    rcases hadm.origin with ⟨-, -, hs, -⟩ | ⟨hstatus, r, hr, -, hs, -⟩
    · exact hs
    · obtain ⟨r', hr', -, hs', -⟩ := hplan.planned.resumed hstatus
      rw [hr] at hr'
      cases hr'
      exact hs.trans hs'
  have hhistory : q'.tokenIds.length ≤ prompt ∧ q'.tokenIds.length ≤ q'.processedTokenCount + 1 := by
    rw [hsame.tokenIds, hsame.processedTokenCount]
    rcases hadm.origin with ⟨-, -, -, hempty, -, -⟩ | ⟨hstatus, r, hr, -, -, htokens, -, hcount⟩
    · rw [hempty]
      exact ⟨Nat.zero_le _, Nat.zero_le _⟩
    · unfold historyLength at hprompt
      rw [hr] at hprompt
      rw [htokens, hcount]
      exact ⟨hprompt, h.histories _ r hr⟩
  have hrest : ∀ id r', id ≠ plan.chainId → runtime.index.records.get? id = some r' →
      id ∉ plan.victimChainIds ∧ ∃ r, s.runtime.index.records.get? id = some r ∧
        SameTurn r r' := by
    intro id r' hid hr'
    rw [hothers id hid] at hr'
    exact hadm.others id r' hid hr'
  have hapart : ∀ id r', id ≠ plan.chainId → runtime.index.records.get? id = some r' →
      r'.seqId ≠ plan.seqId := by
    intro id r' hid hr'
    rw [← howner]
    exact hacc.seqId_ne hq' hr' hid
  -- A sequence that ran before owns another chain.
  have hturn : ∀ i turn r', i ≠ plan.seqId → s.activeChainSequences.get? i = some turn →
      runtime.index.records.get? turn.chainId = some r' → turn.chainId ≠ plan.chainId := by
    intro i turn r' hi ht _ hid
    rcases hadm.origin with ⟨hstatus, -⟩ | ⟨hstatus, r, hr, -, hs, -⟩
    · exact hnew hstatus i turn ht hid
    · obtain ⟨r₀, hr₀, -, hs₀, -⟩ := hplan.planned.resumed hstatus
      exact hi ((h.turns i turn r₀ ht (hid ▸ hr₀)).1.symm.trans hs₀)
  refine ⟨hacc, fun i turn r' ht hr' => ?_, fun id r' hr' => ?_, fun id r' hr' => ?_,
    fun i turn ht => ?_, fun n hn => ?_⟩
  · replace ht : (s.activeChainSequences.set plan.seqId ⟨plan.chainId, prompt, maxTokens⟩).get? i =
        some turn := ht
    replace hr' : runtime.index.records.get? turn.chainId = some r' := hr'
    rw [get?_set] at ht
    split at ht
    · next heq =>
      cases ht
      dsimp only at hr'
      rw [hq'] at hr'
      cases hr'
      exact ⟨howner.trans heq.symm, le_trans hhistory.1 (Nat.le_add_right _ _)⟩
    · next hi =>
      obtain ⟨-, r, hr, hs⟩ := hrest _ r' (hturn i turn r' hi ht hr') hr'
      rw [hs.seqId, hs.tokenIds]
      exact h.turns i turn r ht hr
  · by_cases hid : id = plan.chainId
    · subst hid
      replace hr' : runtime.index.records.get? plan.chainId = some r' := hr'
      rw [hq'] at hr'
      cases hr'
      exact hhistory.2
    · obtain ⟨-, r, hr, hs⟩ := hrest id r' hid hr'
      rw [hs.tokenIds, hs.processedTokenCount]
      exact h.histories id r hr
  · by_cases hid : id = plan.chainId
    · subst hid
      replace hr' : runtime.index.records.get? plan.chainId = some r' := hr'
      rw [hq'] at hr'
      cases hr'
      rw [howner]
      exact hseq
    · obtain ⟨-, r, hr, hs⟩ := hrest id r' hid hr'
      rw [hs.seqId]
      exact h.seqIds id r hr
  · replace ht : (s.activeChainSequences.set plan.seqId ⟨plan.chainId, prompt, maxTokens⟩).get? i =
        some turn := ht
    rw [get?_set] at ht
    split at ht
    · next heq => exact heq ▸ hseq
    · exact h.keys i turn ht
  · have hcounts : ∀ id count, (maxTokenCounts s plan.chainId (prompt + maxTokens)).get? id = some count →
        historyLength s.runtime.index id ≤ count := by
      intro id count hcount
      unfold maxTokenCounts at hcount
      rw [get?_set] at hcount
      split at hcount
      · next heq =>
        cases hcount
        rw [heq]
        exact le_trans hprompt (Nat.le_add_right _ _)
      · exact h.historyLength_le_budget hcount
    have hsum := h.reserved_admitted runtime.index
      (s.activeChainSequences.set plan.seqId ⟨plan.chainId, prompt, maxTokens⟩) (prompt + maxTokens)
      hplan.planned.nodup hself (fun r' hr' => ?_) (le_trans hprompt (Nat.le_add_right _ _))
      (fun id r' hid hr' => ?_)
    · have hle := hvalid n hn
      have hvictims : (plan.victimChainIds.map fun v =>
          (historyLength s.runtime.index v : Int)).sum =
          ((plan.victimChainIds.map (historyLength s.runtime.index)).sum : Nat) := by
        rw [Nat.cast_list_sum, List.map_map]
        rfl
      rw [sum_counts_eq hcounts, h.accounts.index.history, hvictims] at hle
      show runtime.index.records.sumBy (turnWeight
        (s.activeChainSequences.set plan.seqId ⟨plan.chainId, prompt, maxTokens⟩)) ≤ n
      omega
    · rw [hq'] at hr'
      cases hr'
      unfold turnWeight
      rw [hsame.state, hadm.state, howner, get?_set_self]
      exact le_of_eq (if_pos rfl)
    · obtain ⟨hnot, r, hr, hs⟩ := hrest id r' hid hr'
      refine ⟨hnot, r, hr, le_of_eq ?_⟩
      rw [← turnWeight_congr hs]
      unfold turnWeight
      rw [get?_set_ne _ _ (hapart id r' hid hr')]

section

variable [DecidableEq φ] [DecidableEq δ]

def Names (req : ChainRequest ι) (existing : Option (ChainRecord ι φ δ))
    (i : ChainCacheIndex ι φ δ) : Prop :=
  match req.chainId, existing with
  | none, none => True
  | some chainId, some r => i.records.get? chainId = some r
  | _, _ => False

omit [DecidableEq φ] [DecidableEq δ] in
theorem findExisting_spec (req : ChainRequest ι) :
    wp (findExisting req.chainId) (fun existing s' => s' = s ∧ Names req existing s.runtime.index)
      (fun _ s' => s' = s) s := by
  unfold findExisting Names
  cases req.chainId with
  | none => exact ⟨rfl, trivial⟩
  | some chainId =>
    dsimp only
    rw [wp_bind, wp_onRuntime, wp_onIndex]
    refine wp_mono (lookup_spec chainId) ?_ ?_
    · rintro r index ⟨rfl, hr⟩
      exact ⟨rfl, hr⟩
    · rintro e index ⟨rfl, -⟩
      rfl

structure PlannedRequest (hooks : ChainManager μ κ) (cfg : ChainRuntimeConfig φ δ)
    (req : ChainRequest ι) (seqId : Nat) (plan : ChainAdmissionPlan ι)
    (s s' : ChainEngine ι φ δ μ κ) : Prop where
  inv : Inv hooks cfg s'
  active : s'.activeChainSequences = s.activeChainSequences
  next : s'.nextSeqId = s.nextSeqId
  planned : PlannedHere s'.runtime.index plan
  seqId : plan.seqId = seqId
  created : plan.status = .created → plan.chainId = req.newChainId

theorem planAdmission_spec (h : Inv hooks cfg s) (chainId : ι) (seqId : Nat) (tokenIds : List Int)
    (polled : Nat) :
    wp (onRuntime (planAdmission hooks cfg chainId seqId tokenIds polled))
      (fun plan s' => Inv hooks cfg s' ∧ s'.activeChainSequences = s.activeChainSequences ∧
        s'.nextSeqId = s.nextSeqId ∧ s'.runtime.index = s.runtime.index ∧
        PlannedHere s'.runtime.index plan ∧ plan.seqId = seqId ∧ plan.chainId = chainId)
      (fun _ s' => Inv hooks cfg s' ∧ s'.activeChainSequences = s.activeChainSequences ∧
        s'.nextSeqId = s.nextSeqId) s := by
  have hthin : ∀ {runtime : ChainRuntime ι φ δ μ κ}, OnlyPolled hooks cfg s.runtime runtime →
      Inv hooks cfg { s with runtime := runtime } := by
    rintro runtime ⟨hacc, hindex, -⟩
    exact h.thin hacc fun id r hr => ⟨r, hindex ▸ hr, .refl r⟩
  rw [wp_onRuntime]
  refine wp_mono (ChainRuntime.planAdmission_spec h.accounts chainId seqId tokenIds polled) ?_ ?_
  · rintro plan runtime ⟨hpolled, hid, hseq, hplan⟩
    exact ⟨hthin hpolled, rfl, rfl, hpolled.2.1, hplan, hseq, hid⟩
  · rintro e runtime hpolled
    exact ⟨hthin hpolled, rfl, rfl⟩

theorem planRequest_spec (hl : hooks.Lawful) (h : Inv hooks cfg s) (req : ChainRequest ι)
    {existing : Option (ChainRecord ι φ δ)} (hnames : Names req existing s.runtime.index)
    (seqId : Nat) :
    wp (planRequest hooks cfg req existing seqId)
      (fun plan s' => PlannedRequest hooks cfg req seqId plan s s') (fun _ => Inv hooks cfg) s := by
  unfold planRequest
  rw [wp_tryExcept]
  refine wp_mono (planAdmission_spec h _ seqId req.prompt _) ?_ ?_
  · rintro plan s₁ ⟨h₁, hactive, hnext, hindex, hplan, hseq, hid⟩
    refine ⟨h₁, hactive, hnext, hplan, hseq, fun hstatus => ?_⟩
    have hnone := (hplan.planned.created hstatus).1
    rw [hid, hindex] at hnone
    unfold Names at hnames
    rw [hid]
    cases hreq : req.chainId with
    | none => rfl
    | some chainId =>
      rw [hreq] at hnames hnone
      cases existing with
      | none => exact hnames.elim
      | some r =>
        rw [Option.getD_some, hnames] at hnone
        cases hnone
  · rintro e s₁ ⟨h₁, hactive, hnext⟩
    rw [wp_ite]
    split
    · rw [wp_bind]
      refine wp_mono (invalidate_spec hl h₁ _ _) ?_ fun _ _ he => he ▸ h₁
      rintro - s₂ ⟨h₂, hactive₂, hnext₂⟩
      refine wp_mono (planAdmission_spec h₂ _ seqId req.prompt _) ?_ fun _ _ he => he.1
      rintro plan s₃ ⟨h₃, hactive₃, hnext₃, -, hplan, hseq, hid⟩
      exact ⟨h₃, hactive₃.trans (hactive₂.trans hactive), hnext₃.trans (hnext₂.trans hnext), hplan,
        hseq, fun _ => hid⟩
    · exact h₁

omit [DecidableEq φ] [DecidableEq δ] in
theorem validationDigest_spec (plan : ChainAdmissionPlan ι) :
    wp (validationDigest cfg plan) (fun _ s' => s' = s) (fun _ s' => s' = s) s := by
  unfold validationDigest
  split
  · rfl
  · rw [wp_bind, wp_onRuntime, wp_onIndex]
    refine wp_mono (lookup_spec plan.chainId) ?_ ?_
    · rintro r index ⟨rfl, -⟩
      split
      · rfl
      · rfl
    · rintro e index ⟨rfl, -⟩
      rfl

theorem admitRequest_keeps (hl : hooks.Lawful) (h : Inv hooks cfg s) (req : ChainRequest ι)
    (hfresh : (EngineOp.admission req : EngineOp ι μ).Permitted hooks s) :
    Keeps (Inv hooks cfg) (admitRequest hooks cfg req) s := by
  unfold Keeps admitRequest
  rw [wp_bind]
  refine wp_mono (findExisting_spec req) ?_ fun _ _ he => he ▸ h
  rintro existing s₁ ⟨rfl, hnames⟩
  rw [wp_bind, wp_get, wp_bind, wp_modify]
  have h₁ : Inv hooks cfg { s₁ with nextSeqId := s₁.nextSeqId + 1 } :=
    h.mono h.accounts (fun id r hr => ⟨r, hr, rfl, h.histories id r hr, le_rfl⟩)
      (fun i turn ht => ⟨ht, fun r hr => (h.turns i turn r ht hr).2⟩) (Nat.le_succ _)
  rw [wp_bind]
  refine wp_mono (planRequest_spec hl h₁ req hnames _) ?_ fun _ _ he => he
  rintro plan s₂ hplan
  have h₂ := hplan.inv
  have hseq : plan.seqId < s₂.nextSeqId := by
    rw [hplan.seqId, hplan.next]
    cases existing with
    | none => exact Nat.lt_succ_self _
    | some r =>
      unfold Names at hnames
      cases hreq : req.chainId with
      | none =>
        rw [hreq] at hnames
        exact hnames.elim
      | some chainId =>
        rw [hreq] at hnames
        exact Nat.lt_succ_of_lt (h.seqIds chainId r hnames)
  rw [wp_bind, wp_raiseIf]
  refine ⟨fun _ => h₂, fun hsuffix => ?_⟩
  rw [wp_bind, wp_get, wp_bind, wp_onRuntime, wp_onIndex]
  refine wp_mono (validateTokenHistoryAdmission_spec plan _) ?_ ?_
  swap
  · rintro e index rfl
    exact h₂
  rintro - index ⟨rfl, hvalid⟩
  rw [wp_bind]
  refine wp_mono (validationDigest_spec plan) ?_ fun _ _ he => he ▸ h₂
  rintro digest s₃ rfl
  rw [wp_bind, wp_onRuntime]
  refine wp_mono (validateAdmissionPlan_spec h₂.accounts plan _ digest _) ?_ ?_
  swap
  · rintro e runtime ⟨hacc, hindex, -⟩
    exact h₂.thin hacc fun id r hr => ⟨r, hindex ▸ hr, .refl r⟩
  rintro plan' runtime ⟨⟨hacc, hindex, -⟩, rfl, hplanned⟩
  rw [wp_bind, wp_onRuntime]
  refine wp_mono (chainApplyAdmission_spec hl hacc hplanned) ?_ ?_
  swap
  · rintro e runtime' ⟨hacc', hthins, -⟩
    exact h₂.thin hacc' (hindex ▸ hthins)
  rintro - runtime' ⟨hacc', q, q', i₁, hadm, hq', hsame, hothers⟩
  replace hindex : runtime.index = s₂.runtime.index := hindex
  rw [hindex] at hadm
  unfold scheduleRequest
  rw [wp_ite]
  split
  · rw [wp_modify, ← hplan.seqId]
    refine h₂.admission hplan.planned ?_ hseq (fun hstatus => ?_) hvalid hacc' hadm hq' hsame hothers
    · intro hstatus i turn ht
      rw [hplan.created hstatus]
      exact hfresh.2.2 i turn (hplan.active ▸ ht)
    · exact not_le.mp fun hle => hsuffix ⟨hstatus, hle⟩
  · -- The scheduler refused: the chain that was admitted leaves again.
    rw [wp_bind, wp_onRuntime]
    refine wp_mono (chainInvalidate_spec hl hacc' _ _) ?_ ?_
    · rintro - runtime'' ⟨hacc'', r, hremoved⟩
      rw [wp_raise]
      refine h₂.thin hacc'' fun id r' hr' => ?_
      rw [hremoved.records, get?_erase] at hr'
      split at hr'
      · cases hr'
      · next hid =>
        rw [hothers id hid] at hr'
        exact (hadm.others id r' hid hr').2
    · rintro e runtime'' ⟨-, hmismatch⟩
      obtain ⟨i, hi, hne⟩ := hmismatch q' hq'
      cases hi
      refine absurd ?_ hne
      rw [hsame.seqId, ← hplan.seqId]
      rcases hadm.origin with ⟨-, -, hs, -⟩ | ⟨hstatus, r, hr, -, hs, -⟩
      · exact hs
      · obtain ⟨r', hr', -, hs', -⟩ := hplan.planned.planned.resumed hstatus
        rw [hr] at hr'
        cases hr'
        exact hs.trans hs'

theorem EngineOp.keeps (hl : hooks.Lawful) (h : Inv hooks cfg s) (op : EngineOp ι μ)
    (hop : op.Permitted hooks s) : Keeps (Inv hooks cfg) (op.run hooks cfg) s := by
  have hruntime : ∀ runtimeOp : RuntimeOp ι δ μ, runtimeOp.Permitted hooks s.runtime →
      (∀ r, (runtimeOp.run hooks cfg s.runtime).2.index.records.get? r =
        s.runtime.index.records.get? r) →
      Keeps (Inv hooks cfg) (onRuntime (runtimeOp.run hooks cfg)) s := by
    intro runtimeOp hpermitted hrecords
    unfold Keeps
    rw [wp_onRuntime]
    refine (keeps_iff (I := fun runtime => Inv hooks cfg { s with runtime := runtime })).mpr ?_
    refine h.thin (keeps_iff.mp (runtimeOp.keeps hl h.accounts hpermitted)) fun id r hr => ?_
    rw [hrecords] at hr
    exact ⟨r, hr, .refl r⟩
  cases op with
  | admission req => exact admitRequest_keeps hl h req hop
  | complete seqId tokenIds polled => exact completeSequence_keeps hl h seqId tokenIds polled hop
  | abort seqId => exact abortRequest_keeps hl h seqId
  | invalidateChain chainId => exact invalidateChain_keeps hl h chainId
  | discardChain chainId expectedSeqId => exact discardChain_keeps hl h chainId expectedSeqId
  | modelFailure seqIds =>
    exact forEach_inv (I := fun _ => Inv hooks cfg)
      (fun seqId _ _ h' => reclaimFailed_spec hl h' seqId) seqIds s h
  | reclaimIdle chainId seqId demote =>
    unfold Keeps
    rw [EngineOp.run, wp_onRuntime]
    refine wp_mono (chainReclaimIdle_spec hl h.accounts chainId seqId demote) ?_ ?_
    · rintro - runtime ⟨hacc, hthins⟩
      exact h.thin hacc hthins
    · rintro - runtime ⟨hacc, hthins⟩
      exact h.thin hacc hthins
  | poll polled =>
    refine hruntime (.poll polled) trivial fun id => ?_
    unfold RuntimeOp.run whenOffload
    cases cfg.capacityBytes with
    | none => rfl
    | some n => rfl
  | routingSnapshot =>
    refine hruntime .routingSnapshot trivial fun id => ?_
    refine (keeps_iff (I := fun runtime : ChainRuntime ι φ δ μ κ =>
      runtime.index.records.get? id = s.runtime.index.records.get? id)).mp ?_
    unfold Keeps RuntimeOp.run
    rw [wp_bind, wp_onIndex]
    refine wp_mono (routingSnapshot_spec h.accounts.index) ?_ fun _ _ hf => hf.elim
    rintro snapshot index ⟨-, -, hrecords⟩
    exact congrArg (get? · id) hrecords
  | step f => exact hruntime (.step f) hop fun _ => rfl
  | completePrompt chainId =>
    unfold Keeps
    rw [EngineOp.run, wp_onRuntime]
    refine wp_mono (completePrompt_spec h.accounts chainId) ?_ ?_
    · rintro - runtime ⟨hacc, hthins⟩
      exact h.thin hacc hthins
    · rintro e runtime rfl
      exact h

omit [DecidableEq φ] [DecidableEq δ] in
theorem inv_start (m : μ) :
    Inv hooks cfg ({ runtime := { manager := m } } : ChainEngine ι φ δ μ κ) :=
  ⟨accounts_start m, nofun, nofun, nofun, nofun, fun n _ => Nat.zero_le n⟩

theorem Reachable.inv (hl : hooks.Lawful) (h : Reachable hooks cfg s) : Inv hooks cfg s := by
  induction h with
  | start m => exact inv_start m
  | step op _ hop ih => exact keeps_iff.mp (op.keeps hl ih hop)

/-- In every state of a run, for a chain sequence that runs and tokens within its prompt and its
`max_tokens`, neither `finish` nor `prepare_processed_tokens` raises a `ChainCapacityError`, and
after a `chain_finish` with the prepared tokens `remember_prepared_tokens` does not raise one. -/
theorem token_history_reservation (hl : hooks.Lawful) (h : Reachable hooks cfg s) {seqId : Nat}
    {turn : ActiveTurn ι} (hturn : s.activeChainSequences.get? seqId = some turn)
    (hr : s.runtime.index.records.get? turn.chainId = some r) (hactive : r.state = .active)
    {tokenIds : List Int} (hlen : tokenIds.length ≤ turn.numPromptTokens + turn.maxTokens)
    (processed : Nat) (message : String) :
    (∀ physical rows capacity,
      (ChainCacheIndex.finish cfg.index turn.chainId tokenIds processed physical rows capacity
        s.runtime.index).1 ≠ .error (ChainErrorClass.capacity.error message)) ∧
    (prepareProcessedTokens cfg.index turn.chainId seqId tokenIds processed
      s.runtime.index).1 ≠ .error (ChainErrorClass.capacity.error message) ∧
    ∀ prepared index q runtime polled,
      prepareProcessedTokens cfg.index turn.chainId seqId tokenIds processed
        s.runtime.index = (.ok prepared, index) →
      chainFinish hooks cfg prepared.chainId prepared.seqId
        prepared.processedTokenDigest prepared.processedTokenCount polled s.runtime = (.ok q, runtime) →
      (rememberPreparedTokens cfg.index prepared runtime.index).1 ≠
        .error (ChainErrorClass.capacity.error message) := by
  have hinv := h.inv hl
  have hroom : HasRoom cfg s.runtime.index r tokenIds.length :=
    hinv.hasRoom hturn hr hactive hlen hinv.accounts.index hr fun _ r' _ hr' => ⟨r', hr', le_rfl⟩
  have herror : ∀ {α σ : Type} {m : PyM σ α} {t : σ}, wp m (fun _ _ => True) (fun e _ => NotCapacity e) t →
      (m t).1 ≠ .error (ChainErrorClass.capacity.error message) := by
    intro α σ m t hwp herr
    cases hrun : m t with
    | mk result t' =>
      rw [hrun] at herr
      subst herr
      exact (wp_of_error hrun).mp hwp message rfl
  refine ⟨fun physical rows capacity => ?_, ?_, ?_⟩
  · exact herror (finish_room hinv.accounts.index hr hroom processed physical rows capacity)
  · exact herror (wp_mono (prepareProcessedTokens_spec hr hroom processed) (fun _ _ _ => trivial)
      fun _ _ he => he.2)
  · intro prepared index q runtime polled hprepare hfinish
    obtain ⟨-, hid, -, -, htokens⟩ :=
      (wp_of_ok hprepare).mp (prepareProcessedTokens_reads turn.chainId seqId tokenIds processed)
    obtain ⟨hacc, r₀, i₁, hrewritten, hspares, -, -, hforward, hsame, hidle, hn⟩ :=
      (wp_of_ok hfinish).mp (chainFinish_spec hl hinv.accounts _ _ _ _ polled)
    have hfin := finished_of_rewritten hrewritten hspares hsame hidle (hn ▸ hforward)
    refine herror (rememberPreparedTokens_room (fun q' hq' => ?_) ⟨q, hfin.record⟩)
    rw [hid] at hq' hfin
    rw [htokens]
    exact hinv.hasRoom hturn hr hactive hlen hacc.index hq' fun id r' hne hr' =>
      ⟨r', hfin.others id r' hne hr', le_rfl⟩

end

abbrev DemoEngine := ChainEngine Nat Unit Int (List Nat) Unit

def demoRequest : ChainRequest Nat :=
  { chainId := none, prompt := [1, 2], maxTokens := 3, newChainId := 7 }

def demoRunning : DemoEngine :=
  ((EngineOp.admission demoRequest).run demoChainManager demoRuntimeConfig
    { runtime := { manager := [] } }).2

theorem demoRunning_reachable :
    Reachable demoChainManager demoRuntimeConfig demoRunning :=
  .step _ (.start []) ⟨rfl, rfl, nofun⟩

def demoRunningRecord : ChainRecord Nat Unit Int :=
  { chainId := 7
    seqId := 0
    fingerprint := ()
    state := .active
    lastInputTokenCount := 2
    lastAccess := 1
    reservedSlotsByLayer := [2] }

/-- Five tokens of the running turn are within its budget and can be prepared. -/
theorem token_history_reservation_demo :
    demoRunning.activeChainSequences.get? 0 = some ⟨7, 2, 3⟩ ∧
      (prepareProcessedTokens demoRuntimeConfig.index 7 0 [1, 2, 3, 4, 5] 4
        demoRunning.runtime.index).1 ≠ .error (ChainErrorClass.capacity.error "") :=
  have hturn : demoRunning.activeChainSequences.get? 0 = some ⟨7, 2, 3⟩ := by decide +kernel
  have hrecord : demoRunning.runtime.index.records.get? 7 = some demoRunningRecord := by
    decide +kernel
  ⟨hturn, (token_history_reservation demoChainManager_lawful demoRunning_reachable
    hturn hrecord rfl (by decide) 4 "").2.1⟩

end SparseEngine.ChainEngine
