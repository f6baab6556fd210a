import SparseEngine.Chain.Index

/-! What the five tables and the cached snapshot agree on, and that every operation of the lifecycle
keeps it, also when it raises. -/

namespace SparseEngine.ChainCacheIndex

open PyM List Dict ChainCacheIndex

variable {ι φ δ : Type} [LinearOrder ι]

/-- What `token_history_tokens` counts. -/
def rememberedTokens (s : ChainCacheIndex ι φ δ) : Nat := s.records.sumBy fun _ r => r.tokenIds.length

/-- The five tables agree, and a cached snapshot matches as the records do. -/
structure Inv (cfg : ChainIndexConfig δ) (s : ChainCacheIndex ι φ δ) : Prop where
  keys : ∀ id r, s.records.get? id = some r → r.chainId = id
  active : ∀ id, s.activeRecords.get? id = some () ↔
    ∃ r, s.records.get? id = some r ∧ r.state = .active
  owners : ∀ id r, s.records.get? id = some r → s.seqIdToChainId.get? r.seqId = some id
  owned : ∀ seqId id, s.seqIdToChainId.get? seqId = some id →
    ∃ r, s.records.get? id = some r ∧ r.seqId = seqId
  history : s.tokenHistoryTokens = (rememberedTokens s : Nat)
  bounded : ∀ n, cfg.maxTokenHistoryTokens = some n → s.tokenHistoryTokens ≤ n
  disjoint : ∀ id r, s.records.get? id = some r → s.tombstones.get? id = none
  tombstones : s.tombstones.size ≤ cfg.maxTombstones
  snapshot : ∀ snapshot, s.routingSnapshotCache = some snapshot →
    ∀ id, snapshot.matchChain id = routingMatch s id

section

variable {cfg : ChainIndexConfig δ} {s s' : ChainCacheIndex ι φ δ} {id : ι}
  {r q : ChainRecord ι φ δ}

theorem inv_empty : Inv cfg ({} : ChainCacheIndex ι φ δ) where
  keys := nofun
  active := fun id => ⟨nofun, fun ⟨_, hr, _⟩ => by cases hr⟩
  owners := nofun
  owned := nofun
  history := rfl
  bounded := fun n _ => Int.natCast_nonneg n
  disjoint := nofun
  tombstones := Nat.zero_le _
  snapshot := nofun

theorem currentSnapshot_matchChain (h : Inv cfg s) (id : ι) :
    (currentSnapshot s).matchChain id = routingMatch s id := by
  have hmem : ∀ state, id ∈ ((s.records.values.filter fun r => decide (r.state = state)).map
      (·.chainId)).toFinset ↔ ∃ r, s.records.get? id = some r ∧ r.state = state := by
    intro state
    rw [mem_toFinset, mem_map]
    constructor
    · rintro ⟨r, hr, rfl⟩
      rw [mem_filter, decide_eq_true_eq] at hr
      obtain ⟨k, hk⟩ := mem_values.mp hr.1
      rw [h.keys k r hk]
      exact ⟨r, hk, hr.2⟩
    · rintro ⟨r, hr, hstate⟩
      refine ⟨r, mem_filter.mpr ⟨mem_values.mpr ⟨id, hr⟩, ?_⟩, h.keys id r hr⟩
      rwa [decide_eq_true_eq]
  unfold ChainRoutingSnapshot.matchChain routingMatch currentSnapshot
  dsimp only
  simp only [hmem]
  cases hr : s.records.get? id with
  | none =>
    have hnone : ∀ state, ¬ ∃ r, (none : Option (ChainRecord ι φ δ)) = some r ∧ r.state = state := by
      rintro state ⟨r, hr, -⟩
      cases hr
    rw [if_neg (hnone _), if_neg (hnone _)]
    have htomb : decide (id ∈ s.tombstones.keySet) = s.tombstones.contains id := by
      rw [Bool.eq_iff_iff, decide_eq_true_eq, Dict.mem_keySet, Dict.contains_iff]
    rw [htomb]
  | some r =>
    cases hstate : r.state with
    | active => simp [hstate]
    | idle => simp [hstate]

omit [LinearOrder ι] in
theorem size_dropOldest_le (n : Nat) (tombstones : Dict ι Nat) : (dropOldest n tombstones).size ≤ n := by
  show (tombstones.entries.drop _).length ≤ n
  rw [length_drop]
  show tombstones.size - _ ≤ n
  omega

theorem get?_dropOldest_of_none {n : Nat} {tombstones : Dict ι Nat}
    (h : tombstones.get? id = none) : (dropOldest n tombstones).get? id = none := by
  by_contra hsome
  obtain ⟨v, hv⟩ := Option.ne_none_iff_exists'.mp hsome
  have hmem : (id, v) ∈ tombstones.entries := mem_of_mem_drop (mem_entries.mpr hv)
  rw [mem_entries, h] at hmem
  cases hmem

/-- One record is rewritten under its own id and sequence. -/
theorem Inv.replace (h : Inv cfg s) (hr : s.records.get? id = some r) (hid : q.chainId = id)
    (hseq : q.seqId = r.seqId) (hrecords : s'.records = s.records.set id q)
    (hactive : ∀ k, s'.activeRecords.get? k = some () ↔
      if k = id then q.state = .active else s.activeRecords.get? k = some ())
    (howners : s'.seqIdToChainId = s.seqIdToChainId) (htombs : s'.tombstones = s.tombstones)
    (hhistory : s'.tokenHistoryTokens =
      s.tokenHistoryTokens - r.tokenIds.length + q.tokenIds.length)
    (hbound : ∀ n, cfg.maxTokenHistoryTokens = some n → s'.tokenHistoryTokens ≤ n)
    (hcache : s'.routingSnapshotCache = none ∨
      s'.routingSnapshotCache = s.routingSnapshotCache ∧ q.state = r.state) : Inv cfg s' := by
  have hget : ∀ k, s'.records.get? k = if k = id then some q else s.records.get? k := by
    intro k
    rw [hrecords, get?_set]
  refine ⟨fun k rk hk => ?_, fun k => ?_, fun k rk hk => ?_, fun k owner hk => ?_, ?_, hbound,
    fun k rk hk => ?_, htombs ▸ h.tombstones, fun snap hsnap k => ?_⟩
  · rw [hget] at hk
    split at hk
    · next heq =>
      cases hk
      rw [heq, hid]
    · exact h.keys k rk hk
  · rw [hactive, hget]
    split
    · constructor
      · exact fun hstate => ⟨q, rfl, hstate⟩
      · rintro ⟨rk, hk, hstate⟩
        cases hk
        exact hstate
    · exact h.active k
  · rw [howners]
    rw [hget] at hk
    split at hk
    · next heq =>
      cases hk
      rw [heq, hseq]
      exact h.owners id r hr
    · exact h.owners k rk hk
  · rw [howners] at hk
    obtain ⟨rk, hrk, hkseq⟩ := h.owned k owner hk
    rw [hget]
    split
    · next heq =>
      rw [heq, hr] at hrk
      cases hrk
      exact ⟨q, rfl, hseq.trans hkseq⟩
    · exact ⟨rk, hrk, hkseq⟩
  · have hsum := sumBy_set_old (fun (_ : ι) (r : ChainRecord ι φ δ) => r.tokenIds.length) q hr
    rw [hhistory, h.history]
    unfold rememberedTokens
    rw [hrecords]
    omega
  · rw [htombs]
    rw [hget] at hk
    split at hk
    · next heq =>
      rw [heq]
      exact h.disjoint id r hr
    · exact h.disjoint k rk hk
  · rcases hcache with hnone | ⟨hsame, hstate⟩
    · rw [hnone] at hsnap
      cases hsnap
    · rw [hsame] at hsnap
      rw [h.snapshot snap hsnap k]
      unfold routingMatch
      rw [hget, htombs]
      by_cases hk : k = id
      · rw [if_pos hk, hk, hr]
        dsimp only
        rw [hstate]
      · rw [if_neg hk]

/-- One record goes; its id is remembered as a tombstone. -/
theorem Inv.remove {now : Nat} (h : Inv cfg s) (hr : s.records.get? id = some r)
    (hrecords : s'.records = s.records.erase id) (hactive : s'.activeRecords = s.activeRecords.erase id)
    (howners : s'.seqIdToChainId = s.seqIdToChainId.erase r.seqId)
    (htombs : s'.tombstones = dropOldest cfg.maxTombstones ((s.tombstones.erase id).set id now))
    (hhistory : s'.tokenHistoryTokens = s.tokenHistoryTokens - r.tokenIds.length)
    (hcache : s'.routingSnapshotCache = none) : Inv cfg s' := by
  have hget : ∀ k, s'.records.get? k = if k = id then none else s.records.get? k := by
    intro k
    rw [hrecords, get?_erase]
  have hsum := sumBy_erase (fun (_ : ι) (r : ChainRecord ι φ δ) => r.tokenIds.length) hr
  have hkept : ∀ {k rk}, s'.records.get? k = some rk → k ≠ id ∧ s.records.get? k = some rk := by
    intro k rk hk
    rw [hget] at hk
    split at hk
    · cases hk
    · next hne => exact ⟨hne, hk⟩
  refine ⟨fun k rk hk => h.keys k rk (hkept hk).2, fun k => ?_, fun k rk hk => ?_, fun k owner hk => ?_,
    ?_, fun n hn => ?_, fun k rk hk => ?_, ?_, fun snap hsnap => ?_⟩
  · rw [hactive, get?_erase, hget]
    split
    · exact ⟨by simp, by rintro ⟨_, hk, _⟩; cases hk⟩
    · exact h.active k
  · obtain ⟨hne, hk⟩ := hkept hk
    have hseq : rk.seqId ≠ r.seqId := by
      intro heq
      have howner := h.owners k rk hk
      rw [heq, h.owners id r hr] at howner
      exact hne (Option.some.inj howner).symm
    rw [howners, get?_erase_ne _ hseq]
    exact h.owners k rk hk
  · rw [howners, get?_erase] at hk
    split at hk
    · cases hk
    · next hseq =>
      obtain ⟨rk, hrk, hkseq⟩ := h.owned k owner hk
      have hne : owner ≠ id := by
        rintro rfl
        rw [hr] at hrk
        cases hrk
        exact hseq hkseq.symm
      exact ⟨rk, by rw [hget, if_neg hne, hrk], hkseq⟩
  · rw [hhistory, h.history]
    unfold rememberedTokens
    rw [hrecords]
    omega
  · have hle := h.bounded n hn
    rw [hhistory]
    omega
  · obtain ⟨hne, hk⟩ := hkept hk
    have hnone := h.disjoint k rk hk
    rw [htombs]
    refine get?_dropOldest_of_none ?_
    rw [get?_set_ne _ _ hne, get?_erase_ne _ hne]
    exact hnone
  · rw [htombs]
    exact size_dropOldest_le _ _
  · rw [hcache] at hsnap
    cases hsnap

/-- One record is made, for an id without record or tombstone. -/
theorem Inv.insert (h : Inv cfg s) (hnew : s.records.get? r.chainId = none)
    (hunowned : s.seqIdToChainId.get? r.seqId = none)
    (hfresh : s.tombstones.get? r.chainId = none) (hstate : r.state = .active)
    (hempty : r.tokenIds = []) (hrecords : s'.records = s.records.set r.chainId r)
    (hactive : s'.activeRecords = s.activeRecords.set r.chainId ())
    (howners : s'.seqIdToChainId = s.seqIdToChainId.set r.seqId r.chainId)
    (htombs : s'.tombstones = s.tombstones)
    (hhistory : s'.tokenHistoryTokens = s.tokenHistoryTokens)
    (hcache : s'.routingSnapshotCache = none) : Inv cfg s' := by
  have hget : ∀ k, s'.records.get? k = if k = r.chainId then some r else s.records.get? k := by
    intro k
    rw [hrecords, get?_set]
  refine ⟨fun k rk hk => ?_, fun k => ?_, fun k rk hk => ?_, fun k owner hk => ?_, ?_, fun n hn => ?_,
    fun k rk hk => ?_, htombs ▸ h.tombstones, fun snap hsnap => ?_⟩
  · rw [hget] at hk
    split at hk
    · next heq =>
      cases hk
      exact heq.symm
    · exact h.keys k rk hk
  · rw [hactive, get?_set, hget]
    split
    · exact ⟨fun _ => ⟨r, rfl, hstate⟩, fun _ => rfl⟩
    · exact h.active k
  · rw [howners]
    rw [hget] at hk
    split at hk
    · next heq =>
      cases hk
      rw [get?_set_self, heq]
    · have howner := h.owners k rk hk
      have hne : rk.seqId ≠ r.seqId := by
        intro heq
        rw [heq, hunowned] at howner
        cases howner
      rw [get?_set_ne _ _ hne]
      exact howner
  · rw [howners, get?_set] at hk
    split at hk
    · next heq =>
      cases hk
      exact ⟨r, by rw [hget, if_pos rfl], heq.symm⟩
    · obtain ⟨rk, hrk, hkseq⟩ := h.owned k owner hk
      have hne : owner ≠ r.chainId := by
        rintro rfl
        rw [hnew] at hrk
        cases hrk
      exact ⟨rk, by rw [hget, if_neg hne, hrk], hkseq⟩
  · have hsum := sumBy_set_new (fun (_ : ι) (r : ChainRecord ι φ δ) => r.tokenIds.length) r hnew
    rw [hempty] at hsum
    rw [hhistory, h.history]
    unfold rememberedTokens
    rw [hrecords, hsum]
    rfl
  · rw [hhistory]
    exact h.bounded n hn
  · rw [htombs]
    rw [hget] at hk
    split at hk
    · next heq =>
      rw [heq]
      exact hfresh
    · exact h.disjoint k rk hk
  · rw [hcache] at hsnap
    cases hsnap

theorem Inv.of_same (h : Inv cfg s) (hrecords : s'.records = s.records)
    (hactive : s'.activeRecords = s.activeRecords) (howners : s'.seqIdToChainId = s.seqIdToChainId)
    (htombs : s'.tombstones = s.tombstones) (hhistory : s'.tokenHistoryTokens = s.tokenHistoryTokens)
    (hcache : ∀ snapshot, s'.routingSnapshotCache = some snapshot →
      ∀ id, snapshot.matchChain id = routingMatch s id) : Inv cfg s' := by
  have hmatch : ∀ id, routingMatch s' id = routingMatch s id := by
    intro id
    unfold routingMatch
    rw [hrecords, htombs]
  refine ⟨?_, ?_, ?_, ?_, ?_, ?_, ?_, ?_, fun snap hsnap id => by rw [hcache snap hsnap, hmatch]⟩
  · rw [hrecords]
    exact h.keys
  · rw [hrecords, hactive]
    exact h.active
  · rw [hrecords, howners]
    exact h.owners
  · rw [hrecords, howners]
    exact h.owned
  · unfold rememberedTokens
    rw [hrecords, hhistory]
    exact h.history
  · rw [hhistory]
    exact h.bounded
  · rw [hrecords, htombs]
    exact h.disjoint
  · rw [htombs]
    exact h.tombstones

end

/-- The record `r` of `id` became `q`; owners and tombstones are as before. -/
structure Rewritten (id : ι) (r q : ChainRecord ι φ δ) (s s' : ChainCacheIndex ι φ δ) : Prop where
  before : s.records.get? id = some r
  chainId : q.chainId = id
  seqId : q.seqId = r.seqId
  records : s'.records = s.records.set id q
  owners : s'.seqIdToChainId = s.seqIdToChainId
  tombstones : s'.tombstones = s.tombstones

/-- The record `r` and its owner are gone, and only `id` may be a new tombstone. -/
structure Removed (id : ι) (r : ChainRecord ι φ δ) (s s' : ChainCacheIndex ι φ δ) : Prop where
  before : s.records.get? id = some r
  records : s'.records = s.records.erase id
  owners : s'.seqIdToChainId = s.seqIdToChainId.erase r.seqId
  tombstones : ∀ k, k ≠ id → s.tombstones.get? k = none → s'.tombstones.get? k = none

/-- `q` is a new record with a new owner. -/
structure Inserted (q : ChainRecord ι φ δ) (s s' : ChainCacheIndex ι φ δ) : Prop where
  new : s.records.get? q.chainId = none
  unowned : s.seqIdToChainId.get? q.seqId = none
  records : s'.records = s.records.set q.chainId q
  owners : s'.seqIdToChainId = s.seqIdToChainId.set q.seqId q.chainId
  tombstones : s'.tombstones = s.tombstones

section

variable {cfg : ChainIndexConfig δ} {s s' : ChainCacheIndex ι φ δ} {id : ι}
  {r q : ChainRecord ι φ δ}

theorem lookup_spec (id : ι) :
    wp (lookup id) (fun r s' => s' = s ∧ s.records.get? id = some r)
      (fun _ s' => s' = s ∧ s.records.get? id = none) s := by
  unfold lookup
  rw [wp_bind, wp_get]
  cases hr : s.records.get? id with
  | some r => exact ⟨rfl, rfl⟩
  | none =>
    dsimp only
    split
    · exact ⟨rfl, rfl⟩
    · exact ⟨rfl, rfl⟩

omit [LinearOrder ι] in
theorem checkTokenHistoryCapacity_spec (r : ChainRecord ι φ δ) (tokenCount : Nat) :
    wp (checkTokenHistoryCapacity cfg r tokenCount)
      (fun _ s' => s' = s ∧ ∀ n, cfg.maxTokenHistoryTokens = some n →
        s.tokenHistoryTokens - r.tokenIds.length + tokenCount ≤ n)
      (fun _ s' => s' = s ∧ ∃ n, cfg.maxTokenHistoryTokens = some n ∧
        (n : Int) < s.tokenHistoryTokens - r.tokenIds.length + tokenCount) s := by
  unfold checkTokenHistoryCapacity
  rw [wp_bind, wp_get, wp_raiseIf]
  refine ⟨fun hmore => ⟨rfl, hmore⟩, fun hless => ⟨rfl, fun n hn => ?_⟩⟩
  by_contra hlt
  exact hless ⟨n, hn, not_le.mp hlt⟩

theorem Inv.setRecordState (h : Inv cfg s) (hr : s.records.get? id = some r) (hid : q.chainId = id)
    (hseq : q.seqId = r.seqId) (htokens : q.tokenIds = r.tokenIds) (state : ChainState) :
    Inv cfg (setRecordState q state s).2 := by
  subst hid
  refine h.replace (q := { q with state := state }) hr rfl hseq rfl (fun k => ?_) rfl rfl ?_
    (fun n hn => h.bounded n hn) (.inl rfl)
  · cases state with
    | active =>
      show (s.activeRecords.set q.chainId ()).get? k = some () ↔ _
      rw [get?_set]
      split
      · exact ⟨fun _ => rfl, fun _ => rfl⟩
      · exact .rfl
    | idle =>
      show (s.activeRecords.erase q.chainId).get? k = some () ↔ _
      rw [get?_erase]
      split
      · exact ⟨(by simp), (by simp)⟩
      · exact .rfl
  · show s.tokenHistoryTokens = _
    rw [htokens]
    omega

theorem Inv.setRecord (h : Inv cfg s) (hr : s.records.get? id = some r) (hid : q.chainId = id)
    (hseq : q.seqId = r.seqId) (htokens : q.tokenIds = r.tokenIds) (hstate : q.state = r.state) :
    Inv cfg (setRecord q s) := by
  subst hid
  refine h.replace hr rfl hseq rfl (fun k => ?_) rfl rfl ?_ (fun n hn => h.bounded n hn)
    (.inr ⟨rfl, hstate⟩)
  · split
    · next heq =>
      rw [heq]
      refine (h.active _).trans ⟨?_, fun hactive => ⟨r, hr, hstate ▸ hactive⟩⟩
      rintro ⟨r₀, hr₀, hactive⟩
      rw [hr] at hr₀
      cases hr₀
      exact hstate.trans hactive
    · exact .rfl
  · show s.tokenHistoryTokens = _
    rw [htokens]
    omega

theorem Inv.tick (h : Inv cfg s) : Inv cfg { s with clock := s.clock + 1 } :=
  h.of_same rfl rfl rfl rfl rfl h.snapshot

/-- The history is replaced, or the bound says no and nothing changes. -/
theorem storeTokenHistory_spec (h : Inv cfg s) (hr : s.records.get? r.chainId = some r)
    (tokens : List Int) :
    wp (storeTokenHistory cfg r tokens)
      (fun q s' => Inv cfg s' ∧ q = { r with tokenIds := tokens } ∧ Rewritten r.chainId r q s s')
      (fun _ s' => s' = s ∧ ∃ n, cfg.maxTokenHistoryTokens = some n ∧
        (n : Int) < s.tokenHistoryTokens - r.tokenIds.length + tokens.length) s := by
  unfold storeTokenHistory
  rw [wp_bind]
  refine wp_mono (checkTokenHistoryCapacity_spec r tokens.length) ?_ fun _ _ he => he
  rintro - s₁ ⟨rfl, hcap⟩
  rw [wp_bind, wp_modify, wp_pure]
  refine ⟨?_, rfl, hr, rfl, rfl, rfl, rfl, rfl⟩
  refine h.replace (q := { r with tokenIds := tokens }) hr rfl rfl rfl (fun k => ?_) rfl rfl rfl hcap
    (.inr ⟨rfl, rfl⟩)
  split
  · next heq =>
    rw [heq]
    refine (h.active _).trans ⟨?_, fun hactive => ⟨r, hr, hactive⟩⟩
    rintro ⟨r₀, hr₀, hactive⟩
    rw [hr] at hr₀
    cases hr₀
    exact hactive
  · exact .rfl

theorem removeRecord_spec (h : Inv cfg s) (hr : s.records.get? id = some r) :
    wp (removeRecord cfg id r) (fun _ s' => Inv cfg s' ∧ Removed id r s s')
      (fun _ _ => False) s := by
  unfold removeRecord addTombstone
  rw [wp_bind, wp_modify, wp_bind, wp_modify, tick, wp_bind, wp_bind, wp_modify,
    wp_bind, wp_get, wp_pure, wp_modify]
  refine ⟨h.remove hr rfl rfl rfl rfl rfl rfl, hr, rfl, rfl, fun k hk hnone => ?_⟩
  refine get?_dropOldest_of_none ?_
  rw [get?_set_ne _ _ hk]
  show (s.tombstones.erase id).get? k = none
  rw [get?_erase_ne _ hk, hnone]

/-- Raises only for an unknown chain. -/
theorem invalidate_spec (h : Inv cfg s) (id : ι) :
    wp (invalidate cfg id) (fun r s' => Inv cfg s' ∧ Removed id r s s')
      (fun _ s' => s' = s ∧ s.records.get? id = none) s := by
  unfold invalidate
  rw [wp_bind]
  refine wp_mono (lookup_spec id) ?_ fun _ _ he => he
  rintro r s₁ ⟨rfl, hr⟩
  rw [wp_bind]
  exact wp_mono (removeRecord_spec h hr) (fun _ _ hs => hs) fun _ _ hf => hf.elim

/-- Raises for an unknown or an active chain, before any change. -/
theorem evict_spec (h : Inv cfg s) (id : ι) :
    wp (evict cfg id) (fun r s' => Inv cfg s' ∧ Removed id r s s' ∧ r.state = .idle)
      (fun _ s' => s' = s ∧ ∀ r, s.records.get? id = some r → r.state = .active) s := by
  unfold evict
  rw [wp_bind]
  refine wp_mono (lookup_spec id) ?_ ?_
  · rintro r s₁ ⟨rfl, hr⟩
    rw [wp_bind, wp_raiseIf]
    refine ⟨fun hstate => ⟨rfl, fun q hq => ?_⟩, fun hstate => ?_⟩
    · rw [hr] at hq
      cases hq
      exact hstate
    rw [wp_bind]
    refine wp_mono (removeRecord_spec h hr) ?_ fun _ _ hf => hf.elim
    rintro - s₂ ⟨hinv, hremoved⟩
    refine ⟨hinv, hremoved, ?_⟩
    cases hstate' : r.state with
    | active => exact absurd hstate' hstate
    | idle => rfl
  · rintro - s₁ ⟨rfl, hnone⟩
    refine ⟨rfl, fun q hq => ?_⟩
    rw [hnone] at hq
    cases hq

/-- `q` is `r` after its turn, IDLE and never processed less. -/
structure FinishedBy (turn : FinishedTurn δ) (r q : ChainRecord ι φ δ) : Prop where
  state : q.state = .idle
  tokenIds : q.tokenIds = r.tokenIds
  residentRows : q.residentRows = turn.residentRows
  processedTokenCount : q.processedTokenCount = turn.processedTokenCount
  forward : r.processedTokenCount ≤ turn.processedTokenCount

theorem finishDigest_spec (h : Inv cfg s) (id : ι) (turn : FinishedTurn δ) :
    wp (finishDigest cfg id turn)
      (fun q s' => Inv cfg s' ∧ ∃ r, Rewritten id r q s s' ∧ FinishedBy turn r q)
      (fun _ s' => s' = s) s := by
  unfold finishDigest
  rw [wp_bind]
  refine wp_mono (lookup_spec id) ?_ fun _ _ he => he.1
  rintro r s₁ ⟨rfl, hr⟩
  rw [wp_bind, wp_raiseIf]
  refine ⟨fun _ => rfl, fun _ => ?_⟩
  rw [wp_bind, wp_raiseIf]
  refine ⟨fun _ => rfl, fun hforward => ?_⟩
  rw [wp_bind, wp_raiseIf]
  refine ⟨fun _ => rfl, fun _ => ?_⟩
  have hid := h.keys id r hr
  rw [wp_bind, setRecordState, wp_modify, wp_bind, tick, wp_bind,
    wp_modify, wp_bind, wp_get, wp_pure, wp_bind, wp_modify, wp_pure]
  have hstate := (h.setRecordState
    (q := { r with
      state := .idle
      processedTokenDigest := some turn.processedTokenDigest
      processedTokenCount := turn.processedTokenCount
      physicalSlotsByLayer := turn.physicalSlotsByLayer
      capacitySlots := turn.capacitySlots
      residentRows := turn.residentRows
      reservedSlotsByLayer := []
      reservedRows := 0 }) hr hid rfl rfl .idle).tick
  refine ⟨hstate.setRecord (get?_set_self _ _ _) rfl rfl rfl rfl, r, ⟨hr, hid, rfl, ?_, rfl, rfl⟩,
    rfl, rfl, rfl, rfl, not_lt.mp hforward⟩
  show (s₁.records.set _ _).set _ _ = _
  rw [hid]
  exact set_set _ _ _ _

theorem finish_spec (h : Inv cfg s) (id : ι) (tokenIds : List Int) (processedTokenCount : Nat)
    (physicalSlotsByLayer : List Int) (residentRows : Int) (capacitySlots : Option (List Int)) :
    wp (finish cfg id tokenIds processedTokenCount physicalSlotsByLayer residentRows capacitySlots)
      (fun _ s' => Inv cfg s') (fun _ s' => Inv cfg s') s := by
  have hsame : ∀ (_ : PyError) (s' : ChainCacheIndex ι φ δ), s' = s → Inv cfg s' := by
    rintro - s' rfl
    exact h
  unfold finish prepareTokenHistory
  rw [wp_bind]
  refine wp_mono (lookup_spec id) ?_ fun e s' he => hsame e s' he.1
  rintro r s₁ ⟨rfl, hr⟩
  rw [wp_bind, wp_bind, wp_raiseIf]
  refine ⟨fun _ => h, fun _ => ?_⟩
  rw [wp_bind, wp_raiseIf]
  refine ⟨fun _ => h, fun _ => ?_⟩
  rw [wp_bind]
  refine wp_mono (checkTokenHistoryCapacity_spec r tokenIds.length) ?_ fun e s' he => hsame e s' he.1
  rintro - s₂ ⟨rfl, -⟩
  rw [wp_pure, wp_bind, wp_lift]
  split
  · rw [wp_bind]
    refine wp_mono (finishDigest_spec h id _) ?_ hsame
    rintro q s₃ ⟨hinv, r₀, hrewritten, -⟩
    have hq : s₃.records.get? q.chainId = some q := by
      rw [hrewritten.records, hrewritten.chainId, get?_set_self]
    exact wp_mono (storeTokenHistory_spec hinv hq tokenIds) (fun _ _ hs => hs.1)
      fun _ s' he => he.1 ▸ hinv
  · exact h

end

section

variable {cfg : ChainIndexConfig δ} {s s' : ChainCacheIndex ι φ δ} {id : ι}
  {r q : ChainRecord ι φ δ}

omit [LinearOrder ι] in
theorem takeVictims_sublist : ∀ (candidates : List (ChainRecord ι φ δ)) (rows : Int)
    (deficits : List Int),
    (takeVictims candidates rows deficits).1.Sublist (candidates.map (·.chainId))
  | [], _, _ => Sublist.refl []
  | r :: candidates, rows, deficits => by
    unfold takeVictims
    split
    · exact nil_sublist _
    · exact (takeVictims_sublist candidates _ _).cons_cons r.chainId

theorem Inv.map_chainId_values (h : Inv cfg s) : s.records.values.map (·.chainId) = s.records.keys := by
  unfold values Dict.keys
  rw [map_map]
  refine map_congr_left fun e he => ?_
  exact h.keys e.1 e.2 (mem_entries.mp he)

theorem mem_idleResidentLru : r ∈ idleResidentLru s ↔
    r ∈ s.records.values ∧ r.state = .idle ∧ 0 < r.residentRows := by
  unfold idleResidentLru
  rw [(perm_insertionSort _ _).mem_iff, mem_filter, decide_eq_true_eq]

theorem Inv.nodup_idleResidentLru (h : Inv cfg s) : ((idleResidentLru s).map (·.chainId)).Nodup := by
  unfold idleResidentLru
  rw [((perm_insertionSort _ _).map _).nodup_iff]
  refine ((filter_sublist.map _).nodup ?_)
  rw [h.map_chainId_values]
  exact s.records.keys_nodup

def IdleResident (s : ChainCacheIndex ι φ δ) (id : ι) : Prop :=
  ∃ r, s.records.get? id = some r ∧ r.state = .idle ∧ 0 < r.residentRows

/-- The victims are idle and resident, and the plan's chain is new or idle. -/
structure Planned (s : ChainCacheIndex ι φ δ) (plan : ChainAdmissionPlan ι) : Prop where
  nodup : plan.victimChainIds.Nodup
  victims : ∀ victim ∈ plan.victimChainIds, victim ≠ plan.chainId ∧ IdleResident s victim
  created : plan.status = .created →
    s.records.get? plan.chainId = none ∧ s.tombstones.get? plan.chainId = none
  resumed : plan.status = .resumed →
    ∃ r, s.records.get? plan.chainId = some r ∧ r.state = .idle ∧ r.seqId = plan.seqId ∧
      r.processedTokenCount = plan.reusedTokens

theorem Planned.sublist {plan : ChainAdmissionPlan ι} {victims demoted : List ι} {decode : List Int}
    (h : Planned s plan) (hsub : victims.Sublist plan.victimChainIds) :
    Planned s { plan with
      victimChainIds := victims, demoteChainIds := demoted, decodeReservedSlotsByLayer := decode } :=
  ⟨hsub.nodup h.nodup, fun v hv => h.victims v (hsub.subset hv), h.created, h.resumed⟩

variable [DecidableEq φ] [DecidableEq δ]

theorem admissionStatus_spec (req : AdmissionRequest ι φ δ) :
    wp (admissionStatus cfg req)
      (fun st s' => s' = s ∧
        (st.1 = .created → s.records.get? req.chainId = none ∧ s.tombstones.get? req.chainId = none) ∧
        (st.1 = .resumed → ∃ r, s.records.get? req.chainId = some r ∧ r.state = .idle ∧
          r.seqId = req.seqId ∧ r.processedTokenCount = st.2))
      (fun _ s' => s' = s) s := by
  unfold admissionStatus
  rw [wp_bind, wp_get]
  cases hr : s.records.get? req.chainId with
  | none =>
    dsimp only
    split
    · next htomb =>
      rw [wp_bind]
      refine wp_mono (lookup_spec req.chainId) ?_ fun _ _ he => he.1
      rintro r s₁ ⟨rfl, hr'⟩
      rw [hr] at hr'
      cases hr'
    · next htomb =>
      rw [Bool.not_eq_true, contains_eq_false] at htomb
      exact ⟨rfl, fun _ => ⟨rfl, htomb⟩, (by simp)⟩
  | some r =>
    dsimp only
    rw [wp_bind, wp_raiseIf]
    refine ⟨fun _ => rfl, fun hstate => ?_⟩
    rw [wp_bind, wp_raiseIf]
    refine ⟨fun _ => rfl, fun _ => ?_⟩
    rw [wp_bind, wp_raiseIf]
    refine ⟨fun _ => rfl, fun hseq => ?_⟩
    rw [wp_bind, wp_lift]
    split
    · rw [wp_bind, wp_raiseIf]
      refine ⟨fun _ => rfl, fun _ => ⟨rfl, (by simp), fun _ => ⟨r, rfl, ?_, not_not.mp hseq, rfl⟩⟩⟩
      cases hstate' : r.state with
      | active => exact absurd hstate' hstate
      | idle => rfl
    · exact rfl

/-- A plan is made without touching the index. -/
theorem planAdmission_spec (h : Inv cfg s) (req : AdmissionRequest ι φ δ) :
    wp (planAdmission cfg req)
      (fun plan s' => s' = s ∧ Planned s plan ∧ plan.chainId = req.chainId ∧ plan.seqId = req.seqId ∧
        plan.demoteChainIds = [])
      (fun _ s' => s' = s) s := by
  unfold planAdmission
  rw [wp_bind]
  refine wp_mono (admissionStatus_spec req) ?_ fun _ _ he => he
  rintro ⟨status, reused⟩ s₁ ⟨rfl, hcreated, hresumed⟩
  dsimp only
  rw [wp_bind, wp_get, wp_bind, wp_raiseIf]
  refine ⟨fun _ => rfl, fun _ =>
    ⟨rfl, ⟨?_, fun victim hvictim => ?_, hcreated, hresumed⟩, rfl, rfl, rfl⟩⟩
  · refine (takeVictims_sublist _ _ _).nodup ?_
    split
    · exact (filter_sublist.map _).nodup h.nodup_idleResidentLru
    · exact nodup_nil
  · have hmem := (takeVictims_sublist _ _ _).subset hvictim
    obtain ⟨r, hr, rfl⟩ := mem_map.mp hmem
    split at hr
    · rw [mem_filter, decide_eq_true_eq, mem_idleResidentLru] at hr
      obtain ⟨⟨hvalue, hidle, hrows⟩, hne⟩ := hr
      obtain ⟨k, hk⟩ := mem_values.mp hvalue
      refine ⟨hne, r, ?_, hidle, hrows⟩
      rwa [h.keys k r hk]
    · cases hr

/-- Only the records of victims may be gone. -/
structure EvictedFrom (victims : List ι) (s s' : ChainCacheIndex ι φ δ) : Prop where
  others : ∀ id, id ∉ victims → s'.records.get? id = s.records.get? id
  kept : ∀ id r, s'.records.get? id = some r → s.records.get? id = some r
  tombstones : ∀ id, id ∉ victims → s.tombstones.get? id = none → s'.tombstones.get? id = none
  owners : ∀ seqId, s.seqIdToChainId.get? seqId = none → s'.seqIdToChainId.get? seqId = none

omit [DecidableEq φ] [DecidableEq δ] in
theorem EvictedFrom.refl (victims : List ι) (s : ChainCacheIndex ι φ δ) : EvictedFrom victims s s :=
  ⟨fun _ _ => rfl, fun _ _ hr => hr, fun _ _ ht => ht, fun _ ho => ho⟩

omit [DecidableEq φ] [DecidableEq δ] in
theorem Removed.evictedFrom {victim : ι} {victims : List ι} {s₁ s₂ : ChainCacheIndex ι φ δ}
    (h : Removed victim r s s₁) (h' : EvictedFrom victims s₁ s₂) :
    EvictedFrom (victim :: victims) s s₂ := by
  refine ⟨fun id hid => ?_, fun id q hq => ?_, fun id hid hnone => ?_, fun seqId hnone => ?_⟩
  · rw [mem_cons, not_or] at hid
    rw [h'.others id hid.2, h.records, get?_erase_ne _ hid.1]
  · have hq' := h'.kept id q hq
    rw [h.records, get?_erase] at hq'
    split at hq'
    · cases hq'
    · exact hq'
  · rw [mem_cons, not_or] at hid
    exact h'.tombstones id hid.2 (h.tombstones id hid.1 hnone)
  · refine h'.owners seqId ?_
    rw [h.owners, get?_erase]
    split
    · rfl
    · exact hnone

omit [DecidableEq φ] [DecidableEq δ] in
/-- The loop stops at the first victim that is gone or active. -/
theorem evictVictims_spec : ∀ (victims : List ι) (s : ChainCacheIndex ι φ δ), Inv cfg s →
    wp (forEach (fun victim => do
        let _ ← evict cfg victim) victims)
      (fun _ s' => Inv cfg s' ∧ EvictedFrom victims s s' ∧
        ∀ victim ∈ victims, s'.records.get? victim = none)
      (fun _ s' => Inv cfg s' ∧ EvictedFrom victims s s' ∧
        ∃ victim ∈ victims, ∀ r, s'.records.get? victim = some r → r.state = .active) s
  | [], s, h => ⟨h, .refl _ _, nofun⟩
  | victim :: victims, s, h => by
    rw [forEach, wp_bind, wp_bind]
    refine wp_mono (evict_spec h victim) ?_ ?_
    · rintro r s₁ ⟨hinv, hremoved, -⟩
      rw [wp_pure]
      refine wp_mono (evictVictims_spec victims s₁ hinv) ?_ ?_
      · rintro - s₂ ⟨hinv₂, hevicted, hgone⟩
        refine ⟨hinv₂, hremoved.evictedFrom hevicted, fun v hv => ?_⟩
        by_cases hmem : v ∈ victims
        · exact hgone v hmem
        · rcases mem_cons.mp hv with rfl | hv
          · rw [hevicted.others v hmem, hremoved.records, get?_erase_self]
          · exact absurd hv hmem
      · rintro - s₂ ⟨hinv₂, hevicted, v, hv, hactive⟩
        exact ⟨hinv₂, hremoved.evictedFrom hevicted, v, mem_cons_of_mem _ hv, hactive⟩
    · rintro - s₁ ⟨rfl, hactive⟩
      exact ⟨h, .refl _ _, victim, mem_cons_self, hactive⟩

/-- The record of the plan's chain, ACTIVE. -/
structure AdmittedBy (plan : ChainAdmissionPlan ι) (q : ChainRecord ι φ δ) : Prop where
  state : q.state = .active
  chainId : q.chainId = plan.chainId

omit [DecidableEq φ] [DecidableEq δ] in
theorem createRecord_spec (h : Inv cfg s) (plan : ChainAdmissionPlan ι) (fingerprint : φ)
    (hfresh : s.tombstones.get? plan.chainId = none) :
    wp (createRecord plan fingerprint)
      (fun q s' => Inv cfg s' ∧ Inserted q s s' ∧ AdmittedBy plan q ∧ q.seqId = plan.seqId ∧
        q.tokenIds = [] ∧ q.residentRows = 1 ∧ q.processedTokenCount = 0)
      (fun _ s' => s' = s) s := by
  unfold createRecord
  rw [wp_bind, wp_get, wp_bind, wp_raiseIf]
  refine ⟨fun _ => rfl, fun hnew => ?_⟩
  rw [wp_bind, wp_raiseIf]
  refine ⟨fun _ => rfl, fun hunowned => ?_⟩
  rw [Bool.not_eq_true, contains_eq_false] at hnew hunowned
  rw [wp_bind, tick, wp_bind, wp_modify, wp_bind, wp_get, wp_pure, wp_bind,
    setRecordState, wp_modify, wp_bind, wp_modify, wp_pure]
  refine ⟨?_, ⟨hnew, hunowned, rfl, rfl, rfl⟩, ⟨rfl, rfl⟩, rfl, rfl, rfl, rfl⟩
  exact h.insert
    (r := { chainId := plan.chainId
            seqId := plan.seqId
            fingerprint := fingerprint
            state := .active
            lastInputTokenCount := plan.inputTokenCount
            lastAccess := s.clock + 1
            reservedSlotsByLayer := plan.reservedSlotsByLayer
            reservedRows := plan.reservedRows }) hnew hunowned hfresh rfl rfl rfl rfl rfl rfl rfl rfl

omit [DecidableEq φ] [DecidableEq δ] in
theorem resumeRecord_spec (h : Inv cfg s) (plan : ChainAdmissionPlan ι) :
    wp (resumeRecord plan)
      (fun q s' => Inv cfg s' ∧ AdmittedBy plan q ∧ ∃ r, Rewritten plan.chainId r q s s' ∧
        r.state = .idle ∧ q.tokenIds = r.tokenIds ∧ q.residentRows = r.residentRows ∧
        q.processedTokenCount = r.processedTokenCount)
      (fun _ s' => s' = s) s := by
  unfold resumeRecord
  rw [wp_bind]
  refine wp_mono (lookup_spec plan.chainId) ?_ fun _ _ he => he.1
  rintro r s₁ ⟨rfl, hr⟩
  rw [wp_bind, wp_raiseIf]
  refine ⟨fun _ => rfl, fun hidle => ?_⟩
  rw [wp_bind, tick, wp_bind, wp_modify, wp_bind, wp_get, wp_pure, wp_bind,
    setRecordState, wp_modify, wp_pure]
  have hid := h.keys _ r hr
  refine ⟨?_, ⟨rfl, hid⟩, r, ⟨hr, hid, rfl, ?_, rfl, rfl⟩, not_not.mp hidle, rfl, rfl, rfl⟩
  · exact h.tick.setRecordState
      (q := { r with
        state := .active
        lastInputTokenCount := plan.inputTokenCount
        lastAccess := s₁.clock + 1
        reservedSlotsByLayer := plan.reservedSlotsByLayer
        reservedRows := plan.reservedRows }) hr hid rfl rfl .active
  · rw [← hid]
    rfl

/-- The victims went first, then the plan's chain was created or resumed. -/
structure Applied (plan : ChainAdmissionPlan ι) (q : ChainRecord ι φ δ)
    (s s₁ s' : ChainCacheIndex ι φ δ) : Prop where
  evicted : EvictedFrom plan.victimChainIds s s₁
  gone : ∀ victim ∈ plan.victimChainIds, s₁.records.get? victim = none
  admitted : AdmittedBy plan q
  outcome :
    (plan.status = .created ∧ Inserted q s₁ s' ∧ q.seqId = plan.seqId ∧ q.tokenIds = [] ∧
      q.residentRows = 1 ∧ q.processedTokenCount = 0) ∨
    (plan.status = .resumed ∧ ∃ r, Rewritten plan.chainId r q s₁ s' ∧ r.state = .idle ∧
      q.tokenIds = r.tokenIds ∧ q.residentRows = r.residentRows ∧
      q.processedTokenCount = r.processedTokenCount)

omit [DecidableEq φ] [DecidableEq δ] in
/-- A failed admission has evicted victims of its plan and no more. -/
theorem applyAdmission_spec (h : Inv cfg s) {plan : ChainAdmissionPlan ι} (hplan : Planned s plan)
    (fingerprint : φ) :
    wp (applyAdmission cfg plan fingerprint)
      (fun q s' => Inv cfg s' ∧ ∃ s₁, Inv cfg s₁ ∧ Applied plan q s s₁ s')
      (fun _ s' => Inv cfg s' ∧ EvictedFrom plan.victimChainIds s s') s := by
  unfold applyAdmission
  rw [wp_bind]
  refine wp_mono (evictVictims_spec plan.victimChainIds s h) ?_ fun _ _ he => ⟨he.1, he.2.1⟩
  rintro - s₁ ⟨hinv, hevicted, hgone⟩
  have hnot : plan.chainId ∉ plan.victimChainIds := fun hmem => (hplan.victims _ hmem).1 rfl
  cases hstatus : plan.status with
  | created =>
    have hfresh := hevicted.tombstones _ hnot (hplan.created hstatus).2
    refine wp_mono (createRecord_spec hinv plan fingerprint hfresh) ?_ ?_
    · rintro q s₂ ⟨hinv₂, hinserted, hadmitted, hrest⟩
      exact ⟨hinv₂, s₁, hinv, hevicted, hgone, hadmitted, .inl ⟨hstatus, hinserted, hrest⟩⟩
    · rintro - s₂ rfl
      exact ⟨hinv, hevicted⟩
  | resumed =>
    refine wp_mono (resumeRecord_spec hinv plan) ?_ ?_
    · rintro q s₂ ⟨hinv₂, hadmitted, hrest⟩
      exact ⟨hinv₂, s₁, hinv, hevicted, hgone, hadmitted, .inr ⟨hstatus, hrest⟩⟩
    · rintro - s₂ rfl
      exact ⟨hinv, hevicted⟩

omit [DecidableEq φ] in
theorem rememberPreparedTokens_spec (h : Inv cfg s) (prepared : PreparedChainTokens ι δ) :
    wp (rememberPreparedTokens cfg prepared)
      (fun q s' => Inv cfg s' ∧ ∃ r, Rewritten prepared.chainId r q s s' ∧
        q = { r with tokenIds := prepared.tokens } ∧ r.state = .idle ∧
        r.processedTokenCount = prepared.processedTokenCount)
      (fun _ s' => s' = s) s := by
  unfold rememberPreparedTokens
  rw [wp_bind]
  refine wp_mono (lookup_spec prepared.chainId) ?_ fun _ _ he => he.1
  rintro r s₁ ⟨rfl, hr⟩
  rw [wp_bind, wp_raiseIf]
  refine ⟨fun _ => rfl, fun howner => ?_⟩
  rw [wp_bind, wp_raiseIf]
  refine ⟨fun _ => rfl, fun hboundary => ?_⟩
  rw [not_or, not_not, not_not] at howner hboundary
  have hid := h.keys _ r hr
  refine wp_mono (storeTokenHistory_spec h (hid ▸ hr) prepared.tokens) ?_ fun _ _ he => he.1
  rintro q s₂ ⟨hinv, hq, hrewritten⟩
  exact ⟨hinv, r, hid ▸ hrewritten, hq, howner.2, hboundary.1.symm⟩

end

section

variable [DecidableEq φ] [DecidableEq δ]

/-- A plan made in this state, perhaps with fewer victims, for a sequence of no other chain. -/
def FreshPlan (cfg : ChainIndexConfig δ) (s : ChainCacheIndex ι φ δ) (plan : ChainAdmissionPlan ι) :
    Prop :=
  ∃ req planned victims demoted decode, planAdmission cfg req s = (.ok planned, s) ∧
    victims.Sublist planned.victimChainIds ∧
    plan = { planned with
      victimChainIds := victims, demoteChainIds := demoted, decodeReservedSlotsByLayer := decode } ∧
    ∀ id, s.seqIdToChainId.get? plan.seqId = some id → id = plan.chainId

inductive IndexOp (ι φ δ : Type)
  | applyAdmission (plan : ChainAdmissionPlan ι) (fingerprint : φ)
  | finish (chainId : ι) (tokenIds : List Int) (processedTokenCount : Nat)
      (physicalSlotsByLayer : List Int) (residentRows : Int) (capacitySlots : Option (List Int))
  | finishDigest (chainId : ι) (turn : FinishedTurn δ)
  | remember (prepared : PreparedChainTokens ι δ)
  | evict (chainId : ι)
  | invalidate (chainId : ι)
  | routingSnapshot
  | reset

def IndexOp.run (cfg : ChainIndexConfig δ) : IndexOp ι φ δ → ChainM ι φ δ Unit
  | .applyAdmission plan fingerprint => do
    let _ ← ChainCacheIndex.applyAdmission cfg plan fingerprint
  | .finish chainId tokenIds processed slots rows capacity => do
    let _ ← ChainCacheIndex.finish cfg chainId tokenIds processed slots rows capacity
  | .finishDigest chainId turn => do
    let _ ← ChainCacheIndex.finishDigest cfg chainId turn
  | .remember prepared => do
    let _ ← rememberPreparedTokens cfg prepared
  | .evict chainId => do
    let _ ← ChainCacheIndex.evict cfg chainId
  | .invalidate chainId => do
    let _ ← ChainCacheIndex.invalidate cfg chainId
  | .routingSnapshot => do
    let _ ← ChainCacheIndex.routingSnapshot
  | .reset => ChainCacheIndex.reset

/-- A plan is applied in the state that made it. -/
def IndexOp.Permitted (cfg : ChainIndexConfig δ) (s : ChainCacheIndex ι φ δ) :
    IndexOp ι φ δ → Prop
  | .applyAdmission plan _ => FreshPlan cfg s plan
  | _ => True

/-- The states that admissions, turns, evictions and resets reach. -/
inductive Reachable (cfg : ChainIndexConfig δ) : ChainCacheIndex ι φ δ → Prop
  | empty : Reachable cfg {}
  | step {s : ChainCacheIndex ι φ δ} (op : IndexOp ι φ δ) :
      Reachable cfg s → op.Permitted cfg s → Reachable cfg (op.run cfg s).2

variable {cfg : ChainIndexConfig δ} {s : ChainCacheIndex ι φ δ}

theorem FreshPlan.planned {plan : ChainAdmissionPlan ι} (h : Inv cfg s)
    (hfresh : FreshPlan cfg s plan) : Planned s plan := by
  obtain ⟨req, planned, victims, demoted, decode, hplan, hsub, rfl, -⟩ := hfresh
  exact ((wp_of_ok hplan).mp (planAdmission_spec h req)).2.1.sublist hsub

omit [DecidableEq φ] [DecidableEq δ] in
theorem routingSnapshot_spec (h : Inv cfg s) :
    wp routingSnapshot
      (fun snapshot s' => Inv cfg s' ∧ (∀ id, snapshot.matchChain id = routingMatch s id) ∧
        s'.records = s.records)
      (fun _ _ => False) s := by
  unfold routingSnapshot
  rw [wp_bind, wp_get]
  split
  · next snapshot hcache => exact ⟨h, h.snapshot snapshot hcache, rfl⟩
  · rw [wp_bind, wp_modify, wp_pure]
    refine ⟨h.of_same rfl rfl rfl rfl rfl fun snapshot hcache => ?_, currentSnapshot_matchChain h, rfl⟩
    cases hcache
    exact currentSnapshot_matchChain h

/-- Each call keeps the invariant, also when it raises. -/
theorem IndexOp.keeps (h : Inv cfg s) (op : IndexOp ι φ δ) (hop : op.Permitted cfg s) :
    Keeps (Inv cfg) (op.run cfg) s := by
  have hsame : ∀ (_ : PyError) (s' : ChainCacheIndex ι φ δ), s' = s → Inv cfg s' := by
    rintro - s' rfl
    exact h
  unfold Keeps
  cases op with
  | applyAdmission plan fingerprint =>
    rw [IndexOp.run, wp_bind]
    exact wp_mono (applyAdmission_spec h (FreshPlan.planned h hop) fingerprint) (fun _ _ hs => hs.1)
      fun _ _ hs => hs.1
  | finish chainId tokenIds processed slots rows capacity =>
    rw [IndexOp.run, wp_bind]
    exact wp_mono (finish_spec h chainId tokenIds processed slots rows capacity) (fun _ _ hs => hs)
      fun _ _ hs => hs
  | finishDigest chainId turn =>
    rw [IndexOp.run, wp_bind]
    exact wp_mono (finishDigest_spec h chainId turn) (fun _ _ hs => hs.1) hsame
  | remember prepared =>
    rw [IndexOp.run, wp_bind]
    exact wp_mono (rememberPreparedTokens_spec h prepared) (fun _ _ hs => hs.1) hsame
  | evict chainId =>
    rw [IndexOp.run, wp_bind]
    exact wp_mono (evict_spec h chainId) (fun _ _ hs => hs.1) fun e s' he => hsame e s' he.1
  | invalidate chainId =>
    rw [IndexOp.run, wp_bind]
    exact wp_mono (invalidate_spec h chainId) (fun _ _ hs => hs.1) fun e s' he => hsame e s' he.1
  | routingSnapshot =>
    rw [IndexOp.run, wp_bind]
    exact wp_mono (routingSnapshot_spec h) (fun _ _ hs => hs.1) fun _ _ hf => hf.elim
  | reset => exact inv_empty

theorem Reachable.inv (h : Reachable cfg s) : Inv cfg s := by
  induction h with
  | empty => exact inv_empty
  | step op _ hop ih => exact keeps_iff.mp (op.keeps ih hop)

/-- In every state of a run the active records are the ACTIVE ones, the owners and the records are
in bijection, the token history is what the records remember and within its bound, tombstones are
bounded and have no record, and the cached routing snapshot says of every chain what
`routing_match` says. -/
theorem chain_index_invariant (h : Reachable cfg s) :
    (∀ id, id ∈ s.activeRecords.keys ↔ ∃ r, s.records.get? id = some r ∧ r.state = .active) ∧
    (∀ seqId id, s.seqIdToChainId.get? seqId = some id ↔
      ∃ r, s.records.get? id = some r ∧ r.seqId = seqId) ∧
    (∀ id id' r q, s.records.get? id = some r → s.records.get? id' = some q → r.seqId = q.seqId →
      id = id') ∧
    s.tokenHistoryTokens = ((s.records.values.map fun r => r.tokenIds.length).sum : Nat) ∧
    (∀ n, cfg.maxTokenHistoryTokens = some n → s.tokenHistoryTokens ≤ n) ∧
    (∀ id, s.records.contains id = true → s.tombstones.contains id = false) ∧
    s.tombstones.size ≤ cfg.maxTombstones ∧
    ∃ snapshot s', routingSnapshot s = (.ok snapshot, s') ∧
      ∀ id, snapshot.matchChain id = routingMatch s id := by
  have hinv := h.inv
  refine ⟨fun id => ?_, fun seqId id => ⟨hinv.owned seqId id, ?_⟩, fun id id' r q hr hq hseq => ?_, ?_,
    hinv.bounded, fun id hid => ?_, hinv.tombstones, ?_⟩
  · rw [Dict.mem_keys, ← hinv.active id]
    exact ⟨fun ⟨_, hv⟩ => hv, fun hv => ⟨(), hv⟩⟩
  · rintro ⟨r, hr, rfl⟩
    exact hinv.owners id r hr
  · have howner := hinv.owners id r hr
    rw [hseq, hinv.owners id' q hq] at howner
    exact (Option.some.inj howner).symm
  · rw [hinv.history]
    unfold rememberedTokens sumBy values
    rw [map_map]
    rfl
  · obtain ⟨r, hr⟩ := Dict.contains_iff.mp hid
    rw [contains_eq_false]
    exact hinv.disjoint id r hr
  · have hspec := routingSnapshot_spec hinv
    cases hrun : routingSnapshot s with
    | mk result s' =>
      cases result with
      | error e => exact ((wp_of_error hrun).mp hspec).elim
      | ok snapshot => exact ⟨snapshot, s', rfl, ((wp_of_ok hrun).mp hspec).2.1⟩

end

def demoChainConfig : ChainIndexConfig Int where
  maxTombstones := 2
  maxTokenHistoryTokens := some 16
  digest := sum
  isDigest := fun _ => true
  maxTombstones_pos := Nat.two_pos
  isDigest_digest := fun _ => rfl

def demoAdmission : AdmissionRequest Nat Unit Int :=
  { chainId := 7, seqId := 3, input := .tokens [1, 2], fingerprint := () }

def demoAdmissionPlan : ChainAdmissionPlan Nat :=
  { chainId := 7, seqId := 3, status := .created, reusedTokens := 0, inputTokenCount := 2 }

def demoFinished : ChainCacheIndex Nat Unit Int :=
  ((IndexOp.finish 7 [1, 2, 5] 2 [2] 1 none).run demoChainConfig
    ((IndexOp.applyAdmission demoAdmissionPlan ()).run demoChainConfig {}).2).2

theorem demoFinished_reachable : Reachable demoChainConfig demoFinished := by
  refine .step _ (.step _ .empty ?_) trivial
  refine ⟨demoAdmission, demoAdmissionPlan, [], [], [], Prod.ext (by decide +kernel) rfl,
    nil_sublist _, rfl, nofun⟩

/-- One IDLE chain with three remembered tokens. -/
theorem chain_index_invariant_demo :
    demoFinished.tokenHistoryTokens = 3 ∧ demoFinished.seqIdToChainId.get? 3 = some 7 ∧
      (routingMatch demoFinished 7).state = some .idle ∧
      ∃ snapshot s', routingSnapshot demoFinished = (.ok snapshot, s') ∧
        ∀ id, snapshot.matchChain id = routingMatch demoFinished id :=
  ⟨by decide +kernel, by decide +kernel, by decide +kernel,
    (chain_index_invariant demoFinished_reachable).2.2.2.2.2.2.2⟩

end SparseEngine.ChainCacheIndex
