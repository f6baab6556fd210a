import SparseEngine.Chain.Lifecycle
import SparseEngine.Chain.Snapshots

/-! What the index, the host snapshots and the cache manager agree on between the chain calls of the
runtime. -/

namespace SparseEngine

open PyM List Dict ChainCacheIndex ChainOffload

/-- What the runtime relies on in the hooks: they change the residency of the sequence they are
called for only, a free drops it, and an allocation that raises rolls back. -/
structure ChainManager.Lawful {μ κ : Type} (hooks : ChainManager μ κ) : Prop where
  freeSeq : ∀ i m j, hooks.hasResidency (hooks.freeSeq i m) j = true →
    j ≠ i ∧ hooks.hasResidency m j = true
  freeSeqPayload : ∀ i m j, hooks.hasResidency (hooks.freeSeqPayload i m) j = true →
    j ≠ i ∧ hooks.hasResidency m j = true
  releaseDecode : ∀ i m j, hooks.hasResidency (hooks.releaseDecode i m) j = hooks.hasResidency m j
  onChainTurnFinished : ∀ i n m j, j ≠ i →
    hooks.hasResidency (hooks.onChainTurnFinished i n m).2 j = hooks.hasResidency m j
  snapshotMethodState : ∀ i m j,
    hooks.hasResidency (hooks.snapshotMethodState i m).2 j = hooks.hasResidency m j
  submitCopy : ∀ i state m j,
    hooks.hasResidency (hooks.submitCopy i state m).2 j = hooks.hasResidency m j
  allocateChainRestore : ∀ i lengths m j, j ≠ i →
    hooks.hasResidency (hooks.allocateChainRestore i lengths m).2 j = hooks.hasResidency m j
  allocateChainRestore_raises : ∀ i lengths m e, (hooks.allocateChainRestore i lengths m).1 = .error e →
    hooks.hasResidency (hooks.allocateChainRestore i lengths m).2 i = hooks.hasResidency m i
  restoreCopy : ∀ i state m j, j ≠ i →
    hooks.hasResidency (hooks.restoreCopy i state m).2 j = hooks.hasResidency m j

namespace ChainRuntime

variable {ι φ δ μ κ α : Type}

section

variable {Q : α → ChainRuntime ι φ δ μ κ → Prop} {E : PyError → ChainRuntime ι φ δ μ κ → Prop}
  {s : ChainRuntime ι φ δ μ κ}

theorem wp_onIndex {m : PyM (ChainCacheIndex ι φ δ) α} :
    wp (onIndex m) Q E s ↔
      wp m (fun a i => Q a { s with index := i }) (fun e i => E e { s with index := i }) s.index :=
  wp_zoom

theorem wp_onOffload {m : PyM (ChainOffload κ) α} :
    wp (onOffload m) Q E s ↔
      wp m (fun a o => Q a { s with offload := o }) (fun e o => E e { s with offload := o })
        s.offload :=
  wp_zoom

theorem wp_onManager {m : PyM μ α} :
    wp (onManager m) Q E s ↔
      wp m (fun a k => Q a { s with manager := k }) (fun e k => E e { s with manager := k })
        s.manager :=
  wp_zoom

theorem wp_query {f : μ → Except PyError α} :
    wp (query f) Q E s ↔ match f s.manager with
      | .ok a => Q a s
      | .error e => E e s := by
  unfold query
  rw [wp_bind, wp_get]
  cases f s.manager <;> rfl

theorem wp_whenOffload {cfg : ChainRuntimeConfig φ δ} {m : RuntimeM ι φ δ μ κ Unit}
    {Q : Unit → ChainRuntime ι φ δ μ κ → Prop} :
    wp (whenOffload cfg m) Q E s ↔
      (cfg.capacityBytes = none → Q () s) ∧ (cfg.capacityBytes ≠ none → wp m Q E s) := by
  unfold whenOffload
  cases cfg.capacityBytes with
  | none => exact ⟨fun h => ⟨fun _ => h, fun hne => absurd rfl hne⟩, fun h => h.1 rfl⟩
  | some n => exact ⟨fun h => ⟨nofun, fun _ => h⟩, fun h => h.2 nofun⟩

end

def RecordOk (status : Option Bool) (resident : Bool) (r : ChainRecord ι φ δ) : Prop :=
  (r.residentRows = 0 ∧ r.state = .idle ∧ status = some true ∧ resident = false) ∨
    (r.residentRows = 1 ∧ (r.state = .idle → status ≠ some false))

variable [LinearOrder ι]

/-- The tables agree, but for the records of the chains in `busy`. -/
structure Accounts (hooks : ChainManager μ κ) (cfg : ChainRuntimeConfig φ δ) (busy : List ι)
    (s : ChainRuntime ι φ δ μ κ) : Prop where
  index : ChainCacheIndex.Inv cfg.index s.index
  offload : s.offload.Inv
  bounded : ∀ n, cfg.capacityBytes = some n → s.offload.usedBytes ≤ n
  disabled : cfg.capacityBytes = none → ∀ i, s.offload.status i = none
  owned : ∀ i, s.offload.status i ≠ none → ∃ id r, s.index.records.get? id = some r ∧ r.seqId = i
  records : ∀ id r, s.index.records.get? id = some r → id ∉ busy →
    RecordOk (s.offload.status r.seqId) (hooks.hasResidency s.manager r.seqId) r

variable {hooks : ChainManager μ κ} {cfg : ChainRuntimeConfig φ δ} {busy : List ι}
  {s s' : ChainRuntime ι φ δ μ κ} {id : ι} {r q : ChainRecord ι φ δ}

omit [LinearOrder ι] in
theorem RecordOk.of_not_resident {status : Option Bool} {resident resident' : Bool}
    (h : RecordOk status resident r)
    (hres : r.residentRows = 0 → resident' = true → resident = true) : RecordOk status resident' r := by
  rcases h with ⟨hrows, hidle, hstatus, hnot⟩ | h
  · refine .inl ⟨hrows, hidle, hstatus, ?_⟩
    by_contra hyes
    rw [Bool.not_eq_false] at hyes
    rw [hres hrows hyes] at hnot
    cases hnot
  · exact .inr h

theorem Accounts.row_of_active (h : Accounts hooks cfg busy s)
    (hr : s.index.records.get? id = some r) (hid : id ∉ busy) (hactive : r.state = .active) :
    r.residentRows = 1 := by
  rcases h.records id r hr hid with ⟨-, hidle, -⟩ | ⟨hrows, -⟩
  · rw [hactive] at hidle
    cases hidle
  · exact hrows

theorem Accounts.seqId_ne {id' : ι} (h : Accounts hooks cfg busy s)
    (hr : s.index.records.get? id = some r) (hq : s.index.records.get? id' = some q)
    (hne : id' ≠ id) : q.seqId ≠ r.seqId := by
  intro heq
  have howner := h.index.owners id' q hq
  rw [heq, h.index.owners id r hr] at howner
  exact hne (Option.some.inj howner).symm

theorem Accounts.weaken (h : Accounts hooks cfg busy s) {busy' : List ι}
    (hsub : ∀ id ∈ busy, id ∈ busy') : Accounts hooks cfg busy' s :=
  { h with records := fun id r hr hid => h.records id r hr fun hmem => hid (hsub id hmem) }

theorem Accounts.start (h : Accounts hooks cfg [] s) (id : ι) : Accounts hooks cfg [id] s :=
  h.weaken nofun

theorem Accounts.release (h : Accounts hooks cfg (id :: busy) s)
    (hok : ∀ r, s.index.records.get? id = some r →
      RecordOk (s.offload.status r.seqId) (hooks.hasResidency s.manager r.seqId) r) :
    Accounts hooks cfg busy s := by
  refine { h with records := fun k r hr hk => ?_ }
  by_cases heq : k = id
  · exact hok r (heq ▸ hr)
  · exact h.records k r hr fun hmem => (mem_cons.mp hmem).elim heq hk

theorem Accounts.settle (h : Accounts hooks cfg busy s) {o : ChainOffload κ} (hinv : o.Inv)
    (hsettled : o.settled = s.offload.settled) : Accounts hooks cfg busy { s with offload := o } := by
  have hstatus : ∀ i, o.status i = s.offload.status i := by
    intro i
    rw [← status_settled, hsettled, status_settled]
  refine ⟨h.index, hinv, fun n hn => ?_, fun hn i => ?_, fun i hi => ?_, fun id r hr hid => ?_⟩
  · have hused : o.usedBytes = s.offload.usedBytes := congrArg (·.usedBytes) hsettled
    exact hused ▸ h.bounded n hn
  · exact (hstatus i).trans (h.disabled hn i)
  · exact h.owned i (hstatus i ▸ hi)
  · show RecordOk (o.status r.seqId) _ r
    rw [hstatus]
    exact h.records id r hr hid

theorem Accounts.drop (h : Accounts hooks cfg busy s) {o : ChainOffload κ} {seqId : Nat} (hinv : o.Inv)
    (hsettled : o.settled = s.offload.settled.without seqId)
    (hrows : ∀ id r, s.index.records.get? id = some r → r.seqId = seqId → id ∉ busy →
      r.residentRows = 1) : Accounts hooks cfg busy { s with offload := o } := by
  have hstatus : ∀ i, o.status i = if i = seqId then none else s.offload.status i := by
    intro i
    rw [← status_settled, hsettled, status_without,
      status_settled]
  refine ⟨h.index, hinv, fun n hn => ?_, fun hn i => ?_, fun i hi => ?_, fun id r hr hid => ?_⟩
  · have hused : o.usedBytes = s.offload.usedBytes - s.offload.settled.snapshotBytes seqId :=
      congrArg (·.usedBytes) hsettled
    have hle := h.bounded n hn
    show o.usedBytes ≤ n
    omega
  · show o.status i = none
    rw [hstatus]
    split
    · rfl
    · exact h.disabled hn i
  · rw [hstatus] at hi
    split at hi
    · exact absurd rfl hi
    · exact h.owned i hi
  · show RecordOk (o.status r.seqId) _ r
    rw [hstatus]
    split
    · next heq => exact .inr ⟨hrows id r hr heq hid, fun _ => nofun⟩
    · exact h.records id r hr hid

theorem Accounts.spoil (h : Accounts hooks cfg (id :: busy) s) (hr : s.index.records.get? id = some r)
    {o : ChainOffload κ} (hinv : o.Inv) (hsettled : o.settled = s.offload.settled.spoiled r.seqId) :
    Accounts hooks cfg (id :: busy) { s with offload := o } := by
  have hstatus : ∀ i, i ≠ r.seqId → o.status i = s.offload.status i := by
    intro i hi
    rw [← status_settled, hsettled, status_spoiled _ _ _ hi,
      status_settled]
  have hnone : ∀ i, s.offload.status i = none → o.status i = none := by
    intro i hi
    by_cases heq : i = r.seqId
    · rw [← status_settled, hsettled, status_eq_none]
      rw [← status_settled, status_eq_none, heq] at hi
      unfold spoiled
      rw [hi, heq]
      exact hi
    · rw [hstatus i heq, hi]
  refine ⟨h.index, hinv, fun n hn => ?_, fun hn i => hnone i (h.disabled hn i), fun i hi => ?_,
    fun k q hq hk => ?_⟩
  · have hused : o.usedBytes = s.offload.usedBytes := by
      rw [← usedBytes_settled, hsettled]
      unfold spoiled
      split <;> rfl
    exact hused ▸ h.bounded n hn
  · exact h.owned i fun hi' => hi (hnone i hi')
  · have hne : k ≠ id := fun heq => hk (heq ▸ mem_cons_self)
    show RecordOk (o.status q.seqId) _ q
    rw [hstatus _ (h.seqId_ne hr hq hne)]
    exact h.records k q hq hk

theorem Accounts.manage (h : Accounts hooks cfg busy s) {m : μ}
    (hres : ∀ id r, s.index.records.get? id = some r → id ∉ busy → r.residentRows = 0 →
      hooks.hasResidency m r.seqId = true → hooks.hasResidency s.manager r.seqId = true) :
    Accounts hooks cfg busy { s with manager := m } :=
  { h with
      records := fun id r hr hid => (h.records id r hr hid).of_not_resident (hres id r hr hid) }

theorem Accounts.rewrite (h : Accounts hooks cfg busy s) {index : ChainCacheIndex ι φ δ}
    (hinv : ChainCacheIndex.Inv cfg.index index)
    (hrewritten : Rewritten id r q s.index index)
    (hok : id ∉ busy →
      RecordOk (s.offload.status r.seqId) (hooks.hasResidency s.manager r.seqId) q) :
    Accounts hooks cfg busy { s with index := index } := by
  have hget : ∀ k, index.records.get? k = if k = id then some q else s.index.records.get? k := by
    intro k
    rw [hrewritten.records, Dict.get?_set]
  refine ⟨hinv, h.offload, h.bounded, h.disabled, fun i hi => ?_, fun k rk hk hbusy => ?_⟩
  · obtain ⟨k, rk, hk, hseq⟩ := h.owned i hi
    show ∃ k rk, index.records.get? k = some rk ∧ _
    by_cases heq : k = id
    · rw [heq, hrewritten.before] at hk
      cases hk
      exact ⟨id, q, by rw [hget, if_pos rfl], hrewritten.seqId.trans hseq⟩
    · exact ⟨k, rk, by rw [hget, if_neg heq, hk], hseq⟩
  · replace hk : index.records.get? k = some rk := hk
    rw [hget] at hk
    split at hk
    · next heq =>
      cases hk
      show RecordOk (s.offload.status q.seqId) (hooks.hasResidency s.manager q.seqId) q
      rw [hrewritten.seqId]
      exact hok (heq ▸ hbusy)
    · exact h.records k rk hk hbusy

theorem Accounts.remove (h : Accounts hooks cfg (id :: busy) s) {index : ChainCacheIndex ι φ δ}
    (hinv : ChainCacheIndex.Inv cfg.index index)
    (hremoved : Removed id r s.index index)
    (hstatus : s.offload.status r.seqId = none) :
    Accounts hooks cfg busy { s with index := index } := by
  have hget : ∀ k, index.records.get? k = if k = id then none else s.index.records.get? k := by
    intro k
    rw [hremoved.records, get?_erase]
  refine ⟨hinv, h.offload, h.bounded, h.disabled, fun i hi => ?_, fun k rk hk hbusy => ?_⟩
  · obtain ⟨k, rk, hk, hseq⟩ := h.owned i hi
    have hne : k ≠ id := by
      rintro rfl
      rw [hremoved.before] at hk
      cases hk
      exact hi (hseq ▸ hstatus)
    exact ⟨k, rk, (hget k).trans (by rw [if_neg hne, hk]), hseq⟩
  · replace hk : index.records.get? k = some rk := hk
    rw [hget] at hk
    split at hk
    · cases hk
    · next hne => exact h.records k rk hk fun hmem => (mem_cons.mp hmem).elim hne hbusy

theorem Accounts.store (h : Accounts hooks cfg (id :: busy) s)
    (hr : s.index.records.get? id = some r) (hrows : r.residentRows = 1) {capacity : Nat}
    (hcap : cfg.capacityBytes = some capacity) (hnone : s.offload.status r.seqId = none)
    {snapshot : ChainSnapshot κ} (hc : snapshot.completion = true)
    (hroom : s.offload.usedBytes + snapshot.nbytes ≤ capacity) :
    Accounts hooks cfg busy { s with offload := s.offload.store r.seqId snapshot } := by
  have hstatus : ∀ i, (s.offload.store r.seqId snapshot).status i =
      if i = r.seqId then some true else s.offload.status i := by
    intro i
    unfold ChainOffload.status ChainOffload.store
    dsimp only
    rw [Dict.get?_set]
    split
    · rw [Option.map_some, hc, Bool.true_or]
    · rfl
  obtain ⟨hinv, -⟩ := h.offload.store (status_eq_none.mp hnone) hc
  have h₁ : Accounts hooks cfg (id :: busy) { s with offload := s.offload.store r.seqId snapshot } := by
    refine ⟨h.index, hinv, fun n hn => ?_, fun hn => ?_, fun i hi => ?_, fun k q hq hk => ?_⟩
    · rw [hcap] at hn
      cases hn
      exact hroom
    · rw [hcap] at hn
      cases hn
    · by_cases heq : i = r.seqId
      · exact ⟨id, r, hr, heq.symm⟩
      · rw [hstatus, if_neg heq] at hi
        exact h.owned i hi
    · have hne : k ≠ id := fun heq => hk (heq ▸ mem_cons_self)
      show RecordOk ((s.offload.store r.seqId snapshot).status q.seqId) _ q
      rw [hstatus, if_neg (h.seqId_ne hr hq hne)]
      exact h.records k q hq hk
  refine h₁.release fun q hq => .inr ?_
  replace hq : s.index.records.get? id = some q := hq
  rw [hr] at hq
  cases hq
  refine ⟨hrows, fun _ => ?_⟩
  rw [hstatus, if_pos rfl]
  simp

section

theorem restore_spec (hl : hooks.Lawful) (h : Accounts hooks cfg (id :: busy) s)
    (hr : s.index.records.get? id = some r) :
    wp (restore hooks r.seqId)
      (fun _ s' => Accounts hooks cfg (id :: busy) s' ∧ s'.index = s.index)
      (fun _ s' => Accounts hooks cfg (id :: busy) s' ∧ s'.index = s.index ∧
        s'.offload.settled = s.offload.settled ∧
        (hooks.hasResidency s.manager r.seqId = false →
          hooks.hasResidency s'.manager r.seqId = false)) s := by
  have hother : ∀ {o : ChainOffload κ} {m : μ}, Accounts hooks cfg (id :: busy) { s with offload := o } →
      (∀ j, j ≠ r.seqId → hooks.hasResidency m j = true → hooks.hasResidency s.manager j = true) →
      Accounts hooks cfg (id :: busy) { s with offload := o, manager := m } := by
    intro o m ho hm
    refine ho.manage fun k q hq hk _ => hm q.seqId (h.seqId_ne hr hq ?_)
    exact fun heq => hk (heq ▸ mem_cons_self)
  unfold restore
  rw [wp_bind, wp_get, wp_bind, wp_raiseIf]
  refine ⟨fun _ => ⟨h, rfl, rfl, fun hf => hf⟩, fun _ => ?_⟩
  rw [wp_bind, wp_onOffload]
  refine wp_mono (wait_spec h.offload r.seqId) ?_ ?_
  · rintro snapshot o ⟨hinv, hsettled, -, -, -⟩
    have ho := h.settle hinv hsettled
    rw [wp_bind, wp_raiseIf]
    refine ⟨fun _ => ⟨ho, rfl, hsettled, fun hf => hf⟩, fun _ => ?_⟩
    rw [wp_bind, wp_raiseIf]
    refine ⟨fun _ => ⟨ho, rfl, hsettled, fun hf => hf⟩, fun _ => ?_⟩
    rw [wp_bind, wp_raiseIf]
    refine ⟨fun _ => ⟨ho, rfl, hsettled, fun hf => hf⟩, fun _ => ?_⟩
    rw [wp_bind, wp_onManager]
    have halloc := hl.allocateChainRestore r.seqId snapshot.kvLengths s.manager
    have hraise := hl.allocateChainRestore_raises r.seqId snapshot.kvLengths s.manager
    cases hrun : hooks.allocateChainRestore r.seqId snapshot.kvLengths s.manager with
    | mk result m₁ =>
      rw [hrun] at halloc hraise
      cases result with
      | error e =>
        rw [wp_of_error hrun]
        refine ⟨hother ho fun j hj hres => (halloc j hj) ▸ hres, rfl, hsettled, fun hf => ?_⟩
        exact (hraise e rfl).trans hf
      | ok u =>
        rw [wp_of_ok hrun, wp_tryExcept, wp_onManager]
        have hcopy := hl.restoreCopy r.seqId snapshot.method m₁
        cases hrun' : hooks.restoreCopy r.seqId snapshot.method m₁ with
        | mk result' m₂ =>
          rw [hrun'] at hcopy
          cases result' with
          | ok u' =>
            rw [wp_of_ok hrun']
            refine ⟨hother ho fun j hj hres => ?_, rfl⟩
            rw [← halloc j hj, ← hcopy j hj]
            exact hres
          | error e =>
            rw [wp_of_error hrun', wp_bind, wp_onManager, wp_modify, wp_raise]
            refine ⟨hother ho fun j hj hres => ?_, rfl, hsettled, fun _ => ?_⟩
            · rw [← halloc j hj, ← hcopy j hj]
              exact (hl.freeSeq r.seqId m₂ j hres).2
            · by_contra hyes
              rw [Bool.not_eq_false] at hyes
              exact (hl.freeSeq r.seqId m₂ r.seqId hyes).1 rfl
  · rintro e o ⟨-, rfl, -⟩
    exact ⟨h, rfl, rfl, fun hf => hf⟩

/-- A hook that `save_finished_chain` calls raises `e`. -/
def SaveRaises (hooks : ChainManager μ κ) (e : PyError) : Prop :=
  (∃ i state m, (hooks.submitCopy i state m).1 = .error e) ∨
    (∃ i m, hooks.physicalResidency m i = .error e) ∨
    ∃ i m, (hooks.snapshotMethodState i m).1 = .error e

theorem SaveRaises.of_requiredBytes {m : μ} {seqId : Nat} {state : κ} {e : PyError}
    (h : requiredBytes hooks m seqId state = .error e) : SaveRaises hooks e := by
  unfold requiredBytes at h
  cases hlen : hooks.physicalResidency m seqId with
  | error e' =>
    rw [hlen] at h
    cases h
    exact .inr (.inl ⟨_, _, hlen⟩)
  | ok lengths =>
    rw [hlen] at h
    cases h

theorem save_spec (hl : hooks.Lawful) {capacity n : Nat} {state : κ}
    (hcap : cfg.capacityBytes = some capacity) (h : Accounts hooks cfg (id :: busy) s)
    (hr : s.index.records.get? id = some r) (hrows : r.residentRows = 1)
    (hbytes : requiredBytes hooks s.manager r.seqId state = .ok n)
    (hroom : s.offload.usedBytes - s.offload.snapshotBytes r.seqId + n ≤ (capacity : Int))
    (polled : Nat) :
    wp (save hooks capacity r.seqId state polled)
      (fun _ s' => Accounts hooks cfg busy s' ∧ s'.index = s.index)
      (fun e s' => Accounts hooks cfg (id :: busy) s' ∧ s'.index = s.index ∧
        (e = capacityNotReserved → SaveRaises hooks e)) s := by
  unfold save
  rw [wp_bind, wp_get, wp_bind, wp_raiseIf]
  refine ⟨fun _ => ⟨h, rfl, nofun⟩, fun _ => ?_⟩
  rw [wp_bind, wp_onOffload, wp_modify, wp_bind, wp_query]
  obtain ⟨hpoll, hsettled⟩ := h.offload.poll polled
  have h₁ := h.settle hpoll hsettled
  have hused : (s.offload.poll polled).usedBytes = s.offload.usedBytes := congrArg (·.usedBytes) hsettled
  have hown : (s.offload.poll polled).snapshotBytes r.seqId = s.offload.snapshotBytes r.seqId := by
    rw [← snapshotBytes_settled, hsettled, snapshotBytes_settled]
  dsimp only
  rw [hbytes]
  dsimp only
  rw [wp_bind, wp_get, wp_bind, wp_raiseIf]
  refine ⟨fun hfull => ?_, fun _ => ?_⟩
  · dsimp only at hfull
    rw [hused, hown] at hfull
    exact absurd hfull (not_lt.mpr hroom)
  rw [wp_bind, wp_query]
  split
  · next lengths _ =>
    rw [wp_bind, wp_onOffload]
    refine wp_mono (drop_spec hpoll r.seqId) ?_ fun _ _ hf => hf.elim
    rintro - o ⟨hinv, hdropped⟩
    have h₂ : Accounts hooks cfg (id :: busy) { s with offload := o } := by
      refine h₁.drop hinv hdropped fun k q hq hseq hk => ?_
      have hne : k ≠ id := fun heq => hk (heq ▸ mem_cons_self)
      exact absurd hseq (h.seqId_ne hr hq hne)
    have hnone : o.status r.seqId = none := by
      rw [← status_settled, hdropped, status_without, if_pos rfl]
    rw [wp_bind, wp_onManager]
    have hsubmit := hl.submitCopy r.seqId state s.manager
    cases hrun : hooks.submitCopy r.seqId state s.manager with
    | mk result m =>
      rw [hrun] at hsubmit
      have h₃ : Accounts hooks cfg (id :: busy) { s with offload := o, manager := m } :=
        h₂.manage fun k q _ _ _ hres => (hsubmit q.seqId) ▸ hres
      cases result with
      | error e =>
        rw [wp_of_error hrun]
        exact ⟨h₃, rfl, fun _ => .inl ⟨_, _, s.manager, by rw [hrun]⟩⟩
      | ok u =>
        rw [wp_of_ok hrun, wp_onOffload, wp_modify]
        have hroom' : o.usedBytes + n ≤ (capacity : Int) := by
          have hafter : o.usedBytes = (s.offload.poll polled).settled.usedBytes -
              (s.offload.poll polled).settled.snapshotBytes r.seqId := congrArg (·.usedBytes) hdropped
          rw [usedBytes_settled, snapshotBytes_settled, hused, hown] at hafter
          omega
        exact ⟨h₃.store hr hrows hcap hnone rfl hroom', rfl⟩
  · next e herr => exact ⟨h₁, rfl, fun _ => .inr (.inl ⟨_, _, herr⟩)⟩

end

section

variable {c : ι} {rc : ChainRecord ι φ δ}

/-- Only idle records other than `c` may be gone. -/
structure Spares (c : ι) (i i' : ChainCacheIndex ι φ δ) : Prop where
  stays : ∀ id r, i.records.get? id = some r → id = c ∨ r.state = .active →
    i'.records.get? id = some r
  kept : ∀ id r, i'.records.get? id = some r → i.records.get? id = some r

theorem Spares.refl (c : ι) (i : ChainCacheIndex ι φ δ) : Spares c i i :=
  ⟨fun _ _ hr _ => hr, fun _ _ hr => hr⟩

theorem Spares.trans {s₁ s₂ s₃ : ChainCacheIndex ι φ δ} (h : Spares c s₁ s₂)
    (h' : Spares c s₂ s₃) : Spares c s₁ s₃ :=
  ⟨fun id r hr hkeep => h'.stays id r (h.stays id r hr hkeep) hkeep,
    fun id r hr => h.kept id r (h'.kept id r hr)⟩

/-- Other records, among them all that have a snapshot. -/
structure Candidates (c : ι) (candidates : List (ChainRecord ι φ δ)) (s : ChainRuntime ι φ δ μ κ) :
    Prop where
  nodup : (candidates.map (·.chainId)).Nodup
  found : ∀ v ∈ candidates, v.chainId ≠ c ∧ s.index.records.get? v.chainId = some v
  complete : ∀ id r, s.index.records.get? id = some r → id ≠ c → s.offload.status r.seqId ≠ none →
    r ∈ candidates

theorem Candidates.next {victim : ChainRecord ι φ δ} {rest : List (ChainRecord ι φ δ)}
    (h : Candidates c (victim :: rest) s)
    (hstatus : ∀ i, s'.offload.status i = if i = victim.seqId then none else s.offload.status i)
    (hkept : ∀ id r, s'.index.records.get? id = some r → s.index.records.get? id = some r)
    (hstays : ∀ id r, id ≠ victim.chainId → s.index.records.get? id = some r →
      s'.index.records.get? id = some r) : Candidates c rest s' := by
  obtain ⟨hfirst, hnodup⟩ := nodup_cons.mp h.nodup
  refine ⟨hnodup, fun v hv => ?_, fun id r hr hid hs => ?_⟩
  · obtain ⟨hne, hget⟩ := h.found v (mem_cons_of_mem _ hv)
    refine ⟨hne, hstays _ _ (fun heq => hfirst ?_) hget⟩
    exact mem_map.mpr ⟨v, hv, heq⟩
  · rw [hstatus] at hs
    split at hs
    · exact absurd rfl hs
    · next hseq =>
      refine (mem_cons.mp (h.complete id r (hkept id r hr) hid hs)).resolve_left ?_
      rintro rfl
      exact hseq rfl

theorem candidates_dropCandidates (h : Accounts hooks cfg busy s) (c : ι) :
    Candidates c (dropCandidates s c) s := by
  have hmem : ∀ v, v ∈ dropCandidates s c ↔ v ∈ s.index.records.values ∧ v.chainId ≠ c ∧
      s.offload.snapshots.contains v.seqId = true := by
    intro v
    unfold dropCandidates
    rw [(perm_insertionSort _ _).mem_iff, mem_filter, Bool.and_eq_true, decide_eq_true_eq]
  refine ⟨?_, fun v hv => ?_, fun id r hr hid hs => ?_⟩
  · unfold dropCandidates
    rw [((perm_insertionSort _ _).map _).nodup_iff]
    refine (filter_sublist.map _).nodup ?_
    rw [h.index.map_chainId_values]
    exact s.index.records.keys_nodup
  · obtain ⟨hvalue, hne, -⟩ := (hmem v).mp hv
    obtain ⟨k, hk⟩ := mem_values.mp hvalue
    exact ⟨hne, h.index.keys k v hk ▸ hk⟩
  · refine (hmem r).mpr ⟨mem_values.mpr ⟨id, hr⟩, h.index.keys id r hr ▸ hid, ?_⟩
    rw [← isSome_status]
    exact Option.isSome_iff_ne_none.mpr hs

theorem makeRoom_spec {capacity oldBytes required : Nat} (hreq : required ≤ capacity) :
    ∀ (candidates : List (ChainRecord ι φ δ)) (s : ChainRuntime ι φ δ μ κ),
      Accounts hooks cfg [c] s → s.index.records.get? c = some rc →
      s.offload.snapshotBytes rc.seqId = oldBytes → Candidates c candidates s →
      wp (makeRoom cfg capacity oldBytes required candidates)
        (fun _ s' => Accounts hooks cfg [c] s' ∧ s'.offload.snapshotBytes rc.seqId = oldBytes ∧
          s'.offload.usedBytes - oldBytes + required ≤ (capacity : Int) ∧ s'.manager = s.manager ∧
          Spares c s.index s'.index)
        (fun _ _ => False) s
  | [], s, h, hrc, hold, hcand => by
    have hsingle : ∀ i, i ≠ rc.seqId → s.offload.snapshots.get? i = none := by
      intro i hi
      by_contra hsome
      obtain ⟨id, r, hr, hseq⟩ := h.owned i fun hn => hsome (status_eq_none.mp hn)
      by_cases hid : id = c
      · rw [hid, hrc] at hr
        cases hr
        exact hi hseq.symm
      · refine absurd (hcand.complete id r hr hid ?_) not_mem_nil
        rw [hseq]
        exact fun hn => hsome (status_eq_none.mp hn)
    have hused := h.offload.used_of_single rc.seqId hsingle
    refine ⟨h, hold, ?_, rfl, .refl c s.index⟩
    rw [hused, hold]
    omega
  | victim :: candidates, s, h, hrc, hold, hcand => by
    obtain ⟨hne, hv⟩ := hcand.found victim mem_cons_self
    have hnotbusy : victim.chainId ∉ [c] := fun hmem => hne (mem_singleton.mp hmem)
    have hseq : rc.seqId ≠ victim.seqId := h.seqId_ne hv hrc hne.symm
    rw [makeRoom, wp_bind, wp_get, wp_ite]
    split
    · rw [wp_bind, wp_onOffload]
      refine wp_mono (drop_spec h.offload victim.seqId) ?_ fun _ _ hf => hf.elim
      rintro - o ⟨hinv, hsettled⟩
      have hstatus : ∀ i, o.status i = if i = victim.seqId then none else s.offload.status i := by
        intro i
        rw [← status_settled, hsettled, status_without,
          status_settled]
      have hold' : o.snapshotBytes rc.seqId = oldBytes := by
        rw [← snapshotBytes_settled, hsettled, snapshotBytes_without _ hseq,
          snapshotBytes_settled, hold]
      rw [wp_ite]
      split
      · next hrows =>
        -- The snapshot was the only copy of this chain: it leaves the index.
        have h₁ : Accounts hooks cfg [victim.chainId, c] { s with offload := o } := by
          refine (h.weaken fun id hid => mem_cons_of_mem _ hid).drop hinv hsettled ?_
          intro id r hr hrseq hid
          refine absurd hrseq (h.seqId_ne hv hr fun heq => hid ?_)
          exact heq ▸ mem_cons_self
        rw [wp_bind, wp_onIndex]
        refine wp_mono (evict_spec h.index victim.chainId) ?_ ?_
        · rintro r index ⟨hinv', hremoved, -⟩
          have hr : r = victim := Option.some.inj (hremoved.before.symm.trans hv)
          subst hr
          have hget : ∀ k, index.records.get? k =
              if k = r.chainId then none else s.index.records.get? k := by
            intro k
            rw [hremoved.records, get?_erase]
          have hkept : ∀ id q, index.records.get? id = some q → s.index.records.get? id = some q := by
            intro id q hq
            rw [hget] at hq
            split at hq
            · cases hq
            · exact hq
          have hstays : ∀ id q, id ≠ r.chainId → s.index.records.get? id = some q →
              index.records.get? id = some q := by
            intro id q hid hq
            rw [hget, if_neg hid, hq]
          have h₂ := h₁.remove hinv' hremoved (by
            show o.status r.seqId = none
            rw [hstatus, if_pos rfl])
          refine wp_mono (makeRoom_spec hreq candidates _ h₂ (hstays c rc hne.symm hrc) hold'
            (hcand.next hstatus hkept hstays)) ?_ fun _ _ hf => hf
          rintro - s' ⟨hacc, hbytes, hroom, hmanager, hspares⟩
          refine ⟨hacc, hbytes, hroom, hmanager, Spares.trans ⟨fun id q hq hkeep => ?_, hkept⟩ hspares⟩
          refine hstays id q ?_ hq
          rintro rfl
          rw [hv] at hq
          cases hq
          rcases hkeep with heq | hactive
          · exact hne heq
          · rw [h.row_of_active hv hnotbusy hactive] at hrows
            cases hrows
        · rintro - index ⟨-, hactive⟩
          rw [h.row_of_active hv hnotbusy (hactive victim hv)] at hrows
          cases hrows
      · next hrows =>
        have hrow : victim.residentRows = 1 := by
          rcases h.records _ victim hv hnotbusy with ⟨hzero, -⟩ | ⟨hone, -⟩
          · exact absurd hzero hrows
          · exact hone
        have h₁ : Accounts hooks cfg [c] { s with offload := o } := by
          refine h.drop hinv hsettled fun id r hr hrseq hid => ?_
          have heq : id = victim.chainId := by
            by_contra hid'
            exact h.seqId_ne hv hr hid' hrseq
          rw [heq, hv] at hr
          cases hr
          exact hrow
        exact makeRoom_spec hreq candidates _ h₁ hrc hold'
          (hcand.next hstatus (fun _ _ hr => hr) fun _ _ _ hr => hr)
    · next hroom => exact ⟨h, hold, not_lt.mp hroom, rfl, .refl c s.index⟩

end

section

variable {c : ι}

theorem saveFinishedChain_spec (hl : hooks.Lawful) (h : Accounts hooks cfg [c] s)
    (hq : s.index.records.get? c = some q) (hrows : q.residentRows = 1) (polled : Nat) :
    wp (saveFinishedChain hooks cfg q polled)
      (fun _ s' => Accounts hooks cfg [] s' ∧ Spares c s.index s'.index)
      (fun e s' => Accounts hooks cfg [c] s' ∧ Spares c s.index s'.index ∧
        (e = capacityNotReserved → SaveRaises hooks e)) s := by
  unfold saveFinishedChain
  split
  · next hcap =>
    refine ⟨h.release fun r hr => .inr ?_, .refl c _⟩
    rw [hq] at hr
    cases hr
    refine ⟨hrows, fun _ => ?_⟩
    rw [h.disabled hcap]
    nofun
  · next capacity hcap =>
    rw [wp_bind, wp_onManager]
    have hstate := hl.snapshotMethodState q.seqId s.manager
    cases hrun : hooks.snapshotMethodState q.seqId s.manager with
    | mk result m =>
      rw [hrun] at hstate
      have h₁ : Accounts hooks cfg [c] { s with manager := m } :=
        h.manage fun k r _ _ _ hres => (hstate r.seqId) ▸ hres
      cases result with
      | error e =>
        rw [wp_of_error hrun]
        exact ⟨h₁, .refl c _, fun _ => .inr (.inr ⟨_, s.manager, by rw [hrun]⟩)⟩
      | ok state =>
        rw [wp_of_ok hrun, wp_bind, wp_query]
        split
        · next required hreq =>
          rw [wp_bind, wp_raiseIf]
          refine ⟨fun _ => ⟨h₁, .refl c _, nofun⟩, fun hfits => ?_⟩
          rw [wp_bind, wp_get, wp_bind, h.index.keys c q hq]
          refine wp_mono (makeRoom_spec (not_lt.mp hfits) _ _ h₁ hq rfl
            (candidates_dropCandidates h₁ c)) ?_ fun _ _ hf => hf.elim
          rintro - s' ⟨hacc, hbytes, hroom, hmanager, hspares⟩
          rw [← hbytes] at hroom
          have hreq' : requiredBytes hooks s'.manager q.seqId state = .ok required :=
            hmanager ▸ hreq
          refine wp_mono (save_spec hl hcap hacc (hspares.stays c q hq (.inl rfl)) hrows hreq' hroom
            polled) ?_ ?_
          · rintro - s'' ⟨hacc', hindex⟩
            exact ⟨hacc', hindex ▸ hspares⟩
          · rintro e s'' ⟨hacc', hindex, hraises⟩
            exact ⟨hacc', hindex ▸ hspares, hraises⟩
        · next e herr => exact ⟨h₁, .refl c _, fun _ => .of_requiredBytes herr⟩

theorem finishTurn_spec (hl : hooks.Lawful) (h : Accounts hooks cfg [] s)
    (hr : s.index.records.get? c = some r) (digest : δ) (n : Nat) :
    wp (finishTurn hooks cfg c r.seqId digest n)
      (fun q s' => Accounts hooks cfg [c] s' ∧ q.residentRows = 1 ∧
        Rewritten c r q s.index s'.index ∧ q.state = .idle ∧
        q.tokenIds = r.tokenIds ∧ q.processedTokenCount = n ∧ r.processedTokenCount ≤ n)
      (fun _ s' => Accounts hooks cfg [c] s' ∧ s'.index = s.index) s := by
  unfold finishTurn
  rw [wp_bind]
  have hmanage : ∀ m, (∀ j, j ≠ r.seqId → hooks.hasResidency m j = hooks.hasResidency s.manager j) →
      Accounts hooks cfg [c] { s with manager := m } := by
    intro m hm
    refine (h.start c).manage fun k q hq hk _ hres => ?_
    rwa [← hm q.seqId (h.seqId_ne hr hq fun heq => hk (heq ▸ mem_cons_self))]
  have hturn := hl.onChainTurnFinished r.seqId n s.manager
  rw [wp_onManager]
  cases hrun : hooks.onChainTurnFinished r.seqId n s.manager with
  | mk result m =>
    rw [hrun] at hturn
    cases result with
    | error e =>
      rw [wp_of_error hrun]
      exact ⟨hmanage m hturn, rfl⟩
    | ok u =>
      rw [wp_of_ok hrun, wp_bind, wp_onManager, wp_modify]
      have h₁ := hmanage (hooks.releaseDecode r.seqId m) fun j hj => by
        rw [hl.releaseDecode, hturn j hj]
      unfold finishValues
      rw [wp_bind, wp_onIndex]
      refine wp_mono (lookup_spec c) ?_ ?_
      · rintro r₁ index ⟨rfl, hr₁⟩
        rw [hr] at hr₁
        cases hr₁
        rw [wp_bind, wp_raiseIf]
        refine ⟨fun _ => ⟨h₁, rfl⟩, fun _ => ?_⟩
        rw [wp_bind, wp_query]
        split
        · rw [wp_bind, wp_query]
          split
          · rw [wp_onIndex]
            refine wp_mono (finishDigest_spec h.index c _) ?_ ?_
            · rintro q index ⟨hinv, r₂, hrewritten, hfin⟩
              have hsame := hrewritten.before
              rw [hr] at hsame
              cases hsame
              refine ⟨h₁.rewrite hinv hrewritten fun hnot => ?_, hfin.residentRows, hrewritten, hfin.state,
                hfin.tokenIds, hfin.processedTokenCount, hfin.forward⟩
              exact absurd mem_cons_self hnot
            · rintro e index rfl
              exact ⟨h₁, rfl⟩
          · exact ⟨h₁, rfl⟩
        · exact ⟨h₁, rfl⟩
      · rintro e index ⟨rfl, -⟩
        exact ⟨h₁, rfl⟩

theorem invalidate_spec (h : Accounts hooks cfg busy s) (hbusy : ∀ id ∈ busy, id = c) :
    wp (invalidate cfg c)
      (fun r s' => Accounts hooks cfg [] s' ∧ Removed c r s.index s'.index ∧
        s'.manager = s.manager)
      (fun _ s' => s' = s ∧ s.index.records.get? c = none) s := by
  have hbusy' : ∀ id ∈ busy, id ∈ [c] := fun id hid => mem_singleton.mpr (hbusy id hid)
  have hend : ∀ (o : ChainOffload κ), Accounts hooks cfg [c] { s with offload := o } →
      (∀ r, s.index.records.get? c = some r → o.status r.seqId = none) →
      wp (onIndex (ChainCacheIndex.invalidate cfg.index c))
        (fun r s' => Accounts hooks cfg [] s' ∧ Removed c r s.index s'.index ∧
          s'.manager = s.manager)
        (fun _ s' => s' = { s with offload := o } ∧ s.index.records.get? c = none)
        { s with offload := o } := by
    intro o ho hstatus
    rw [wp_onIndex]
    refine wp_mono (ChainCacheIndex.invalidate_spec h.index c) ?_ ?_
    · rintro r index ⟨hinv, hremoved⟩
      exact ⟨ho.remove hinv hremoved (hstatus r hremoved.before), hremoved, rfl⟩
    · rintro e index ⟨rfl, hnone⟩
      exact ⟨rfl, hnone⟩
  unfold invalidate
  rw [wp_bind, wp_whenOffload]
  refine ⟨fun hcap => ?_, fun _ => ?_⟩
  · exact hend s.offload (h.weaken hbusy') fun r _ => h.disabled hcap _
  · unfold dropVictim
    rw [wp_bind, wp_onIndex]
    refine wp_mono (lookup_spec c) ?_ ?_
    · rintro r index ⟨rfl, hr⟩
      rw [wp_onOffload]
      refine wp_mono (drop_spec h.offload r.seqId) ?_ fun _ _ hf => hf.elim
      rintro - o ⟨hinv, hsettled⟩
      refine wp_mono (hend o ?_ fun q hq => ?_) (fun _ _ hs => hs) ?_
      · refine (h.weaken hbusy').drop hinv hsettled fun k q hq hseq hk => ?_
        exact absurd hseq (h.seqId_ne hr hq fun heq => hk (heq ▸ mem_cons_self))
      · rw [hr] at hq
        cases hq
        rw [← status_settled, hsettled, status_without, if_pos rfl]
      · rintro - s' ⟨-, hnone⟩
        rw [hr] at hnone
        cases hnone
    · rintro e index ⟨rfl, hnone⟩
      exact ⟨rfl, hnone⟩

theorem Accounts.freePayload (hl : hooks.Lawful) (h : Accounts hooks cfg busy s) (seqId : Nat) :
    Accounts hooks cfg busy { s with manager := hooks.freeSeqPayload seqId s.manager } :=
  h.manage fun _ r _ _ _ hres => (hl.freeSeqPayload seqId s.manager r.seqId hres).2

theorem chainFinish_spec (hl : hooks.Lawful) (h : Accounts hooks cfg [] s) (c : ι) (seqId : Nat)
    (digest : δ) (n polled : Nat) :
    wp (chainFinish hooks cfg c seqId digest n polled)
      (fun q s' => Accounts hooks cfg [] s' ∧ ∃ r index,
        Rewritten c r q s.index index ∧ Spares c index s'.index ∧ r.seqId = seqId ∧
        r.state = .active ∧ r.processedTokenCount ≤ n ∧ q.tokenIds = r.tokenIds ∧ q.state = .idle ∧
        q.processedTokenCount = n)
      (fun _ s' => Accounts hooks cfg [] s' ∧
        ∀ id r, s'.index.records.get? id = some r → s.index.records.get? id = some r) s := by
  have hfail : ∀ e s₁, Accounts hooks cfg [c] s₁ → (∃ r, s₁.index.records.get? c = some r) →
      (∀ id r, id ≠ c → s₁.index.records.get? id = some r → s.index.records.get? id = some r) →
      wp (do
          let _ ← invalidate cfg c
          onManager (PyM.modify (hooks.freeSeqPayload seqId))
          raise e : RuntimeM ι φ δ μ κ (ChainRecord ι φ δ))
        (fun _ _ => False)
        (fun _ s' => Accounts hooks cfg [] s' ∧
          ∀ id r, s'.index.records.get? id = some r → s.index.records.get? id = some r) s₁ := by
    rintro e s₁ h₁ ⟨rc, hrc⟩ hkept
    rw [wp_bind]
    refine wp_mono (invalidate_spec h₁ fun id hid => mem_singleton.mp hid) ?_ ?_
    · rintro r s₂ ⟨h₂, hremoved, -⟩
      rw [wp_bind, wp_onManager, wp_modify, wp_raise]
      refine ⟨h₂.freePayload hl seqId, fun id q hq => ?_⟩
      replace hq : s₂.index.records.get? id = some q := hq
      rw [hremoved.records, get?_erase] at hq
      split at hq
      · cases hq
      · next hne => exact hkept id q hne hq
    · rintro e' s₂ ⟨-, hnone⟩
      rw [hrc] at hnone
      cases hnone
  have hsame : ∀ (_ : PyError) (s' : ChainRuntime ι φ δ μ κ), s' = s → Accounts hooks cfg [] s' ∧
      ∀ id r, s'.index.records.get? id = some r → s.index.records.get? id = some r := by
    rintro - s' rfl
    exact ⟨h, fun _ _ hr => hr⟩
  unfold chainFinish
  rw [wp_bind, wp_onIndex]
  refine wp_mono (lookup_spec c) ?_ fun e index he => hsame e _ (by rw [he.1])
  rintro r index ⟨rfl, hr⟩
  rw [wp_bind, wp_raiseIf]
  refine ⟨fun _ => hsame (.outOfFuel) _ rfl, fun hseq => ?_⟩
  have hseq := not_not.mp hseq
  subst hseq
  rw [wp_bind, wp_raiseIf]
  refine ⟨fun _ => hsame (.outOfFuel) _ rfl, fun hactive => ?_⟩
  rw [wp_tryExcept, wp_bind]
  refine wp_mono (finishTurn_spec hl h hr digest n) ?_ ?_
  · rintro q s₁ ⟨h₁, hrows, hrewritten, hidle, htokens, hcount, hforward⟩
    have hq : s₁.index.records.get? c = some q := by
      rw [hrewritten.records, get?_set_self]
    rw [wp_bind]
    refine wp_mono (saveFinishedChain_spec hl h₁ hq hrows polled) ?_ ?_
    · rintro - s₂ ⟨h₂, hspares⟩
      exact ⟨h₂, r, s₁.index, hrewritten, hspares, rfl, not_not.mp hactive, hforward, htokens, hidle,
        hcount⟩
    · rintro e s₂ ⟨h₂, hspares, -⟩
      refine wp_mono (hfail e s₂ h₂ ⟨q, hspares.stays c q hq (.inl rfl)⟩ fun id r' hne hr' => ?_)
        (fun _ _ hf => hf.elim) fun _ _ he => he
      have hr'' := hspares.kept id r' hr'
      rw [hrewritten.records, get?_set_ne _ _ hne] at hr''
      exact hr''
  · rintro e s₁ ⟨h₁, hindex⟩
    refine wp_mono (hfail e s₁ h₁ ⟨r, hindex ▸ hr⟩ fun id r' _ hr' => hindex ▸ hr')
      (fun _ _ hf => hf.elim) fun _ _ he => he

end

end ChainRuntime

end SparseEngine
