import SparseEngine.Chain.Resumption

/-! The chain requests of `LLMEngine`. -/

namespace SparseEngine

open PyM List Finset Dict ChainCacheIndex ChainRuntime

structure ActiveTurn (ι : Type) where
  chainId : ι
  numPromptTokens : Nat
  maxTokens : Nat
deriving DecidableEq, Repr

def ActiveTurn.budget {ι : Type} (turn : ActiveTurn ι) : Nat := turn.numPromptTokens + turn.maxTokens

structure ChainEngine (ι φ δ μ κ : Type) where
  runtime : ChainRuntime ι φ δ μ κ
  activeChainSequences : Dict Nat (ActiveTurn ι) := .empty
  nextSeqId : Nat := 0

structure ChainRequest (ι : Type) where
  chainId : Option ι
  prompt : List Int
  maxTokens : Nat
  appendOnly : Bool := false
  newChainId : ι
  polled : Nat × Nat × Nat := (0, 0, 0)
  scheduled : Bool := true

/-- `except ChainPrefixMismatchError`. -/
def PyError.isPrefixMismatch : PyError → Bool
  | .custom kind _ => decide (kind = ChainErrorClass.prefixMismatch.number)
  | _ => false

namespace ChainEngine

variable {ι φ δ μ κ α : Type}

abbrev EngineM (ι φ δ μ κ : Type) := PyM (ChainEngine ι φ δ μ κ)

def onRuntime (m : PyM (ChainRuntime ι φ δ μ κ) α) : EngineM ι φ δ μ κ α :=
  zoom (·.runtime) (fun runtime s => { s with runtime := runtime }) m

variable [LinearOrder ι] [DecidableEq φ] [DecidableEq δ]

section

variable (hooks : ChainManager μ κ) (cfg : ChainRuntimeConfig φ δ)

def findExisting : Option ι → EngineM ι φ δ μ κ (Option (ChainRecord ι φ δ))
  | none => pure none
  | some chainId => do
    let r ← onRuntime (onIndex (lookup chainId))
    return some r

variable (req : ChainRequest ι)

def planRequest (existing : Option (ChainRecord ι φ δ)) (seqId : Nat) :
    EngineM ι φ δ μ κ (ChainAdmissionPlan ι) :=
  tryExcept
    (onRuntime (planAdmission hooks cfg (req.chainId.getD req.newChainId) seqId
      req.prompt req.polled.1)) fun e =>
    if e.isPrefixMismatch ∧ existing.isSome ∧ req.appendOnly = false then do
      onRuntime (chainInvalidate hooks cfg (req.chainId.getD req.newChainId) (some seqId))
      onRuntime (planAdmission hooks cfg req.newChainId seqId req.prompt
        req.polled.2.1)
    else raise e

def activeBudgets (turns : List (ActiveTurn ι)) : Dict ι Nat :=
  turns.foldl (fun d turn => Dict.set d turn.chainId turn.budget) .empty

def maxTokenCounts (s : ChainEngine ι φ δ μ κ) (chainId : ι) (count : Nat) : Dict ι Nat :=
  (activeBudgets s.activeChainSequences.values).set chainId count

def validationDigest (plan : ChainAdmissionPlan ι) : EngineM ι φ δ μ κ δ :=
  match plan.status with
  | .created => pure (cfg.index.digest [])
  | .resumed => do
    let r ← onRuntime (onIndex (lookup plan.chainId))
    match r.processedTokenDigest with
    | some digest => pure digest
    | none => raise (.valueError "processed_token_digest")

/-- `scheduler.add` and the registration of the sequence. -/
def scheduleRequest (plan : ChainAdmissionPlan ι) (seqId : Nat) :
    EngineM ι φ δ μ κ Unit :=
  if req.scheduled then
    PyM.modify fun s =>
      { s with
        activeChainSequences := s.activeChainSequences.set seqId
          ⟨plan.chainId, req.prompt.length, req.maxTokens⟩ }
  else do
    onRuntime (chainInvalidate hooks cfg plan.chainId (some seqId))
    raise (.runtimeError "scheduler.add")

/-- `admit_request` in chain mode. -/
def admitRequest : EngineM ι φ δ μ κ Unit := do
  let existing ← findExisting req.chainId
  let fresh := (← PyM.get).nextSeqId
  PyM.modify fun s => { s with nextSeqId := s.nextSeqId + 1 }
  let seqId := existing.elim fresh (·.seqId)
  let plan ← planRequest hooks cfg req existing seqId
  raiseIf (plan.status = .resumed ∧ req.prompt.length ≤ plan.reusedTokens)
    (ChainErrorClass.prefixMismatch.error
      "A resumed chain request must include at least one suffix token beyond the processed boundary.")
  let counts := maxTokenCounts (← PyM.get) plan.chainId (req.prompt.length + req.maxTokens)
  onRuntime (onIndex
    (validateTokenHistoryAdmission cfg.index plan counts))
  let digest ← validationDigest cfg plan
  let _ ← onRuntime (validateAdmissionPlan hooks cfg plan req.prompt.length digest
    req.polled.2.2)
  let _ ← onRuntime (chainApplyAdmission hooks cfg plan)
  scheduleRequest hooks cfg req plan seqId

variable (seqId : Nat)

def forgetSequence : EngineM ι φ δ μ κ Unit :=
  PyM.modify fun s => { s with activeChainSequences := s.activeChainSequences.erase seqId }

/-- The end of a chain sequence in `step`. -/
def completeSequence (tokenIds : List Int) (polled : Nat) :
    EngineM ι φ δ μ κ Unit := do
  let s ← PyM.get
  match s.activeChainSequences.get? seqId with
  | none => pure ()
  | some turn => do
    let prepared ← onRuntime (onIndex
      (prepareProcessedTokens cfg.index turn.chainId seqId tokenIds
        (tokenIds.length - 1)))
    let _ ← onRuntime (chainFinish hooks cfg prepared.chainId prepared.seqId
      prepared.processedTokenDigest prepared.processedTokenCount polled)
    let _ ← onRuntime (onIndex
      (rememberPreparedTokens cfg.index prepared))
    forgetSequence seqId

def abortRequest : EngineM ι φ δ μ κ Unit := do
  let s ← PyM.get
  match s.activeChainSequences.get? seqId with
  | some turn => do
    onRuntime (chainInvalidate hooks cfg turn.chainId (some seqId))
    forgetSequence seqId
  | none =>
    match s.runtime.index.seqIdToChainId.get? seqId with
    | some chainId => onRuntime (chainInvalidate hooks cfg chainId (some seqId))
    | none => pure ()

def invalidateChain (chainId : ι) : EngineM ι φ δ μ κ Unit := do
  let r ← onRuntime (onIndex (lookup chainId))
  forgetSequence r.seqId
  onRuntime (chainInvalidate hooks cfg chainId (some r.seqId))

def discardChain (chainId : ι) (expectedSeqId : Nat) : EngineM ι φ δ μ κ Unit := do
  let s ← PyM.get
  match s.runtime.index.records.get? chainId with
  | none => pure ()
  | some r => do
    raiseIf (r.seqId ≠ expectedSeqId) (ChainErrorClass.ownerMismatch.error "Chain owner mismatch")
    forgetSequence r.seqId
    onRuntime (chainInvalidate hooks cfg chainId (some r.seqId))

/-- What `step` does for the sequences of a batch that failed in the model. -/
def reclaimFailed : EngineM ι φ δ μ κ Unit := do
  let s ← PyM.get
  match s.activeChainSequences.get? seqId with
  | none => pure ()
  | some turn => do
    let error ← attempt
      (onRuntime (chainInvalidate hooks cfg turn.chainId (some seqId)))
    match error with
    | some _ => pure ()
    | none => forgetSequence seqId

inductive EngineOp (ι μ : Type)
  | admission (req : ChainRequest ι)
  | complete (seqId : Nat) (tokenIds : List Int) (polled : Nat)
  | abort (seqId : Nat)
  | invalidateChain (chainId : ι)
  | discardChain (chainId : ι) (expectedSeqId : Nat)
  | modelFailure (seqIds : List Nat)
  | reclaimIdle (chainId : ι) (seqId : Nat) (demote : Bool)
  | poll (polled : Nat)
  | routingSnapshot
  | step (f : μ → μ)
  | completePrompt (chainId : ι)

def EngineOp.run : EngineOp ι μ → EngineM ι φ δ μ κ Unit
  | .admission req => admitRequest hooks cfg req
  | .complete seqId tokenIds polled => completeSequence hooks cfg seqId tokenIds polled
  | .abort seqId => abortRequest hooks cfg seqId
  | .invalidateChain chainId => ChainEngine.invalidateChain hooks cfg chainId
  | .discardChain chainId expectedSeqId => ChainEngine.discardChain hooks cfg chainId expectedSeqId
  | .modelFailure seqIds => forEach (reclaimFailed hooks cfg) seqIds
  | .reclaimIdle chainId seqId demote =>
    onRuntime (chainReclaimIdle hooks cfg chainId seqId demote)
  | .poll polled =>
    onRuntime ((RuntimeOp.poll polled : RuntimeOp ι δ μ).run hooks cfg)
  | .routingSnapshot =>
    onRuntime ((RuntimeOp.routingSnapshot : RuntimeOp ι δ μ).run hooks cfg)
  | .step f => onRuntime ((RuntimeOp.step f : RuntimeOp ι δ μ).run hooks cfg)
  | .completePrompt chainId => onRuntime (ChainRuntime.completePrompt chainId)

def EngineOp.Permitted (s : ChainEngine ι φ δ μ κ) : EngineOp ι μ → Prop
  | .admission req =>
    s.runtime.index.records.get? req.newChainId = none ∧
    s.runtime.index.tombstones.get? req.newChainId = none ∧
    ∀ seqId turn, s.activeChainSequences.get? seqId = some turn → turn.chainId ≠ req.newChainId
  | .complete seqId tokenIds _ =>
    ∀ turn, s.activeChainSequences.get? seqId = some turn → tokenIds.length ≤ turn.budget
  | .step f =>
    (RuntimeOp.step f : RuntimeOp ι δ μ).Permitted hooks s.runtime
  | _ => True

/-- The states that the chain requests of one engine reach. -/
inductive Reachable : ChainEngine ι φ δ μ κ → Prop
  | start (m : μ) : Reachable { runtime := { manager := m } }
  | step {s : ChainEngine ι φ δ μ κ} (op : EngineOp ι μ) :
      Reachable s → op.Permitted hooks s → Reachable (op.run hooks cfg s).2

end

def turnWeight (active : Dict Nat (ActiveTurn ι)) (id : ι) (r : ChainRecord ι φ δ) : Nat :=
  match r.state, active.get? r.seqId with
  | .active, some turn => if turn.chainId = id then turn.budget else r.tokenIds.length
  | _, _ => r.tokenIds.length

def reservedTokens (s : ChainEngine ι φ δ μ κ) : Nat :=
  s.runtime.index.records.sumBy (turnWeight s.activeChainSequences)

/-- Every running turn reserves its budget, and the reservations fit in the history. -/
structure Inv (hooks : ChainManager μ κ) (cfg : ChainRuntimeConfig φ δ)
    (s : ChainEngine ι φ δ μ κ) : Prop where
  accounts : Accounts hooks cfg [] s.runtime
  turns : ∀ seqId turn r, s.activeChainSequences.get? seqId = some turn →
    s.runtime.index.records.get? turn.chainId = some r →
    r.seqId = seqId ∧ r.tokenIds.length ≤ turn.budget
  histories : ∀ id r, s.runtime.index.records.get? id = some r →
    r.tokenIds.length ≤ r.processedTokenCount + 1
  seqIds : ∀ id r, s.runtime.index.records.get? id = some r → r.seqId < s.nextSeqId
  keys : ∀ seqId turn, s.activeChainSequences.get? seqId = some turn → seqId < s.nextSeqId
  reserved : ∀ n, cfg.index.maxTokenHistoryTokens = some n → s.reservedTokens ≤ n

section

omit [DecidableEq φ] [DecidableEq δ]

variable {hooks : ChainManager μ κ} {cfg : ChainRuntimeConfig φ δ} {s s' : ChainEngine ι φ δ μ κ}
  {id : ι} {r q : ChainRecord ι φ δ}

variable {active : Dict Nat (ActiveTurn ι)}

theorem turnWeight_congr (h : SameTurn r q) :
    turnWeight active id q = turnWeight active id r := by
  unfold turnWeight
  rw [h.state, h.seqId, h.tokenIds]

theorem turnWeight_idle (h : r.state = .idle) : turnWeight active id r = r.tokenIds.length := by
  unfold turnWeight
  rw [h]

theorem turnWeight_absent (h : active.get? r.seqId = none) :
    turnWeight active id r = r.tokenIds.length := by
  unfold turnWeight
  rw [h]
  cases r.state <;> rfl

theorem Inv.length_le_weight (h : Inv hooks cfg s) (hr : s.runtime.index.records.get? id = some r) :
    r.tokenIds.length ≤ turnWeight s.activeChainSequences id r := by
  unfold turnWeight
  split
  · next turn _ hturn =>
    split
    · next heq => exact (h.turns r.seqId turn r hturn (heq ▸ hr)).2
    · exact le_rfl
  · exact le_rfl

theorem Inv.mono (h : Inv hooks cfg s) (hacc : Accounts hooks cfg [] s'.runtime)
    (hrecords : ∀ id r', s'.runtime.index.records.get? id = some r' →
      ∃ r, s.runtime.index.records.get? id = some r ∧ r'.seqId = r.seqId ∧
        r'.tokenIds.length ≤ r'.processedTokenCount + 1 ∧
        turnWeight s'.activeChainSequences id r' ≤ turnWeight s.activeChainSequences id r)
    (hturns : ∀ seqId turn, s'.activeChainSequences.get? seqId = some turn →
      s.activeChainSequences.get? seqId = some turn ∧
        ∀ r, s'.runtime.index.records.get? turn.chainId = some r → r.tokenIds.length ≤ turn.budget)
    (hnext : s.nextSeqId ≤ s'.nextSeqId) : Inv hooks cfg s' := by
  refine ⟨hacc, fun seqId turn r' hturn hr' => ?_, fun id r' hr' => ?_, fun id r' hr' => ?_,
    fun seqId turn hturn => ?_, fun n hn => ?_⟩
  · obtain ⟨r, hr, hseq, -, -⟩ := hrecords _ r' hr'
    obtain ⟨hturn', hbudget⟩ := hturns seqId turn hturn
    exact ⟨hseq.trans (h.turns seqId turn r hturn' hr).1, hbudget r' hr'⟩
  · obtain ⟨-, -, -, hlen, -⟩ := hrecords id r' hr'
    exact hlen
  · obtain ⟨r, hr, hseq, -, -⟩ := hrecords id r' hr'
    exact hseq ▸ lt_of_lt_of_le (h.seqIds id r hr) hnext
  · exact lt_of_lt_of_le (h.keys seqId turn (hturns seqId turn hturn).1) hnext
  · refine le_trans ?_ (h.reserved n hn)
    refine sumBy_mono fun id r' hr' => ?_
    obtain ⟨r, hr, -, -, hle⟩ := hrecords id r' hr'
    exact ⟨r, hr, hle⟩

theorem Inv.thin (h : Inv hooks cfg s) {runtime : ChainRuntime ι φ δ μ κ}
    (hacc : Accounts hooks cfg [] runtime)
    (hthins : Thins s.runtime.index runtime.index) :
    Inv hooks cfg { s with runtime := runtime } := by
  refine h.mono hacc (fun id r' hr' => ?_) (fun seqId turn hturn => ⟨hturn, fun r' hr' => ?_⟩) le_rfl
  · obtain ⟨r, hr, hsame⟩ := hthins id r' hr'
    refine ⟨r, hr, hsame.seqId, ?_, le_of_eq (turnWeight_congr hsame)⟩
    rw [hsame.tokenIds, hsame.processedTokenCount]
    exact h.histories id r hr
  · obtain ⟨r, hr, hsame⟩ := hthins _ r' hr'
    rw [hsame.tokenIds]
    exact (h.turns seqId turn r hturn hr).2

theorem Inv.forget (h : Inv hooks cfg s) (seqId : Nat) :
    Inv hooks cfg { s with activeChainSequences := s.activeChainSequences.erase seqId } := by
  have hget : ∀ i turn, (s.activeChainSequences.erase seqId).get? i = some turn →
      i ≠ seqId ∧ s.activeChainSequences.get? i = some turn := by
    intro i turn hi
    rw [get?_erase] at hi
    split at hi
    · cases hi
    · next hne => exact ⟨hne, hi⟩
  refine h.mono h.accounts (fun id r hr => ⟨r, hr, rfl, h.histories id r hr, ?_⟩)
    (fun i turn hi => ⟨(hget i turn hi).2, fun r hr => ?_⟩) le_rfl
  · by_cases heq : r.seqId = seqId
    · refine le_trans (le_of_eq ?_) (h.length_le_weight hr)
      refine turnWeight_absent ?_
      rw [heq]
      exact get?_erase_self _ _
    · unfold turnWeight
      dsimp only
      rw [get?_erase_ne _ heq]
  · exact (h.turns i turn r (hget i turn hi).2 hr).2

omit [LinearOrder ι] in
theorem ActiveTurn.foldl_budgets [DecidableEq ι] (id : ι) : ∀ (turns : List (ActiveTurn ι))
    (d : Dict ι Nat) (b : Nat),
    (turns.foldl (fun d turn => Dict.set d turn.chainId turn.budget) d).get? id = some b →
    (∃ turn ∈ turns, turn.chainId = id ∧ turn.budget = b) ∨ d.get? id = some b
  | [], _, _, h => .inr h
  | turn :: turns, d, b, h => by
    rcases ActiveTurn.foldl_budgets id turns _ b h with ⟨turn', hmem, hrest⟩ | hd
    · exact .inl ⟨turn', List.mem_cons_of_mem _ hmem, hrest⟩
    · rw [get?_set] at hd
      split at hd
      · next heq => exact .inl ⟨turn, List.mem_cons_self, heq.symm, Option.some.inj hd⟩
      · exact .inr hd

theorem budget_of_activeBudgets {turns : List (ActiveTurn ι)} {b : Nat}
    (h : (activeBudgets turns).get? id = some b) :
    ∃ turn ∈ turns, turn.chainId = id ∧ turn.budget = b := by
  rcases ActiveTurn.foldl_budgets id turns .empty b h with hturn | hempty
  · exact hturn
  · cases hempty

omit [LinearOrder ι] in
theorem ActiveTurn.foldl_budgets_isSome [DecidableEq ι] (id : ι) : ∀ (turns : List (ActiveTurn ι))
    (d : Dict ι Nat), (∃ turn ∈ turns, turn.chainId = id) ∨ (∃ b, d.get? id = some b) →
    ∃ b, (turns.foldl (fun d turn => Dict.set d turn.chainId turn.budget) d).get? id = some b
  | [], _, h => h.resolve_left fun ⟨_, hmem, _⟩ => List.not_mem_nil hmem
  | turn :: turns, d, h => by
    refine ActiveTurn.foldl_budgets_isSome id turns _ ?_
    by_cases heq : id = turn.chainId
    · refine .inr ⟨turn.budget, ?_⟩
      rw [heq, get?_set_self]
    · rcases h with ⟨turn', hmem, hid⟩ | ⟨b, hb⟩
      · rcases mem_cons.mp hmem with rfl | hmem
        · exact absurd hid.symm heq
        · exact .inl ⟨turn', hmem, hid⟩
      · exact .inr ⟨b, by rw [get?_set_ne _ _ heq, hb]⟩

theorem Inv.historyLength_le_budget (h : Inv hooks cfg s) {b : Nat}
    (hb : (activeBudgets s.activeChainSequences.values).get? id = some b) :
    historyLength s.runtime.index id ≤ b := by
  obtain ⟨turn, hmem, rfl, rfl⟩ := budget_of_activeBudgets hb
  obtain ⟨seqId, hturn⟩ := Dict.mem_values.mp hmem
  unfold historyLength
  cases hr : s.runtime.index.records.get? turn.chainId with
  | none => exact Nat.zero_le _
  | some r => exact (h.turns seqId turn r hturn hr).2

theorem Inv.budget_of_turn (h : Inv hooks cfg s) {turn : ActiveTurn ι} {seqId : Nat}
    (hturn : s.activeChainSequences.get? seqId = some turn)
    (hr : s.runtime.index.records.get? turn.chainId = some r) :
    (activeBudgets s.activeChainSequences.values).get? turn.chainId = some turn.budget := by
  have hmem : turn ∈ s.activeChainSequences.values := Dict.mem_values.mpr ⟨seqId, hturn⟩
  obtain ⟨b, hb⟩ := ActiveTurn.foldl_budgets_isSome turn.chainId s.activeChainSequences.values .empty
    (.inl ⟨turn, hmem, rfl⟩)
  replace hb : (activeBudgets s.activeChainSequences.values).get? turn.chainId = some b := hb
  obtain ⟨turn', hmem', hid, rfl⟩ := budget_of_activeBudgets hb
  obtain ⟨seqId', hturn'⟩ := Dict.mem_values.mp hmem'
  -- Two sequences of one chain are one: both are the owner of its record.
  have hseq : seqId' = seqId := by
    rw [← (h.turns seqId turn r hturn hr).1, ← (h.turns seqId' turn' r hturn' (hid ▸ hr)).1]
  rw [hseq, hturn] at hturn'
  cases hturn'
  exact hb

def chargedTokens (i : ChainCacheIndex ι φ δ) (counts : Dict ι Nat) : Nat :=
  counts.sumBy fun id count => count - historyLength i id

theorem sum_counts_eq {i : ChainCacheIndex ι φ δ} {counts : Dict ι Nat}
    (h : ∀ id count, counts.get? id = some count → historyLength i id ≤ count) :
    (counts.entries.map fun e => (e.2 : Int) - historyLength i e.1).sum =
      (chargedTokens i counts : Nat) := by
  unfold chargedTokens sumBy
  have hmap : ∀ l : List (ι × Nat), (∀ e ∈ l, historyLength i e.1 ≤ e.2) →
      (l.map fun e => (e.2 : Int) - historyLength i e.1).sum =
        ((l.map fun e => e.2 - historyLength i e.1).sum : Nat) := by
    intro l
    induction l with
    | nil => exact fun _ => rfl
    | cons e l ih =>
      intro hl
      have he := hl e List.mem_cons_self
      rw [List.map_cons, List.map_cons, List.sum_cons, List.sum_cons,
        ih fun e' he' => hl e' (List.mem_cons_of_mem _ he')]
      push_cast [he]
      ring
  exact hmap counts.entries fun e he => h e.1 e.2 (mem_entries.mp he)

theorem Inv.reserved_admitted (h : Inv hooks cfg s) {plan : ChainAdmissionPlan ι}
    (index : ChainCacheIndex ι φ δ) (active : Dict Nat (ActiveTurn ι)) (count : Nat)
    (hnodup : plan.victimChainIds.Nodup) (hself : plan.chainId ∉ plan.victimChainIds)
    (hchain : ∀ r, index.records.get? plan.chainId = some r →
      turnWeight active plan.chainId r ≤ count)
    (hlen : historyLength s.runtime.index plan.chainId ≤ count)
    (hothers : ∀ id r', id ≠ plan.chainId → index.records.get? id = some r' →
      id ∉ plan.victimChainIds ∧ ∃ r, s.runtime.index.records.get? id = some r ∧
        turnWeight active id r' ≤ turnWeight s.activeChainSequences id r) :
    index.records.sumBy (turnWeight active) +
        (plan.victimChainIds.map (historyLength s.runtime.index)).sum ≤
      rememberedTokens s.runtime.index +
        chargedTokens s.runtime.index (maxTokenCounts s plan.chainId count) := by
  generalize hcounts : maxTokenCounts s plan.chainId count = counts
  have hget : ∀ id, counts.get? id = if id = plan.chainId then some count
      else (activeBudgets s.activeChainSequences.values).get? id := by
    intro id
    rw [← hcounts]
    exact get?_set _ _ _ _
  let T : Finset ι := s.runtime.index.records.keySet ∪ index.records.keySet ∪ counts.keySet ∪
    plan.victimChainIds.toFinset
  have hvictims : (plan.victimChainIds.map (historyLength s.runtime.index)).sum =
      ∑ id ∈ T, if id ∈ plan.victimChainIds then
        historyLength s.runtime.index id else 0 := by
    rw [← sum_toFinset _ hnodup,
      ← sum_subset (subset_union_right : plan.victimChainIds.toFinset ⊆ T)]
    · refine sum_congr rfl fun id hid => ?_
      rw [if_pos (mem_toFinset.mp hid)]
    · intro id _ hid
      rw [if_neg fun hmem => hid (mem_toFinset.mpr hmem)]
  have hremembered : rememberedTokens s.runtime.index =
      ∑ id ∈ T, historyLength s.runtime.index id :=
    Dict.sumBy_eq_sum_of_subset _ fun id hid =>
      Finset.mem_union_left _ (Finset.mem_union_left _ (Finset.mem_union_left _ hid))
  have hcharged : chargedTokens s.runtime.index counts = ∑ id ∈ T, counts.weightAt
      (fun id count => count - historyLength s.runtime.index id) id :=
    Dict.sumBy_eq_sum_of_subset _ fun id hid =>
      Finset.mem_union_left _ (Finset.mem_union_right _ hid)
  have hweights : index.records.sumBy (turnWeight active) =
      ∑ id ∈ T, index.records.weightAt (turnWeight active) id :=
    Dict.sumBy_eq_sum_of_subset _ fun id hid =>
      Finset.mem_union_left _ (Finset.mem_union_left _ (Finset.mem_union_right _ hid))
  rw [hvictims, hremembered, hcharged, hweights, ← Finset.sum_add_distrib, ← Finset.sum_add_distrib]
  refine Finset.sum_le_sum fun id _ => ?_
  by_cases hid : id = plan.chainId
  · -- The chain itself: its budget is among the counts.
    subst hid
    have hcharge : counts.weightAt (fun id count => count -
        historyLength s.runtime.index id) plan.chainId =
          count - historyLength s.runtime.index plan.chainId :=
      weightAt_of_get (by rw [hget, if_pos rfl])
    rw [if_neg hself, hcharge]
    cases hr : index.records.get? plan.chainId with
    | none =>
      rw [weightAt, hr]
      exact Nat.zero_le _
    | some r =>
      have hle := hchain r hr
      rw [weightAt_of_get hr]
      omega
  · cases hr : index.records.get? id with
    | none =>
      rw [weightAt, hr]
      dsimp only [Option.elim]
      split
      · omega
      · exact Nat.zero_le _
    | some r' =>
      obtain ⟨hnot, r, hr₀, hle⟩ := hothers id r' hid hr
      have hlen₀ : historyLength s.runtime.index id = r.tokenIds.length := by
        unfold historyLength
        rw [hr₀]
        rfl
      rw [weightAt_of_get hr, if_neg hnot, Nat.add_zero]
      refine le_trans hle ?_
      unfold turnWeight
      split
      · next turn _ hturn =>
        split
        · next heq =>
          -- An ACTIVE chain that runs: its budget is among the counts.
          have hbudget := h.budget_of_turn hturn (heq ▸ hr₀)
          have hcharge : counts.weightAt (fun id count => count -
              historyLength s.runtime.index id) id =
                turn.budget - historyLength s.runtime.index id :=
            weightAt_of_get (by rw [hget, if_neg hid, ← heq, hbudget])
          rw [hcharge]
          omega
        · rw [hlen₀]
          exact Nat.le_add_right _ _
      · rw [hlen₀]
        exact Nat.le_add_right _ _

end

end ChainEngine

end SparseEngine
