import SparseEngine.HeadSlots.Batches

/-! `HeadSlotCacheManager` owes slots: to an admitted chain or prompt for the tokens of its prompt.
-/

namespace SparseEngine

/-- `ChainRecord`. -/
structure ChainPromise where
  active : Bool
  processedTokenCount : Nat
  /-- `allocated_capacity`. -/
  allocatedCapacity : List Nat
  residentRows : Nat
  reservedSlotsByLayer : List Nat
  reservedRows : Nat
deriving DecidableEq, Repr

/-- `Sequence`, with what is left of its decode window. -/
structure HeadRequest where
  numPromptTokens : Nat
  maxTokens : Nat
  done : Nat
  window : Nat
deriving DecidableEq, Repr

namespace HeadRequest

variable (r : HeadRequest)

/-- `remaining_prefill_tokens`. -/
def remaining : Nat := r.numPromptTokens - r.done

/-- `n` more tokens are appended. -/
def advance (n : Nat) : HeadRequest :=
  { r with
    done := r.done + n
    window := if r.done < r.numPromptTokens then r.window else r.window - n }

/-- `n` tokens are admitted or granted. -/
def Granted (n : Nat) : Prop :=
  0 < n ∧ (n ≤ r.remaining ∨ r.remaining = 0 ∧ n = 1 ∧ n ≤ r.window)

variable {r} {n : Nat}

theorem advance_owed (h : r.Granted n) :
    (r.advance n).remaining + (r.advance n).window + n = r.remaining + r.window := by
  obtain ⟨hn, hg⟩ := h
  simp only [advance, remaining] at hg ⊢
  split <;> omega

theorem advance_remaining : (r.advance n).remaining = r.remaining - n := by
  simp only [advance, remaining]
  omega

end HeadRequest

/-- `HeadSlotCacheManager`. -/
structure HeadSlotCacheManager where
  allocator : HeadSlotAllocator
  maxNumBatchedTokens : Nat
  /-- Whether a chain coordinator is bound. Then every request belongs to a chain. -/
  chained : Bool
  requests : Dict Int HeadRequest
  chains : Dict Int ChainPromise

namespace HeadSlotCacheManager

open HeadSlotAllocator PyM

variable (m : HeadSlotCacheManager)

variable (sid : Int)

/-- `current` of `_outstanding_active_reservations`. -/
def current (p : ChainPromise) (l : Nat) : Nat :=
  if m.allocator.seqRows.contains sid then m.allocator.residency sid l
  else p.allocatedCapacity.getD l 0

def unrealized (p : ChainPromise) (l : Nat) : Nat :=
  p.reservedSlotsByLayer.getD l 0 - (m.current sid p l - p.allocatedCapacity.getD l 0)

/-- The slots of `_outstanding_active_reservations`. -/
def outstandingSlots (exclude : List Int) (l : Nat) : Nat :=
  m.chains.sumBy fun sid p => if p.active = true ∧ sid ∉ exclude then m.unrealized sid p l else 0

/-- The rows of `_outstanding_active_reservations`. -/
def outstandingRows : Nat :=
  m.chains.sumBy fun sid p =>
    if p.active then p.reservedRows - (if m.allocator.seqRows.contains sid then 1 else 0) else 0

def outstanding (exclude : List Int) (l : Nat) : Nat :=
  if m.chained then m.outstandingSlots exclude l else 0

def prefillStepFreeSlotsFor : Except PyError Int :=
  m.allocator.appendCapacity sid
    ((List.range m.allocator.layers).map fun l => (m.outstanding [sid] l : Int))

def windowSlots : Nat := (m.requests.sumBy fun _ r => r.window) * m.allocator.heads

/-- `reserved_prefill_slots`. -/
def reservedPrefillSlots : Nat :=
  if m.chained then 0
  else m.requests.sumBy fun _ r => if 0 < r.done ∧ r.done < r.numPromptTokens then r.remaining else 0

/-- `prompt_admission_budgets` of the cache manager. -/
def prefillBudget (l : Nat) : Nat :=
  m.allocator.freeCounts l - m.reservedPrefillSlots * m.allocator.heads

/-- `prompt_admission_budgets` of the runtime state. -/
def promptBudget (l : Nat) : Nat := m.prefillBudget l - m.windowSlots

/-- `pending` of `reserve_decode_windows`. -/
def pending (l : Nat) : Nat :=
  (m.allocator.freeCounts l - m.prefillBudget l) + m.outstanding [] l

/-- The loop of `_append` over the requests. -/
def checkRequests : List (Int × Nat × Nat) → Except PyError Unit
  | [] => .ok ()
  | b :: rest => do
    let free ← m.prefillStepFreeSlotsFor b.1
    if free < b.2.2 then
      .error (.runtimeError "Head-slot batch would consume another chain's reservation.")
    else
      checkRequests rest

variable (batch : List (Int × Nat × Nat))

def tokens : Nat := (batch.map fun b => b.2.2).sum

def checkBatch : Except PyError Unit :=
  if (List.range m.allocator.layers).any fun l => decide (m.allocator.freeCounts l <
      tokens batch * m.allocator.heads + m.outstanding (batch.map Prod.fst) l) then
    .error (.runtimeError "Whole batch exceeds unreserved plus its own reserved head slots.")
  else
    .ok ()

def append (batch : List (Int × Nat × Nat)) : Except PyError HeadSlotCacheManager := do
  m.checkRequests batch
  if m.maxNumBatchedTokens < tokens batch then
    .error (.runtimeError "Head-slot batch exceeds the reserved append workspace envelope.")
  else
    m.checkBatch batch
    let plan ← m.allocator.planAppend (requestsOf batch)
    match applyAppend plan m.allocator with
    | (.error e, _) => .error e
    | (.ok _, allocator) => .ok { m with allocator := allocator }

/-- `on_forward_end` for one request. -/
def forwardEnd (b : Int × Nat × Nat) : HeadSlotCacheManager :=
  match m.requests.get? b.1 with
  | none => m
  | some r =>
    { m with
      requests := m.requests.set b.1 (r.advance b.2.2)
      chains :=
        match m.chains.get? b.1 with
        | none => m.chains
        | some p =>
          if 0 < r.remaining ∧ r.numPromptTokens ≤ r.done + b.2.2 then
            m.chains.set b.1 { p with reservedSlotsByLayer := [], reservedRows := 0 }
          else m.chains }

/-- The slots that `chain_capacity_deficits` finds missing. -/
def slotDeficit (suffixTokens l : Nat) : Nat :=
  suffixTokens * m.allocator.heads + (m.outstandingSlots [] l + m.windowSlots) -
    m.allocator.freeCounts l

def rowDeficit (rows : Nat) : Nat := rows + m.outstandingRows - m.allocator.freeRows.length

/-- The victims of `plan_admission`. -/
def pickVictims : List Int → (Nat → Nat) → Nat → Except PyError (List Int)
  | candidates, slots, rows =>
    if rows = 0 ∧ (List.range m.allocator.layers).all fun l => decide (slots l = 0) then
      .ok []
    else
      match candidates with
      | [] => .error (.custom 1
          "No capacity is available for the chain request after evicting all IDLE chains; ACTIVE chains remain pinned.")
      | victim :: rest =>
        match m.chains.get? victim with
        | none => .error (.keyError (toString victim))
        | some p => do
          let victims ← pickVictims rest (fun l => slots l - p.allocatedCapacity.getD l 0)
            (rows - p.residentRows)
          return victim :: victims

/-- `free_seq`, with what the scheduler and the coordinator keep of the sequence. -/
def evict : HeadSlotCacheManager :=
  { m with
    allocator := (freeSeq sid m.allocator).2
    requests := m.requests.erase sid
    chains := m.chains.erase sid }

def applyAdmission (victims : List Int) (sid : Int) (r : HeadRequest) (p : ChainPromise) :
    HeadSlotCacheManager :=
  let m₁ := victims.foldl evict m
  { m₁ with requests := m₁.requests.set sid r, chains := m₁.chains.set sid p }

def admitPrompts (news : List (Int × Nat × Nat)) : HeadSlotCacheManager :=
  { m with
    requests := news.foldl (fun d new => d.set new.1 ⟨new.2.1, new.2.2, 0, 0⟩) m.requests }

/-- The chains that `idle_resident_lru` yields. -/
def Candidates (candidates : List Int) : Prop :=
  candidates.Nodup ∧ ∀ v ∈ candidates, v ≠ sid ∧
    ∃ p, m.chains.get? v = some p ∧ p.active = false ∧ 0 < p.residentRows

def GrantedBatch : Prop :=
  (batch.map Prod.fst).Nodup ∧ ∀ b ∈ batch, ∃ r, m.requests.get? b.1 = some r ∧
    b.2.1 = r.done ∧ r.Granted b.2.2

def reserving (p : ChainPromise) (suffixTokens rows : Nat) : ChainPromise :=
  { p with
    active := true
    reservedSlotsByLayer := List.replicate m.allocator.layers (suffixTokens * m.allocator.heads)
    reservedRows := rows }

inductive Step : HeadSlotCacheManager → HeadSlotCacheManager → Prop
  /-- The prompt and the output of a request fit in the model length. -/
  | created {m : HeadSlotCacheManager} {sid : Int} {prompt maxTokens : Nat}
      {candidates victims : List Int} :
      m.chained = true → m.requests.get? sid = none → m.chains.get? sid = none → 0 < prompt →
      prompt + maxTokens ≤ m.allocator.width → m.Candidates sid candidates →
      m.pickVictims candidates (m.slotDeficit prompt) (m.rowDeficit 1) = .ok victims →
      Step m (m.applyAdmission victims sid ⟨prompt, maxTokens, 0, 0⟩
        (m.reserving ⟨true, 0, [], 1, [], 0⟩ prompt 1))
  /-- An idle chain goes on with a longer prompt. -/
  | resumed {m : HeadSlotCacheManager} {sid : Int} {prompt maxTokens : Nat}
      {candidates victims : List Int} {p : ChainPromise} :
      m.chained = true → m.chains.get? sid = some p → p.active = false →
      p.processedTokenCount ≤ prompt → prompt + maxTokens ≤ m.allocator.width →
      m.Candidates sid candidates →
      m.pickVictims candidates (m.slotDeficit (prompt - p.processedTokenCount))
        (m.rowDeficit (if p.residentRows = 0 then 1 else 0)) = .ok victims →
      Step m (m.applyAdmission victims sid ⟨prompt, maxTokens, p.processedTokenCount, 0⟩
        (m.reserving p (prompt - p.processedTokenCount) (if p.residentRows = 0 then 1 else 0)))
  /-- The prompts that one scheduling step admits. Those of the steps before have begun. -/
  | prompts {m : HeadSlotCacheManager} {news : List (Int × Nat × Nat)} :
      m.chained = false → (news.map Prod.fst).Nodup →
      (∀ new ∈ news, m.requests.get? new.1 = none ∧ 0 < new.2.1 ∧
        new.2.1 + new.2.2 ≤ m.allocator.width) →
      (∀ sid r, m.requests.get? sid = some r → 0 < r.done) →
      (∀ l < m.allocator.layers,
        (news.map fun new => new.2.1).sum * m.allocator.heads ≤ m.promptBudget l) →
      -- the budget `resident_seqs`
      m.requests.size + news.length ≤ m.allocator.rows →
      Step m (m.admitPrompts news)
  /-- A batch of prefill chunks or of decode steps. -/
  | append {m m' : HeadSlotCacheManager} {batch : List (Int × Nat × Nat)} :
      m.GrantedBatch batch → m.append batch = .ok m' → Step m (batch.foldl forwardEnd m')
  /-- A decode window. -/
  | grant {m : HeadSlotCacheManager} {sid : Int} {r : HeadRequest} {tokens : Nat} :
      m.requests.get? sid = some r → r.remaining = 0 → r.window = 0 →
      tokens + (r.done - r.numPromptTokens + 1) ≤ r.maxTokens →
      (m.chained = false → ∀ sid r, m.requests.get? sid = some r → 0 < r.done) →
      (∀ l < m.allocator.layers, tokens * m.allocator.heads + m.windowSlots + m.pending l ≤
        m.allocator.freeCounts l) →
      Step m { m with requests := m.requests.set sid { r with window := tokens } }
  /-- The compaction of a final prefill or of a chain turn. -/
  | compact {m : HeadSlotCacheManager} {sid : Int} {r : HeadRequest} {released : List Nat}
      {selections : List (List (Option (List Int)))} {allocator : HeadSlotAllocator} :
      m.requests.get? sid = some r → r.remaining = 0 →
      HeadSlotAllocator.compact sid selections m.allocator = (.ok released, allocator) →
      Step m { m with allocator := allocator }
  /-- A chain turn ends. -/
  | finish {m : HeadSlotCacheManager} {sid : Int} {r : HeadRequest} {p : ChainPromise} :
      m.requests.get? sid = some r → m.chains.get? sid = some p → r.remaining = 0 → 0 < r.done →
      Step m { m with
        requests := m.requests.erase sid
        chains := m.chains.set sid ⟨false, r.done,
          (List.range m.allocator.layers).map (m.allocator.residency sid), 1, [], 0⟩ }
  /-- A finished or aborted request, or an idle chain, gives everything back. -/
  | evict {m : HeadSlotCacheManager} (sid : Int) : Step m (m.evict sid)

inductive Reachable : HeadSlotCacheManager → Prop
  | create {capacities : List Nat} {heads width rows : Nat} {allocator : HeadSlotAllocator}
      (maxNumBatchedTokens : Nat) (chained : Bool) :
      HeadSlotAllocator.create capacities heads width rows = .ok allocator →
      Reachable ⟨allocator, maxNumBatchedTokens, chained, .empty, .empty⟩
  | step {m m' : HeadSlotCacheManager} : Reachable m → Step m m' → Reachable m'

end HeadSlotCacheManager

end SparseEngine
