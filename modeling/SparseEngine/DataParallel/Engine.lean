import SparseEngine.Chain.Index

/-! `DPAttentionEngine` gives every request a global id and remembers which replica runs it under
which local id. -/

namespace SparseEngine

deriving instance DecidableEq for ChainRoutingSnapshot

namespace DataParallel

variable {ι β : Type} [DecidableEq ι]

/-- `RequestAdmission`. -/
structure RequestAdmission (ι : Type) where
  seqId : Nat
  chainId : Option ι
deriving DecidableEq, Repr

/-- The tables of `DPAttentionEngine`. -/
structure Engine (ι : Type) where
  owners : Dict Nat (Nat × Nat) := .empty
  globalIds : Dict (Nat × Nat) Nat := .empty
  chainOwners : Dict ι Nat := .empty
  chainSeqIds : Finset Nat := ∅
  chainSequences : Dict ι Nat := .empty
  nextId : Nat := 0
  active : Nat → Finset Nat := fun _ => ∅

def known (chain : ChainRoutingSnapshot ι) : Finset ι :=
  chain.activeChainIds ∪ chain.idleChainIds ∪ chain.tombstoneChainIds

namespace Engine

def releaseRequestIdentity (seqId : Nat) (e : Engine ι) : Engine ι :=
  match e.owners.get? seqId with
  | none => e
  | some identity =>
    -- A chain keeps its identity between its turns.
    if seqId ∈ e.chainSeqIds then e
    else
      { e with
        owners := e.owners.erase seqId
        globalIds := e.globalIds.erase identity }

variable (rank : Nat)

def expired (chain : ChainRoutingSnapshot ι) (e : Engine ι) : List ι :=
  (e.chainOwners.entries.filter fun entry =>
    decide (entry.2 = rank ∧ entry.1 ∉ known chain)).map Prod.fst

/-- What `_receive` does to an expired chain. -/
def forgetChain (e : Engine ι) (key : ι) : Engine ι :=
  let popped :=
    { e with
      chainOwners := e.chainOwners.erase key
      chainSequences := e.chainSequences.erase key }
  match e.chainSequences.get? key with
  | none => popped
  | some seqId =>
    releaseRequestIdentity seqId { popped with chainSeqIds := popped.chainSeqIds.erase seqId }

/-- What `_receive` does to the chain snapshot of a reply. -/
def receive (snapshot : Option (ChainRoutingSnapshot ι)) (e : Engine ι) : Engine ι :=
  match snapshot with
  | none => e
  | some chain => (e.expired rank chain).foldl forgetChain e

def candidates (size : Nat) (e : Engine ι) : List Nat :=
  (List.range size).filter fun rank =>
    decide (∀ other ∈ List.range size, (e.active rank).card ≤ (e.active other).card)

/-- Whether `admit_request` may send a request that presents `chainId` to a replica. -/
def Routes (size : Nat) (chainId : Option ι) (rank : Nat) (e : Engine ι) : Prop :=
  match chainId.bind e.chainOwners.get? with
  | some owner => rank = owner
  | none => rank ∈ e.candidates size

instance (size : Nat) (chainId : Option ι) (rank : Nat) (e : Engine ι) :
    Decidable (e.Routes size chainId rank) := by
  unfold Routes
  split <;> infer_instance

/-- The global id of an identity in `admit_request`. -/
def identify (identity : Nat × Nat) (e : Engine ι) : Nat × Engine ι :=
  match e.globalIds.get? identity with
  | some seqId => (seqId, e)
  | none =>
    (e.nextId,
      { e with
        nextId := e.nextId + 1
        globalIds := e.globalIds.set identity e.nextId
        owners := e.owners.set e.nextId identity })

/-- `admit_request` after the reply of the replica. -/
def admitRequest (admission : RequestAdmission ι) (e : Engine ι) :
    Nat × Engine ι :=
  let (seqId, e) := e.identify (rank, admission.seqId)
  let e := { e with active := Function.update e.active rank (insert seqId (e.active rank)) }
  match admission.chainId with
  | none => (seqId, e)
  | some chainId =>
    (seqId,
      { e with
        chainOwners := e.chainOwners.set chainId rank
        chainSeqIds := insert seqId e.chainSeqIds
        chainSequences := e.chainSequences.set chainId seqId })

def deactivate (rank seqId : Nat) (e : Engine ι) : Engine ι :=
  { e with active := Function.update e.active rank ((e.active rank).erase seqId) }

/-- `abort_request` after the reply. -/
def dropRequest (rank seqId : Nat) (e : Engine ι) : Engine ι :=
  let e := e.deactivate rank seqId
  releaseRequestIdentity seqId { e with chainSeqIds := e.chainSeqIds.erase seqId }

/-- `translate`. -/
def translate (rows : List (Nat × β)) (e : Engine ι) : Option (List (Nat × β)) :=
  rows.mapM fun row => (e.globalIds.get? (rank, row.1)).map fun seqId => (seqId, row.2)

end Engine

structure ChainHolding where
  seqId : Nat
  state : ChainState
deriving DecidableEq, Repr

/-- A replica. -/
structure Replica (ι : Type) where
  counter : Nat := 0
  running : Finset Nat := ∅
  records : Dict ι ChainHolding := .empty
  tombstones : List ι := []
  previous : ChainRoutingSnapshot ι := ⟨true, ∅, ∅, ∅⟩

inductive Turn (ι : Type)
  | plain
  | created (chainId : ι)
  | resumed (chainId : ι)
  | recreated (replaced chainId : ι)
deriving DecidableEq, Repr

def Turn.presented : Turn ι → Option ι
  | .plain => none
  | .created _ => none
  | .resumed chainId => some chainId
  | .recreated replaced _ => some replaced

/-- The chain id that `new_chain_id` draws for a request. -/
def Turn.drawn : Turn ι → Option ι
  | .plain => none
  | .created chainId => some chainId
  | .resumed _ => none
  | .recreated _ chainId => some chainId

structure StepOutcome (ι β : Type) where
  evicted : List ι := []
  outputs : List (Nat × β) := []
  tokens : List (Nat × β) := []
  hits : List (Nat × β) := []
  logprobs : List (Nat × β) := []

def StepOutcome.reported (outcome : StepOutcome ι β) : List Nat :=
  (outcome.outputs ++ outcome.tokens ++ outcome.hits ++ outcome.logprobs).map Prod.fst

def StepOutcome.ended (outcome : StepOutcome ι β) : List Nat := outcome.outputs.map Prod.fst

namespace Replica

variable (maxTombstones : Nat)

def addTombstone (chainId : ι) (tombstones : List ι) : List ι :=
  let added := tombstones.erase chainId ++ [chainId]
  added.drop (added.length - maxTombstones)

def removeRecord (chainId : ι) (r : Replica ι) : Replica ι :=
  { r with
    records := r.records.erase chainId
    tombstones := addTombstone maxTombstones chainId r.tombstones }

/-- `evict`. -/
def evict (r : Replica ι) (chainId : ι) : Option (Replica ι) :=
  match r.records.get? chainId with
  | some ⟨_, .idle⟩ => some (r.removeRecord maxTombstones chainId)
  | _ => none

def evictAll (chainIds : List ι) (r : Replica ι) : Option (Replica ι) :=
  chainIds.foldlM (evict maxTombstones) r

def startTurn (chainId : ι) (seqId : Nat) (r : Replica ι) : Replica ι :=
  { r with
    running := insert seqId r.running
    records := r.records.set chainId ⟨seqId, .active⟩ }

variable (r : Replica ι)

def count : Replica ι := { r with counter := r.counter + 1 }

/-- What `admit_request` of a worker gives up before the turn starts, and the sequence that runs it.
-/
def makeWay (turn : Turn ι) (victims : List ι) (r : Replica ι) :
    Option (Nat × Replica ι) :=
  match turn with
  | .plain => some (r.counter, r.count)
  | .created _ => (r.count.evictAll maxTombstones victims).map fun r' => (r.counter, r')
  | .resumed chainId => do
    let r' ← r.count.evictAll maxTombstones victims
    match r'.records.get? chainId with
    | some ⟨seqId, .idle⟩ => some (seqId, r')
    | _ => none
  | .recreated replaced _ =>
    match r.records.get? replaced with
    | some ⟨seqId, .idle⟩ =>
      (r.count.evictAll maxTombstones (replaced :: victims)).map fun r' => (seqId, r')
    | _ => none

def turnChain : Turn ι → Option ι
  | .plain => none
  | .created chainId => some chainId
  | .resumed chainId => some chainId
  | .recreated _ chainId => some chainId

def addTurn (chainId : Option ι) (seqId : Nat) (r : Replica ι) : Replica ι :=
  match chainId with
  | none => { r with running := insert seqId r.running }
  | some chainId => r.startTurn chainId seqId

/-- `admit_request` of a worker. -/
def admitRequest (turn : Turn ι) (victims : List ι) (r : Replica ι) :
    Option (RequestAdmission ι × Replica ι) :=
  (r.makeWay maxTombstones turn victims).map fun (seqId, r') =>
    (⟨seqId, turnChain turn⟩, r'.addTurn (turnChain turn) seqId)

/-- `chain_finish` on a record. -/
def finishTurn (ended : List Nat) (holding : ChainHolding) : ChainHolding :=
  if holding.seqId ∈ ended then { holding with state := .idle } else holding

/-- `step` of a worker. -/
def step (outcome : StepOutcome ι β) (r : Replica ι) : Option (Replica ι) :=
  if ∀ seqId ∈ outcome.reported, seqId ∈ r.running then
    (r.evictAll maxTombstones outcome.evicted).map fun r' =>
      { r' with
        running := r'.running \ outcome.ended.toFinset
        records := r'.records.mapValues (finishTurn outcome.ended) }
  else none

/-- `abort_request` of a worker. -/
def abortRequest (seqId : Nat) (r : Replica ι) : Replica ι :=
  let aborted := { r with running := r.running.erase seqId }
  match r.records.entries.find? fun entry => decide (entry.2.seqId = seqId) with
  | none => aborted
  | some entry => aborted.removeRecord maxTombstones entry.1

/-- `discard_chain` of a worker. -/
def discardChain (chainId : ι) (expectedSeqId : Nat) (r : Replica ι) :
    Option (Bool × Replica ι) :=
  match r.records.get? chainId with
  | none => some (false, r)
  | some holding =>
    if holding.seqId = expectedSeqId then
      some (true, { r with running := r.running.erase expectedSeqId }.removeRecord
        maxTombstones chainId)
    else none

/-- `invalidate_chain` of a worker. -/
def invalidateChain (chainId : ι) (r : Replica ι) : Option (Replica ι) :=
  if r.records.contains chainId then some (r.removeRecord maxTombstones chainId) else none

def chainsIn (state : ChainState) (r : Replica ι) : Finset ι :=
  ((r.records.entries.filter fun entry => decide (entry.2.state = state)).map Prod.fst).toFinset

def routingSnapshot : ChainRoutingSnapshot ι :=
  ⟨true, r.chainsIn .active, r.chainsIn .idle, r.tombstones.toFinset⟩

def reply : Option (ChainRoutingSnapshot ι) :=
  if r.routingSnapshot ≠ r.previous then some r.routingSnapshot else none

def replied : Replica ι := { r with previous := r.routingSnapshot }

end Replica

end DataParallel

end SparseEngine
