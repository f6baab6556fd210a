import SparseEngine.DataParallel.Engine

/-! The frontend makes one call at a time (it holds its lock from the request to the reply). -/

namespace SparseEngine.DataParallel

variable {ι β : Type} [DecidableEq ι]

structure Setup where
  size : Nat
  maxTombstones : Nat
  maxTombstones_pos : 0 < maxTombstones

structure World (ι : Type) where
  engine : Engine ι := {}
  replicas : Nat → Replica ι := fun _ => {}
  drawn : Finset ι := ∅
  admitted : List (Nat × (Nat × Nat)) := []

structure StepOutput (β : Type) where
  finished : List (Nat × β) := []
  tokens : List (Nat × β) := []
  hits : List (Nat × β) := []
  logprobs : List (Nat × β) := []

/-- The end of a finished request in `step`. -/
def Engine.finishRequest (rank : Nat) (e : Engine ι) (seqId : Nat) : Engine ι :=
  Engine.releaseRequestIdentity seqId (e.deactivate rank seqId)

/-- `step` on the record of one replica. -/
def Engine.readRecord (outcome : Nat → StepOutcome ι β) (acc : Engine ι × StepOutput β)
    (rank : Nat) : Option (Engine ι × StepOutput β) := do
  let (e, out) := acc
  let outputs ← e.translate rank (outcome rank).outputs
  let tokens ← e.translate rank (outcome rank).tokens
  let hits ← e.translate rank (outcome rank).hits
  let logprobs ← e.translate rank (outcome rank).logprobs
  return ((outputs.map Prod.fst).foldl (Engine.finishRequest rank) e,
    { finished := out.finished ++ outputs
      tokens := out.tokens ++ tokens
      hits := out.hits ++ hits
      logprobs := out.logprobs ++ logprobs })

/-- `step` after the replies, which come sorted by rank. -/
def Engine.step (size : Nat) (outcome : Nat → StepOutcome ι β) (e : Engine ι) :
    Option (Engine ι × StepOutput β) :=
  (List.range size).foldlM (Engine.readRecord outcome) (e, {})

namespace World

def admittedAs (w : World ι) (identity : Nat × Nat) : Option Nat :=
  (w.admitted.find? fun entry => decide (entry.2 = identity)).map Prod.fst

def receive (w : World ι) (rank : Nat) : World ι :=
  { w with
    engine := w.engine.receive rank (w.replicas rank).reply
    replicas := Function.update w.replicas rank (w.replicas rank).replied }

/-- A call to one replica that leaves it as `r`. -/
def call (rank : Nat) (r : Replica ι) (w : World ι) : World ι :=
  { w with replicas := Function.update w.replicas rank r }.receive rank

def stepped (setup : Setup) (outcome : Nat → StepOutcome ι β) (w : World ι) : World ι :=
  { w with
    replicas := fun rank =>
      if rank < setup.size then
        ((w.replicas rank).step setup.maxTombstones (outcome rank)).getD (w.replicas rank)
      else w.replicas rank }

def CanStep (setup : Setup) (order : List Nat) (outcome : Nat → StepOutcome ι β)
    (w : World ι) : Prop :=
  order.Perm (List.range setup.size) ∧
    ∀ rank ∈ List.range setup.size,
      ((w.replicas rank).step setup.maxTombstones (outcome rank)).isSome

instance (setup : Setup) (order : List Nat) (outcome : Nat → StepOutcome ι β) (w : World ι) :
    Decidable (w.CanStep setup order outcome) :=
  inferInstanceAs (Decidable (_ ∧ _))

def step (setup : Setup) (order : List Nat) (outcome : Nat → StepOutcome ι β) (w : World ι) :
    Option (World ι × StepOutput β) :=
  let received := order.foldl receive (w.stepped setup outcome)
  (received.engine.step setup.size outcome).map fun (e, out) => ({ received with engine := e }, out)

def admitRequest (setup : Setup) (rank : Nat) (turn : Turn ι) (victims : List ι) (w : World ι) :
    Option (World ι) :=
  ((w.replicas rank).admitRequest setup.maxTombstones turn victims).map fun (admission, r) =>
    let called := w.call rank r
    let (seqId, e) := called.engine.admitRequest rank admission
    { called with
      engine := e
      drawn := w.drawn ∪ turn.drawn.toFinset
      admitted := (seqId, (rank, admission.seqId)) :: w.admitted }

def abortRequest (setup : Setup) (seqId : Nat) (w : World ι) : World ι :=
  match w.engine.owners.get? seqId with
  | none => w
  | some (rank, localId) =>
    let called := w.call rank ((w.replicas rank).abortRequest setup.maxTombstones localId)
    { called with engine := called.engine.dropRequest rank seqId }

/-- `discard_chain`. It changes nothing where it raises. -/
def discardChain (setup : Setup) (chainId : ι) (expectedSeqId : Nat) (w : World ι) : World ι :=
  match w.engine.owners.get? expectedSeqId with
  | none => w
  | some (rank, localId) =>
    if w.engine.chainOwners.get? chainId = some rank then
      match (w.replicas rank).discardChain setup.maxTombstones chainId localId with
      | none => w
      | some (false, r) => w.call rank r
      | some (true, r) =>
        let called := w.call rank r
        { called with engine := called.engine.dropRequest rank expectedSeqId }
    else w

/-- The sequence `invalidate_chain` hands to `discard_chain`. -/
def recordedSequence (chainId : ι) (w : World ι) : Option Nat :=
  (w.engine.chainSequences.get? chainId).filter fun seqId => w.engine.owners.contains seqId

def invalidateChain (setup : Setup) (chainId : ι) (w : World ι) : World ι :=
  match w.recordedSequence chainId with
  | some seqId => w.discardChain setup chainId seqId
  | none =>
    let rank := (w.engine.chainOwners.get? chainId).getD 0
    match (w.replicas rank).invalidateChain setup.maxTombstones chainId with
    | none => w
    | some r => w.call rank r

def failCall (setup : Setup) (rank counted : Nat) (evicted abandoned : List ι) (w : World ι) :
    Option (World ι) :=
  ((w.replicas rank).evictAll setup.maxTombstones evicted).map fun r =>
    { w with
      replicas := Function.update w.replicas rank
        { r with
          counter := r.counter + counted
          tombstones := abandoned.foldl
            (fun tombstones chainId =>
              Replica.addTombstone setup.maxTombstones chainId tombstones) r.tombstones }
      drawn := w.drawn ∪ abandoned.toFinset }

end World

inductive Event (ι β : Type)
  | admitRequest (rank : Nat) (turn : Turn ι) (victims : List ι)
  | step (order : List Nat) (outcome : Nat → StepOutcome ι β)
  | abortRequest (seqId : Nat)
  | discardChain (chainId : ι) (expectedSeqId : Nat)
  | invalidateChain (chainId : ι)
  | query (rank : Nat)
  | failCall (rank counted : Nat) (evicted abandoned : List ι)

namespace Event

def Allowed (setup : Setup) (w : World ι) : Event ι β → Prop
  | .admitRequest rank turn _ =>
    w.engine.Routes setup.size turn.presented rank ∧ ∀ chainId ∈ turn.drawn, chainId ∉ w.drawn
  | .step order outcome => w.CanStep setup order outcome
  | .failCall _ _ _ abandoned => ∀ chainId ∈ abandoned, chainId ∉ w.drawn
  | _ => True

instance (setup : Setup) (w : World ι) (event : Event ι β) : Decidable (event.Allowed setup w) :=
  match event with
  | .admitRequest _ _ _ => inferInstanceAs (Decidable (_ ∧ _))
  | .step order outcome => inferInstanceAs (Decidable (w.CanStep setup order outcome))
  | .failCall _ _ _ abandoned => inferInstanceAs (Decidable (∀ chainId ∈ abandoned, _))
  | .abortRequest _ => .isTrue trivial
  | .discardChain _ _ => .isTrue trivial
  | .invalidateChain _ => .isTrue trivial
  | .query _ => .isTrue trivial

def apply (setup : Setup) (w : World ι) : Event ι β → Option (World ι)
  | .admitRequest rank turn victims => w.admitRequest setup rank turn victims
  | .step order outcome => (w.step setup order outcome).map Prod.fst
  | .abortRequest seqId => some (w.abortRequest setup seqId)
  | .discardChain chainId expectedSeqId => some (w.discardChain setup chainId expectedSeqId)
  | .invalidateChain chainId => some (w.invalidateChain setup chainId)
  | .query rank => some (w.receive rank)
  | .failCall rank counted evicted abandoned => w.failCall setup rank counted evicted abandoned

end Event

def Next (β : Type) (setup : Setup) (condition : World ι → Event ι β → Prop) (w w' : World ι) :
    Prop :=
  ∃ event : Event ι β, event.Allowed setup w ∧ condition w event ∧ event.apply setup w = some w'

def Run (β : Type) (setup : Setup) (condition : World ι → Event ι β → Prop) (w : World ι) : Prop :=
  Relation.ReflTransGen (Next β setup condition) {} w

def translated (setup : Setup) (w : World ι) (rows : Nat → List (Nat × β)) :
    List (Option Nat × β) :=
  (List.range setup.size).flatMap fun rank =>
    (rows rank).map fun row => (w.admittedAs (rank, row.1), row.2)

/-- Requests and replicas know each other by the same ids. -/
structure Identified (β : Type) (setup : Setup) (condition : World ι → Event ι β → Prop)
    (w : World ι) : Prop where
  /-- The two tables are inverse to each other. -/
  inverse : ∀ seqId identity,
    w.engine.owners.get? seqId = some identity ↔ w.engine.globalIds.get? identity = some seqId
  /-- A request of an active set has an owner, the replica of the set. -/
  owned : ∀ rank, ∀ seqId ∈ w.engine.active rank,
    ∃ localId, w.engine.owners.get? seqId = some (rank, localId)
  /-- A global id was only ever returned for one sequence of one replica. -/
  single : ∀ seqId identity identity', (seqId, identity) ∈ w.admitted →
    (seqId, identity') ∈ w.admitted → identity = identity'
  /-- The local ids of admitted requests have been counted, so that no later sequence gets one. -/
  counted : ∀ seqId rank localId, (seqId, (rank, localId)) ∈ w.admitted →
    localId < (w.replicas rank).counter
  /-- A step does not raise, and its rows carry the global ids of the admissions. -/
  translates : ∀ order (outcome : Nat → StepOutcome ι β), w.CanStep setup order outcome →
    condition w (.step order outcome) → ∃ w' out, w.step setup order outcome = some (w', out) ∧
      out.finished.map (Prod.map some id) = translated setup w (StepOutcome.outputs ∘ outcome) ∧
      out.tokens.map (Prod.map some id) = translated setup w (StepOutcome.tokens ∘ outcome) ∧
      out.hits.map (Prod.map some id) = translated setup w (StepOutcome.hits ∘ outcome) ∧
      out.logprobs.map (Prod.map some id) = translated setup w (StepOutcome.logprobs ∘ outcome)

end SparseEngine.DataParallel
