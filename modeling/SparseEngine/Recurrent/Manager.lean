import SparseEngine.Lib.Dict
import SparseEngine.Lib.Py

/-! `RecurrentStateManager` keeps one row per sequence in preallocated buffers, one buffer for each
recurrent layer and declared tensor. -/

namespace SparseEngine.Recurrent

structure TensorKind where
  shape : List Nat
  dtype : String
  device : String
deriving DecidableEq, Repr

structure StateConfig (V : Type) where
  specName : String
  tensorSpecs : Dict String TensorKind
  layers : List Int
  isLinearAttention : Int → Bool
  rowCapacity : Nat
  blockSize : Int
  device : String
  kindOf : V → TensorKind
  zeros : TensorKind → V

def StateConfig.stateNames {V : Type} (cfg : StateConfig V) : List String := cfg.tensorSpecs.keys

structure RecurrentPrefixPayload (V : Type) where
  tokenCount : Int
  layerStates : Dict Int (Dict String V)

structure StateManager (V E : Type) where
  seqIdToRow : Dict Int Nat
  rowToSeqId : Nat → Option Int
  freeRows : List Nat
  buffers : Int → Nat → String → V
  decodeStateIndices : Dict Nat (List Nat)
  pendingPrefixPayloads : Dict Int (RecurrentPrefixPayload V × Dict Int E)

variable {V E : Type}

variable (cfg : StateConfig V)

def StateManager.create : StateManager V E where
  seqIdToRow := .empty
  rowToSeqId _ := none
  freeRows := List.range cfg.rowCapacity
  buffers _ _ name := cfg.zeros ((cfg.tensorSpecs.get? name).getD ⟨[], "", ""⟩)
  decodeStateIndices := .empty
  pendingPrefixPayloads := .empty

abbrev StateM (V E α : Type) := PyM (StateManager V E) α

open PyM

/-- `buffer[row].zero_()` of every tensor of `layers`. -/
def zeroRow (layers : List Int) (row : Nat) (m : StateManager V E) :
    StateManager V E :=
  { m with
    buffers := fun layer r name =>
      if layer ∈ layers ∧ r = row then
        ((cfg.tensorSpecs.get? name).map cfg.zeros).getD (m.buffers layer r name)
      else m.buffers layer r name }

def allocateRow (seqId : Int) : StateM V E Nat := do
  let m ← get
  match m.seqIdToRow.get? seqId with
  | some row => pure row
  | none =>
    match m.freeRows with
    | [] => raise (.runtimeError "Recurrent state row capacity exhausted")
    | row :: freeRows =>
      modify fun m => zeroRow cfg cfg.layers row
        { m with
          freeRows := freeRows
          seqIdToRow := m.seqIdToRow.set seqId row
          rowToSeqId := fun r => if r = row then some seqId else m.rowToSeqId r }
      pure row

/-- `RecurrentStateManager._ensure_buffer`. -/
def ensureBuffer (layerIdx : Int) (name : String) (value : V) :
    StateM V E Unit := do
  raiseIf (layerIdx ∉ cfg.layers)
    (.runtimeError "Recurrent state was requested for undeclared layer_idx")
  match cfg.tensorSpecs.get? name with
  | none => raise (.runtimeError "Recurrent state was requested for undeclared tensor name")
  | some kind =>
    raiseIf (kind.shape ≠ (cfg.kindOf value).shape)
      (.runtimeError "Recurrent state shape changed after row pool allocation")
    raiseIf (kind.dtype ≠ (cfg.kindOf value).dtype ∨ cfg.device ≠ (cfg.kindOf value).device)
      (.runtimeError "Recurrent state dtype/device changed after row pool allocation")

/-- `buffer[row].copy_(value)`. -/
def copyRow (layerIdx : Int) (row : Nat) (name : String) (value : V) (m : StateManager V E) :
    StateManager V E :=
  { m with
    buffers := fun layer r n =>
      if layer = layerIdx ∧ r = row ∧ n = name then value else m.buffers layer r n }

def setLayerState (seqId layerIdx : Int) (states : Dict String V) :
    StateM V E Unit := do
  raiseIf (cfg.isLinearAttention layerIdx = false)
    (.runtimeError "full_attention layer has no recurrent state")
  raiseIf ((∃ name ∈ cfg.stateNames, name ∉ states.keys) ∨ ∃ name ∈ states.keys, name ∉ cfg.stateNames)
    (.runtimeError "recurrent state schema mismatch")
  let row ← allocateRow cfg seqId
  forEach (fun entry => do
    ensureBuffer cfg layerIdx entry.1 entry.2
    modify (copyRow layerIdx row entry.1 entry.2)) states.entries

variable (capturing : Bool)

def materializePendingPrefixLayer (seqId layerIdx : Int) :
    StateM V E Unit := do
  let m ← get
  match m.pendingPrefixPayloads.get? seqId with
  | none => pure ()
  | some (payload, readinessEvents) =>
    match payload.layerStates.get? layerIdx with
    | none => pure ()
    | some state =>
      match readinessEvents.get? layerIdx with
      | none => raise (.runtimeError "Recurrent prefix layer is missing its H2D readiness event")
      | some _ =>
        let readinessEvents := readinessEvents.erase layerIdx
        modify fun m =>
          { m with
            pendingPrefixPayloads := m.pendingPrefixPayloads.set seqId (payload, readinessEvents) }
        raiseIf (capturing = true) (.runtimeError
          "Recurrent prefix H2D readiness waits are forbidden during graph capture")
        setLayerState cfg seqId layerIdx state
        if readinessEvents.size = 0 then
          modify fun m => { m with pendingPrefixPayloads := m.pendingPrefixPayloads.erase seqId }

def rowState (m : StateManager V E) (layerIdx : Int) (row : Nat) :
    List (String × V) :=
  cfg.stateNames.map fun name => (name, m.buffers layerIdx row name)

def getLayerState (seqId layerIdx : Int) :
    StateM V E (Option (List (String × V))) := do
  materializePendingPrefixLayer cfg capturing seqId layerIdx
  let m ← get
  match m.seqIdToRow.get? seqId with
  | none => pure none
  | some row =>
    if layerIdx ∉ cfg.layers ∨ cfg.stateNames = [] then pure none
    else pure (some (rowState cfg m layerIdx row))

/-- `seq_id_to_row` of a batch. -/
def expectedRows (m : StateManager V E) : List Int → Except PyError (List Nat)
  | [] => .ok []
  | seqId :: seqIds =>
    match m.seqIdToRow.get? seqId with
    | none => .error (.runtimeError "decode requires recurrent state for every sequence")
    | some row => (expectedRows m seqIds).map fun rows => row :: rows

def activationDtype : Option String :=
  match cfg.tensorSpecs.get? "conv_state" with
  | some kind => some kind.dtype
  | none =>
    match cfg.tensorSpecs.values with
    | [] => none
    | kind :: kinds => if kinds.all (fun k => k.dtype = kind.dtype) then some kind.dtype else none

structure DecodeRead where
  seqIds : List Int
  layerIdx : Int
  tokenBatch : Nat
  dtype : String
  device : String
deriving DecidableEq, Repr

/-- `get_decode_layer_state` after its pending layers are copied. -/
def decodeStates (r : DecodeRead) :
    StateM V E (List Nat × List (List (String × V))) := do
  raiseIf (r.tokenBatch < r.seqIds.length)
    (.runtimeError "decode has fewer token rows than real sequences")
  raiseIf (r.layerIdx ∉ cfg.layers ∧ cfg.stateNames ≠ [])
    (.runtimeError "decode requires initialized recurrent state")
  raiseIf (cfg.stateNames ≠ [] ∧ cfg.device ≠ r.device)
    (.runtimeError "decode recurrent pool does not match its model schema")
  raiseIf (∃ dtype ∈ activationDtype cfg, dtype ≠ r.dtype)
    (.runtimeError "decode activation dtype does not match")
  let m ← get
  let rows ← lift (expectedRows m r.seqIds)
  modify (zeroRow cfg [r.layerIdx] cfg.rowCapacity)
  match m.decodeStateIndices.get? r.tokenBatch with
  | none => raise (.runtimeError
      "decode state-index buffer was not prepared for the static batch")
  | some stateIndices =>
    raiseIf (cfg.device = "cpu" ∧
        stateIndices ≠ rows ++ List.replicate (r.tokenBatch - r.seqIds.length) cfg.rowCapacity)
      (.runtimeError "decode state-index buffer is stale")
    pure (stateIndices, rows.map (rowState cfg m r.layerIdx))

def getDecodeLayerState (r : DecodeRead) :
    StateM V E (List Nat × List (List (String × V))) := do
  forEach (fun seqId => materializePendingPrefixLayer cfg capturing seqId r.layerIdx) r.seqIds
  decodeStates cfg r

def freeSeq (seqId : Int) : StateM V E Unit := do
  modify fun m => { m with pendingPrefixPayloads := m.pendingPrefixPayloads.erase seqId }
  let m ← get
  match m.seqIdToRow.get? seqId with
  | none => pure ()
  | some row =>
    modify fun m => { m with seqIdToRow := m.seqIdToRow.erase seqId }
    raiseIf (m.rowToSeqId row ≠ some seqId)
      (.runtimeError "Recurrent state row ownership is inconsistent")
    modify fun m =>
      { m with
        rowToSeqId := fun r => if r = row then none else m.rowToSeqId r
        freeRows := m.freeRows ++ [row] }

/-- `RecurrentStateManager.attach_prefix_recurrent_payload` for a payload that is present. -/
def attachPrefixRecurrentPayload (seqId : Int)
    (payload : RecurrentPrefixPayload V) (readinessEvents : Option (Dict Int E)) :
    StateM V E Unit := do
  raiseIf (payload.tokenCount ≤ 0) (.runtimeError "Invalid recurrent prefix payload token_count")
  raiseIf (cfg.blockSize > 0 ∧ payload.tokenCount % cfg.blockSize ≠ 0)
    (.runtimeError "Cannot attach recurrent prefix payload from a non-boundary snapshot")
  match readinessEvents with
  | some events =>
    raiseIf (events.keySet ≠ payload.layerStates.keySet)
      (.runtimeError "Recurrent prefix readiness events do not match payload layers")
    let _ ← allocateRow cfg seqId
    modify fun m =>
      { m with pendingPrefixPayloads := m.pendingPrefixPayloads.set seqId (payload, events) }
  | none =>
    forEach (fun entry => setLayerState cfg seqId entry.1 entry.2) payload.layerStates.entries

/-- `RecurrentStateManager.prepare_decode_static` on the device of its batch. -/
def prepareDecodeStatic (seqIds : List Int) (tokenBatch : Nat) :
    StateM V E Unit := do
  forEach (fun seqId => do
    let _ ← allocateRow cfg seqId
    pure ()) seqIds
  raiseIf (tokenBatch < seqIds.length)
    (.runtimeError "static decode has fewer token rows than real sequences")
  let m ← get
  let rows ← lift (expectedRows m seqIds)
  modify fun m =>
    { m with
      decodeStateIndices := m.decodeStateIndices.set tokenBatch
        (rows ++ List.replicate (tokenBatch - seqIds.length) cfg.rowCapacity) }

inductive StateCall (V : Type) where
  | getLayerState (capturing : Bool) (seqId layerIdx : Int)
  | getDecodeLayerState (capturing : Bool) (r : DecodeRead)
  | setLayerState (seqId layerIdx : Int) (states : Dict String V)
  | freeSeq (seqId : Int)

inductive StateResult (V : Type) where
  | state (s : Option (List (String × V)))
  | decode (stateIndices : List Nat) (states : List (List (String × V)))
  | done
deriving DecidableEq, Repr

def call : StateCall V → StateM V E (StateResult V)
  | .getLayerState capturing seqId layerIdx => do
    let s ← getLayerState cfg capturing seqId layerIdx
    pure (.state s)
  | .getDecodeLayerState capturing r => do
    let (stateIndices, states) ← getDecodeLayerState cfg capturing r
    pure (.decode stateIndices states)
  | .setLayerState seqId layerIdx states => do
    setLayerState cfg seqId layerIdx states
    pure .done
  | .freeSeq seqId => do
    freeSeq seqId
    pure .done

def calls (cfg : StateConfig V) : List (StateCall V) → StateM V E (List (StateResult V))
  | [] => pure []
  | c :: cs => do
    let r ← call cfg c
    let rs ← calls cfg cs
    pure (r :: rs)

inductive Reachable (cfg : StateConfig V) : StateManager V E → Prop
  | create : Reachable cfg (.create cfg)
  | call (c : StateCall V) {m : StateManager V E} : Reachable cfg m → Reachable cfg (call cfg c m).2
  | attach (seqId : Int) (payload : RecurrentPrefixPayload V) (events : Option (Dict Int E))
      {m : StateManager V E} : Reachable cfg m →
      Reachable cfg (attachPrefixRecurrentPayload cfg seqId payload events m).2
  | prepareDecodeStatic (seqIds : List Int) (tokenBatch : Nat) {m : StateManager V E} :
      Reachable cfg m → Reachable cfg (prepareDecodeStatic cfg seqIds tokenBatch m).2

end SparseEngine.Recurrent
