import SparseEngine.Quantized.PagePool

/-! `QuantizedCacheManager` keeps the complete pages of a sequence encoded and its last, incomplete
page raw, in the row of the sequence. -/

namespace SparseEngine

/-- An entry of `_write_plan`. -/
structure WriteEntry where
  row : Nat
  start : Nat
  stop : Nat
  offset : Nat
  pageIds : List Nat
deriving DecidableEq, Repr

abbrev PageWrite (τ : Type) := Nat × List τ

structure QuantizedCacheManager (τ : Type) where
  pool : QuantizedPagePool
  seqIdToRow : Dict Int Nat
  freeRows : List Nat
  /-- `buffer_req_to_token_slots`. -/
  slots : Nat → Nat → Nat
  rowSeqLens : Nat → Nat
  rowLogicalLens : Nat → Nat
  writePlan : List WriteEntry
  prefillActive : Bool
  /-- The batch state. -/
  slotMapping : List Nat
  reqLens : List (Nat × Nat)
  /-- The raw rows, by row and index. -/
  raw : Nat → Nat → τ
  /-- The encoded pages. -/
  packed : Nat → List τ

structure PrefillChunk (τ : Type) where
  seqId : Int
  numPrefilledTokens : Nat
  tokens : List τ

namespace QuantizedCacheManager

open PyM

variable {τ : Type}

def fresh (pool : QuantizedPagePool) (rows : Nat) (blank : τ) : QuantizedCacheManager τ where
  pool := pool
  seqIdToRow := .empty
  freeRows := List.range rows
  slots := fun _ _ => 0
  rowSeqLens := fun _ => 0
  rowLogicalLens := fun _ => 0
  writePlan := []
  prefillActive := false
  slotMapping := []
  reqLens := []
  raw := fun _ _ => blank
  packed := fun _ => []

def getFreeRow (seqId : Int) : PyM (QuantizedCacheManager τ) Nat := do
  let m ← get
  match m.seqIdToRow.get? seqId with
  | some row => return row
  | none =>
    match m.freeRows with
    | [] => raise (.runtimeError "No free rows in cache manager buffer!")
    | row :: freeRows => do
      modify fun m => { m with freeRows := freeRows, seqIdToRow := m.seqIdToRow.set seqId row }
      return row

/-- The slots of the positions from `start` to `stop`. -/
def planSlots (pageSize : Nat) (plan : PageAppend) : List Nat :=
  (List.range (plan.stop - plan.start)).map fun i =>
    plan.pages.getD ((plan.start + i) / pageSize - plan.start / pageSize) 0 * pageSize +
      (plan.start + i) % pageSize

/-- `_allocate`. -/
def allocate (seqId : Int) (size : Int) : PyM (QuantizedCacheManager τ) (List Nat) := do
  let m ← get
  raiseIf (m.seqIdToRow.contains seqId = false ∧ m.freeRows = [])
    (.runtimeError "No free quantized cache rows.")
  let plan ← zoom (·.pool) (fun p m => { m with pool := p }) (QuantizedPagePool.append seqId size)
  let row ← getFreeRow seqId
  let slots := planSlots m.pool.pageSize plan
  modify fun m => { m with
    slots := fun r i =>
      if r = row ∧ plan.start ≤ i ∧ i < plan.stop then slots.getD (i - plan.start) 0
      else m.slots r i
    rowSeqLens := fun r => if r = row then plan.stop else m.rowSeqLens r
    rowLogicalLens := fun r => if r = row then plan.stop else m.rowLogicalLens r }
  return slots

def allocateLoop : List Int → List Nat → PyM (QuantizedCacheManager τ) (List Nat)
  | [], slots => return slots
  | sid :: rest, slots => do
    let new ← allocate sid 1
    allocateLoop rest (slots ++ new)

def neededPages (m : QuantizedCacheManager τ) (requests : List (Int × Int)) : Except PyError Nat := do
  let costs ← requests.mapM fun r => m.pool.appendCost r.1 r.2
  return costs.sum

def newRows (m : QuantizedCacheManager τ) (seqIds : List Int) : Nat :=
  seqIds.countP fun sid => !m.seqIdToRow.contains sid

def allocateBatch (seqIds : List Int) (size : Int) : PyM (QuantizedCacheManager τ) (List Nat) := do
  raiseIf (size ≠ 1 ∨ ¬ seqIds.Nodup)
    (.valueError "Quantized decode requires one token per distinct sequence.")
  let m ← get
  let needed ← lift (m.neededPages (seqIds.map fun sid => (sid, 1)))
  raiseIf (m.pool.free.length < needed ∨ m.freeRows.length < m.newRows seqIds)
    (.runtimeError "Insufficient quantized KV pages/rows for decode batch.")
  allocateLoop seqIds []

def checkRowLength (chunk : PrefillChunk τ) : PyM (QuantizedCacheManager τ) Unit := do
  let m ← get
  match m.seqIdToRow.get? chunk.seqId with
  | none => return ()
  | some row =>
    let rowLen := m.rowLogicalLens row
    raiseIf (rowLen ≠ chunk.numPrefilledTokens) (.valueError
      (s!"KV cache logical row length mismatch in prefill: seq_id={chunk.seqId} " ++
        s!"row_logical_len={rowLen} start_idx={chunk.numPrefilledTokens}"))

/-- The loop of `StandardCacheManager._prepare_prefill`. -/
def prefillLoop : List (PrefillChunk τ) → List Nat → PyM (QuantizedCacheManager τ) (List Nat)
  | [], slots => return slots
  | chunk :: rest, slots => do
    checkRowLength chunk
    let new ← allocate chunk.seqId chunk.tokens.length
    prefillLoop rest (slots ++ new)

/-- `_prepare_prefill_write_plan` from the offset on. -/
def writePlanLoop (m : QuantizedCacheManager τ) :
    List (PrefillChunk τ) → Nat → Except PyError (List WriteEntry)
  | [], _ => .ok []
  | chunk :: rest, offset =>
    match m.pool.lengths.get? chunk.seqId, m.seqIdToRow.get? chunk.seqId,
        m.pool.pages.get? chunk.seqId with
    | some stop, some row, some pages => do
      let start := stop - chunk.tokens.length
      let first := start / m.pool.pageSize
      let pageIds := (pages.take (stop / m.pool.pageSize)).drop first
      let entries ← writePlanLoop m rest (offset + chunk.tokens.length)
      return ⟨row, start, stop, offset, pageIds⟩ :: entries
    | _, _, _ => .error (.keyError (toString chunk.seqId))

def preparePrefill (chunks : List (PrefillChunk τ)) : PyM (QuantizedCacheManager τ) Unit := do
  let m ← get
  let needed ← lift (m.neededPages (chunks.map fun c => (c.seqId, (c.tokens.length : Int))))
  raiseIf (m.pool.free.length < needed ∨ m.freeRows.length < m.newRows (chunks.map (·.seqId)))
    (.runtimeError "Insufficient quantized KV pages/rows for prefill batch.")
  let slots ← prefillLoop chunks []
  modify fun m => { m with slotMapping := slots, prefillActive := true, writePlan := [] }
  let m ← get
  let plan ← lift (m.writePlanLoop chunks 0)
  modify fun m => { m with writePlan := plan }

/-- The pages that `tokens` fill. -/
def pageWrites (pageSize : Nat) (tokens : List τ) (pageIds : List Nat) : List (PageWrite τ) :=
  pageIds.zipIdx.map fun pq => (pq.1, (tokens.drop (pq.2 * pageSize)).take pageSize)

def applyWrites (packed : Nat → List τ) (writes : List (PageWrite τ)) : Nat → List τ :=
  writes.foldl (fun packed w page => if page = w.1 then w.2 else packed page) packed

def encodePages (tokens : List τ) (pageIds : List Nat) :
    PyM (QuantizedCacheManager τ) (List (PageWrite τ)) := do
  let m ← get
  raiseIf (tokens.length ≠ pageIds.length * m.pool.pageSize)
    (.valueError "Page codec input must contain exactly the requested complete pages.")
  let writes := pageWrites m.pool.pageSize tokens pageIds
  modify fun m => { m with packed := applyWrites m.packed writes }
  return writes

def storeEntry (k : List τ) (e : WriteEntry) : PyM (QuantizedCacheManager τ) (List (PageWrite τ)) := do
  let m ← get
  let pageSize := m.pool.pageSize
  let current := (List.range (e.start % pageSize)).map (m.raw e.row) ++
    (k.drop e.offset).take (e.stop - e.start)
  let fullTokens := current.length / pageSize * pageSize
  let writes ← if 0 < fullTokens then encodePages (current.take fullTokens) e.pageIds else pure []
  modify fun m => { m with raw := fun r i =>
    if r = e.row then ((current.drop fullTokens)[i]?).getD (m.raw r i) else m.raw r i }
  return writes

/-- The prefill branch of `store_attention_payload`. -/
def storeLoop (k : List τ) : List WriteEntry → List (List (PageWrite τ)) →
    PyM (QuantizedCacheManager τ) (List (List (PageWrite τ)))
  | [], writes => return writes
  | e :: rest, writes => do
    let new ← storeEntry k e
    storeLoop k rest (writes ++ [new])

def prepareDecode (seqIds : List Int) : PyM (QuantizedCacheManager τ) Unit := do
  let slots ← allocateBatch seqIds 1
  modify fun m => { m with
    slotMapping := slots
    reqLens := seqIds.map fun sid =>
      let row := (m.seqIdToRow.get? sid).getD 0
      (row, m.rowSeqLens row)
    prefillActive := false
    writePlan := [] }

/-- `_decode_append` for one request. -/
def decodeAppend (token : τ) (row stop : Nat) (m : QuantizedCacheManager τ) :
    QuantizedCacheManager τ × List (PageWrite τ) :=
  let pageSize := m.pool.pageSize
  if stop % pageSize = 0 then
    let page := m.slots row (stop - pageSize) / pageSize
    let write := (page, (List.range (pageSize - 1)).map (m.raw row) ++ [token])
    ({ m with packed := applyWrites m.packed [write] }, [write])
  else
    ({ m with raw := fun r i =>
        if r = row ∧ i = (stop - 1) % pageSize then token else m.raw r i }, [])

def decodeLoop : List (τ × Nat × Nat) → List (List (PageWrite τ)) → QuantizedCacheManager τ →
    QuantizedCacheManager τ × List (List (PageWrite τ))
  | [], writes, m => (m, writes)
  | (token, row, stop) :: rest, writes, m =>
    let (m', new) := decodeAppend token row stop m
    decodeLoop rest (writes ++ [new]) m'

/-- `store_attention_payload`. -/
def storeAttentionPayload (k : List τ) :
    PyM (QuantizedCacheManager τ) (List (List (PageWrite τ))) := do
  let m ← get
  let count := if m.prefillActive then (m.writePlan.map fun e => e.stop - e.start).sum
    else m.slotMapping.length
  raiseIf (k.length ≠ m.slotMapping.length)
    (.valueError s!"Quantized KV write expects {count}, got {k.length}.")
  if m.prefillActive then
    storeLoop (k.take count) m.writePlan []
  else do
    let result := decodeLoop (k.zip m.reqLens) [] m
    modify fun _ => result.1
    return result.2

def prefillStep (chunks : List (PrefillChunk τ)) :
    PyM (QuantizedCacheManager τ) (List (List (PageWrite τ))) := do
  preparePrefill chunks
  storeAttentionPayload (chunks.flatMap (·.tokens))

def decodeStep (batch : List (Int × τ)) :
    PyM (QuantizedCacheManager τ) (List (List (PageWrite τ))) := do
  prepareDecode (batch.map Prod.fst)
  storeAttentionPayload (batch.map Prod.snd)

def freeSeq (seqId : Int) : PyM (QuantizedCacheManager τ) Unit := do
  let m ← get
  match m.seqIdToRow.get? seqId with
  | none => raise (.valueError s!"Unknown quantized cache sequence {seqId}.")
  | some row => do
    zoom (·.pool) (fun p m => { m with pool := p }) (QuantizedPagePool.release seqId)
    modify fun m => { m with
      seqIdToRow := m.seqIdToRow.erase seqId
      rowSeqLens := fun r => if r = row then 0 else m.rowSeqLens r
      rowLogicalLens := fun r => if r = row then 0 else m.rowLogicalLens r
      slots := fun r i => if r = row then 0 else m.slots r i
      freeRows := m.freeRows ++ [row] }

end QuantizedCacheManager

end SparseEngine
