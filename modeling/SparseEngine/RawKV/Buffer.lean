import SparseEngine.Lib.Dict
import SparseEngine.Lib.Py

/-! `RawKVOffloadBuffer` backs the keys and values of a prefill that runs in chunks. -/

namespace SparseEngine

/-- A tensor by its rows. -/
structure RowTensor (α : Type) where
  tail : List Nat
  rows : List α
deriving DecidableEq, Repr

/-- `out[start : start + rows.length] = rows`. -/
def overlay {α : Type} (out : List α) (start : Nat) (rows : List α) : List α :=
  out.take start ++ rows ++ out.drop (start + rows.length)

structure RawKVKey where
  layerIdx : Int
  rowIdx : Int
  kind : String
deriving DecidableEq, Repr

inductive RawKVMode where
  | contiguous
  | chunked
deriving DecidableEq, Repr

/-- The storage of an entry. -/
inductive RawKVStore (α : Type) where
  | tensors (rows : List (α × α))
  | chunks (chunks : Dict Nat (List (α × α)))

structure RawKVEntry (α : Type) where
  store : RawKVStore α
  filledUntil : Nat
  capacity : Nat
  kShapeTail : List Nat
  vShapeTail : List Nat

structure RawKVOffloadBuffer (α : Type) where
  mode : RawKVMode
  entries : Dict RawKVKey (RawKVEntry α)

structure PutRange (α : Type) where
  key : RawKVKey
  start : Int
  k : RowTensor α
  v : RowTensor α
deriving DecidableEq, Repr

namespace RawKVOffloadBuffer

variable {α : Type}

def new (mode : RawKVMode) : RawKVOffloadBuffer α := ⟨mode, .empty⟩

def ensureEntry (blank : Nat → α × α) (b : RawKVOffloadBuffer α) (key : RawKVKey) (totalLen : Int)
    (kShapeTail vShapeTail : List Nat) : Except PyError (RawKVOffloadBuffer α) :=
  if totalLen < 0 then
    .error (.valueError s!"RawKVOffloadBuffer total_len must be non-negative, got {totalLen}.")
  else
    match b.entries.get? key with
    | some entry =>
      if (entry.capacity : Int) < totalLen then
        .error (.runtimeError "RawKVOffloadBuffer cannot grow an existing entry")
      else if entry.kShapeTail ≠ kShapeTail ∨ entry.vShapeTail ≠ vShapeTail then
        .error (.runtimeError "RawKVOffloadBuffer existing entry shape tail mismatch")
      else .ok b
    | none =>
      let store : RawKVStore α :=
        match b.mode with
        | .chunked => .chunks .empty
        | .contiguous => .tensors ((List.range totalLen.toNat).map blank)
      .ok { b with entries := b.entries.set key ⟨store, 0, totalLen.toNat, kShapeTail, vShapeTail⟩ }

end RawKVOffloadBuffer

namespace RawKVEntry

variable {α : Type}

/-- What `put_range` does with the entry of its key. -/
def putRange (entry : RawKVEntry α) (start : Int) (k v : RowTensor α) :
    Except PyError (RawKVEntry α) :=
  let stop := start + k.rows.length
  if start < 0 ∨ stop > entry.capacity ∨ v.rows.length ≠ k.rows.length then
    .error (.runtimeError "RawKVOffloadBuffer put_range shape mismatch")
  else if k.tail ≠ entry.kShapeTail ∨ v.tail ≠ entry.vShapeTail then
    .error (.runtimeError "RawKVOffloadBuffer put_range shape tail mismatch")
  else
    let rows := k.rows.zip v.rows
    let filledUntil := max entry.filledUntil stop.toNat
    match entry.store with
    | .chunks chunks =>
      if start > entry.filledUntil then
        .error (.runtimeError "RawKVOffloadBuffer chunked put_range cannot leave a gap")
      else
        .ok { entry with store := .chunks (chunks.set start.toNat rows), filledUntil := filledUntil }
    | .tensors tensors =>
      .ok { entry with store := .tensors (overlay tensors start.toNat rows), filledUntil := filledUntil }

/-- The chunks by their start. -/
def sortedChunks (chunks : Dict Nat (List (α × α))) : List (Nat × List (α × α)) :=
  chunks.entries.insertionSort fun a b => a.1 ≤ b.1

/-- The loop of `copy_prefix_to` over the chunks that are left. -/
def copyChunks (stop : Nat) : List (Nat × List (α × α)) → Nat → List α → List α →
    Except PyError (Nat × List α × List α)
  | [], cursor, kOut, vOut => .ok (cursor, kOut, vOut)
  | (chunkStart, chunk) :: rest, cursor, kOut, vOut =>
    let chunkEnd := chunkStart + chunk.length
    if chunkStart > cursor then
      .error (.runtimeError "RawKVOffloadBuffer chunked copy_prefix_to found a gap")
    else if chunkEnd ≤ cursor then copyChunks stop rest cursor kOut vOut
    else
      let copyStart := max cursor chunkStart
      let copyEnd := min stop chunkEnd
      if copyStart < copyEnd then
        let rows := (chunk.drop (copyStart - chunkStart)).take (copyEnd - copyStart)
        let kOut := overlay kOut copyStart (rows.map Prod.fst)
        let vOut := overlay vOut copyStart (rows.map Prod.snd)
        if copyEnd ≥ stop then .ok (copyEnd, kOut, vOut)
        else copyChunks stop rest copyEnd kOut vOut
      else if cursor ≥ stop then .ok (cursor, kOut, vOut)
      else copyChunks stop rest cursor kOut vOut

/-- What `copy_prefix_to` does with the entry of its key: `k_out` and `v_out` afterwards. -/
def copyPrefixTo (entry : RawKVEntry α) (stop : Int) (kOut vOut : RowTensor α) :
    Except PyError (List α × List α) :=
  if stop < 0 ∨ stop > entry.filledUntil then
    .error (.runtimeError "RawKVOffloadBuffer copy_prefix_to reads an unwritten range")
  else if (kOut.rows.length : Int) < stop ∨ (vOut.rows.length : Int) < stop then
    .error (.runtimeError "RawKVOffloadBuffer copy_prefix_to destination is too short")
  else if kOut.tail ≠ entry.kShapeTail ∨ vOut.tail ≠ entry.vShapeTail then
    .error (.runtimeError "RawKVOffloadBuffer copy_prefix_to destination tail mismatch")
  else
    match entry.store with
    | .chunks chunks =>
      match copyChunks stop.toNat (sortedChunks chunks) 0 kOut.rows vOut.rows with
      | .error e => .error e
      | .ok (cursor, k, v) =>
        if cursor ≠ stop.toNat then
          .error (.runtimeError
            "RawKVOffloadBuffer chunked copy_prefix_to did not fill requested prefix")
        else .ok (k, v)
    | .tensors rows =>
      .ok (overlay kOut.rows 0 ((rows.take stop.toNat).map Prod.fst),
        overlay vOut.rows 0 ((rows.take stop.toNat).map Prod.snd))

end RawKVEntry

namespace RawKVOffloadBuffer

variable {α : Type}

def putRange (b : RawKVOffloadBuffer α) (p : PutRange α) : Except PyError (RawKVOffloadBuffer α) :=
  match b.entries.get? p.key with
  | none => .error (.runtimeError "RawKVOffloadBuffer entry is missing")
  | some entry =>
    match entry.putRange p.start p.k p.v with
    | .error e => .error e
    | .ok entry => .ok { b with entries := b.entries.set p.key entry }

def copyPrefixTo (b : RawKVOffloadBuffer α) (key : RawKVKey) (stop : Int) (kOut vOut : RowTensor α) :
    Except PyError (List α × List α) :=
  match b.entries.get? key with
  | none => .error (.runtimeError "RawKVOffloadBuffer entry is missing")
  | some entry => entry.copyPrefixTo stop kOut vOut

inductive Call (α : Type) where
  | ensureEntry (key : RawKVKey) (totalLen : Int) (kShapeTail vShapeTail : List Nat)
  | putRange (p : PutRange α)
deriving DecidableEq, Repr

def call (blank : Nat → α × α) (b : RawKVOffloadBuffer α) :
    Call α → Except PyError (RawKVOffloadBuffer α)
  | .ensureEntry key totalLen kShapeTail vShapeTail =>
    b.ensureEntry blank key totalLen kShapeTail vShapeTail
  | .putRange p => b.putRange p

def calls (blank : Nat → α × α) (b : RawKVOffloadBuffer α) :
    List (Call α) → Except PyError (RawKVOffloadBuffer α)
  | [] => .ok b
  | c :: cs => (b.call blank c).bind fun b => b.calls blank cs

end RawKVOffloadBuffer

end SparseEngine
