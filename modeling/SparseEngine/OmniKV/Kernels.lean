import SparseEngine.Lib.Lanes

/-! `plan_lru` and the copies that read its plan. -/

namespace SparseEngine.OmniKV

open Lanes

/-- The rows of an owner in `DIRECTORY`, `KEYS`, `AGES` and `CLOCK`. -/
structure OwnerRow where
  directory : Nat → Int := fun _ => -1
  keys : Nat → Int := fun _ => -1
  ages : Nat → Nat := fun _ => 0
  clock : Nat := 0

/-- The rows of a request in `PLAN`. -/
structure RequestRow where
  plan : Nat → Int
  victims : Nat → Nat
  missCount : Nat
  view : Nat → Nat

/-- What a request reads: its owner row, `TABLE` at its row, its length and the slot its current
token is written to, negative for a padded request. -/
structure Request where
  owner : Nat
  selected : Nat → Nat
  length : Nat
  write : Int

structure Sizes where
  rows : Nat
  cache : Nat
  cap : Nat
  cap_le : cap ≤ cache

variable (sizes : Sizes)

variable (r : Request)

def Valid (i : Nat) : Prop := i < r.length ∧ i < sizes.cap

instance (r : Request) : DecidablePred (Valid sizes r) := fun _ => inferInstanceAs (Decidable (_ ∧ _))

def Hit (row : OwnerRow) (i : Nat) : Prop :=
  Valid sizes r i ∧ 0 ≤ row.directory (r.selected i)

instance (r : Request) (row : OwnerRow) : DecidablePred (Hit sizes r row) := fun _ =>
  inferInstanceAs (Decidable (_ ∧ _))

def lookup (row : OwnerRow) (buffers : RequestRow) : OwnerRow × RequestRow :=
  if 0 ≤ r.write then
    let position := fun i => row.directory (r.selected i)
    let clock := row.clock + 1
    ({ row with
        clock := clock
        ages := store sizes.cap (Hit sizes r row) (fun i => (position i).toNat) (fun _ => clock)
          row.ages },
      { buffers with
        plan := store sizes.cap (fun _ => True) id
          (fun i => if Hit sizes r row i then position i else -1) buffers.plan
        missCount := Nat.count (fun i => Valid sizes r i ∧ ¬ Hit sizes r row i) sizes.cap })
  else (row, { buffers with missCount := 0 })

def Missing (plan : Nat → Int) (i : Nat) : Prop := Valid sizes r i ∧ plan i < 0

instance (r : Request) (plan : Nat → Int) : DecidablePred (Missing sizes r plan) := fun _ =>
  inferInstanceAs (Decidable (_ ∧ _))

/-- The threshold of `_choose_victims`. -/
def threshold (row : OwnerRow) (count : Nat) : Nat :=
  bisect (fun middle => count ≤ Nat.count (fun i => row.ages i ≤ middle) sizes.cache) 0 row.clock

/-- The cells `_choose_victims` chooses. -/
def Chosen (row : OwnerRow) (count : Nat) : Nat → Prop :=
  let low := threshold sizes row count
  Smallest row.ages low (count - Nat.count (fun i => row.ages i < low) sizes.cache)

instance (row : OwnerRow) (count : Nat) : DecidablePred (Chosen sizes row count) := fun _ =>
  inferInstanceAs (Decidable (Smallest _ _ _ _))

def chooseVictims (row : OwnerRow) (buffers : RequestRow) : OwnerRow × RequestRow :=
  if 0 ≤ r.write then
    let count := Nat.count (Missing sizes r buffers.plan) sizes.cap
    if 0 < count then
      (row, { buffers with
        victims := store sizes.cache (Chosen sizes row count) (rank (Chosen sizes row count)) id
          buffers.victims })
    else (row, buffers)
  else (row, buffers)

/-- `_admit`. -/
def admitMisses (row : OwnerRow) (buffers : RequestRow) : OwnerRow × RequestRow :=
  if 0 ≤ r.write then
    let missing := Missing sizes r buffers.plan
    let victim := fun i => buffers.victims (rank missing i)
    let previous := fun i => row.keys (victim i)
    let position := fun i : Nat =>
      ((r.owner * sizes.cache : Nat) : Int) +
        (if missing i then (victim i : Int) else buffers.plan i)
    ({ row with
        directory :=
          store sizes.cap missing r.selected (fun i => (victim i : Int))
            (store sizes.cap (fun i => missing i ∧ 0 ≤ previous i) (fun i => (previous i).toNat)
              (fun _ => -1) row.directory)
        keys := store sizes.cap missing victim (fun i => (r.selected i : Int)) row.keys
        ages := store sizes.cap missing victim (fun _ => row.clock) row.ages },
      { buffers with
        -- The victims are no longer needed: their buffer lists the missing tokens for the copies.
        victims := store sizes.cap missing (rank missing) id buffers.victims
        plan := store sizes.cap (Valid sizes r) id
          (fun i => if missing i then -position i - 1 else position i) buffers.plan
        view := store sizes.cap (fun _ => True) id
          (fun i => if Valid sizes r i then (position i).toNat else sizes.rows * sizes.cache)
          buffers.view })
  else
    (row, { buffers with
      view := store sizes.cap (fun _ => True) id (fun _ => sizes.rows * sizes.cache) buffers.view })

structure Metadata where
  rows : Nat → OwnerRow := fun _ => {}
  requests : Nat → RequestRow

def Metadata.runProgram (program : Request → OwnerRow → RequestRow → OwnerRow × RequestRow)
    (batch : Nat → Request) (m : Metadata) (b : Nat) : Metadata :=
  let (row, buffers) := program (batch b) (m.rows (batch b).owner) (m.requests b)
  { rows := Function.update m.rows (batch b).owner row
    requests := Function.update m.requests b buffers }

def Metadata.launch (program : Request → OwnerRow → RequestRow → OwnerRow × RequestRow)
    (size : Nat) (batch : Nat → Request) (m : Metadata) : Metadata :=
  (List.range size).foldl (Metadata.runProgram program batch) m

def planLru (size : Nat) (batch : Nat → Request) (m : Metadata) : Metadata :=
  ((m.launch (lookup sizes) size batch).launch (chooseVictims sizes) size batch).launch
    (admitMisses sizes) size batch

def Metadata.invalidate (owner : Nat) (m : Metadata) : Metadata :=
  { m with rows := Function.update m.rows owner {} }

variable {V : Type}

variable (skipLast : Bool)

/-- Whether the copies may read a selected token of a request from the host. -/
def FromHost (r : Request) (i : Nat) : Prop :=
  i + skipLast.toNat < r.length ∧ i < sizes.cap ∧ 0 ≤ r.write ∧ (r.selected i : Int) ≠ r.write

instance (skipLast : Bool) (r : Request) : DecidablePred (FromHost sizes skipLast r) := fun _ =>
  inferInstanceAs (Decidable (_ ∧ _))

def cellOf (entry : Int) : Nat := if entry < 0 then (-entry - 1).toNat else entry.toNat

/-- `_gather_cached` on one request. -/
def missWrites (r : Request) (buffers : RequestRow) (host : Nat → V) :
    List (Nat × V) :=
  (List.range buffers.missCount).filterMap fun item =>
    let token := buffers.victims item
    if FromHost sizes skipLast r token ∧ buffers.plan token < 0 then
      some ((-buffers.plan token - 1).toNat, host (r.selected token))
    else none

def gatherCached (size : Nat) (batch : Nat → Request) (requests : Nat → RequestRow)
    (host : Nat → V) (pool : Nat → V) : Nat → V :=
  scatter ((List.range size).flatMap fun b => missWrites sizes skipLast (batch b) (requests b) host)
    pool

/-- The length `_append` goes by. -/
def appendLength (r : Request) : Nat :=
  if skipLast then r.length
  else
    ((List.range sizes.cap).filter fun i =>
      decide (i < r.length ∧ (r.selected i : Int) = r.write)).foldl (fun _ i => i + 1) 0

/-- Whether `_append` writes the current token. -/
def Appends (r : Request) : Prop :=
  0 ≤ r.write ∧ 0 < appendLength sizes skipLast r ∧ appendLength sizes skipLast r ≤ sizes.cap

instance (skipLast : Bool) (r : Request) : Decidable (Appends sizes skipLast r) :=
  inferInstanceAs (Decidable (_ ∧ _))

/-- `_append` with a plan. -/
def appendCached (size : Nat) (batch : Nat → Request) (requests : Nat → RequestRow)
    (current : Nat → V) (pool : Nat → V) : Nat → V :=
  scatter ((List.range size).filterMap fun b =>
    if Appends sizes skipLast (batch b) then
      some (cellOf ((requests b).plan (appendLength sizes skipLast (batch b) - 1)), current b)
    else none) pool

/-- `_gather`. -/
def gatherPlain (zero : V) (skipLast : Bool) (batch : Nat → Request) (host : Nat → V)
    (staging : Nat → Nat → V) (b i : Nat) : V :=
  if FromHost sizes skipLast (batch b) i then host ((batch b).selected i)
  else if (batch b).write < 0 ∧ i < sizes.cap then zero
  else staging b i

/-- `_append` without a plan. -/
def appendPlain (batch : Nat → Request) (current : Nat → V)
    (staging : Nat → Nat → V) (b i : Nat) : V :=
  if Appends sizes skipLast (batch b) ∧ i + 1 = appendLength sizes skipLast (batch b) then current b
  else staging b i

end SparseEngine.OmniKV
