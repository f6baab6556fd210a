import SparseEngine.Lib.Dict
import SparseEngine.Lib.Py

/-! `HeadSlotAllocator` gives every KV head of every layer its own slots. -/

namespace SparseEngine

structure HeadAppendPlan where
  generation : Nat
  seqIds : List Int
  rows : List Nat
  positions : List (List Int)
deriving DecidableEq, Repr

structure HeadSlotAllocator where
  capacities : List Nat
  heads : Nat
  width : Nat
  rows : Nat
  /-- By layer, row, head and column; `-1` marks an empty cell. -/
  slots : Nat → Nat → Nat → Nat → Int
  positions : Nat → Nat → Nat → Nat → Int
  lengths : Nat → Nat → Nat → Nat
  /-- By layer and stack index; the first `freeCounts` entries count. -/
  free : Nat → Nat → Int
  freeCounts : Nat → Nat
  seqRows : Dict Int Nat
  freeRows : List Nat
  generation : Nat

namespace HeadSlotAllocator

open PyM

/-- The largest position that the `int32` array of positions holds. -/
def positionLimit : Int := 2147483647

def fresh (capacities : List Nat) (heads width rows : Nat) : HeadSlotAllocator where
  capacities := capacities
  heads := heads
  width := width
  rows := rows
  slots := fun _ _ _ _ => -1
  positions := fun _ _ _ _ => -1
  lengths := fun _ _ _ => 0
  free := fun _ i => i
  freeCounts := fun l => capacities.getD l 0
  seqRows := .empty
  freeRows := (List.range rows).reverse
  generation := 0

/-- `HeadSlotAllocator(capacities, heads, width, rows)`. -/
def create (capacities : List Nat) (heads width rows : Nat) : Except PyError HeadSlotAllocator :=
  if capacities = [] ∨ 0 ∈ capacities ++ [heads, width, rows] then
    .error (.valueError "Head-slot capacities and dimensions must be positive.")
  else
    .ok (fresh capacities heads width rows)

variable (s : HeadSlotAllocator)

def layers : Nat := s.capacities.length

/-- The index pairs of `np.ndindex` over layers and heads. -/
def layerHeads : List (Nat × Nat) := List.product (List.range s.layers) (List.range s.heads)

/-- The free slots of a layer. -/
def freeIds (l : Nat) : List Int := (List.range (s.freeCounts l)).map (s.free l)

variable (l row h : Nat)

def cells : List Int := (List.range (s.lengths l row h)).map (s.slots l row h)

def livePositions : List Int :=
  (List.range (s.lengths l row h)).map (s.positions l row h)

def layerCapacity (reserved : List Int) (l : Nat) : Except PyError Int :=
  if reserved = [] then
    .ok ((s.freeCounts l : Int) / s.heads)
  else
    match reserved[l]? with
    | none => .error (.indexError "tuple index out of range")
    | some r => .ok ((s.freeCounts l - r) / s.heads)

variable (seqId : Int)

def appendCapacity (reserved : List Int := []) : Except PyError Int := do
  let byLayer ← (List.range s.layers).mapM (s.layerCapacity reserved)
  match byLayer.min? with
  | none => .error (.valueError "min() arg is an empty sequence")
  | some available =>
    match s.seqRows.get? seqId with
    | none => return if s.freeRows = [] then 0 else max 0 (min available s.width)
    | some row =>
      match (s.layerHeads.map fun lh => (s.width : Int) - s.lengths lh.1 row lh.2).min? with
      | none => .error (.valueError "zero-size array to reduction operation")
      | some left => return max 0 (min available left)

def assignRows (seqRows : Dict Int Nat) : List Int → List Nat → List Nat
  | [], _ => []
  | sid :: ids, next =>
    match seqRows.get? sid, next with
    | some row, next => row :: assignRows seqRows ids next
    | none, row :: next => row :: assignRows seqRows ids next
    | none, [] => []

def consecutive (pos : List Int) : Bool :=
  !pos.isEmpty && pos.all (fun p => decide (0 ≤ p ∧ p ≤ positionLimit)) &&
    (pos.zip pos.tail).all fun p => decide (p.2 = p.1 + 1)

/-- The per-row checks of `plan_append`. -/
def checkRows : List (List Int) → List Nat → Except PyError Unit
  | pos :: rest, row :: rows =>
    if s.layerHeads.any fun lh => decide (s.width < s.lengths lh.1 row lh.2 + pos.length) then
      .error (.runtimeError "Head-slot index capacity exhausted before batch append.")
    else if s.layerHeads.any fun lh => decide (0 < s.lengths lh.1 row lh.2 ∧
        pos.headD 0 ≤ s.positions lh.1 row lh.2 (s.lengths lh.1 row lh.2 - 1)) then
      .error (.valueError "Append must follow retained original logical positions.")
    else
      checkRows rest rows
  | _, _ => .ok ()

def slotsNeeded (positions : List (List Int)) : Nat := s.heads * (positions.map List.length).sum

def planAppend (requests : List (Int × List Int)) : Except PyError HeadAppendPlan :=
  let ids := requests.map Prod.fst
  let positions := requests.map Prod.snd
  if ids = [] ∨ ¬ ids.Nodup then
    .error (.valueError "A batch must contain distinct sequence owners.")
  else if positions.any fun pos => !consecutive pos then
    .error (.valueError "Append positions must be nonempty consecutive logical positions.")
  else if s.freeRows.length < ids.countP (fun sid => !s.seqRows.contains sid) ∨
      (List.range s.layers).any (fun l => decide (s.freeCounts l < s.slotsNeeded positions)) then
    .error (.runtimeError "Insufficient head slots or resident rows for the whole batch.")
  else
    let rows := assignRows s.seqRows ids s.freeRows.reverse
    match s.checkRows positions rows with
    | .error e => .error e
    | .ok () => .ok ⟨s.generation, ids, rows, positions⟩

def takeRow (sid : Int) (row : Nat) : PyM HeadSlotAllocator Unit := do
  let s ← get
  if s.seqRows.contains sid then
    return ()
  else
    match s.freeRows.getLast? with
    | none => raise (.indexError "pop from empty list")
    | some top => do
      modify fun s => { s with freeRows := s.freeRows.dropLast }
      raiseIf (top ≠ row) (.custom 0 "AssertionError")
      modify fun s => { s with seqRows := s.seqRows.set sid row }

/-- The slot that token `t` of an append of `count` tokens gets in a head. -/
def selectedSlot (count l t h : Nat) : Int :=
  s.free l (s.freeCounts l - count * s.heads + t * s.heads + h)

/-- The array updates of one request of `apply_append`. -/
def writeCells (row : Nat) (pos : List Int) : HeadSlotAllocator :=
  { s with
    slots := fun l r h c =>
      if r = row ∧ s.lengths l r h ≤ c ∧ c < s.lengths l r h + pos.length then
        s.selectedSlot pos.length l (c - s.lengths l r h) h
      else s.slots l r h c
    positions := fun l r h c =>
      if r = row ∧ s.lengths l r h ≤ c ∧ c < s.lengths l r h + pos.length then
        pos.getD (c - s.lengths l r h) 0
      else s.positions l r h c
    freeCounts := fun l => s.freeCounts l - pos.length * s.heads
    lengths := fun l r h => if r = row then s.lengths l r h + pos.length else s.lengths l r h }

abbrev AppendWrites := List (Nat → Nat → Int × Nat)

/-- One request of `apply_append`. -/
def appendOne (sid : Int) (row : Nat) (pos : List Int) : PyM HeadSlotAllocator AppendWrites := do
  takeRow sid row
  let s ← get
  raiseIf ((List.range s.layers).any fun l => decide (s.freeCounts l < pos.length * s.heads))
    (.valueError "cannot reshape array")
  raiseIf (s.layerHeads.any fun lh => decide (s.width < s.lengths lh.1 row lh.2 + pos.length))
    (.indexError "index is out of bounds")
  modify (·.writeCells row pos)
  return (List.range pos.length).map fun t l h =>
    (s.selectedSlot pos.length l t h, s.lengths l row h + t)

/-- The loop of `apply_append`. -/
def appendLoop : List (Int × Nat × List Int) → AppendWrites → PyM HeadSlotAllocator AppendWrites
  | [], writes => return writes
  | (sid, row, pos) :: rest, writes => do
    let new ← appendOne sid row pos
    appendLoop rest (writes ++ new)

def applyAppend (plan : HeadAppendPlan) : PyM HeadSlotAllocator AppendWrites := do
  let s ← get
  raiseIf (plan.generation ≠ s.generation)
    (.runtimeError "Stale head-slot append plan; capacity changed.")
  let writes ← appendLoop (plan.seqIds.zip (plan.rows.zip plan.positions)) []
  modify fun s => { s with generation := s.generation + 1 }
  return writes

/-- `free[l][free_counts[l]:...] = ids` and the new count. -/
def pushFree (l : Nat) (ids : List Int) : HeadSlotAllocator :=
  { s with
    free := fun l' i =>
      if l' = l ∧ s.freeCounts l ≤ i ∧ i < s.freeCounts l + ids.length then
        ids.getD (i - s.freeCounts l) 0
      else s.free l' i
    freeCounts := fun l' => if l' = l then s.freeCounts l + ids.length else s.freeCounts l' }

/-- Ordered unique candidate indices of a head with `length` live cells. -/
def validIndices (length : Nat) : Option (List Int) → Bool
  | none => false
  | some [] => false
  | some (first :: rest) =>
    decide (0 ≤ first) && decide ((first :: rest).getLastD 0 < length) &&
      ((first :: rest).zip rest).all fun p => decide (p.1 < p.2)

variable (selections : List (List (Option (List Int))))

/-- `validate_selection`, and the row of the sequence. -/
def validateSelection :
    Except PyError Nat :=
  match s.seqRows.get? seqId with
  | none => .error (.keyError (toString seqId))
  | some row =>
    if selections.length ≠ s.layers ∨ selections.any fun heads => decide (heads.length ≠ s.heads) then
      .error (.valueError "Selection must contain every layer and head.")
    else if selections.zipIdx.any fun sl => sl.1.zipIdx.any fun ih =>
        !validIndices (s.lengths sl.2 row ih.2) ih.1 then
      .error (.valueError "Head selections must be nonempty, ordered unique candidate indices.")
    else
      .ok row

def discarded (indices : List Nat) : List Int :=
  ((List.range (s.lengths l row h)).filter fun c => !decide (c ∈ indices)).map (s.slots l row h)

/-- The body of `compact` for one head. -/
def compactHead (indices : List Nat) : HeadSlotAllocator :=
  { s.pushFree l (s.discarded l row h indices) with
    slots := fun l' r h' c =>
      if l' = l ∧ r = row ∧ h' = h ∧ c < s.lengths l row h then
        if c < indices.length then s.slots l row h (indices.getD c 0) else -1
      else s.slots l' r h' c
    positions := fun l' r h' c =>
      if l' = l ∧ r = row ∧ h' = h ∧ c < s.lengths l row h then
        if c < indices.length then s.positions l row h (indices.getD c 0) else -1
      else s.positions l' r h' c
    lengths := fun l' r h' =>
      if l' = l ∧ r = row ∧ h' = h then indices.length else s.lengths l' r h' }

/-- The heads of one layer from head `h` on. -/
def compactHeads (l row : Nat) : Nat → List (List Nat) → Nat → HeadSlotAllocator →
    HeadSlotAllocator × Nat
  | _, [], count, s => (s, count)
  | h, indices :: rest, count, s =>
    compactHeads l row (h + 1) rest (count + (s.discarded l row h indices).length)
      (s.compactHead l row h indices)

/-- The layers from layer `l` on. -/
def compactLayers (row : Nat) : Nat → List (List (List Nat)) → List Nat → HeadSlotAllocator →
    HeadSlotAllocator × List Nat
  | _, [], released, s => (s, released)
  | l, heads :: rest, released, s =>
    let (s', count) := compactHeads l row 0 heads 0 s
    compactLayers row (l + 1) rest (released ++ [count]) s'

def indicesOf : List (List (List Nat)) :=
  selections.map fun heads => heads.map fun indices => (indices.getD []).map Int.toNat

/-- `compact`: what each layer releases. -/
def compact :
    PyM HeadSlotAllocator (List Nat) := do
  let s ← get
  let row ← lift (s.validateSelection seqId selections)
  let result := compactLayers row 0 (indicesOf selections) [] s
  modify fun _ => { result.1 with generation := result.1.generation + 1 }
  return result.2

def releaseRow (row : Nat) : List (Nat × Nat) → HeadSlotAllocator → HeadSlotAllocator
  | [], s => s
  | (l, h) :: rest, s => releaseRow row rest (s.pushFree l (s.cells l row h))

def clearRow (row : Nat) : HeadSlotAllocator :=
  { s with
    slots := fun l r h c => if r = row then -1 else s.slots l r h c
    positions := fun l r h c => if r = row then -1 else s.positions l r h c
    lengths := fun l r h => if r = row then 0 else s.lengths l r h
    freeRows := s.freeRows ++ [row]
    generation := s.generation + 1 }

def freeSeq : PyM HeadSlotAllocator Unit := do
  let s ← get
  match s.seqRows.get? seqId with
  | none => return ()
  | some row =>
    modify fun s => (releaseRow row s.layerHeads { s with seqRows := s.seqRows.erase seqId }).clearRow row

end HeadSlotAllocator

end SparseEngine
