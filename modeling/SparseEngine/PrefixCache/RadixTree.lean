import SparseEngine.Lib.Dict
import SparseEngine.Lib.Py
import SparseEngine.Lib.Forest

/-! `RadixTreeBackend` keeps the prefix blocks in a tree of segments. -/

namespace SparseEngine

open List Function Finset Dict

/-- A tree node. -/
structure RadixTreeNode (ι : Type) where
  segment : List ι := []
  parent : Option Nat := none
  children : Dict ι Nat := .empty

structure RadixLookupResult (ι : Type) where
  hitBlockCount : Nat
  lastBlockId : Option ι
deriving DecidableEq, Repr

/-- `RadixTreeBackend`. -/
structure RadixTreeBackend (ι : Type) where
  nodes : Nat → RadixTreeNode ι := fun _ => {}
  nextNode : Nat := 1
  locations : Dict ι (Nat × Nat) := .empty
  leafBlockIds : Finset ι := ∅

namespace RadixTreeBackend

variable {ι : Type} [DecidableEq ι]

def setNode (t : RadixTreeBackend ι) (n : Nat) (node : RadixTreeNode ι) : RadixTreeBackend ι :=
  { t with nodes := update t.nodes n node }

def indexSegment (t : RadixTreeBackend ι) (n : Nat) : RadixTreeBackend ι :=
  { t with
    locations := (t.nodes n).segment.zipIdx.foldl (fun d e => d.set e.1 (n, e.2)) t.locations }

def unindexSegment (t : RadixTreeBackend ι) (segment : List ι) : RadixTreeBackend ι :=
  { t with locations := segment.foldl erase t.locations }

def discardLeaf (t : RadixTreeBackend ι) (n : Nat) : RadixTreeBackend ι :=
  match (t.nodes n).segment.getLast? with
  | none => t
  | some blockId => { t with leafBlockIds := t.leafBlockIds.erase blockId }

def addLeaf (t : RadixTreeBackend ι) (n : Nat) : RadixTreeBackend ι :=
  match (t.nodes n).segment.getLast? with
  | none => t
  | some blockId =>
    if (t.nodes n).children.size = 0 then
      { t with leafBlockIds := insert blockId t.leafBlockIds }
    else t

/-- `_split_after`. -/
def splitAfter (t : RadixTreeBackend ι) (n index : Nat) : RadixTreeBackend ι :=
  let node := t.nodes n
  match node.segment.drop (index + 1) with
  | [] => t
  | first :: rest =>
    let suffixNode := t.nextNode
    let t := t.unindexSegment node.segment
    let t := { t with nextNode := suffixNode + 1 }.setNode suffixNode
      { segment := first :: rest, parent := some n, children := node.children }
    let t := node.children.values.foldl
      (fun t child => t.setNode child { t.nodes child with parent := some suffixNode }) t
    let t := t.setNode n
      { t.nodes n with
        segment := node.segment.take (index + 1)
        children := empty.set first suffixNode }
    (t.indexSegment n).indexSegment suffixNode

/-- The common end of the two branches of `insert_child`. -/
def attachChild (t : RadixTreeBackend ι) (n : Nat) (blockId : ι) : RadixTreeBackend ι :=
  let child := t.nextNode
  let t := { t with nextNode := child + 1 }.setNode child { segment := [blockId], parent := some n }
  let t := t.setNode n { t.nodes n with children := (t.nodes n).children.set blockId child }
  (t.indexSegment child).addLeaf child

def insertChild (parentBlockId : Option ι) (blockId : ι) : PyM (RadixTreeBackend ι) Unit := do
  let t ← PyM.get
  if t.locations.contains blockId then
    return ()
  match parentBlockId with
  | none =>
    if (t.nodes 0).children.contains blockId then
      PyM.raise (.runtimeError "Radix tree root child exists without a block location.")
    PyM.modify (·.attachChild 0 blockId)
  | some p =>
    match t.locations.get? p with
    | none =>
      PyM.raise (.keyError "Prefix cache parent block id is not present in radix tree.")
    | some (n, index) =>
      PyM.modify (·.splitAfter n index)
      let t ← PyM.get
      if (t.nodes n).children.size = 0 then
        PyM.modify (·.discardLeaf n)
      if (t.nodes n).children.contains blockId then
        PyM.raise (.runtimeError "Radix tree child exists without a block location.")
      PyM.modify (·.attachChild n blockId)

def removeBlock (blockId : ι) : PyM (RadixTreeBackend ι) Unit := do
  let t ← PyM.get
  match t.locations.get? blockId with
  | none => PyM.raise (.keyError "Prefix cache block id is not present in radix tree.")
  | some (n, index) =>
    let node := t.nodes n
    if index + 1 ≠ node.segment.length ∨ node.children.size ≠ 0 then
      PyM.raise (.runtimeError "Cannot remove a prefix cache tree block with live children.")
    match node.parent with
    | none => PyM.raise (.runtimeError "Cannot remove radix tree root.")
    | some parent =>
      PyM.modify fun t =>
        { t with
          locations := t.locations.erase blockId
          leafBlockIds := t.leafBlockIds.erase blockId }
      if node.segment.length = 1 then
        if (t.nodes parent).children.contains blockId then
          PyM.modify fun t =>
            (t.setNode parent
              { t.nodes parent with children := (t.nodes parent).children.erase blockId }).addLeaf
              parent
        else
          PyM.raise (.keyError "children")
      else
        PyM.modify fun t =>
          (t.setNode n { t.nodes n with segment := (t.nodes n).segment.dropLast }).addLeaf n

/-- The inner loop of `lookup` over one segment. -/
def matchSegment : List ι → List ι → Nat → Option ι →
    RadixLookupResult ι ⊕ (List ι × Nat × Option ι)
  | [], blockIds, hitCount, last => .inr (blockIds, hitCount, last)
  | _ :: _, [], hitCount, last => .inl ⟨hitCount, last⟩
  | segmentId :: segment, blockId :: blockIds, hitCount, last =>
    if blockId ≠ segmentId then .inl ⟨hitCount, last⟩
    else matchSegment segment blockIds (hitCount + 1) (some segmentId)

/-- The outer loop of `lookup`. -/
def lookupLoop (t : RadixTreeBackend ι) :
    Nat → Nat → List ι → Nat → Option ι → Except PyError (RadixLookupResult ι)
  | 0, _, _, _, _ => .error .outOfFuel
  | _ + 1, _, [], hitCount, last => .ok ⟨hitCount, last⟩
  | fuel + 1, n, blockId :: blockIds, hitCount, last =>
    match (t.nodes n).children.get? blockId with
    | none => .ok ⟨hitCount, last⟩
    | some child =>
      match matchSegment (t.nodes child).segment (blockId :: blockIds) hitCount last with
      | .inl result => .ok result
      | .inr (rest, hitCount, last) => lookupLoop t fuel child rest hitCount last

def lookup (t : RadixTreeBackend ι) (blockIds : List ι) (maxBlocks : Int) :
    Except PyError (RadixLookupResult ι) :=
  let ids := blockIds.take maxBlocks.toNat
  t.lookupLoop (ids.length + 1) 0 ids 0 none

/-- The walk of `path_to_block` to the root. -/
def pathLoop (t : RadixTreeBackend ι) : Nat → Nat → List ι → Except PyError (List ι)
  | 0, _, _ => .error .outOfFuel
  | fuel + 1, n, acc =>
    match (t.nodes n).parent with
    | none => .ok acc
    | some parent => pathLoop t fuel parent ((t.nodes parent).segment ++ acc)

def pathToBlock (t : RadixTreeBackend ι) (blockId : ι) : Except PyError (List ι) :=
  match t.locations.get? blockId with
  | none => .error (.keyError "Prefix cache block id is not present in radix tree.")
  | some (n, index) =>
    t.pathLoop (t.locations.size + 1) n ((t.nodes n).segment.take (index + 1))

/-- The stack loop of `subtree_block_ids`. -/
def subtreeLoop (t : RadixTreeBackend ι) :
    Nat → List ι → List Nat → Except PyError (List ι)
  | 0, _, _ => .error .outOfFuel
  | _ + 1, result, [] => .ok result
  | fuel + 1, result, n :: stack =>
    subtreeLoop t fuel (result ++ (t.nodes n).segment)
      ((t.nodes n).children.values.reverse ++ stack)

def subtreeBlockIds (t : RadixTreeBackend ι) (rootBlockId : ι) : Except PyError (List ι) :=
  match t.locations.get? rootBlockId with
  | none => .error (.keyError "Prefix cache subtree root is not present.")
  | some (n, index) =>
    t.subtreeLoop (t.locations.size + 1) ((t.nodes n).segment.drop index)
      (t.nodes n).children.values.reverse

def childCount (t : RadixTreeBackend ι) (blockId : ι) : Except PyError Nat :=
  match t.locations.get? blockId with
  | none => .error (.keyError "Prefix cache block id is not present in radix tree.")
  | some (n, index) =>
    if index + 1 < (t.nodes n).segment.length then .ok 1 else .ok (t.nodes n).children.size

/-- `child_block_ids`. -/
def childBlockIds (t : RadixTreeBackend ι) (blockId : ι) : Except PyError (List ι) :=
  match t.locations.get? blockId with
  | none => .error (.keyError "Prefix cache block id is not present in radix tree.")
  | some (n, index) =>
    if index + 1 < (t.nodes n).segment.length then
      .ok ((t.nodes n).segment.drop (index + 1) |>.take 1)
    else
      .ok ((t.nodes n).children.values.filterMap fun child => (t.nodes child).segment.head?)

/-- The node that holds the children of `q`. -/
def slot (t : RadixTreeBackend ι) : Option ι → Option Nat
  | none => some 0
  | some b => (t.locations.get? b).map Prod.fst

/-- `t` stores the blocks of `S` with the parents `par`. -/
structure Represents (t : RadixTreeBackend ι) (S : Finset ι) (par : ParentMap ι) : Prop where
  root : (t.nodes 0).parent = none ∧ (t.nodes 0).segment = []
  keys : ∀ b, b ∈ S ↔ ∃ n, t.locations.get? b = some (n, 0)
  index_zero : ∀ b n i, t.locations.get? b = some (n, i) → i = 0
  node : ∀ b n, t.locations.get? b = some (n, 0) → 0 < n ∧ n < t.nextNode ∧
    (t.nodes n).segment = [b]
  parent : ∀ b n q, t.locations.get? b = some (n, 0) → par b = some q →
    (t.nodes n).parent = t.slot q
  child : ∀ q n, t.slot q = some n → ∀ c m, (t.nodes n).children.get? c = some m ↔
    par c = some q ∧ t.locations.get? c = some (m, 0)
  leaf : ∀ b, b ∈ t.leafBlockIds ↔ b ∈ S ∧ ∀ c, par c ≠ some (some b)
  fresh : 0 < t.nextNode

namespace Represents

variable {t : RadixTreeBackend ι} {S : Finset ι} {par : ParentMap ι} {b c : ι} {n m : Nat}

theorem loc (h : Represents t S par) (hb : b ∈ S) : ∃ n, t.locations.get? b = some (n, 0) :=
  (h.keys b).mp hb

theorem loc_none (h : Represents t S par) (hb : b ∉ S) : t.locations.get? b = none := by
  cases hl : t.locations.get? b with
  | none => rfl
  | some l =>
    obtain ⟨n, i⟩ := l
    have := h.index_zero b n i hl
    subst this
    exact absurd ((h.keys b).mpr ⟨n, hl⟩) hb

theorem loc_inj (h : Represents t S par) (hb : t.locations.get? b = some (n, 0))
    (hc : t.locations.get? c = some (n, 0)) : b = c := by
  have h1 := (h.node b n hb).2.2
  have h2 := (h.node c n hc).2.2
  rw [h1] at h2
  simpa using h2

theorem slot_some (_ : Represents t S par) (hb : t.locations.get? b = some (n, 0)) :
    t.slot (some b) = some n := by
  simp [slot, hb]

theorem slot_inj (h : Represents t S par) {q q' : Option ι} (hq : t.slot q = some n)
    (hq' : t.slot q' = some n) : q = q' := by
  have hloc : ∀ {b : ι}, t.slot (some b) = some n → t.locations.get? b = some (n, 0) := by
    intro b hb
    simp only [slot, Option.map_eq_some_iff] at hb
    obtain ⟨⟨n', i⟩, hl, rfl⟩ := hb
    have := h.index_zero b n' i hl
    subst this
    exact hl
  cases q with
  | none =>
    cases q' with
    | none => rfl
    | some c =>
      have h0 : n = 0 := by simpa [slot, eq_comm] using hq
      have := (h.node c n (hloc hq')).1
      omega
  | some b =>
    cases q' with
    | none =>
      have h0 : n = 0 := by simpa [slot, eq_comm] using hq'
      have := (h.node b n (hloc hq)).1
      omega
    | some c => rw [h.loc_inj (hloc hq) (hloc hq')]

theorem slot_lt (h : Represents t S par) {q : Option ι} (hq : t.slot q = some n) :
    n < t.nextNode := by
  cases q with
  | none =>
    have : n = 0 := by simpa [slot, eq_comm] using hq
    rw [this]
    exact h.fresh
  | some b =>
    simp only [slot, Option.map_eq_some_iff] at hq
    obtain ⟨⟨n', i⟩, hl, rfl⟩ := hq
    have := h.index_zero b n' i hl
    subst this
    exact (h.node b n' hl).2.1

theorem size_eq_zero_iff (h : Represents t S par) (hf : Forest S par) {q : Option ι}
    (hq : t.slot q = some n) : (t.nodes n).children.size = 0 ↔ ∀ c, par c ≠ some q := by
  rw [← card_keySet, card_eq_zero, eq_empty_iff_forall_notMem]
  simp only [mem_keySet, not_exists]
  constructor
  · intro hno c hc
    obtain ⟨m, hm⟩ := h.loc ((hf.nodes c).mpr ⟨q, hc⟩)
    exact hno c m ((h.child q n hq c m).mpr ⟨hc, hm⟩)
  · intro hno c m hm
    exact hno c ((h.child q n hq c m).mp hm).1

end Represents

theorem represents_empty : Represents ({} : RadixTreeBackend ι) ∅ fun _ => none where
  root := ⟨rfl, rfl⟩
  keys := by simp
  index_zero := by simp
  node := by simp
  parent := by simp
  child := by simp
  leaf := by simp
  fresh := Nat.one_pos

section

variable {t : RadixTreeBackend ι} {n : Nat} {b : ι}

/-- `t` with a new node for `b` below the node `n`. -/
def withChild (t : RadixTreeBackend ι) (n : Nat) (b : ι) (leaves : Finset ι) :
    RadixTreeBackend ι where
  nodes := update (update t.nodes t.nextNode
    { segment := [b], parent := some n }) n
    { t.nodes n with children := (t.nodes n).children.set b t.nextNode }
  nextNode := t.nextNode + 1
  locations := t.locations.set b (t.nextNode, 0)
  leafBlockIds := insert b leaves

theorem attachChild_eq (hn : n < t.nextNode) (leaves : Finset ι) :
    { t with leafBlockIds := leaves }.attachChild n b = t.withChild n b leaves := by
  have hne : t.nextNode ≠ n := by omega
  simp [attachChild, withChild, setNode, indexSegment, addLeaf, hne, hne.symm, size,
    empty]

variable {leaves : Finset ι}

theorem withChild_loc_ne {x : ι} (hx : x ≠ b) :
    (t.withChild n b leaves).locations.get? x = t.locations.get? x :=
  get?_set_ne _ _ hx

theorem withChild_slot_ne {q : Option ι} (hq : q ≠ some b) :
    (t.withChild n b leaves).slot q = t.slot q := by
  cases q with
  | none => rfl
  | some y =>
    have hy : y ≠ b := fun e => hq (by rw [e])
    simp only [slot, withChild_loc_ne hy]

theorem withChild_new (hn : n < t.nextNode) :
    (t.withChild n b leaves).nodes t.nextNode = { segment := [b], parent := some n } := by
  have hne : t.nextNode ≠ n := by omega
  simp [withChild, hne]

theorem withChild_old (n : Nat) (b : ι) (leaves : Finset ι) {m : Nat} (hm : m < t.nextNode) :
    ((t.withChild n b leaves).nodes m).segment = (t.nodes m).segment ∧
    ((t.withChild n b leaves).nodes m).parent = (t.nodes m).parent ∧
    ((t.withChild n b leaves).nodes m).children =
      if m = n then (t.nodes m).children.set b t.nextNode else (t.nodes m).children := by
  have hne : m ≠ t.nextNode := by omega
  by_cases hmn : m = n
  · subst hmn; simp [withChild]
  · simp [withChild, hmn, hne]

theorem Represents.withChild {S : Finset ι} {par : ParentMap ι} {q : Option ι}
    (h : Represents t S par) (hf : Forest S par) (hb : b ∉ S) (hq : t.slot q = some n)
    (hqS : ∀ p, q = some p → p ∈ S)
    (hleaf : ∀ x, x ∈ leaves ↔ x ∈ S ∧ (∀ c, par c ≠ some (some x)) ∧ q ≠ some x) :
    Represents (t.withChild n b leaves) (insert b S) (update par b (some q)) := by
  have hn : n < t.nextNode := h.slot_lt hq
  have hqb : q ≠ some b := fun e => hb (hqS b e)
  have hparb : ∀ c, par c ≠ some (some b) := fun c hc => hb (hf.closed c b hc)
  have hself : (t.withChild n b leaves).locations.get? b = some (t.nextNode, 0) :=
    get?_set_self _ _ _
  -- A location of the new tree is the new one or an old one.
  have hloc : ∀ {x m i}, (t.withChild n b leaves).locations.get? x = some (m, i) →
      x = b ∧ m = t.nextNode ∧ i = 0 ∨ x ≠ b ∧ t.locations.get? x = some (m, i) := by
    intro x m i hx
    by_cases hxb : x = b
    · subst hxb
      rw [hself] at hx
      cases hx
      exact Or.inl ⟨rfl, rfl, rfl⟩
    · rw [withChild_loc_ne hxb] at hx
      exact Or.inr ⟨hxb, hx⟩
  refine ⟨?_, ?_, ?_, ?_, ?_, ?_, ?_, Nat.succ_pos _⟩
  · obtain ⟨hseg, hpar, -⟩ := withChild_old n b leaves h.fresh
    rw [hseg, hpar]
    exact h.root
  · intro x
    by_cases hx : x = b
    · subst hx; simp [hself]
    · simp [hx, withChild_loc_ne hx, h.keys]
  · intro x m i hx
    rcases hloc hx with ⟨-, -, h0⟩ | ⟨-, hx⟩
    · exact h0
    · exact h.index_zero x m i hx
  · intro x m hx
    rcases hloc hx with ⟨rfl, rfl, -⟩ | ⟨-, hx⟩
    · exact ⟨h.fresh, Nat.lt_succ_self _, by rw [withChild_new hn]⟩
    · obtain ⟨h0, hlt, hseg⟩ := h.node x m hx
      exact ⟨h0, Nat.lt_succ_of_lt hlt, (withChild_old n b leaves hlt).1.trans hseg⟩
  · intro x m q' hx hq'
    rcases hloc hx with ⟨rfl, rfl, -⟩ | ⟨hxb, hx⟩
    · rw [update_self] at hq'
      cases hq'
      rw [withChild_slot_ne hqb, hq, withChild_new hn]
    · rw [update_of_ne hxb] at hq'
      have hq'b : q' ≠ some b := fun e => hparb x (e ▸ hq')
      rw [withChild_slot_ne hq'b, ← h.parent x m q' hx hq']
      exact (withChild_old n b leaves (h.node x m hx).2.1).2.1
  · intro q' n' hn' c m
    by_cases hq'b : q' = some b
    · -- Nothing is below the new node yet.
      subst hq'b
      have hn'' : n' = t.nextNode := by simpa [slot, hself, eq_comm] using hn'
      have hcb : update par b (some q) c ≠ some (some b) := by
        by_cases hc : c = b
        · subst hc; rw [update_self]; exact fun e => hqb (Option.some.inj e)
        · rw [update_of_ne hc]; exact hparb c
      rw [hn'', withChild_new hn]
      simp [hcb]
    · rw [withChild_slot_ne hq'b] at hn'
      rw [(withChild_old n b leaves (h.slot_lt hn')).2.2]
      have hbm : (t.nodes n').children.get? b ≠ some m := by
        intro hm
        have := ((h.child q' n' hn' b m).mp hm).2
        rw [h.loc_none hb] at this
        cases this
      by_cases hqq : q' = q
      · subst hqq
        rw [hq] at hn'
        cases hn'
        by_cases hc : c = b
        · subst hc; simp [hself, eq_comm]
        · simp [hc, get?_set_ne _ _ hc, withChild_loc_ne hc, h.child q' n hq c m]
      · have hnn : n' ≠ n := by
          rintro rfl
          exact hqq (h.slot_inj hn' hq)
        by_cases hc : c = b
        · subst hc; simp [hnn, hbm, Ne.symm hqq]
        · simp [hnn, hc, withChild_loc_ne hc, h.child q' n' hn' c m]
  · intro x
    have hpar : (∀ c, update par b (some q) c ≠ some (some x)) ↔
        (∀ c, par c ≠ some (some x)) ∧ q ≠ some x := by
      constructor
      · intro hno
        refine ⟨fun c hc => ?_, fun e => ?_⟩
        · have hcb : c ≠ b := fun e => hb ((hf.nodes b).mpr ⟨_, e ▸ hc⟩)
          exact hno c (by rw [update_of_ne hcb]; exact hc)
        · exact hno b (by rw [update_self, e])
      · rintro ⟨hno, hqx⟩ c
        by_cases hc : c = b
        · subst hc; rw [update_self]; exact fun e => hqx (Option.some.inj e)
        · rw [update_of_ne hc]; exact hno c
    rw [hpar, RadixTreeBackend.withChild, mem_insert, mem_insert, hleaf]
    constructor
    · rintro (rfl | ⟨h1, h2, h3⟩)
      · exact ⟨Or.inl rfl, hparb, hqb⟩
      · exact ⟨Or.inr h1, h2, h3⟩
    · rintro ⟨rfl | h1, h2, h3⟩
      · exact Or.inl rfl
      · exact Or.inr ⟨h1, h2, h3⟩

theorem Represents.insertChild {S : Finset ι} {par : ParentMap ι} {q : Option ι}
    (h : Represents t S par) (hf : Forest S par) (hb : b ∉ S) (hq : ∀ p, q = some p → p ∈ S) :
    ∃ t', insertChild q b t = (.ok (), t') ∧
      Represents t' (insert b S) (update par b (some q)) := by
  have hbloc : t.locations.contains b = false := contains_eq_false.mpr (h.loc_none hb)
  have hchild : ∀ {q n}, t.slot q = some n → (t.nodes n).children.contains b = false := by
    intro q n hqn
    rw [contains_eq_false]
    cases hm : (t.nodes n).children.get? b with
    | none => rfl
    | some m =>
      have := ((h.child q n hqn b m).mp hm).2
      rw [h.loc_none hb] at this
      cases this
  cases q with
  | none =>
    refine ⟨t.withChild 0 b t.leafBlockIds, ?_, ?_⟩
    · rw [← attachChild_eq h.fresh]
      simp [RadixTreeBackend.insertChild, PyM.bind_run, hbloc, hchild (q := none) rfl]
    · refine h.withChild hf hb rfl hq fun x => ?_
      rw [h.leaf]
      simp
  | some p =>
    obtain ⟨n, hn⟩ := h.loc (hq p rfl)
    have hslot := h.slot_some hn
    have hseg := (h.node p n hn).2.2
    have hsplit : t.splitAfter n 0 = t := by simp [splitAfter, hseg]
    by_cases hsize : (t.nodes n).children.size = 0
    · refine ⟨t.withChild n b (t.leafBlockIds.erase p), ?_, ?_⟩
      · rw [← attachChild_eq (h.slot_lt hslot)]
        simp [RadixTreeBackend.insertChild, PyM.bind_run, hbloc, hn, hsplit, hsize, hchild hslot,
          discardLeaf, hseg]
      · refine h.withChild hf hb hslot hq fun x => ?_
        rw [mem_erase, h.leaf]
        simp only [ne_eq, Option.some.injEq]
        tauto
    · refine ⟨t.withChild n b t.leafBlockIds, ?_, ?_⟩
      · rw [← attachChild_eq (h.slot_lt hslot)]
        simp [RadixTreeBackend.insertChild, PyM.bind_run, hbloc, hn, hsplit, hsize, hchild hslot]
      · refine h.withChild hf hb hslot hq fun x => ?_
        rw [h.leaf]
        rw [h.size_eq_zero_iff hf hslot] at hsize
        constructor
        · rintro ⟨hx, hno⟩
          refine ⟨hx, hno, ?_⟩
          rintro ⟨rfl⟩
          exact hsize hno
        · rintro ⟨hx, hno, -⟩
          exact ⟨hx, hno⟩

end

section

variable {t : RadixTreeBackend ι} {n : Nat} {b : ι} {leaves : Finset ι}

/-- `t` without the block `b`. -/
def withoutChild (t : RadixTreeBackend ι) (n : Nat) (b : ι) (leaves : Finset ι) :
    RadixTreeBackend ι :=
  { t with
    nodes := update t.nodes n
      { t.nodes n with children := (t.nodes n).children.erase b }
    locations := t.locations.erase b
    leafBlockIds := leaves }

theorem withoutChild_nodes (n : Nat) (b : ι) (leaves : Finset ι) (m : Nat) :
    ((t.withoutChild n b leaves).nodes m).segment = (t.nodes m).segment ∧
    ((t.withoutChild n b leaves).nodes m).parent = (t.nodes m).parent ∧
    ((t.withoutChild n b leaves).nodes m).children =
      if m = n then (t.nodes m).children.erase b else (t.nodes m).children := by
  by_cases hmn : m = n
  · subst hmn; simp [withoutChild]
  · simp [withoutChild, hmn]

theorem withoutChild_loc {x : ι} {l : Nat × Nat} :
    (t.withoutChild n b leaves).locations.get? x = some l ↔
      x ≠ b ∧ t.locations.get? x = some l := by
  simp only [withoutChild, get?_erase]
  split
  · next h => simp [h]
  · next h => simp [h]

theorem withoutChild_slot {q : Option ι} {m : Nat} :
    (t.withoutChild n b leaves).slot q = some m ↔ q ≠ some b ∧ t.slot q = some m := by
  cases q with
  | none => simp [slot]
  | some y => simp [slot, Option.map_eq_some_iff, withoutChild_loc]

theorem Represents.withoutChild {S : Finset ι} {par : ParentMap ι} {q : Option ι}
    (h : Represents t S par) (hq : t.slot q = some n) (hpar : par b = some q)
    (hno : ∀ c, par c ≠ some (some b))
    (hleaf : ∀ x, x ∈ leaves ↔ x ∈ S ∧ x ≠ b ∧ ∀ c, c ≠ b → par c ≠ some (some x)) :
    Represents (t.withoutChild n b leaves) (S.erase b) (update par b none) := by
  have hupd : ∀ {x q'}, update par b none x = some q' ↔ x ≠ b ∧ par x = some q' := by
    intro x q'
    by_cases hx : x = b
    · subst hx; simp
    · simp [hx]
  refine ⟨?_, ?_, ?_, ?_, ?_, ?_, ?_, h.fresh⟩
  · obtain ⟨hseg, hp, -⟩ := withoutChild_nodes (t := t) n b leaves 0
    rw [hseg, hp]
    exact h.root
  · intro x
    simp [mem_erase, withoutChild_loc, h.keys]
  · intro x m i hx
    exact h.index_zero x m i (withoutChild_loc.mp hx).2
  · intro x m hx
    obtain ⟨h0, hlt, hseg⟩ := h.node x m (withoutChild_loc.mp hx).2
    exact ⟨h0, hlt, (withoutChild_nodes n b leaves m).1.trans hseg⟩
  · intro x m q' hx hq'
    obtain ⟨-, hx⟩ := withoutChild_loc.mp hx
    obtain ⟨-, hq'⟩ := hupd.mp hq'
    rw [(withoutChild_nodes n b leaves m).2.1, h.parent x m q' hx hq']
    cases hs : t.slot q' with
    | none =>
      cases hs' : (t.withoutChild n b leaves).slot q' with
      | none => rfl
      | some m' =>
        have := (withoutChild_slot.mp hs').2
        rw [hs] at this
        cases this
    | some m' =>
      have hq'b : q' ≠ some b := fun e => hno x (e ▸ hq')
      exact (withoutChild_slot.mpr ⟨hq'b, hs⟩).symm
  · intro q' n' hn' c m
    have hs' := (withoutChild_slot.mp hn').2
    rw [(withoutChild_nodes n b leaves n').2.2, hupd, withoutChild_loc]
    by_cases hqq : q' = q
    · subst hqq
      rw [hq] at hs'
      cases hs'
      rw [if_pos rfl, get?_erase]
      by_cases hc : c = b
      · subst hc; simp
      · simp [hc, h.child q' n hq c m]
    · have hnn : n' ≠ n := by
        rintro rfl
        exact hqq (h.slot_inj hs' hq)
      rw [if_neg hnn, h.child q' n' hs' c m]
      constructor
      · rintro ⟨h1, h2⟩
        have hcb : c ≠ b := by
          rintro rfl
          rw [hpar] at h1
          exact hqq (Option.some.inj h1).symm
        exact ⟨⟨hcb, h1⟩, hcb, h2⟩
      · rintro ⟨⟨-, h1⟩, -, h2⟩
        exact ⟨h1, h2⟩
  · intro x
    have hno' : (∀ c, update par b none c ≠ some (some x)) ↔
        ∀ c, c ≠ b → par c ≠ some (some x) := by
      simp only [ne_eq, hupd, not_and]
    rw [hno', mem_erase, RadixTreeBackend.withoutChild, hleaf]
    tauto

theorem Represents.removeBlock {S : Finset ι} {par : ParentMap ι} (h : Represents t S par)
    (hf : Forest S par) (hb : b ∈ S) (hno : ∀ c, par c ≠ some (some b)) :
    ∃ t', removeBlock b t = (.ok (), t') ∧
      Represents t' (S.erase b) (update par b none) := by
  obtain ⟨n, hn⟩ := h.loc hb
  obtain ⟨-, -, hseg⟩ := h.node b n hn
  obtain ⟨q, hq⟩ := (hf.nodes b).mp hb
  have hsize : (t.nodes n).children.size = 0 := (h.size_eq_zero_iff hf (h.slot_some hn)).mpr hno
  obtain ⟨pn, hpn⟩ : ∃ pn, t.slot q = some pn := by
    cases q with
    | none => exact ⟨0, rfl⟩
    | some p =>
      obtain ⟨pn, hpn⟩ := h.loc (hf.closed b p hq)
      exact ⟨pn, h.slot_some hpn⟩
  have hparent : (t.nodes n).parent = some pn := (h.parent b n q hn hq).trans hpn
  have hmem : (t.nodes pn).children.contains b = true :=
    contains_iff.mpr ⟨n, (h.child q pn hpn b n).mpr ⟨hq, hn⟩⟩
  -- The parent is left without children exactly when `b` was its only child.
  have hempty : ((t.nodes pn).children.erase b).size = 0 ↔ ∀ c, c ≠ b → par c ≠ some q := by
    rw [← card_keySet, keySet_erase, card_eq_zero,
      eq_empty_iff_forall_notMem]
    simp only [mem_erase, mem_keySet, not_and, not_exists]
    constructor
    · intro hc c hcb hcq
      obtain ⟨m, hm⟩ := h.loc ((hf.nodes c).mpr ⟨q, hcq⟩)
      exact hc c hcb m ((h.child q pn hpn c m).mpr ⟨hcq, hm⟩)
    · intro hc c hcb m hm
      exact hc c hcb ((h.child q pn hpn c m).mp hm).1
  have hpne : ∀ {p}, q = some p → p ≠ b := by
    rintro p rfl rfl
    exact hf.not_below_parent hq .refl
  -- What the leaf set needs, apart from the parent itself.
  have hbase : ∀ x, q ≠ some x → (x ∈ t.leafBlockIds.erase b ↔
      x ∈ S ∧ x ≠ b ∧ ∀ c, c ≠ b → par c ≠ some (some x)) := by
    intro x hx
    rw [mem_erase, h.leaf]
    constructor
    · rintro ⟨h1, h2, h3⟩
      exact ⟨h2, h1, fun c _ => h3 c⟩
    · rintro ⟨h1, h2, h3⟩
      refine ⟨h2, h1, fun c hc => ?_⟩
      by_cases hcb : c = b
      · subst hcb; rw [hq] at hc; exact hx (Option.some.inj hc)
      · exact h3 c hcb hc
  have hrun : ∀ leaves, (RadixTreeBackend.addLeaf
      (t.withoutChild pn b (t.leafBlockIds.erase b)) pn) = t.withoutChild pn b leaves →
      RadixTreeBackend.removeBlock b t = (.ok (), t.withoutChild pn b leaves) := by
    intro leaves hadd
    rw [← hadd]
    simp [RadixTreeBackend.removeBlock, PyM.bind_run, hn, hseg, hsize, hparent, hmem,
      RadixTreeBackend.withoutChild, setNode]
  cases q with
  | none =>
    have h0 : pn = 0 := by simpa [slot, eq_comm] using hpn
    refine ⟨_, hrun (t.leafBlockIds.erase b) ?_, h.withoutChild hpn hq hno fun x => hbase x (by simp)⟩
    simp [addLeaf, withoutChild_nodes, h0, h.root.2]
  | some p =>
    have hp : t.locations.get? p = some (pn, 0) := by
      obtain ⟨m, hm⟩ := h.loc (hf.closed b p hq)
      have := h.slot_some hm
      rw [hpn] at this
      cases this
      exact hm
    have hpseg := (h.node p pn hp).2.2
    by_cases hlast : ∀ c, c ≠ b → par c ≠ some (some p)
    · refine ⟨_, hrun (insert p (t.leafBlockIds.erase b)) ?_,
        h.withoutChild hpn hq hno fun x => ?_⟩
      · simp [addLeaf, withoutChild_nodes, hpseg, hempty.mpr hlast]
        rfl
      · by_cases hxp : x = p
        · subst hxp; simp [hf.closed b x hq, hpne rfl]; exact hlast
        · rw [mem_insert, or_iff_right hxp]
          exact hbase x (by simpa [eq_comm] using hxp)
    · refine ⟨_, hrun (t.leafBlockIds.erase b) ?_, h.withoutChild hpn hq hno fun x => ?_⟩
      · have hne : ((t.nodes pn).children.erase b).size ≠ 0 := fun e => hlast (hempty.mp e)
        simp [addLeaf, withoutChild_nodes, hpseg, hne]
      · by_cases hxp : x = p
        · subst hxp
          constructor
          · intro hx
            rw [mem_erase, h.leaf] at hx
            exact absurd hq (hx.2.2 b)
          · rintro ⟨-, -, hx⟩
            exact absurd hx hlast
        · exact hbase x (by simpa [eq_comm] using hxp)

end

namespace Represents

variable {t : RadixTreeBackend ι} {S : Finset ι} {par : ParentMap ι} {b : ι} {n : Nat}

theorem locations_keySet (h : Represents t S par) : t.locations.keySet = S := by
  ext x
  rw [mem_keySet, h.keys]
  constructor
  · rintro ⟨⟨n, i⟩, hx⟩
    have := h.index_zero x n i hx
    subst this
    exact ⟨n, hx⟩
  · rintro ⟨n, hx⟩
    exact ⟨_, hx⟩

theorem locations_size (h : Represents t S par) : t.locations.size = S.card := by
  rw [← card_keySet, h.locations_keySet]

theorem lookupLoop_eq (h : Represents t S par) (hf : Forest S par) {q : Option ι}
    (hq : t.slot q = some n) (ids : List ι) {fuel : Nat} (hfuel : ids.length < fuel) (hit : Nat)
    (last : Option ι) :
    t.lookupLoop fuel n ids hit last = .ok ⟨hit + PathFrom.depth par q ids,
      (ids.take (PathFrom.depth par q ids)).getLast?.or last⟩ := by
  induction ids generalizing q n fuel hit last with
  | nil =>
    obtain ⟨fuel, rfl⟩ := Nat.exists_eq_succ_of_ne_zero (Nat.ne_zero_of_lt hfuel)
    simp [lookupLoop, PathFrom.depth]
  | cons c ids ih =>
    obtain ⟨fuel, rfl⟩ := Nat.exists_eq_succ_of_ne_zero (Nat.ne_zero_of_lt hfuel)
    simp only [lookupLoop, PathFrom.depth]
    cases hm : (t.nodes n).children.get? c with
    | none =>
      have hc : par c ≠ some q := by
        intro hc
        obtain ⟨m, hl⟩ := h.loc ((hf.nodes c).mpr ⟨q, hc⟩)
        rw [(h.child q n hq c m).mpr ⟨hc, hl⟩] at hm
        cases hm
      simp [hc]
    | some m =>
      obtain ⟨hc, hl⟩ := (h.child q n hq c m).mp hm
      have hseg := (h.node c m hl).2.2
      have hlast : ∀ l : List ι, (c :: l).getLast?.or last = l.getLast?.or (some c) := by
        intro l
        cases l with
        | nil => rfl
        | cons d l => rw [getLast?_cons_cons, getLast?_cons]; rfl
      simp only [hseg, matchSegment, ne_eq, not_true_eq_false, if_false, hc, if_true]
      rw [ih (h.slot_some hl) (by simpa using hfuel), take_succ_cons, hlast,
        Nat.add_assoc, Nat.add_comm 1]

theorem lookup_spec (h : Represents t S par) (hf : Forest S par) (blockIds : List ι)
    (maxBlocks : Int) :
    t.lookup blockIds maxBlocks =
      .ok ⟨PathFrom.depth par none (blockIds.take maxBlocks.toNat),
        ((blockIds.take maxBlocks.toNat).take
          (PathFrom.depth par none (blockIds.take maxBlocks.toNat))).getLast?⟩ := by
  rw [lookup, h.lookupLoop_eq hf (q := none) rfl _ (Nat.lt_succ_self _)]
  simp

theorem pathLoop_eq (h : Represents t S par) {l : List ι} (hl : RootPath par b l)
    (hn : t.locations.get? b = some (n, 0)) (hf : Forest S par) {fuel : Nat}
    (hfuel : l.length < fuel) (acc : List ι) :
    t.pathLoop fuel n acc = .ok (l.dropLast ++ acc) := by
  induction hl generalizing n fuel acc with
  | root hr =>
    obtain ⟨fuel, rfl⟩ := Nat.exists_eq_add_of_le' (Nat.succ_le_of_lt hfuel)
    have hpar : (t.nodes n).parent = some 0 := h.parent _ n none hn hr
    simp [pathLoop, hpar, h.root]
  | @child b p l hc hp ih =>
    obtain ⟨fuel, rfl⟩ := Nat.exists_eq_succ_of_ne_zero (Nat.ne_zero_of_lt hfuel)
    obtain ⟨pn, hpn⟩ := h.loc (hf.closed b p hc)
    have hpar : (t.nodes n).parent = some pn := (h.parent b n _ hn hc).trans (h.slot_some hpn)
    have hseg := (h.node p pn hpn).2.2
    simp only [pathLoop, hpar, hseg]
    rw [ih hpn (by simpa using hfuel)]
    have hlast : l.dropLast ++ [p] = l := by
      rw [dropLast_append_getLast?]
      exact hp.getLast?_eq
    calc (.ok (l.dropLast ++ ([p] ++ acc)) : Except PyError (List ι))
        = .ok ((l.dropLast ++ [p]) ++ acc) := by rw [append_assoc]
      _ = .ok ((l ++ [b]).dropLast ++ acc) := by rw [hlast, dropLast_concat]

theorem pathToBlock_spec (h : Represents t S par) (hf : Forest S par) {l : List ι}
    (hl : RootPath par b l) : t.pathToBlock b = .ok l := by
  obtain ⟨n, hn⟩ := h.loc ((hf.nodes b).mpr (hl.mem_node hl.mem_last))
  have hseg := (h.node b n hn).2.2
  have hlen := hf.rootPath_length_le hl
  have hlast : l.dropLast ++ [b] = l := by
    rw [dropLast_append_getLast?]
    exact hl.getLast?_eq
  simp only [pathToBlock, hn, hseg]
  rw [h.pathLoop_eq hl hn hf (by rw [h.locations_size]; omega)]
  simpa using hlast

theorem childKeys (h : Represents t S par) (hf : Forest S par) {q : Option ι}
    (hq : t.slot q = some n) {c : ι} : c ∈ (t.nodes n).children.keys ↔ par c = some q := by
  rw [Dict.mem_keys]
  constructor
  · rintro ⟨m, hm⟩
    exact ((h.child q n hq c m).mp hm).1
  · intro hc
    obtain ⟨m, hm⟩ := h.loc ((hf.nodes c).mpr ⟨q, hc⟩)
    exact ⟨m, (h.child q n hq c m).mpr ⟨hc, hm⟩⟩

theorem childBlockIds_spec (h : Represents t S par) (hf : Forest S par) (hb : b ∈ S) :
    ∃ cs, t.childBlockIds b = .ok cs ∧ t.childCount b = .ok cs.length ∧ cs.Nodup ∧
      ∀ c, c ∈ cs ↔ par c = some (some b) := by
  obtain ⟨n, hn⟩ := h.loc hb
  have hseg := (h.node b n hn).2.2
  have hslot := h.slot_some hn
  refine ⟨(t.nodes n).children.keys, ?_, ?_, keys_nodup _, fun c => h.childKeys hf hslot⟩
  · simp only [childBlockIds, hn, hseg, length_singleton, Nat.lt_irrefl, if_false]
    congr 1
    have hhead : ∀ e ∈ (t.nodes n).children.entries, (t.nodes e.2).segment.head? = some e.1 := by
      rintro ⟨c, m⟩ he
      have hm := ((h.child _ n hslot c m).mp (mem_entries.mp he)).2
      rw [(h.node c m hm).2.2]
      rfl
    rw [values, filterMap_map, Dict.keys, ← filterMap_eq_map]
    exact filterMap_congr hhead
  · simp [childCount, hn, hseg, size, Dict.keys]

theorem subtreeLoop_spec (h : Represents t S par) (hf : Forest S par) (hb : b ∈ S) (fuel : Nat)
    {result ids : List ι} {stack : List Nat} (hs : Sweep par b result ids)
    (hst : Forall₂ (fun c m => t.locations.get? c = some (m, 0)) ids stack)
    (hfuel : S.card < result.length + fuel) :
    ∃ l, t.subtreeLoop fuel result stack = .ok l ∧ Sweep par b l [] := by
  induction fuel generalizing result ids stack with
  | zero =>
    have := hs.length_le hf hb
    omega
  | succ fuel ih =>
    cases hst with
    | nil => exact ⟨result, rfl, hs⟩
    | @cons c m ids stack hc hst =>
      have hseg := (h.node c m hc).2.2
      have hslot := h.slot_some hc
      simp only [subtreeLoop, hseg]
      have hv := hs.visit hf (nodup_reverse.mpr (keys_nodup (t.nodes m).children))
        fun x => by rw [mem_reverse, h.childKeys hf hslot]
      refine ih hv ?_ (by simp; omega)
      refine rel_append ?_ hst
      rw [forall₂_reverse_iff, Dict.keys, values, forall₂_map_left_iff,
        forall₂_map_right_iff, forall₂_same]
      rintro ⟨x, k⟩ he
      exact ((h.child _ m hslot x k).mp (mem_entries.mp he)).2

theorem subtreeBlockIds_spec (h : Represents t S par) (hf : Forest S par) (hb : b ∈ S) :
    ∃ l, t.subtreeBlockIds b = .ok l ∧ l.Nodup ∧ ∀ d, d ∈ l ↔ Below par b d := by
  obtain ⟨n, hn⟩ := h.loc hb
  have hseg := (h.node b n hn).2.2
  -- The code starts with the root of the subtree already taken off the stack.
  have hst : Forall₂ (fun c m => t.locations.get? c = some (m, 0)) [b] [n] := by
    simpa using hn
  obtain ⟨l, hl, hs⟩ := h.subtreeLoop_spec hf hb (S.card + 2) Sweep.start hst (by simp)
  simp only [subtreeLoop, hseg, nil_append, append_nil] at hl
  refine ⟨l, ?_, hs.nodup, fun d => hs.mem_iff⟩
  simp only [subtreeBlockIds, hn, hseg, drop_zero]
  rw [h.locations_size]
  exact hl

end Represents

end RadixTreeBackend

end SparseEngine
