import SparseEngine.CacheManager.LookupMemo
import SparseEngine.CacheManager.Standard

/-! `routing_snapshot` hands out an immutable view of the index. -/

namespace SparseEngine

open PyM RadixPrefixIndex

variable {ι π : Type} [LinearOrder ι]

/-- `PrefixCacheRoutingSnapshot`. -/
structure PrefixCacheRoutingSnapshot (ι : Type) where
  supported : Bool
  enabled : Bool
  method : String
  blockSize : Option Nat := none
  hashBlock : List Int → Option ι → ι
  blockIds : Finset ι := ∅
  routingMembership : Option (RoutingMembership ι) := none
  reason : Option String := none

/-- What `match` reports, without the ratio. -/
structure RoutingMatch (ι : Type) where
  supported : Bool
  enabled : Bool
  method : String
  blockSize : Option Nat := none
  promptTokens : Option Nat := none
  usableTokens : Option Nat := none
  matchedTokens : Nat
  matchedBlocks : Nat
  lastBlockId : Option ι := none
  liveBlocks : Option Nat := none
  reason : Option String := none

namespace PrefixCacheRoutingSnapshot

def containsBlock (snapshot : PrefixCacheRoutingSnapshot ι) (blockId : ι) : Bool :=
  match snapshot.routingMembership with
  | none => blockId ∈ snapshot.blockIds
  | some membership => membership.contains blockId

/-- The loop of `match` over the next `n` blocks. -/
def matchLoop (snapshot : PrefixCacheRoutingSnapshot ι) (blockSize : Nat) :
    Nat → List Int → Nat → Option ι → Nat × Option ι
  | 0, _, hitBlocks, lastBlockId => (hitBlocks, lastBlockId)
  | n + 1, tokenIds, hitBlocks, lastBlockId =>
    let blockId := snapshot.hashBlock (tokenIds.take blockSize) lastBlockId
    if snapshot.containsBlock blockId then
      matchLoop snapshot blockSize n (tokenIds.drop blockSize) (hitBlocks + 1) (some blockId)
    else
      (hitBlocks, lastBlockId)

/-- `match`. -/
def matchTokens (snapshot : PrefixCacheRoutingSnapshot ι) (tokenIds : List Int) :
    Except PyError (RoutingMatch ι) :=
  if snapshot.supported = false ∨ snapshot.enabled = false then
    .ok { supported := snapshot.supported, enabled := snapshot.enabled, method := snapshot.method,
          matchedTokens := 0, matchedBlocks := 0, reason := snapshot.reason }
  else
    match snapshot.blockSize with
    | none =>
      .error (.runtimeError "Enabled prefix-cache routing snapshot has no valid block size.")
    | some blockSize =>
      if blockSize = 0 then
        .error (.runtimeError "Enabled prefix-cache routing snapshot has no valid block size.")
      else
        let usable := StandardCacheManager.usablePrefixCacheTokens tokenIds.length blockSize
        let hit := matchLoop snapshot blockSize (usable / blockSize) tokenIds 0 none
        .ok { supported := true, enabled := true, method := snapshot.method,
              blockSize := some blockSize, promptTokens := some tokenIds.length,
              usableTokens := some usable, matchedTokens := hit.1 * blockSize,
              matchedBlocks := hit.1, lastBlockId := hit.2,
              liveBlocks := some (snapshot.routingMembership.elim snapshot.blockIds.card
                (·.liveBlocks)) }

end PrefixCacheRoutingSnapshot

def matchLongestPrefix (cfg : PrefixIndexConfig ι) (s : RadixPrefixIndex ι π) (tokenIds : List Int)
    (maxUsableTokens : Int) : Except PyError (LookupResult ι) :=
  s.matchLongestBlockIds cfg (blockIdsForTokens cfg tokenIds (some maxUsableTokens))

structure RoutedIndex (ι π : Type) where
  index : RadixPrefixIndex ι π := {}
  routingSnapshot : Option (PrefixCacheRoutingSnapshot ι) := none

namespace RoutedIndex

def newSnapshot (cfg : PrefixIndexConfig ι) (method : String) (s : RadixPrefixIndex ι π) :
    PrefixCacheRoutingSnapshot ι :=
  { supported := true, enabled := true, method := method, blockSize := some cfg.blockSize,
    hashBlock := cfg.hashBlock, routingMembership := some s.routingMembership }

/-- The part of `routing_snapshot` that builds a new one. -/
def buildSnapshot (cfg : PrefixIndexConfig ι) (method : String) :
    PyM (RoutedIndex ι π) (PrefixCacheRoutingSnapshot ι) := do
  let s ← PyM.get
  PyM.raiseIf (s.index.routingMembership.liveBlocks ≠ s.index.blocks.size)
    (.runtimeError "Prefix-cache routing membership is inconsistent with the live index")
  let snapshot := newSnapshot cfg method s.index
  PyM.modify fun s => { s with routingSnapshot := some snapshot }
  return snapshot

/-- `routing_snapshot`. -/
def takeSnapshot (cfg : PrefixIndexConfig ι) (method : String) :
    PyM (RoutedIndex ι π) (PrefixCacheRoutingSnapshot ι) := do
  match (← PyM.get).routingSnapshot with
  | none => buildSnapshot cfg method
  | some snapshot => if snapshot.method = method then return snapshot else buildSnapshot cfg method

def indexCall (cfg : PrefixIndexConfig ι) (op : Op ι π) (s : RoutedIndex ι π) : RoutedIndex ι π :=
  let index := op.next cfg s.index
  { index := index
    routingSnapshot := if index.epochs.lookup = s.index.epochs.lookup then s.routingSnapshot else none }

end RoutedIndex

section

variable {cfg : PrefixIndexConfig ι} {s : RadixPrefixIndex ι π} {H : Set (List Int × Option ι)}

/-- The snapshot was built by an index with the ids `S`. -/
structure SnapshotOf (cfg : PrefixIndexConfig ι) (S : Finset ι)
    (snapshot : PrefixCacheRoutingSnapshot ι) : Prop where
  supported : snapshot.supported = true
  enabled : snapshot.enabled = true
  blockSize : snapshot.blockSize = some cfg.blockSize
  hashBlock : snapshot.hashBlock = cfg.hashBlock
  membership : ∃ m, snapshot.routingMembership = some m ∧ m.Holds S

theorem newSnapshot_of (wf : WellFormed s) (method : String) :
    SnapshotOf cfg s.blocks.keySet (RoutedIndex.newSnapshot cfg method s) :=
  ⟨rfl, rfl, rfl, rfl, s.routingMembership, rfl, wf.routing⟩

variable {snapshot : PrefixCacheRoutingSnapshot ι}

theorem SnapshotOf.contains_iff (collisionFree : CollisionFree cfg H) (wf : WellFormed s)
    (addressed : ContentAddressed cfg H s) (h : SnapshotOf cfg s.blocks.keySet snapshot)
    {tokens : List Int} {parent : Option ι} (hashed : (tokens, parent) ∈ H) :
    snapshot.containsBlock (cfg.hashBlock tokens parent) = true ↔
      parentMap s.blocks (cfg.hashBlock tokens parent) = some parent := by
  obtain ⟨m, hm, holds⟩ := h.membership
  have hmem : snapshot.containsBlock (cfg.hashBlock tokens parent) = true ↔
      cfg.hashBlock tokens parent ∈ s.blocks.keySet := by
    simp only [PrefixCacheRoutingSnapshot.containsBlock, hm]
    exact holds.contains_iff _
  rw [hmem]
  constructor
  · exact parent_of_indexed collisionFree addressed hashed
  · intro hpar
    exact (wf.forest.nodes _).mpr ⟨_, hpar⟩

theorem matchLoop_eq (collisionFree : CollisionFree cfg H) (wf : WellFormed s)
    (addressed : ContentAddressed cfg H s) (h : SnapshotOf cfg s.blocks.keySet snapshot) (n : Nat) :
    ∀ (tokens : List Int) (hits : Nat) (last : Option ι),
      (∀ b ∈ hashedBlocks cfg n tokens last, b ∈ H) → snapshot.matchLoop cfg.blockSize n tokens hits last =
        (hits + PathFrom.depth (parentMap s.blocks) last (blockIdsLoop cfg n tokens last),
          ((blockIdsLoop cfg n tokens last).take
            (PathFrom.depth (parentMap s.blocks) last (blockIdsLoop cfg n tokens last))).getLast?.or
            last) := by
  induction n with
  | zero =>
    intro tokens hits last _
    simp [PrefixCacheRoutingSnapshot.matchLoop, blockIdsLoop, PathFrom.depth]
  | succ n ih =>
    intro tokens hits last hashed
    obtain ⟨hfirst, hrest⟩ := List.forall_mem_cons.mp hashed
    have hcontains := h.contains_iff collisionFree wf addressed hfirst
    simp only [PrefixCacheRoutingSnapshot.matchLoop, blockIdsLoop, PathFrom.depth, h.hashBlock]
    by_cases hpar : parentMap s.blocks (cfg.hashBlock (tokens.take cfg.blockSize) last) = some last
    · rw [if_pos (hcontains.mpr hpar), if_pos hpar, ih _ _ _ hrest]
      refine Prod.ext_iff.mpr ⟨by simp only; omega, ?_⟩
      rw [List.take_succ_cons, List.getLast?_cons]
      cases (List.take _ _).getLast? <;> rfl
    · rw [if_neg fun hc => hpar (hcontains.mp hc), if_neg hpar]
      simp

theorem usable_le (promptLen blockSize : Nat) :
    StandardCacheManager.usablePrefixCacheTokens promptLen blockSize ≤ promptLen := by
  unfold StandardCacheManager.usablePrefixCacheTokens
  split
  · exact Nat.zero_le _
  · have := Nat.div_mul_le_self (promptLen - 1) blockSize
    omega

/-- The blocks that a match of `tokenIds` hashes are blocks of `H`. -/
def Matchable (cfg : PrefixIndexConfig ι) (H : Set (List Int × Option ι)) (tokenIds : List Int) :
    Prop :=
  ∀ b ∈ hashedForTokens cfg tokenIds
    (StandardCacheManager.usablePrefixCacheTokens tokenIds.length cfg.blockSize), b ∈ H

/-- The snapshot and the index report the same hit for `tokenIds`. -/
def Agrees (cfg : PrefixIndexConfig ι) (snapshot : PrefixCacheRoutingSnapshot ι)
    (s : RadixPrefixIndex ι π) (tokenIds : List Int) : Prop :=
  ∃ r, snapshot.matchTokens tokenIds = .ok r ∧
    matchLongestPrefix cfg s tokenIds
      (StandardCacheManager.usablePrefixCacheTokens tokenIds.length cfg.blockSize) =
      .ok (r.matchedTokens, r.lastBlockId, r.matchedBlocks)

theorem SnapshotOf.agrees (collisionFree : CollisionFree cfg H) (wf : WellFormed s)
    (addressed : ContentAddressed cfg H s) (h : SnapshotOf cfg s.blocks.keySet snapshot)
    {tokenIds : List Int} (hashed : Matchable cfg H tokenIds) : Agrees cfg snapshot s tokenIds := by
  have husable := usable_le tokenIds.length cfg.blockSize
  have hcount : (min (StandardCacheManager.usablePrefixCacheTokens tokenIds.length cfg.blockSize : Int)
      tokenIds.length).toNat =
      StandardCacheManager.usablePrefixCacheTokens tokenIds.length cfg.blockSize := by omega
  rw [Matchable, hashedForTokens, hcount] at hashed
  have hpos := cfg.blockSize_pos
  unfold Agrees matchLongestPrefix
  simp only [PrefixCacheRoutingSnapshot.matchTokens, h.supported, h.enabled, h.blockSize,
    blockIdsForTokens, hcount, matchLongestBlockIds_eq wf,
    matchLoop_eq collisionFree wf addressed h _ _ _ _ hashed, Bool.true_eq_false,
    or_self, if_false, Nat.pos_iff_ne_zero.mp hpos]
  refine ⟨_, rfl, ?_⟩
  simp only [Nat.zero_add, Option.or_none]
  unfold hitResult
  split
  · next hzero => simp [hzero]
  · rfl

end

section

variable {cfg : PrefixIndexConfig ι} {H : Set (List Int × Option ι)}

inductive RoutingOp (ι π : Type) where
  | index (op : Op ι π)
  | snapshot (method : String)

structure RoutingState (ι π : Type) where
  routed : RoutedIndex ι π := {}
  taken : List (PrefixCacheRoutingSnapshot ι × RadixPrefixIndex ι π) := []

/-- An inserted block is one of `H` and has its id. -/
def RoutingOp.Hashed (cfg : PrefixIndexConfig ι) (H : Set (List Int × Option ι))
    (op : RoutingOp ι π) : Prop :=
  ∀ b, op = .index (.insertBlock b) →
    b.stableBlockId = cfg.hashBlock b.tokenIds b.parentBlockId ∧ (b.tokenIds, b.parentBlockId) ∈ H

/-- The state after `op`. -/
def RoutingOp.next (cfg : PrefixIndexConfig ι) (s : RoutingState ι π) : RoutingOp ι π → RoutingState ι π
  | .index op => { s with routed := s.routed.indexCall cfg op }
  | .snapshot method =>
    match RoutedIndex.takeSnapshot cfg method s.routed with
    | (.ok new, routed) => ⟨routed, (new, s.routed.index) :: s.taken⟩
    | (.error _, routed) => { s with routed := routed }

inductive RoutingReachable (cfg : PrefixIndexConfig ι) (H : Set (List Int × Option ι)) :
    RoutingState ι π → Prop
  | init : RoutingReachable cfg H {}
  | step {s : RoutingState ι π} (op : RoutingOp ι π) : RoutingReachable cfg H s → op.Hashed cfg H →
      RoutingReachable cfg H (op.next cfg s)

/-- Every snapshot that was handed out agrees with the lookups of its time. -/
structure RoutingInv (cfg : PrefixIndexConfig ι) (H : Set (List Int × Option ι))
    (s : RoutingState ι π) : Prop where
  wf : WellFormed s.routed.index
  addressed : ContentAddressed cfg H s.routed.index
  cached : ∀ snapshot, s.routed.routingSnapshot = some snapshot →
    SnapshotOf cfg s.routed.index.blocks.keySet snapshot
  taken : ∀ t ∈ s.taken, ∀ tokenIds, Matchable cfg H tokenIds → Agrees cfg t.1 t.2 tokenIds

theorem Steps.lookup {s s' : RadixPrefixIndex ι π} (h : Steps s s') :
    s.epochs.lookup ≤ s'.epochs.lookup ∧
      (s'.epochs.lookup = s.epochs.lookup → s'.blocks.keySet = s.blocks.keySet) := by
  induction h with
  | refl => exact ⟨le_rfl, fun _ => rfl⟩
  | tail _ step ih =>
    obtain ⟨hle, hkeys⟩ := ih
    cases step.change with
    | update upd _ _ hl _ => exact ⟨hl ▸ hle, fun he => upd.keys.trans (hkeys (hl ▸ he))⟩
    | quiet upd _ _ hl _ => exact ⟨hl ▸ hle, fun he => upd.keys.trans (hkeys (hl ▸ he))⟩
    | remove _ _ _ _ he _ _ =>
      have hl := congrArg IndexEpochs.lookup he
      simp only [IndexEpochs.markRemoved, IndexEpochs.markCapacityMutated,
        IndexEpochs.markMutated] at hl
      exact ⟨by omega, fun heq => by omega⟩
    | view hb he _ _ => exact ⟨he ▸ hle, fun heq => by rw [hb]; exact hkeys (he ▸ heq)⟩

theorem lookup_markInserted (e : IndexEpochs) (changed : Bool) :
    (e.markInserted changed).lookup = e.lookup + 1 := by
  cases changed <;> rfl

theorem Outcome.keys {s s' : RadixPrefixIndex ι π} {op : Op ι π} (h : Outcome s op s')
    (same : s'.epochs.lookup = s.epochs.lookup) : s'.blocks.keySet = s.blocks.keySet := by
  cases h with
  | steps hs => exact (Steps.lookup hs).2 same
  | insert _ hins =>
    rw [hins.epochs, lookup_markInserted] at same
    omega
  | taken _ he => rw [he]

theorem takeSnapshot_spec {s : RoutingState ι π} (h : RoutingInv cfg H s) (method : String) :
    wp (RoutedIndex.takeSnapshot cfg method)
      (fun snapshot r => SnapshotOf cfg s.routed.index.blocks.keySet snapshot ∧
        r = { s.routed with routingSnapshot := some snapshot })
      (fun _ _ => False) s.routed := by
  have hbuild : wp (RoutedIndex.buildSnapshot cfg method)
      (fun snapshot r => SnapshotOf cfg s.routed.index.blocks.keySet snapshot ∧
        r = { s.routed with routingSnapshot := some snapshot })
      (fun _ _ => False) s.routed := by
    simp only [RoutedIndex.buildSnapshot, wp_bind, wp_get, wp_raiseIf, wp_modify, wp_pure]
    refine ⟨fun hne => hne ?_, fun _ => ⟨newSnapshot_of h.wf method, trivial⟩⟩
    rw [h.wf.routing.live, Dict.card_keySet]
  simp only [RoutedIndex.takeSnapshot, wp_bind, wp_get]
  cases hc : s.routed.routingSnapshot with
  | none => exact hbuild
  | some snapshot =>
    simp only [wp_ite, wp_pure]
    split
    · refine ⟨h.cached snapshot hc, ?_⟩
      rw [← hc]
    · exact hbuild

theorem RoutingInv.next (collisionFree : CollisionFree cfg H) {s : RoutingState ι π}
    (h : RoutingInv cfg H s) {op : RoutingOp ι π} (hashed : op.Hashed cfg H) :
    RoutingInv cfg H (op.next cfg s) := by
  cases op with
  | index op =>
    have ho : Outcome s.routed.index op (op.next cfg s.routed.index) := run_outcome h.wf op
    refine ⟨ho.wf h.wf, h.addressed.outcome ho fun b hb => hashed b (by rw [hb]),
      fun snapshot hs => ?_, h.taken⟩
    simp only [RoutingOp.next, RoutedIndex.indexCall] at hs ⊢
    split at hs
    · next same =>
      rw [Outcome.keys ho same]
      exact h.cached snapshot hs
    · cases hs
  | snapshot method =>
    have hspec := takeSnapshot_spec h method
    unfold wp at hspec
    simp only [RoutingOp.next]
    split at hspec
    · next snapshot r hrun =>
      obtain ⟨hsnap, rfl⟩ := hspec
      rw [hrun]
      refine ⟨h.wf, h.addressed, fun sn hs => ?_, fun t ht => ?_⟩
      · cases hs
        exact hsnap
      · rcases List.mem_cons.mp ht with rfl | ht
        · exact fun _ => hsnap.agrees collisionFree h.wf h.addressed
        · exact h.taken t ht
    · exact hspec.elim

theorem RoutingReachable.inv (collisionFree : CollisionFree cfg H) {s : RoutingState ι π}
    (h : RoutingReachable cfg H s) : RoutingInv cfg H s := by
  induction h with
  | init => exact ⟨wf_empty, by simp [ContentAddressed], by simp, by simp⟩
  | step op _ hashed ih => exact ih.next collisionFree hashed

/-- In every interleaving, taking a snapshot succeeds and the snapshot reports what
`match_longest_prefix` reports on the current index. -/
theorem routing_snapshot_agrees (collisionFree : CollisionFree cfg H) {s : RoutingState ι π}
    (h : RoutingReachable cfg H s) :
    (∀ method, ∃ snapshot r, RoutedIndex.takeSnapshot cfg method s.routed = (.ok snapshot, r) ∧
      ∀ tokenIds, Matchable cfg H tokenIds → Agrees cfg snapshot s.routed.index tokenIds) ∧
    ∀ t ∈ s.taken, ∀ tokenIds, Matchable cfg H tokenIds → Agrees cfg t.1 t.2 tokenIds := by
  have inv := h.inv collisionFree
  refine ⟨fun method => ?_, inv.taken⟩
  have hspec := takeSnapshot_spec inv method
  unfold wp at hspec
  split at hspec
  · next snapshot r hrun =>
    exact ⟨snapshot, r, hrun, fun _ => hspec.1.agrees collisionFree inv.wf inv.addressed⟩
  · exact hspec.elim

def routingDemo : List (RoutingOp Digest Unit) :=
  [.index (.insertBlock memoBlock), .snapshot "", .index (.evictUntilWeight 1 fun _ => 1)]

theorem routingReachable_foldl {ops : List (RoutingOp ι π)} {s : RoutingState ι π}
    (h : RoutingReachable cfg H s) (hashed : ∀ op ∈ ops, op.Hashed cfg H) :
    RoutingReachable cfg H (ops.foldl (RoutingOp.next cfg) s) := by
  induction ops generalizing s with
  | nil => exact h
  | cons op ops ih =>
    exact ih (.step op h (hashed op List.mem_cons_self)) fun o ho =>
      hashed o (List.mem_cons_of_mem _ ho)

theorem routing_snapshot_agrees_demo :
    (routingDemo.foldl (RoutingOp.next memoConfig) {}).routed.index.blocks.size = 0 ∧
    (routingDemo.foldl (RoutingOp.next memoConfig) {}).taken.length = 1 ∧
    ∀ t ∈ (routingDemo.foldl (RoutingOp.next memoConfig) {}).taken,
      Agrees memoConfig t.1 t.2 [1, 2] := by
  have hreach : RoutingReachable memoConfig { b | b ∈ memoHashed }
      (routingDemo.foldl (RoutingOp.next memoConfig) {}) := by
    refine routingReachable_foldl .init fun op hop => ?_
    simp only [routingDemo, List.mem_cons, List.not_mem_nil, or_false] at hop
    rcases hop with rfl | rfl | rfl <;> intro b hb <;> cases hb
    exact ⟨rfl, List.mem_cons_self⟩
  exact ⟨by decide +kernel, by decide, fun t ht =>
    (routing_snapshot_agrees collisionFree_memoHashed hreach).2 t ht [1, 2] fun b hb =>
      List.mem_of_mem_take (i := 1) hb⟩

end

end SparseEngine
