import SparseEngine.CacheManager.Standard
import SparseEngine.PrefixCache.BlockId

/-! Prefill chunks and decode steps reach `_record_frozen_prefix_materialization` in pieces of any
size. -/

namespace SparseEngine.StandardCacheManager

open PyM RadixPrefixIndex Prod

variable {ι : Type} {cfg : StandardConfig ι}

theorem fullBlocks_length (blockSize n : Nat) (tokens : List Int) (slots : List Nat) :
    (fullBlocks blockSize n tokens slots).length = n := by
  induction n generalizing tokens slots with
  | zero => rfl
  | succ n ih => simp [fullBlocks, ih]

theorem fullBlocks_add (blockSize m n : Nat) : ∀ (tokens : List Int) (slots : List Nat),
    fullBlocks blockSize (m + n) tokens slots = fullBlocks blockSize m tokens slots ++
      fullBlocks blockSize n (tokens.drop (m * blockSize)) (slots.drop (m * blockSize)) := by
  induction m with
  | zero => simp [fullBlocks]
  | succ m ih =>
    intro tokens slots
    have hstep : blockSize + m * blockSize = (m + 1) * blockSize := by ring
    rw [Nat.add_right_comm]
    simp only [fullBlocks, ih, List.drop_drop, List.cons_append, hstep]

theorem fullBlocks_append (blockSize n : Nat) : ∀ (tokens tokens' : List Int) (slots slots' : List Nat),
    n * blockSize ≤ tokens.length → n * blockSize ≤ slots.length →
    fullBlocks blockSize n (tokens ++ tokens') (slots ++ slots') =
      fullBlocks blockSize n tokens slots := by
  induction n with
  | zero => intros; rfl
  | succ n ih =>
    intro tokens tokens' slots slots' ht hs
    have hstep : (n + 1) * blockSize = n * blockSize + blockSize := by ring
    rw [hstep] at ht hs
    have ht' : blockSize ≤ tokens.length := by omega
    have hs' : blockSize ≤ slots.length := by omega
    simp only [fullBlocks, List.take_append_of_le_length ht', List.take_append_of_le_length hs',
      List.drop_append_of_le_length ht', List.drop_append_of_le_length hs']
    rw [ih _ _ _ _ (by rw [List.length_drop]; omega) (by rw [List.length_drop]; omega)]

/-- The pending blocks of completed blocks below `parent`. -/
def newBlocks (cfg : StandardConfig ι) : List (List Int × List Nat) → Option ι → Nat →
    List (PendingPrefixBlock ι)
  | [], _, _ => []
  | (tokens, slots) :: completed, parent, idx =>
    let blockId := cfg.index.hashBlock tokens parent
    ⟨blockId, parent, idx, makePrefixBlockPayload slots, tokens⟩ ::
      newBlocks cfg completed (some blockId) (idx + 1)

/-- The last id of completed blocks below `parent`. -/
def lastParent (cfg : StandardConfig ι) : List (List Int × List Nat) → Option ι → Option ι
  | [], parent => parent
  | (tokens, _) :: completed, parent =>
    lastParent cfg completed (some (cfg.index.hashBlock tokens parent))

theorem newBlocks_append (completed completed' : List (List Int × List Nat)) :
    ∀ (parent : Option ι) (idx : Nat), newBlocks cfg (completed ++ completed') parent idx =
      newBlocks cfg completed parent idx ++
        newBlocks cfg completed' (lastParent cfg completed parent) (idx + completed.length) := by
  induction completed with
  | nil => simp [newBlocks, lastParent]
  | cons c completed ih =>
    intro parent idx
    simp only [List.cons_append, newBlocks, lastParent, ih, List.length_cons]
    rw [Nat.add_right_comm, Nat.add_assoc]

theorem lastParent_append (completed completed' : List (List Int × List Nat)) :
    ∀ parent : Option ι, lastParent cfg (completed ++ completed') parent =
      lastParent cfg completed' (lastParent cfg completed parent) := by
  induction completed with
  | nil => simp [lastParent]
  | cons c completed ih => intro parent; simp only [List.cons_append, lastParent, ih]

theorem completeBlocks_eq (completed : List (List Int × List Nat)) :
    ∀ (state : PrefixRuntimeState ι) (pending : List (PendingPrefixBlock ι)),
      completeBlocks cfg completed state pending =
        ({ state with
            parentBlockId := lastParent cfg completed state.parentBlockId
            nextLogicalBlockIdx := state.nextLogicalBlockIdx + completed.length },
          pending ++ newBlocks cfg completed state.parentBlockId state.nextLogicalBlockIdx) := by
  induction completed with
  | nil => simp [completeBlocks, lastParent, newBlocks]
  | cons c completed ih =>
    intro state pending
    simp only [completeBlocks, ih, lastParent, newBlocks, List.length_cons, List.append_assoc,
      List.cons_append, List.nil_append]
    rw [Nat.add_right_comm, Nat.add_assoc]

structure Waiting (cfg : StandardConfig ι) (state : PrefixRuntimeState ι) : Prop where
  slots : state.pendingSlots.length = state.pendingTokens.length
  short : state.pendingTokens.length < cfg.blockSize

/-- The outcome of recording the stream `tokens` below `state`. -/
def recordStream (cfg : StandardConfig ι) (tokens : List Int) (slots : List Nat)
    (state : PrefixRuntimeState ι) (pending : List (PendingPrefixBlock ι)) :
    PrefixRuntimeState ι × List (PendingPrefixBlock ι) :=
  let n := tokens.length / cfg.blockSize
  let completed := fullBlocks cfg.blockSize n tokens slots
  ({ parentBlockId := lastParent cfg completed state.parentBlockId
     nextLogicalBlockIdx := state.nextLogicalBlockIdx + n
     pendingTokens := tokens.drop (n * cfg.blockSize)
     pendingSlots := slots.drop (n * cfg.blockSize) },
    pending ++ newBlocks cfg completed state.parentBlockId state.nextLogicalBlockIdx)

theorem recordFullBlocks_nil (tokens : List Int) (slots : List Nat) (state : PrefixRuntimeState ι)
    (pending : List (PendingPrefixBlock ι)) :
    recordFullBlocks cfg [] tokens slots state pending =
      recordStream cfg tokens slots state pending := by
  simp only [recordFullBlocks, completeBlocks_eq, List.nil_append, recordStream, fullBlocks_length]

variable {tokens : List Int} {slots : List Nat} {state : PrefixRuntimeState ι}

theorem recordTokens_eq (waiting : Waiting cfg state) (sized : tokens.length = slots.length)
    (pending : List (PendingPrefixBlock ι)) :
    recordTokens cfg tokens slots state pending =
      recordStream cfg (state.pendingTokens ++ tokens) (state.pendingSlots ++ slots) state pending := by
  obtain ⟨hslots, hshort⟩ := waiting
  have hpos : 0 < cfg.blockSize := cfg.index.blockSize_pos
  unfold recordTokens
  split
  · next hempty =>
    rw [List.isEmpty_iff] at hempty
    have hsempty : state.pendingSlots = [] := by
      rw [hempty] at hslots
      exact List.length_eq_zero_iff.mp hslots
    rw [hempty, hsempty, List.nil_append, List.nil_append, recordFullBlocks_nil]
  · simp only
    set take := min (cfg.blockSize - state.pendingTokens.length) tokens.length with htake
    split
    · -- The waiting tokens fill their block, and the rest of the chunk follows.
      next hfull =>
      rw [List.length_append, List.length_take] at hfull
      have hneed : take = cfg.blockSize - state.pendingTokens.length := by omega
      have hle : take ≤ tokens.length := by omega
      have hcut : ∀ {α : Type} (waitingPart new : List α),
          waitingPart.length = state.pendingTokens.length →
          (waitingPart ++ new).take cfg.blockSize = waitingPart ++ new.take take ∧
          (waitingPart ++ new).drop cfg.blockSize = new.drop take := by
        intro α waitingPart new hlen
        have hsum : cfg.blockSize = waitingPart.length + take := by omega
        rw [hsum]
        exact ⟨List.take_length_add_append .., List.drop_length_add_append ..⟩
      obtain ⟨htt, htd⟩ := hcut state.pendingTokens tokens rfl
      obtain ⟨hst, hsd⟩ := hcut state.pendingSlots slots hslots
      have hlen : (state.pendingTokens ++ tokens).length =
          cfg.blockSize + (tokens.drop take).length := by
        rw [List.length_append, List.length_drop]
        omega
      have hcount : (state.pendingTokens ++ tokens).length / cfg.blockSize =
          (tokens.drop take).length / cfg.blockSize + 1 := by
        rw [hlen, Nat.add_div_left _ hpos]
      have hblocks : fullBlocks cfg.blockSize ((tokens.drop take).length / cfg.blockSize + 1)
          (state.pendingTokens ++ tokens) (state.pendingSlots ++ slots) =
          [(state.pendingTokens ++ tokens.take take, state.pendingSlots ++ slots.take take)] ++
            fullBlocks cfg.blockSize ((tokens.drop take).length / cfg.blockSize) (tokens.drop take)
              (slots.drop take) := by
        simp only [fullBlocks, htt, hst, htd, hsd, List.singleton_append]
      have hdrop : ∀ {α : Type} (l : List α), l.drop
          (((tokens.drop take).length / cfg.blockSize + 1) * cfg.blockSize) =
          (l.drop cfg.blockSize).drop ((tokens.drop take).length / cfg.blockSize * cfg.blockSize) := by
        intro α l
        rw [List.drop_drop]
        congr 1
        ring
      simp only [recordFullBlocks, completeBlocks_eq, recordStream, hcount, hblocks, hdrop, htd, hsd]
      rw [List.length_append, List.length_singleton, fullBlocks_length, Nat.add_comm 1]
    · -- The chunk is too short: it waits as well.
      next hshorter =>
      rw [List.length_append, List.length_take] at hshorter
      have hall : take = tokens.length := by omega
      have hzero : (state.pendingTokens ++ tokens).length / cfg.blockSize = 0 := by
        refine Nat.div_eq_of_lt ?_
        rw [List.length_append]
        omega
      simp only [recordStream, hzero, fullBlocks, lastParent, newBlocks, Nat.add_zero,
        Nat.zero_mul, List.drop_zero, List.append_nil, hall]
      rw [List.take_length, sized, List.take_length]

theorem waiting_recordStream (state : PrefixRuntimeState ι) (sized : tokens.length = slots.length)
    (pending : List (PendingPrefixBlock ι)) :
    Waiting cfg (recordStream cfg tokens slots state pending).1 := by
  have hpos : 0 < cfg.blockSize := cfg.index.blockSize_pos
  have hmod := Nat.mod_lt tokens.length hpos
  have hdiv := Nat.div_add_mod' tokens.length cfg.blockSize
  constructor
  · simp only [recordStream, List.length_drop]
    omega
  · simp only [recordStream, List.length_drop]
    omega

variable {tokens' : List Int} {slots' : List Nat}

theorem recordStream_append (sized : tokens.length = slots.length)
    (pending : List (PendingPrefixBlock ι)) :
    recordStream cfg ((recordStream cfg tokens slots state pending).1.pendingTokens ++ tokens')
      ((recordStream cfg tokens slots state pending).1.pendingSlots ++ slots')
      (recordStream cfg tokens slots state pending).1 (recordStream cfg tokens slots state pending).2 =
      recordStream cfg (tokens ++ tokens') (slots ++ slots') state pending := by
  have hpos : 0 < cfg.blockSize := cfg.index.blockSize_pos
  simp only [recordStream]
  set m := tokens.length / cfg.blockSize with hm
  have hle : m * cfg.blockSize ≤ tokens.length := Nat.div_mul_le_self _ _
  have hle' : m * cfg.blockSize ≤ slots.length := sized ▸ hle
  set n := (tokens.drop (m * cfg.blockSize) ++ tokens').length / cfg.blockSize with hn
  have hcount : (tokens ++ tokens').length / cfg.blockSize = m + n := by
    have hlen : (tokens ++ tokens').length = (tokens.drop (m * cfg.blockSize) ++ tokens').length +
        m * cfg.blockSize := by
      simp only [List.length_append, List.length_drop]
      omega
    rw [hlen, Nat.add_mul_div_right _ _ hpos, ← hn, Nat.add_comm]
  have hrest : (tokens ++ tokens').drop (m * cfg.blockSize) =
      tokens.drop (m * cfg.blockSize) ++ tokens' := List.drop_append_of_le_length hle
  have hrest' : (slots ++ slots').drop (m * cfg.blockSize) =
      slots.drop (m * cfg.blockSize) ++ slots' := List.drop_append_of_le_length hle'
  have hblocks : fullBlocks cfg.blockSize (m + n) (tokens ++ tokens') (slots ++ slots') =
      fullBlocks cfg.blockSize m tokens slots ++ fullBlocks cfg.blockSize n
        (tokens.drop (m * cfg.blockSize) ++ tokens') (slots.drop (m * cfg.blockSize) ++ slots') := by
    rw [fullBlocks_add, fullBlocks_append _ _ _ _ _ _ hle hle', hrest, hrest']
  rw [hcount, hblocks, newBlocks_append, lastParent_append, fullBlocks_length, Nat.add_mul,
    ← List.drop_drop, ← List.drop_drop, hrest, hrest', Nat.add_assoc, List.append_assoc]

theorem recordTokens_append (waiting : Waiting cfg state) (sized : tokens.length = slots.length)
    (sized' : tokens'.length = slots'.length) (pending : List (PendingPrefixBlock ι)) :
    recordTokens cfg tokens' slots' (recordTokens cfg tokens slots state pending).1
      (recordTokens cfg tokens slots state pending).2 =
      recordTokens cfg (tokens ++ tokens') (slots ++ slots') state pending := by
  have hsum : (state.pendingTokens ++ tokens).length = (state.pendingSlots ++ slots).length := by
    simp only [List.length_append, waiting.slots, sized]
  have hboth : (tokens ++ tokens').length = (slots ++ slots').length := by
    simp only [List.length_append, sized, sized']
  rw [recordTokens_eq waiting sized, recordTokens_eq (waiting_recordStream state hsum pending) sized',
    recordTokens_eq waiting hboth, recordStream_append hsum, List.append_assoc, List.append_assoc]

def recordFrozenPrefixMaterialization (cfg : StandardConfig ι) (seqId : Nat) (tokens : List Int)
    (slots : List Nat) : ManagerM ι Unit :=
  setRequests fun r =>
    let result := recordTokens cfg tokens slots (runtimeState r seqId)
      ((r.pendingPrefixBlocks.get? seqId).getD [])
    { r with
      prefixRuntimeStates := r.prefixRuntimeStates.set seqId result.1
      pendingPrefixBlocks := r.pendingPrefixBlocks.set seqId result.2 }

variable {seqId : Nat}

theorem recordPrefixMaterialization_eq (text : cfg.multimodal seqId = false)
    (nonempty : tokens ≠ []) (sized : tokens.length = slots.length) (s : StandardCacheManager ι) :
    recordPrefixMaterialization cfg seqId tokens slots s =
      recordFrozenPrefixMaterialization cfg seqId tokens slots s := by
  have hempty : tokens.isEmpty = false := by
    cases tokens with
    | nil => exact absurd rfl nonempty
    | cons t ts => rfl
  have hmatch : ¬ tokens.length ≠ slots.length := not_not.mpr sized
  simp only [recordPrefixMaterialization, text, hempty, Bool.false_eq_true, if_false,
    PyM.bind_run, PyM.raiseIf, if_neg hmatch]
  rfl

theorem recordFrozen_run (cfg : StandardConfig ι) (seqId : Nat) (tokens : List Int)
    (slots : List Nat) (s : StandardCacheManager ι) :
    ∃ s', recordFrozenPrefixMaterialization cfg seqId tokens slots s = (.ok (), s') ∧
      (runtimeState s'.requests seqId, (s'.requests.pendingPrefixBlocks.get? seqId).getD []) =
        recordTokens cfg tokens slots (runtimeState s.requests seqId)
          ((s.requests.pendingPrefixBlocks.get? seqId).getD []) := by
  refine ⟨_, rfl, ?_⟩
  simp only [runtimeState, Dict.get?_set_self, Option.getD_some]

theorem recordFrozen_append {s : StandardCacheManager ι}
    (waiting : Waiting cfg (runtimeState s.requests seqId)) (sized : tokens.length = slots.length)
    (sized' : tokens'.length = slots'.length) :
    (do recordFrozenPrefixMaterialization cfg seqId tokens slots
        recordFrozenPrefixMaterialization cfg seqId tokens' slots' : ManagerM ι Unit) s =
      recordFrozenPrefixMaterialization cfg seqId (tokens ++ tokens') (slots ++ slots') s := by
  have hboth := recordTokens_append waiting sized sized'
    ((s.requests.pendingPrefixBlocks.get? seqId).getD [])
  simp only [recordFrozenPrefixMaterialization, setRequests, PyM.bind_run, PyM.modify]
  simp only [runtimeState, Dict.get?_set_self, Option.getD_some, Dict.set_set] at hboth ⊢
  rw [hboth]

theorem recordFrozen_chunks : ∀ (chunks : List (List Int × List Nat))
    (s : StandardCacheManager ι), Waiting cfg (runtimeState s.requests seqId) → chunks ≠ [] →
    (∀ c ∈ chunks, c.1.length = c.2.length) →
    PyM.forEach (fun c => recordFrozenPrefixMaterialization cfg seqId c.1 c.2) chunks s =
      recordFrozenPrefixMaterialization cfg seqId (chunks.flatMap fst)
        (chunks.flatMap snd) s
  | [], _, _, hne, _ => absurd rfl hne
  | [c], s, _, _, _ => by
    simp only [PyM.forEach, List.flatMap_cons, List.flatMap_nil, List.append_nil]
    rfl
  | c :: c' :: chunks, s, waiting, _, sized => by
    have hc := sized c List.mem_cons_self
    have hrest : ((c' :: chunks).flatMap fst).length =
        ((c' :: chunks).flatMap snd).length := by
      rw [List.length_flatMap, List.length_flatMap]
      exact congrArg List.sum (List.map_congr_left fun x hx => sized x (List.mem_cons_of_mem _ hx))
    have hcons : ∀ {α : Type} (f : List Int × List Nat → List α),
        (c :: c' :: chunks).flatMap f = f c ++ (c' :: chunks).flatMap f := fun f => List.flatMap_cons
    rw [hcons, hcons, ← recordFrozen_append waiting hc hrest]
    obtain ⟨s', hrun, hstate⟩ := recordFrozen_run cfg seqId c.1 c.2 s
    have hsum : ((runtimeState s.requests seqId).pendingTokens ++ c.1).length =
        ((runtimeState s.requests seqId).pendingSlots ++ c.2).length := by
      rw [List.length_append, List.length_append, waiting.slots, hc]
    have hwaiting : Waiting cfg (runtimeState s'.requests seqId) := by
      rw [recordTokens_eq waiting hc] at hstate
      rw [show runtimeState s'.requests seqId = _ from congrArg fst hstate]
      exact waiting_recordStream _ hsum _
    rw [PyM.forEach, PyM.bind_run, PyM.bind_run, hrun]
    exact recordFrozen_chunks (c' :: chunks) s' hwaiting (List.cons_ne_nil _ _)
      fun x hx => sized x (List.mem_cons_of_mem _ hx)

theorem blockIds_length (index : PrefixIndexConfig ι) (tokens : List Int) :
    (blockIdsForTokens index tokens).length = tokens.length / index.blockSize := by
  have hend := @blockIdsForTokens_get ι index tokens (tokens.length / index.blockSize)
  rw [if_neg (lt_irrefl _), List.getElem?_eq_none_iff] at hend
  refine le_antisymm hend ?_
  by_contra hlt
  have hlast := @blockIdsForTokens_get ι index tokens (blockIdsForTokens index tokens).length
  rw [if_pos (by omega), List.getElem?_eq_none (le_refl _)] at hlast
  cases hlast

variable {index : PrefixIndexConfig ι} {k : Nat} {before : List Int}

theorem blockIds_take (aligned : before.length = k * index.blockSize) (tokens : List Int) :
    (blockIdsForTokens index (before ++ tokens)).take k = blockIdsForTokens index before := by
  have hpos := index.blockSize_pos
  have hcount : before.length / index.blockSize = k := by
    rw [aligned, Nat.mul_div_cancel _ hpos]
  have hmore : k ≤ (before ++ tokens).length / index.blockSize := by
    rw [Nat.le_div_iff_mul_le hpos, List.length_append, aligned]
    exact Nat.le_add_right _ _
  refine List.ext_getElem? fun i => ?_
  rw [List.getElem?_take, blockIdsForTokens_get, blockIdsForTokens_get, hcount]
  split
  · next hi =>
    have hend : (i + 1) * index.blockSize ≤ before.length := by
      rw [aligned]
      exact Nat.mul_le_mul_right _ hi
    rw [if_pos (by omega), blockIdAt_congr i (List.take_append_of_le_length hend)]
  · rfl

theorem blockIds_last {i : Nat} (hi : i < tokens.length / index.blockSize) :
    ((blockIdsForTokens index tokens).take (i + 1)).getLast? = some (blockIdAt index tokens none i) := by
  rw [List.getLast?_take, if_neg (Nat.succ_ne_zero i), Nat.add_sub_cancel, blockIdsForTokens_get,
    if_pos hi, Option.some_or]

theorem blockIdAt_below (aligned : before.length = k * index.blockSize) (tokens : List Int)
    (i : Nat) :
    blockIdAt index tokens (blockIdsForTokens index before).getLast? i =
      blockIdAt index (before ++ tokens) none (k + i) := by
  have hblock : ∀ j, blockTokens index.blockSize tokens j =
      blockTokens index.blockSize (before ++ tokens) (k + j) := by
    intro j
    rw [blockTokens, blockTokens, Nat.add_mul, ← aligned, List.drop_length_add_append]
  rw [← blockIds_take aligned tokens]
  induction i with
  | zero =>
    cases k with
    | zero =>
      rw [Nat.zero_mul] at aligned
      rw [List.length_eq_zero_iff.mp aligned, List.take_zero]
      rfl
    | succ k =>
      have hk : k < (before ++ tokens).length / index.blockSize := by
        refine (Nat.le_div_iff_mul_le index.blockSize_pos).mpr ?_
        rw [List.length_append, ← aligned]
        exact Nat.le_add_right _ _
      rw [blockIds_last hk, Nat.add_zero, blockIdAt, blockIdAt, hblock 0]
  | succ i ih =>
    rw [← Nat.add_assoc, blockIdAt, blockIdAt, ih, hblock (i + 1)]
    rfl

theorem newBlocks_length (completed : List (List Int × List Nat)) :
    ∀ (parent : Option ι) (idx : Nat), (newBlocks cfg completed parent idx).length =
      completed.length := by
  induction completed with
  | nil => intros; rfl
  | cons c completed ih => intro parent idx; simp [newBlocks, ih]

theorem newBlocks_get (n : Nat) : ∀ (tokens : List Int) (slots : List Nat) (parent : Option ι)
    (idx i : Nat), i < n →
    (newBlocks cfg (fullBlocks cfg.blockSize n tokens slots) parent idx)[i]? =
      some ⟨blockIdAt cfg.index tokens parent i,
        match i with
        | 0 => parent
        | j + 1 => some (blockIdAt cfg.index tokens parent j),
        idx + i, makePrefixBlockPayload ((slots.drop (i * cfg.blockSize)).take cfg.blockSize),
        (tokens.drop (i * cfg.blockSize)).take cfg.blockSize⟩ := by
  induction n with
  | zero => intros; omega
  | succ n ih =>
    intro tokens slots parent idx i hi
    cases i with
    | zero => simp [fullBlocks, newBlocks, blockIdAt, blockTokens, StandardConfig.blockSize]
    | succ i =>
      have hstep : cfg.blockSize + i * cfg.blockSize = (i + 1) * cfg.blockSize := by ring
      simp only [fullBlocks, newBlocks, List.getElem?_cons_succ]
      rw [ih _ _ _ _ i (by omega), List.drop_drop, List.drop_drop, hstep, Nat.add_assoc,
        Nat.add_comm 1 i]
      refine congrArg some ?_
      rw [PendingPrefixBlock.mk.injEq]
      refine ⟨(blockIdAt_succ ..).symm, ?_, rfl, rfl, rfl⟩
      cases i with
      | zero => simp [blockIdAt, blockTokens, StandardConfig.blockSize]
      | succ j => exact congrArg some (blockIdAt_succ ..).symm

def pendingOf (s : StandardCacheManager ι) (seqId : Nat) : List (PendingPrefixBlock ι) :=
  (s.requests.pendingPrefixBlocks.get? seqId).getD []

/-- What recording a stream below a hit after the tokens `before` leaves. -/
structure Materialized (cfg : StandardConfig ι) (blockIds : List ι) (k : Nat) (tokens : List Int)
    (slots : List Nat) (state : PrefixRuntimeState ι) (blocks : List (PendingPrefixBlock ι)) :
    Prop where
  ids : blocks.map (·.stableBlockId) = blockIds.drop k
  parents : ∀ i b, blocks[i]? = some b → b.parentBlockId = (blockIds.take (k + i)).getLast?
  logical : ∀ i b, blocks[i]? = some b → b.logicalBlockIdx = k + i
  tokenIds : ∀ i b, blocks[i]? = some b →
    b.tokenIds = (tokens.drop (i * cfg.blockSize)).take cfg.blockSize
  tokenSlots : ∀ i b, blocks[i]? = some b →
    b.payload.tokenSlots = some ((slots.drop (i * cfg.blockSize)).take cfg.blockSize)
  waitingTokens : state.pendingTokens = tokens.drop (blocks.length * cfg.blockSize)
  waitingSlots : state.pendingSlots = slots.drop (blocks.length * cfg.blockSize)
  short : state.pendingTokens.length < cfg.blockSize

theorem recordStream_materialized (aligned : before.length = k * cfg.blockSize)
    (sized : tokens.length = slots.length)
    (parent : state.parentBlockId = (blockIdsForTokens cfg.index before).getLast?)
    (logical : state.nextLogicalBlockIdx = k) (pending : List (PendingPrefixBlock ι)) :
    ∃ blocks, (recordStream cfg tokens slots state pending).2 = pending ++ blocks ∧
      Materialized cfg (blockIdsForTokens cfg.index (before ++ tokens)) k tokens slots
        (recordStream cfg tokens slots state pending).1 blocks := by
  have hpos : 0 < cfg.blockSize := cfg.index.blockSize_pos
  have hcount : (before ++ tokens).length / cfg.blockSize = k + tokens.length / cfg.blockSize := by
    rw [List.length_append, aligned, Nat.add_comm, Nat.add_mul_div_right _ _ hpos, Nat.add_comm]
  refine ⟨_, rfl, ?_⟩
  set n := tokens.length / cfg.blockSize with hn
  set blocks := newBlocks cfg (fullBlocks cfg.blockSize n tokens slots) state.parentBlockId
    state.nextLogicalBlockIdx with hblocks
  have hlen : blocks.length = n := by rw [hblocks, newBlocks_length, fullBlocks_length]
  have hget := @newBlocks_get ι cfg n tokens slots state.parentBlockId
    state.nextLogicalBlockIdx
  have hids : ∀ i, i < k + n → (blockIdsForTokens cfg.index (before ++ tokens))[i]? =
      some (blockIdAt cfg.index (before ++ tokens) none i) := by
    intro i hi
    rw [blockIdsForTokens_get, if_pos (hcount ▸ hi)]
  have hidsLen : (blockIdsForTokens cfg.index (before ++ tokens)).length = k + n :=
    (blockIds_length ..).trans hcount
  have hbelow := @blockIdAt_below ι cfg.index _ _ aligned tokens
  have hsome : ∀ i b, blocks[i]? = some b → i < n := by
    intro i b h
    rw [← hlen]
    exact (List.getElem?_eq_some_iff.mp h).1
  refine ⟨?_, ?_, ?_, ?_, ?_, ?_, ?_, ?_⟩
  · refine List.ext_getElem? fun i => ?_
    rw [List.getElem?_map, List.getElem?_drop]
    rcases lt_or_ge i n with hi | hi
    · rw [hget i hi, hids (k + i) (by omega), Option.map_some, parent, hbelow]
    · rw [List.getElem?_eq_none (by omega), List.getElem?_eq_none (by omega), Option.map_none]
  · intro i b h
    have hi := hsome i b h
    rw [hget i hi] at h
    cases h
    cases i with
    | zero =>
      show state.parentBlockId = ((blockIdsForTokens cfg.index (before ++ tokens)).take k).getLast?
      rw [blockIds_take aligned, parent]
    | succ j =>
      have hj : k + j < (before ++ tokens).length / cfg.index.blockSize := by
        rw [show (before ++ tokens).length / cfg.index.blockSize = _ from hcount]
        omega
      show some (blockIdAt cfg.index tokens state.parentBlockId j) =
        ((blockIdsForTokens cfg.index (before ++ tokens)).take (k + j + 1)).getLast?
      rw [blockIds_last hj, parent, hbelow]
  · intro i b h
    rw [hget i (hsome i b h)] at h
    cases h
    rw [logical]
  · intro i b h
    rw [hget i (hsome i b h)] at h
    cases h
    rfl
  · intro i b h
    rw [hget i (hsome i b h)] at h
    cases h
    rfl
  · rw [hlen]
    rfl
  · rw [hlen]
    rfl
  · exact (waiting_recordStream state sized pending).short

/-- Cutting a stream into chunks changes nothing. -/
theorem materialization_chunks {cfg : StandardConfig Digest} {sha256 : List Byte → Digest}
    {fingerprint : List Byte}
    (hash : cfg.index.hashBlock = stablePrefixBlockId sha256 fingerprint)
    {s : StandardCacheManager Digest} {seqId : Nat}
    (fresh : s.requests.prefixRuntimeStates.get? seqId = none) {before : List Int}
    (aligned : before.length = (s.requests.hits seqId).hitBlockCount * cfg.blockSize)
    (hit : (s.requests.hits seqId).hitLastBlockId =
      (packedBlockIds sha256 fingerprint cfg.blockSize before).getLast?)
    {chunks : List (List Int × List Nat)} (some_chunk : chunks ≠ [])
    (sized : ∀ c ∈ chunks, c.1.length = c.2.length) :
    PyM.forEach (fun c => recordFrozenPrefixMaterialization cfg seqId c.1 c.2) chunks s =
        recordFrozenPrefixMaterialization cfg seqId (chunks.flatMap fst)
          (chunks.flatMap snd) s ∧
      (∃ s' blocks,
        recordFrozenPrefixMaterialization cfg seqId (chunks.flatMap fst)
          (chunks.flatMap snd) s = (.ok (), s') ∧
        pendingOf s' seqId = pendingOf s seqId ++ blocks ∧
        Materialized cfg
          (packedBlockIds sha256 fingerprint cfg.blockSize (before ++ chunks.flatMap fst))
          (s.requests.hits seqId).hitBlockCount (chunks.flatMap fst)
          (chunks.flatMap snd) (runtimeState s'.requests seqId) blocks) ∧
      ∀ other : List Int, (∀ t ∈ before ++ chunks.flatMap fst ++ other, TokenFits t) →
        NoCollision sha256 fingerprint
          (hashedForTokens cfg.index (before ++ chunks.flatMap fst) ++
            hashedForTokens cfg.index other) → ∀ i j x y,
        (packedBlockIds sha256 fingerprint cfg.blockSize
          (before ++ chunks.flatMap fst))[i]? = some x →
        (packedBlockIds sha256 fingerprint cfg.blockSize other)[j]? = some y →
        (x = y ↔ (before ++ chunks.flatMap fst).take ((i + 1) * cfg.blockSize) =
          other.take ((j + 1) * cfg.blockSize)) := by
  have hids : ∀ tokens, packedBlockIds sha256 fingerprint cfg.blockSize tokens =
      blockIdsForTokens cfg.index tokens := fun tokens => packedBlockIds_eq hash tokens none
  have hstate : runtimeState s.requests seqId =
      ⟨(s.requests.hits seqId).hitLastBlockId, (s.requests.hits seqId).hitBlockCount, [], []⟩ := by
    rw [runtimeState, fresh, Option.getD_none]
  have waiting : Waiting cfg (runtimeState s.requests seqId) := by
    rw [hstate]
    exact ⟨rfl, cfg.index.blockSize_pos⟩
  have hsized : (chunks.flatMap fst).length = (chunks.flatMap snd).length := by
    rw [List.length_flatMap, List.length_flatMap]
    exact congrArg List.sum (List.map_congr_left sized)
  refine ⟨recordFrozen_chunks chunks s waiting some_chunk sized, ?_, ?_⟩
  · obtain ⟨s', hrun, hleft⟩ := recordFrozen_run cfg seqId (chunks.flatMap fst)
      (chunks.flatMap snd) s
    have hwaiting : (runtimeState s.requests seqId).pendingTokens = [] ∧
        (runtimeState s.requests seqId).pendingSlots = [] := by
      rw [hstate]
      exact ⟨rfl, rfl⟩
    rw [recordTokens_eq waiting hsized, hwaiting.1, hwaiting.2, List.nil_append,
      List.nil_append] at hleft
    have hparent : (runtimeState s.requests seqId).parentBlockId =
        (blockIdsForTokens cfg.index before).getLast? := by
      rw [hstate, ← hids]
      exact hit
    obtain ⟨blocks, hblocks, hmaterialized⟩ := recordStream_materialized aligned hsized hparent
      (by rw [hstate]) ((s.requests.pendingPrefixBlocks.get? seqId).getD [])
    rw [hids]
    refine ⟨s', blocks, hrun, (congrArg snd hleft).trans hblocks, ?_⟩
    rwa [show runtimeState s'.requests seqId = _ from congrArg fst hleft]
  · intro other fits collisionFree i j x y hx hy
    rw [hids] at hx hy
    have hblocks : ∀ tokens : List Int, (∀ t ∈ tokens, TokenFits t) →
        ∀ b ∈ hashedForTokens cfg.index tokens,
          b.1.length = cfg.index.blockSize ∧ ∀ t ∈ b.1, TokenFits t := fun tokens htokens b hb => by
      obtain ⟨hlen, hmem⟩ := hashedBlocks_tokens _ tokens none (by
        rw [min_self, Int.toNat_natCast]
        exact Nat.div_mul_le_self _ _) b hb
      exact ⟨hlen, fun t ht => htokens t (hmem t ht)⟩
    have hfits := List.forall_mem_append.mp fits
    exact blockId_eq_iff (collisionFree.separates hash (List.forall_mem_append.mpr
      ⟨hblocks _ hfits.1, hblocks other hfits.2⟩)) (fun b hb => List.mem_append_left _ hb)
      (fun b hb => List.mem_append_right _ hb) hx hy

def bytesConfig : StandardConfig Digest where
  index := ⟨2, none, stablePrefixBlockId demoDigest [7], Nat.two_pos, noLimit_pos⟩
  numKvcacheSlots := 8
  numRows := 1
  rowCapacity := 8

/-- A prompt below a hit of one block, in three chunks, and another prompt that shares two blocks
with it. -/
theorem materialization_chunks_demo :
    (PyM.forEach (fun c => recordFrozenPrefixMaterialization bytesConfig 0 c.1 c.2)
        [([3], [5]), ([-4, 5, 6], [2, 7, 1]), ([7], [0])]
        { pool := {}
          requests := { hits := fun _ => ⟨2, 1, (packedBlockIds demoDigest [7] 2 [1, 2]).getLast?⟩ } } =
      recordFrozenPrefixMaterialization bytesConfig 0 [3, -4, 5, 6, 7] [5, 2, 7, 1, 0]
        { pool := {}
          requests :=
            { hits := fun _ => ⟨2, 1, (packedBlockIds demoDigest [7] 2 [1, 2]).getLast?⟩ } }) ∧
    ∀ i j x y, (packedBlockIds demoDigest [7] 2 [1, 2, 3, -4, 5, 6, 7])[i]? = some x →
      (packedBlockIds demoDigest [7] 2 [1, 2, 3, -4, 5, 8])[j]? = some y →
      (x = y ↔ [1, 2, 3, -4, 5, 6, 7].take ((i + 1) * 2) =
        [1, 2, 3, -4, 5, 8].take ((j + 1) * 2)) := by
  have chunked := @materialization_chunks bytesConfig demoDigest [7] rfl
    { pool := {}
      requests := { hits := fun _ => ⟨2, 1, (packedBlockIds demoDigest [7] 2 [1, 2]).getLast?⟩ } }
    0 rfl [1, 2] rfl rfl [([3], [5]), ([-4, 5, 6], [2, 7, 1]), ([7], [0])] (List.cons_ne_nil _ _)
    (by decide)
  exact ⟨chunked.1, chunked.2.2 [1, 2, 3, -4, 5, 8] (by decide) (by decide +kernel)⟩

end SparseEngine.StandardCacheManager
