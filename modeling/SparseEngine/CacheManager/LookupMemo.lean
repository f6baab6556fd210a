import SparseEngine.PrefixCache.BlockId
import SparseEngine.PrefixCache.Runs

/-! `lookup_prefix_cache_hit` remembers the block ids and the hit of a prompt and, on the next call,
checks only two of them. -/

namespace SparseEngine

open RadixPrefixIndex

structure SequenceRef where
  objectId : Nat
  seqId : Nat
  promptTokenIds : List Int

abbrev LookupResult (ι : Type) := Nat × Option ι × Nat

structure PrefixLookupCacheEntry (ι : Type) where
  tokenIds : List Int
  usableTokens : Int
  blockIds : List ι
  result : LookupResult ι

/-- `PrefixLookupCache`. -/
structure PrefixLookupCache (ι : Type) where
  maxEntries : Nat := 128
  entries : Dict Nat (PrefixLookupCacheEntry ι) := .empty
  liveEntries : Dict Nat (Nat × PrefixLookupCacheEntry ι) := .empty
  batchEntries : Option (Dict Nat (PrefixLookupCacheEntry ι)) := none

namespace PrefixLookupCache

variable {ι : Type}

def rememberLive (cache : PrefixLookupCache ι) (seq : SequenceRef)
    (entry : PrefixLookupCacheEntry ι) : PrefixLookupCache ι :=
  { cache with liveEntries := cache.liveEntries.set seq.seqId (seq.objectId, entry) }

/-- `discard_dead`. -/
def ownerDied (cache : PrefixLookupCache ι) (objectId : Nat) : PrefixLookupCache ι :=
  { cache with
    liveEntries := (cache.liveEntries.entries.filter fun e => e.2.1 = objectId).foldl
      (fun d e => d.erase e.1) cache.liveEntries }

def moveToEnd (d : Dict Nat (PrefixLookupCacheEntry ι)) (seqId : Nat)
    (entry : PrefixLookupCacheEntry ι) : Dict Nat (PrefixLookupCacheEntry ι) :=
  (d.erase seqId).set seqId entry

/-- `self._live_entries.get(seq.seq_id)`. -/
def liveEntry (cache : PrefixLookupCache ι) (seq : SequenceRef) : Option (PrefixLookupCacheEntry ι) :=
  match cache.liveEntries.get? seq.seqId with
  | none => none
  | some (owner, entry) => if owner = seq.objectId then some entry else none

/-- The entry of `seq_id` in the batch or in the bounded store, which it is moved to the
end of. -/
def storedEntry (cache : PrefixLookupCache ι) (seqId : Nat) :
    Option (PrefixLookupCacheEntry ι) × PrefixLookupCache ι :=
  match cache.batchEntries.bind (·.get? seqId) with
  | some entry => (some entry, cache)
  | none =>
    match cache.entries.get? seqId with
    | none => (none, cache)
    | some entry => (some entry, { cache with entries := moveToEnd cache.entries seqId entry })

/-- `self._batch_entries[seq_id] = entry` inside a batch. -/
def noteBatch (cache : PrefixLookupCache ι) (seqId : Nat) (entry : PrefixLookupCacheEntry ι) :
    PrefixLookupCache ι :=
  { cache with batchEntries := cache.batchEntries.map (·.set seqId entry) }

def get (cache : PrefixLookupCache ι) (seq : SequenceRef) :
    Option (PrefixLookupCacheEntry ι) × PrefixLookupCache ι :=
  match cache.liveEntry seq with
  | some entry => (some entry, cache.noteBatch seq.seqId entry)
  | none =>
    match cache.storedEntry seq.seqId with
    | (none, cache) => (none, cache)
    | (some entry, cache) => (some entry, (cache.rememberLive seq entry).noteBatch seq.seqId entry)

/-- `while len(entries) > max_entries: entries.popitem(last=False)`. -/
def dropOldest (maxEntries : Nat) (d : Dict Nat (PrefixLookupCacheEntry ι)) :
    Dict Nat (PrefixLookupCacheEntry ι) :=
  ⟨d.entries.drop (d.size - maxEntries), d.nodup.sublist ((List.drop_sublist _ _).map _)⟩

def setItem (cache : PrefixLookupCache ι) (seq : SequenceRef) (entry : PrefixLookupCacheEntry ι) :
    PrefixLookupCache ι :=
  let cache := cache.rememberLive seq entry
  if cache.batchEntries.isSome then
    cache.noteBatch seq.seqId entry
  else
    { cache with entries := dropOldest cache.maxEntries (moveToEnd cache.entries seq.seqId entry) }

def discard (cache : PrefixLookupCache ι) (seqId : Nat) : PrefixLookupCache ι :=
  { cache with
    liveEntries := cache.liveEntries.erase seqId
    entries := cache.entries.erase seqId
    batchEntries := cache.batchEntries.map (·.erase seqId) }

/-- The entry of the context manager `batch`. -/
def batchEnter (first : Bool) : PyM (PrefixLookupCache ι) Unit := do
  let cache ← PyM.get
  if first then
    PyM.modify fun cache => { cache with batchEntries := some .empty }
  else
    PyM.raiseIf cache.batchEntries.isNone
      (.runtimeError "Prefix lookup batch continuation has no first fragment.")

/-- Leaving `batch` without an exception. -/
def batchExit (cache : PrefixLookupCache ι) (last : Bool) : PrefixLookupCache ι :=
  if last then
    { cache with entries := cache.batchEntries.getD cache.entries, batchEntries := none }
  else cache

/-- Leaving `batch` with an exception. -/
def batchFail (cache : PrefixLookupCache ι) : PrefixLookupCache ι :=
  { cache with batchEntries := none }

end PrefixLookupCache

structure LookupState (ι π : Type) where
  index : RadixPrefixIndex ι π := {}
  cache : PrefixLookupCache ι := {}

section

variable {ι π : Type} [LinearOrder ι]

def lookupIsCurrent (index : RadixPrefixIndex ι π) (entry : PrefixLookupCacheEntry ι) : Bool :=
  let hitBlocks := entry.result.2.2
  (hitBlocks = 0 || (entry.blockIds[hitBlocks - 1]?).any index.blocks.contains) &&
    (hitBlocks = entry.blockIds.length ||
      !(entry.blockIds[hitBlocks]?).any index.blocks.contains)

/-- The part of `lookup_prefix_cache_hit` that does not use a remembered result. -/
def lookupAndRemember (cfg : PrefixIndexConfig ι) (seq : SequenceRef) (usableTokens : Int)
    (blockIds : List ι) : PyM (LookupState ι π) (LookupResult ι) := do
  let s ← PyM.get
  let result ← PyM.lift (s.index.matchLongestBlockIds cfg blockIds)
  PyM.modify fun s => { s with
    cache := s.cache.setItem seq ⟨seq.promptTokenIds, usableTokens, blockIds, result⟩ }
  return result

def lookupPrefixCacheHit (cfg : PrefixIndexConfig ι) (seq : SequenceRef) (usableTokens : Int) :
    PyM (LookupState ι π) (LookupResult ι) := do
  let s ← PyM.get
  let (entry, cache) := s.cache.get seq
  PyM.modify fun s => { s with cache := cache }
  match entry with
  | some entry =>
    if entry.tokenIds = seq.promptTokenIds ∧ entry.usableTokens = usableTokens then
      if lookupIsCurrent s.index entry then
        return entry.result
      else
        lookupAndRemember cfg seq usableTokens entry.blockIds
    else
      lookupAndRemember cfg seq usableTokens
        (blockIdsForTokens cfg seq.promptTokenIds (some usableTokens))
  | none =>
    lookupAndRemember cfg seq usableTokens
      (blockIdsForTokens cfg seq.promptTokenIds (some usableTokens))

end

section

variable {ι π : Type} [LinearOrder ι] {cfg : PrefixIndexConfig ι} {s : RadixPrefixIndex ι π}
  {H : Set (List Int × Option ι)}

/-- Blocks of `H`, which are those that a run inserts or looks up, share an id only below one
parent. -/
def CollisionFree (cfg : PrefixIndexConfig ι) (H : Set (List Int × Option ι)) : Prop :=
  ∀ b ∈ H, ∀ b' ∈ H, cfg.hashBlock b.1 b.2 = cfg.hashBlock b'.1 b'.2 → b.2 = b'.2

/-- Every indexed block is one of `H` and has its id. -/
def ContentAddressed (cfg : PrefixIndexConfig ι) (H : Set (List Int × Option ι))
    (s : RadixPrefixIndex ι π) : Prop :=
  ∀ id b, s.blocks.get? id = some b →
    ∃ tokens, id = cfg.hashBlock tokens b.parentBlockId ∧ (tokens, b.parentBlockId) ∈ H

theorem parent_of_indexed (hcf : CollisionFree cfg H) (hca : ContentAddressed cfg H s)
    {tokens : List Int} {parent : Option ι} (hashed : (tokens, parent) ∈ H)
    (h : cfg.hashBlock tokens parent ∈ s.blocks.keySet) :
    parentMap s.blocks (cfg.hashBlock tokens parent) = some parent := by
  obtain ⟨b, hb⟩ := Dict.mem_keySet.mp h
  obtain ⟨tokens', htok, hmem⟩ := hca _ b hb
  have hparent : parent = b.parentBlockId := hcf _ hashed _ hmem htok
  rw [parentMap_of_get hb, hparent]

theorem path_of_indexed (hcf : CollisionFree cfg H) (hca : ContentAddressed cfg H s)
    (hf : Forest s.blocks.keySet (parentMap s.blocks)) (n : Nat) :
    ∀ (tokens : List Int) (parent : Option ι) (i : Nat) (id : ι),
      (∀ b ∈ hashedBlocks cfg n tokens parent, b ∈ H) →
      (blockIdsLoop cfg n tokens parent)[i]? = some id → id ∈ s.blocks.keySet →
      PathFrom (parentMap s.blocks) parent ((blockIdsLoop cfg n tokens parent).take (i + 1)) := by
  induction n with
  | zero => intro tokens parent i id _ hid; simp [blockIdsLoop] at hid
  | succ n ih =>
    intro tokens parent i id hashed hid hmem
    obtain ⟨hfirst, hrest⟩ := List.forall_mem_cons.mp hashed
    simp only [blockIdsLoop] at hid ⊢
    cases i with
    | zero =>
      simp only [List.getElem?_cons_zero, Option.some.injEq] at hid
      rw [List.take_succ_cons, List.take_zero]
      exact ⟨parent_of_indexed hcf hca hfirst (hid ▸ hmem), trivial⟩
    | succ i =>
      rw [List.getElem?_cons_succ] at hid
      have hpath := ih _ _ i id hrest hid hmem
      rw [List.take_succ_cons]
      refine ⟨parent_of_indexed hcf hca hfirst ?_, hpath⟩
      -- The next block of the chain names this one as its parent.
      cases hnext : blockIdsLoop cfg n (tokens.drop cfg.blockSize)
          (some (cfg.hashBlock (tokens.take cfg.blockSize) parent)) with
      | nil => rw [hnext] at hid; simp at hid
      | cons c cs =>
        rw [hnext, List.take_succ_cons] at hpath
        exact hf.closed c _ hpath.1

/-- What a lookup of `blockIds` with `hitBlocks` hits returns. -/
def hitResult (cfg : PrefixIndexConfig ι) (blockIds : List ι) (hitBlocks : Nat) : LookupResult ι :=
  if hitBlocks = 0 then (0, none, 0)
  else (hitBlocks * cfg.blockSize, (blockIds.take hitBlocks).getLast?, hitBlocks)

theorem matchLongestBlockIds_eq (h : WellFormed s) (blockIds : List ι) :
    s.matchLongestBlockIds cfg blockIds =
      .ok (hitResult cfg blockIds (PathFrom.depth (parentMap s.blocks) none blockIds)) := by
  have hlook := h.tree.lookup_spec h.forest blockIds blockIds.length
  rw [Int.toNat_natCast, List.take_length] at hlook
  simp only [matchLongestBlockIds, hlook, bind, Except.bind, hitResult, Nat.le_zero]
  split <;> rfl

omit [LinearOrder ι] in
theorem hitResult_blocks (blockIds : List ι) (n : Nat) : (hitResult cfg blockIds n).2.2 = n := by
  unfold hitResult
  split
  · next h => exact h.symm
  · rfl

structure EntryOk (cfg : PrefixIndexConfig ι) (H : Set (List Int × Option ι))
    (entry : PrefixLookupCacheEntry ι) : Prop where
  hashed : ∀ b ∈ hashedForTokens cfg entry.tokenIds entry.usableTokens, b ∈ H
  blockIds : entry.blockIds = blockIdsForTokens cfg entry.tokenIds (some entry.usableTokens)
  result : ∃ n ≤ entry.blockIds.length, entry.result = hitResult cfg entry.blockIds n

theorem result_of_current (h : WellFormed s) (hcf : CollisionFree cfg H)
    (hca : ContentAddressed cfg H s) {entry : PrefixLookupCacheEntry ι} (he : EntryOk cfg H entry)
    (hcur : lookupIsCurrent s entry = true) :
    s.matchLongestBlockIds cfg entry.blockIds = .ok entry.result := by
  obtain ⟨n, hn, hres⟩ := he.result
  rw [matchLongestBlockIds_eq h, hres]
  simp only [lookupIsCurrent, hres, hitResult_blocks, Bool.and_eq_true, Bool.or_eq_true,
    decide_eq_true_eq] at hcur
  obtain ⟨hlast, hnext⟩ := hcur
  have hlow : n ≤ PathFrom.depth (parentMap s.blocks) none entry.blockIds := by
    rcases Nat.eq_zero_or_pos n with rfl | hpos
    · exact Nat.zero_le _
    · rw [← PathFrom.take_iff_le_depth hn]
      obtain ⟨id, hid, hmem⟩ := (Option.any_eq_true _ _).mp (hlast.resolve_left hpos.ne')
      have hmem : id ∈ s.blocks.keySet := Dict.mem_keySet.mpr (Dict.contains_iff.mp hmem)
      rw [he.blockIds, blockIdsForTokens] at hid ⊢
      have := path_of_indexed hcf hca h.forest _ _ none (n - 1) id he.hashed hid hmem
      rwa [Nat.sub_add_cancel hpos] at this
  have hhigh : PathFrom.depth (parentMap s.blocks) none entry.blockIds ≤ n := by
    by_contra hlt
    have hle : PathFrom.depth (parentMap s.blocks) none entry.blockIds ≤ entry.blockIds.length :=
      PathFrom.depth_le_length
    have hpath : PathFrom (parentMap s.blocks) none (entry.blockIds.take (n + 1)) :=
      (PathFrom.take_iff_le_depth (by omega)).mpr (by omega)
    have hget : entry.blockIds[n]? = some (entry.blockIds.get ⟨n, by omega⟩) := by simp
    have hmem : entry.blockIds.get ⟨n, by omega⟩ ∈ entry.blockIds.take (n + 1) := by
      rw [List.mem_take_iff_getElem]
      exact ⟨n, by omega, rfl⟩
    obtain ⟨q, hq⟩ := hpath.mem_node hmem
    obtain ⟨b, hb, -⟩ := parentMap_eq.mp hq
    have hno := hnext.resolve_left (by omega)
    rw [hget, Option.any_some, Dict.contains_iff.mpr ⟨b, hb⟩] at hno
    cases hno
  rw [le_antisymm hhigh hlow]

end

section

variable {ι : Type} {P : PrefixLookupCacheEntry ι → Prop} {cache : PrefixLookupCache ι}

/-- Every entry of the three stores satisfies `P`. -/
structure PrefixLookupCache.All (P : PrefixLookupCacheEntry ι → Prop) (cache : PrefixLookupCache ι) :
    Prop where
  entries : ∀ id e, cache.entries.get? id = some e → P e
  live : ∀ id o e, cache.liveEntries.get? id = some (o, e) → P e
  batch : ∀ d, cache.batchEntries = some d → ∀ id e, d.get? id = some e → P e

namespace PrefixLookupCache.All

theorem empty : PrefixLookupCache.All P {} := ⟨by simp, by simp, by simp⟩

variable {d : Dict Nat (PrefixLookupCacheEntry ι)} {entry : PrefixLookupCacheEntry ι}

theorem set_entry (h : ∀ id e, d.get? id = some e → P e) (he : P entry) (seqId : Nat) :
    ∀ id e, (d.set seqId entry).get? id = some e → P e := by
  intro id e hid
  rw [Dict.get?_set] at hid
  split at hid
  · cases hid; exact he
  · exact h id e hid

theorem erase_entry (h : ∀ id e, d.get? id = some e → P e) (seqId : Nat) :
    ∀ id e, (d.erase seqId).get? id = some e → P e := by
  intro id e hid
  rw [Dict.get?_erase] at hid
  split at hid
  · cases hid
  · exact h id e hid

theorem rememberLive (h : cache.All P) (seq : SequenceRef) (he : P entry) :
    (cache.rememberLive seq entry).All P := by
  refine ⟨h.entries, fun id o e hid => ?_, h.batch⟩
  simp only [PrefixLookupCache.rememberLive, Dict.get?_set] at hid
  split at hid
  · cases hid; exact he
  · exact h.live id o e hid

theorem noteBatch (h : cache.All P) (seqId : Nat) (he : P entry) :
    (cache.noteBatch seqId entry).All P := by
  refine ⟨h.entries, h.live, fun d hd => ?_⟩
  simp only [PrefixLookupCache.noteBatch, Option.map_eq_some_iff] at hd
  obtain ⟨d, hd, rfl⟩ := hd
  exact set_entry (h.batch d hd) he seqId

theorem moveToEnd (h : ∀ id e, d.get? id = some e → P e) (he : P entry) (seqId : Nat) :
    ∀ id e, (PrefixLookupCache.moveToEnd d seqId entry).get? id = some e → P e :=
  set_entry (erase_entry h seqId) he seqId

theorem get (h : cache.All P) (seq : SequenceRef) :
    (∀ e, (cache.get seq).1 = some e → P e) ∧ (cache.get seq).2.All P := by
  unfold PrefixLookupCache.get
  split
  · next entry hlive =>
    have he : P entry := by
      unfold PrefixLookupCache.liveEntry at hlive
      split at hlive
      · cases hlive
      · next hget =>
        split at hlive
        · cases hlive; exact h.live _ _ _ hget
        · cases hlive
    exact ⟨fun e hee => by cases hee; exact he, h.noteBatch _ he⟩
  · unfold PrefixLookupCache.storedEntry
    split
    · next c hst =>
      refine ⟨by simp, ?_⟩
      split at hst
      · cases hst
      · split at hst
        · cases hst; exact h
        · cases hst
    · next entry c hst =>
      split at hst
      · next e hb =>
        cases hst
        obtain ⟨d, hd, hde⟩ := Option.bind_eq_some_iff.mp hb
        have he : P entry := h.batch d hd _ _ hde
        exact ⟨fun e hee => by cases hee; exact he, (h.rememberLive seq he).noteBatch _ he⟩
      · split at hst
        · cases hst
        · next e hentry =>
          cases hst
          have he : P entry := h.entries _ _ hentry
          have hc : PrefixLookupCache.All P { cache with
              entries := PrefixLookupCache.moveToEnd cache.entries seq.seqId entry } :=
            ⟨moveToEnd h.entries he seq.seqId, h.live, h.batch⟩
          exact ⟨fun e hee => by cases hee; exact he, (hc.rememberLive seq he).noteBatch _ he⟩

theorem setItem (h : cache.All P) (seq : SequenceRef) (he : P entry) :
    (cache.setItem seq entry).All P := by
  have h' := h.rememberLive seq he
  simp only [PrefixLookupCache.setItem]
  split
  · exact h'.noteBatch _ he
  · refine ⟨fun id e hid => ?_, h'.live, h'.batch⟩
    have hmem := List.mem_of_mem_drop (Dict.mem_entries.mpr hid)
    exact moveToEnd h'.entries he seq.seqId id e (Dict.mem_entries.mp hmem)

theorem discard (h : cache.All P) (seqId : Nat) : (cache.discard seqId).All P := by
  refine ⟨erase_entry h.entries seqId, fun id o e hid => ?_, fun d hd => ?_⟩
  · simp only [PrefixLookupCache.discard, Dict.get?_erase] at hid
    split at hid
    · cases hid
    · exact h.live id o e hid
  · simp only [PrefixLookupCache.discard, Option.map_eq_some_iff] at hd
    obtain ⟨d, hd, rfl⟩ := hd
    exact erase_entry (h.batch d hd) seqId

theorem ownerDied (h : cache.All P) (objectId : Nat) : (cache.ownerDied objectId).All P := by
  have key : ∀ (l : List (Nat × Nat × PrefixLookupCacheEntry ι))
      (d : Dict Nat (Nat × PrefixLookupCacheEntry ι)), (∀ id o e, d.get? id = some (o, e) → P e) →
      ∀ id o e, (l.foldl (fun d e => d.erase e.1) d).get? id = some (o, e) → P e := by
    intro l
    induction l with
    | nil => exact fun d hd => hd
    | cons x l ih =>
      intro d hd
      refine ih _ fun id o e hid => ?_
      rw [Dict.get?_erase] at hid
      split at hid
      · cases hid
      · exact hd id o e hid
  exact ⟨h.entries, key _ _ h.live, h.batch⟩

theorem batchExit (h : cache.All P) (last : Bool) : (cache.batchExit last).All P := by
  unfold PrefixLookupCache.batchExit
  split
  · refine ⟨?_, h.live, by simp⟩
    cases hb : cache.batchEntries with
    | none => exact h.entries
    | some d => exact h.batch d hb
  · exact h

theorem batchFail (h : cache.All P) : cache.batchFail.All P := ⟨h.entries, h.live, by simp [PrefixLookupCache.batchFail]⟩

end PrefixLookupCache.All

end

section

open PyM

variable {ι π : Type} [LinearOrder ι] {cfg : PrefixIndexConfig ι} {s : LookupState ι π}
  {H : Set (List Int × Option ι)}

inductive MemoOp (ι π : Type) where
  | index (op : Op ι π)
  | lookup (seq : SequenceRef) (usableTokens : Int)
  | batchEnter (first : Bool)
  | batchExit (last : Bool)
  | batchFail
  | discard (seqId : Nat)
  | ownerDied (objectId : Nat)
  | reset

/-- The blocks that the call inserts or looks up are blocks of `H`, and an inserted one has its
id. -/
def MemoOp.Hashed (cfg : PrefixIndexConfig ι) (H : Set (List Int × Option ι)) :
    MemoOp ι π → Prop
  | .index (.insertBlock b) => b.stableBlockId = cfg.hashBlock b.tokenIds b.parentBlockId ∧
      (b.tokenIds, b.parentBlockId) ∈ H
  | .lookup seq usableTokens => ∀ b ∈ hashedForTokens cfg seq.promptTokenIds usableTokens, b ∈ H
  | _ => True

/-- The state after `op`. -/
def MemoOp.next (cfg : PrefixIndexConfig ι) (s : LookupState ι π) : MemoOp ι π → LookupState ι π
  | .index op => { s with index := op.next cfg s.index }
  | .lookup seq usableTokens => (lookupPrefixCacheHit cfg seq usableTokens s).2
  | .batchEnter first => { s with cache := (PrefixLookupCache.batchEnter first s.cache).2 }
  | .batchExit last => { s with cache := s.cache.batchExit last }
  | .batchFail => { s with cache := s.cache.batchFail }
  | .discard seqId => { s with cache := s.cache.discard seqId }
  | .ownerDied objectId => { s with cache := s.cache.ownerDied objectId }
  | .reset => {}

inductive MemoReachable (cfg : PrefixIndexConfig ι) (H : Set (List Int × Option ι)) :
    LookupState ι π → Prop
  | init : MemoReachable cfg H {}
  | step {s : LookupState ι π} (op : MemoOp ι π) : MemoReachable cfg H s → op.Hashed cfg H →
      MemoReachable cfg H (op.next cfg s)

/-- The index is addressed by content, and the cached entries are right. -/
structure MemoInv (cfg : PrefixIndexConfig ι) (H : Set (List Int × Option ι))
    (s : LookupState ι π) : Prop where
  wf : WellFormed s.index
  addressed : ContentAddressed cfg H s.index
  entries : s.cache.All (EntryOk cfg H)

theorem MemoInv.empty : MemoInv cfg H ({} : LookupState ι π) :=
  ⟨wf_empty, by simp [ContentAddressed], .empty⟩

theorem ContentAddressed.step {s s' : RadixPrefixIndex ι π} (h : ContentAddressed cfg H s)
    (hstep : Step s s') : ContentAddressed cfg H s' := by
  intro id b hb
  have hupd : ∀ {R}, Updated R s.blocks s'.blocks →
      ∃ tokens, id = cfg.hashBlock tokens b.parentBlockId ∧ (tokens, b.parentBlockId) ∈ H := by
    intro R hupd
    obtain ⟨o, ho⟩ := Dict.mem_keySet.mp (hupd.keys ▸ Dict.mem_keySet.mpr ⟨b, hb⟩)
    rw [(hupd.same id o b ho hb).1.parentBlockId]
    exact h id o ho
  cases hstep.change with
  | update hu _ _ _ _ => exact hupd hu
  | quiet hu _ _ _ _ => exact hupd hu
  | remove _ _ _ hblocks _ _ _ =>
    rw [hblocks, Dict.get?_erase] at hb
    split at hb
    · cases hb
    · exact h id b hb
  | view hblocks _ _ _ => exact h id b (hblocks ▸ hb)

theorem ContentAddressed.outcome {s s' : RadixPrefixIndex ι π} {op : Op ι π}
    (h : ContentAddressed cfg H s) (ho : Outcome s op s')
    (hhash : ∀ b, op = .insertBlock b → b.stableBlockId = cfg.hashBlock b.tokenIds b.parentBlockId ∧
      (b.tokenIds, b.parentBlockId) ∈ H) : ContentAddressed cfg H s' := by
  cases ho with
  | steps hs =>
    induction hs with
    | refl => exact h
    | tail _ hstep ih => exact ih.step hstep
  | @insert b n hop hins =>
    intro id c hc
    rw [hins.blocks, Dict.get?_set] at hc
    split at hc
    · next hid =>
      cases hc
      obtain ⟨hhash, hmem⟩ := hhash b hop
      exact ⟨b.tokenIds, hid.trans hhash, hmem⟩
    · exact h id c hc
  | taken _ he => subst he; exact h

theorem lookupAndRemember_spec (h : MemoInv cfg H s) (seq : SequenceRef) (usableTokens : Int)
    (hashed : ∀ b ∈ hashedForTokens cfg seq.promptTokenIds usableTokens, b ∈ H) {blockIds : List ι}
    (hids : blockIds = blockIdsForTokens cfg seq.promptTokenIds (some usableTokens)) :
    wp (lookupAndRemember cfg seq usableTokens blockIds)
      (fun r s' => s.index.matchLongestBlockIds cfg (blockIdsForTokens cfg seq.promptTokenIds
        (some usableTokens)) = .ok r ∧ MemoInv cfg H s') (fun _ _ => False) s := by
  simp only [lookupAndRemember, wp_bind, wp_get, wp_lift, matchLongestBlockIds_eq h.wf,
    wp_modify, wp_pure, ← hids]
  refine ⟨trivial, h.wf, h.addressed, h.entries.setItem seq ⟨hashed, hids, _, ?_, rfl⟩⟩
  exact PathFrom.depth_le_length

theorem lookupPrefixCacheHit_spec (hcf : CollisionFree cfg H) (h : MemoInv cfg H s)
    (seq : SequenceRef) (usableTokens : Int)
    (hashed : ∀ b ∈ hashedForTokens cfg seq.promptTokenIds usableTokens, b ∈ H) :
    wp (lookupPrefixCacheHit cfg seq usableTokens)
      (fun r s' => s.index.matchLongestBlockIds cfg (blockIdsForTokens cfg seq.promptTokenIds
        (some usableTokens)) = .ok r ∧ MemoInv cfg H s') (fun _ _ => False) s := by
  obtain ⟨hget, hall⟩ := h.entries.get seq
  have h' : MemoInv cfg H { s with cache := (s.cache.get seq).2 } := ⟨h.wf, h.addressed, hall⟩
  simp only [lookupPrefixCacheHit, wp_bind, wp_get, wp_modify]
  cases he : (s.cache.get seq).1 with
  | none => exact lookupAndRemember_spec h' seq usableTokens hashed rfl
  | some entry =>
    have hentry := hget entry he
    simp only [wp_ite]
    split
    · next hsame =>
      obtain ⟨htok, husable⟩ := hsame
      have hids := hentry.blockIds
      rw [htok, husable] at hids
      split
      · next hcur =>
        rw [← hids]
        exact ⟨result_of_current h.wf hcf h.addressed hentry hcur, h'⟩
      · exact lookupAndRemember_spec h' seq usableTokens hashed hids
    · exact lookupAndRemember_spec h' seq usableTokens hashed rfl

theorem MemoInv.next (hcf : CollisionFree cfg H) (h : MemoInv cfg H s) {op : MemoOp ι π}
    (hop : op.Hashed cfg H) : MemoInv cfg H (op.next cfg s) := by
  cases op with
  | index op =>
    have ho : Outcome s.index op (op.next cfg s.index) := run_outcome h.wf op
    exact ⟨ho.wf h.wf, h.addressed.outcome ho fun b hb => by subst hb; exact hop, h.entries⟩
  | lookup seq usableTokens =>
    exact keeps_iff.mp (wp_mono (lookupPrefixCacheHit_spec hcf h seq usableTokens hop)
      (fun _ _ hs => hs.2) fun _ _ he => he.elim)
  | batchEnter first =>
    refine ⟨h.wf, h.addressed, ?_⟩
    cases first with
    | true => exact ⟨h.entries.entries, h.entries.live, by
        intro d hd; cases hd; simp⟩
    | false =>
      have hk : Keeps (fun c => c.All (EntryOk cfg H)) (PrefixLookupCache.batchEnter false)
          s.cache := by
        simp only [Keeps, PrefixLookupCache.batchEnter, wp_bind, wp_get, wp_ite,
          wp_raiseIf]
        exact ⟨fun _ => h.entries, fun _ => h.entries⟩
      exact keeps_iff.mp hk
  | batchExit last => exact ⟨h.wf, h.addressed, h.entries.batchExit last⟩
  | batchFail => exact ⟨h.wf, h.addressed, h.entries.batchFail⟩
  | discard seqId => exact ⟨h.wf, h.addressed, h.entries.discard seqId⟩
  | ownerDied objectId => exact ⟨h.wf, h.addressed, h.entries.ownerDied objectId⟩
  | reset => exact .empty

theorem MemoReachable.inv (hcf : CollisionFree cfg H) (h : MemoReachable cfg H s) :
    MemoInv cfg H s := by
  induction h with
  | init => exact .empty
  | step op _ hop ih => exact ih.next hcf hop

/-- In every interleaving, a lookup returns what a fresh lookup of the block ids of the
prompt returns on the current index. -/
theorem lookup_memo_correct (hcf : CollisionFree cfg H) (h : MemoReachable cfg H s)
    (seq : SequenceRef) (usableTokens : Int)
    (hashed : ∀ b ∈ hashedForTokens cfg seq.promptTokenIds usableTokens, b ∈ H) :
    ∃ r, (lookupPrefixCacheHit cfg seq usableTokens s).1 = .ok r ∧
      s.index.matchLongestBlockIds cfg
        (blockIdsForTokens cfg seq.promptTokenIds (some usableTokens)) = .ok r := by
  have hspec := lookupPrefixCacheHit_spec hcf (h.inv hcf) seq usableTokens hashed
  unfold wp at hspec
  split at hspec
  · next hm => exact ⟨_, by rw [hm], hspec.1⟩
  · exact hspec.elim

theorem memoReachable_foldl {ops : List (MemoOp ι π)} (h : MemoReachable cfg H s)
    (hops : ∀ op ∈ ops, op.Hashed cfg H) : MemoReachable cfg H (ops.foldl (MemoOp.next cfg) s) := by
  induction ops generalizing s with
  | nil => exact h
  | cons op ops ih =>
    exact ih (.step op h (hops op List.mem_cons_self)) fun o ho => hops o (List.mem_cons_of_mem _ ho)

def memoConfig : PrefixIndexConfig Digest :=
  ⟨1, none, stablePrefixBlockId demoDigest [7], Nat.one_pos, noLimit_pos⟩

def memoSeq : SequenceRef := ⟨0, 5, [1, 2]⟩

def memoHashed : List (List Int × Option Digest) := hashedForTokens memoConfig [1, 2]

def memoBlock : PrefixCacheBlock Digest Unit where
  objectId := 0
  stableBlockId := memoConfig.hashBlock [1] none
  parentBlockId := none
  logicalBlockIdx := 0
  payload := ()
  tokenIds := [1]

def memoDemo : List (MemoOp Digest Unit) :=
  [.index (.insertBlock memoBlock), .lookup memoSeq 2, .index (.evictUntilWeight 1 fun _ => 1)]

theorem collisionFree_memoHashed : CollisionFree memoConfig { b | b ∈ memoHashed } := by
  show ∀ b ∈ memoHashed, ∀ b' ∈ memoHashed, _ → _
  decide +kernel

theorem lookup_memo_correct_demo :
    (memoDemo.foldl (MemoOp.next memoConfig) {}).cache.liveEntries.size = 1 ∧
    ∃ r, (lookupPrefixCacheHit memoConfig memoSeq 2 (memoDemo.foldl (MemoOp.next memoConfig) {})).1 =
        .ok r ∧ (memoDemo.foldl (MemoOp.next memoConfig) {}).index.matchLongestBlockIds memoConfig
          (blockIdsForTokens memoConfig [1, 2] (some 2)) = .ok r := by
  have hreach : MemoReachable memoConfig { b | b ∈ memoHashed }
      (memoDemo.foldl (MemoOp.next memoConfig) {}) := by
    refine memoReachable_foldl .init fun op hop => ?_
    simp only [memoDemo, List.mem_cons, List.not_mem_nil, or_false] at hop
    rcases hop with rfl | rfl | rfl
    · exact ⟨rfl, List.mem_cons_self⟩
    · exact fun _ hb => hb
    · trivial
  exact ⟨by decide +kernel,
    lookup_memo_correct collisionFree_memoHashed hreach memoSeq 2 fun _ hb => hb⟩

end

end SparseEngine
