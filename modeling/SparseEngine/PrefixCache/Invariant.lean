import SparseEngine.PrefixCache.Freeable

/-! `WellFormed s` ties the redundant structures of the index together. -/

namespace SparseEngine.RadixPrefixIndex

variable {ι π : Type} [LinearOrder ι]

/-- Every residency is valid, and parents are wherever their children are. -/
structure ResidencyInv (blocks : Dict ι (PrefixCacheBlock ι π)) : Prop where
  valid : ∀ id b, blocks.get? id = some b → b.residency.validate = .ok ()
  device : ∀ id b p pb, blocks.get? id = some b → b.parentBlockId = some p →
    blocks.get? p = some pb → b.residency.devicePresent = true → pb.residency.devicePresent = true
  host : ∀ id b p pb, blocks.get? id = some b → b.parentBlockId = some p →
    blocks.get? p = some pb → b.residency.hostPresent = true → pb.residency.hostPresent = true

/-- The blocks are a forest, and every other field agrees with them. -/
structure WellFormed (s : RadixPrefixIndex ι π) : Prop where
  forest : Forest s.blocks.keySet (parentMap s.blocks)
  ids : ∀ id b, s.blocks.get? id = some b → b.stableBlockId = id
  tree : s.backend.Represents s.blocks.keySet (parentMap s.blocks)
  routing : s.routingMembership.Holds s.blocks.keySet
  tracks : ∀ F, s.freeableIds = some F → Tracks s.blocks F s.blockedFreeableChildren
  residency : ResidencyInv s.blocks

inductive View where
  | freeable
  | evictable
  | deviceFreeable
  | deviceReclaimable
deriving DecidableEq, Repr

def cache (s : RadixPrefixIndex ι π) : View → CapacityCache ι
  | .freeable => s.freeableCache
  | .evictable => s.evictableCache
  | .deviceFreeable => s.deviceFreeableCache
  | .deviceReclaimable => s.deviceReclaimableCache

/-- The block can go once its children on the device have gone. -/
inductive Demotable (includeInflightD2h : Bool) (blocks : Dict ι (PrefixCacheBlock ι π)) :
    ι → Prop
  | demote {id : ι} {b : PrefixCacheBlock ι π} : blocks.get? id = some b →
      b.locallyReclaimable includeInflightD2h = true →
      (∀ c cb, blocks.get? c = some cb → cb.parentBlockId = some id →
        cb.residency.devicePresent = true → Demotable includeInflightD2h blocks c) →
      Demotable includeInflightD2h blocks id

def View.Contains (blocks : Dict ι (PrefixCacheBlock ι π)) : View → ι → Prop
  | .freeable, id => id ∈ blocks.keySet ∧ Clear (parentMap blocks) (LocallyFree blocks) id
  | .evictable, id => LocallyFree blocks id ∧ ∀ c, parentMap blocks c ≠ some (some id)
  | .deviceFreeable, id => Demotable false blocks id
  | .deviceReclaimable, id => Demotable true blocks id

structure SameIdentity (old new : PrefixCacheBlock ι π) : Prop where
  objectId : new.objectId = old.objectId
  stableBlockId : new.stableBlockId = old.stableBlockId
  parentBlockId : new.parentBlockId = old.parentBlockId
  tokenIds : new.tokenIds = old.tokenIds
  logicalBlockIdx : new.logicalBlockIdx = old.logicalBlockIdx

omit [LinearOrder ι] in
theorem SameIdentity.refl (b : PrefixCacheBlock ι π) : SameIdentity b b := ⟨rfl, rfl, rfl, rfl, rfl⟩

/-- The local conditions read the same from `old` and `new`. -/
structure SameLocal (old new : PrefixCacheBlock ι π) : Prop where
  refCount : new.refCount = 0 ↔ old.refCount = 0
  priority : new.evictionPriority < 0 ↔ old.evictionPriority < 0
  residency : new.residency = old.residency

/-- The capacity views and the weights read the same from `old` and `new`. -/
structure SameViews (old new : PrefixCacheBlock ι π) : Prop extends SameLocal old new where
  payload : new.payload = old.payload

omit [LinearOrder ι] in
theorem SameViews.refl (b : PrefixCacheBlock ι π) : SameViews b b := ⟨⟨.rfl, .rfl, rfl⟩, rfl⟩

/-- `blocks'` has the blocks of `blocks`, with fields related by `R`. -/
structure Updated (R : PrefixCacheBlock ι π → PrefixCacheBlock ι π → Prop)
    (blocks blocks' : Dict ι (PrefixCacheBlock ι π)) : Prop where
  keys : blocks'.keySet = blocks.keySet
  same : ∀ id o n, blocks.get? id = some o → blocks'.get? id = some n → SameIdentity o n ∧ R o n

structure Framed (s s' : RadixPrefixIndex ι π) : Prop where
  cache : ∀ v, s'.cache v = s.cache v
  journal : s'.removedBlockIdsForCapacity = s.removedBlockIdsForCapacity

/-- What a call other than an insertion does, with the epochs it bumps. -/
inductive Change (s s' : RadixPrefixIndex ι π) : Prop
  | update : Updated (fun o n =>
        (o.payload = n.payload ∧ o.residency.devicePresent = n.residency.devicePresent) ∨
          s.epochs.residentPayload < s'.epochs.residentPayload) s.blocks s'.blocks →
      s.epochs.capacity < s'.epochs.capacity →
      s.epochs.residentPayload ≤ s'.epochs.residentPayload →
      s'.epochs.lookup = s.epochs.lookup → Framed s s' → Change s s'
  | quiet : Updated SameViews s.blocks s'.blocks → s'.epochs.capacity = s.epochs.capacity →
      s.epochs.residentPayload ≤ s'.epochs.residentPayload →
      s'.epochs.lookup = s.epochs.lookup → Framed s s' → Change s s'
  | remove {b : PrefixCacheBlock ι π} : s.blocks.get? b.stableBlockId = some b →
      b.locallyBlocked = false → (∀ c, parentMap s.blocks c ≠ some (some b.stableBlockId)) →
      s'.blocks = s.blocks.erase b.stableBlockId → s'.epochs = s.epochs.markRemoved →
      s'.removedBlockIdsForCapacity =
        journalRemoval s.removedBlockIdsForCapacity b.stableBlockId →
      (∀ v, s'.cache v = s.cache v) → Change s s'
  | view : s'.blocks = s.blocks → s'.epochs = s.epochs →
      s'.removedBlockIdsForCapacity = s.removedBlockIdsForCapacity →
      (∀ v, s'.cache v = s.cache v ∨ ((s'.cache v).epoch = s.epochs.capacity ∧
        ∀ id, id ∈ (s'.cache v).ids ↔ v.Contains s.blocks id)) → Change s s'

structure Step (s s' : RadixPrefixIndex ι π) : Prop where
  wf : WellFormed s'
  change : Change s s'

abbrev Steps (s s' : RadixPrefixIndex ι π) : Prop := Relation.ReflTransGen Step s s'

theorem Steps.wf {s s' : RadixPrefixIndex ι π} (h : Steps s s') (hs : WellFormed s) :
    WellFormed s' := by
  induction h with
  | refl => exact hs
  | tail _ hstep _ => exact hstep.wf

/-- The parent of `b` is indexed and resident wherever `b` is. -/
def Admissible (blocks : Dict ι (PrefixCacheBlock ι π)) (b : PrefixCacheBlock ι π) : Prop :=
  b.residency.validate = .ok () ∧ ∀ p, b.parentBlockId = some p → ∃ pb, blocks.get? p = some pb ∧
    (b.residency.devicePresent = true → pb.residency.devicePresent = true) ∧
    (b.residency.hostPresent = true → pb.residency.hostPresent = true)

/-- A new block whose parent is there. -/
structure InsertStep (s : RadixPrefixIndex ι π) (b : PrefixCacheBlock ι π)
    (s' : RadixPrefixIndex ι π) : Prop where
  wf : WellFormed s'
  new : s.blocks.get? b.stableBlockId = none
  admissible : Admissible s.blocks b
  blocks : s'.blocks = s.blocks.set b.stableBlockId b
  epochs : s'.epochs = s.epochs.markInserted !(b.locallyBlocked && parentBlocked s.blocks b)
  framed : Framed s s'

variable {b : PrefixCacheBlock ι π}

theorem isIndexed_iff {s : RadixPrefixIndex ι π} :
    s.isIndexed b = true ↔ ∃ c, s.blocks.get? b.stableBlockId = some c ∧ c.objectId = b.objectId := by
  unfold isIndexed
  split <;> next h => simp [h]

theorem deref_of_indexed {s : RadixPrefixIndex ι π} {c : PrefixCacheBlock ι π}
    (hc : s.blocks.get? b.stableBlockId = some c) (ho : c.objectId = b.objectId) :
    s.deref b = c := by
  simp [deref, hc, ho]

theorem deref_of_not_indexed {s : RadixPrefixIndex ι π} (h : s.isIndexed b = false) :
    s.deref b = b := by
  unfold isIndexed at h
  unfold deref
  split at h
  · rfl
  · simp only [decide_eq_false_iff_not] at h; simp [h]

theorem assign_of_indexed {s : RadixPrefixIndex ι π} (h : s.isIndexed b = true) :
    s.assign b = { s with blocks := s.blocks.set b.stableBlockId b } := by
  simp [assign, h]

theorem assign_of_not_indexed {s : RadixPrefixIndex ι π} (h : s.isIndexed b = false) :
    s.assign b = s := by
  simp [assign, h]

section

variable {s : RadixPrefixIndex ι π} {blocks : Dict ι (PrefixCacheBlock ι π)} {id : ι}
  {old new : PrefixCacheBlock ι π}

theorem keySet_set_old (h : blocks.get? id = some old) :
    (blocks.set id new).keySet = blocks.keySet :=
  keySet_set_of_mem (Dict.mem_keySet.mpr ⟨old, h⟩)

theorem parentMap_set (blocks : Dict ι (PrefixCacheBlock ι π)) (id : ι)
    (new : PrefixCacheBlock ι π) :
    parentMap (blocks.set id new) = Function.update (parentMap blocks) id (some new.parentBlockId) := by
  funext x
  by_cases hx : x = id
  · subst hx; simp [parentMap]
  · simp [parentMap, hx, Dict.get?_set_ne _ _ hx]

theorem parentMap_set_old (h : blocks.get? id = some old)
    (hp : new.parentBlockId = old.parentBlockId) :
    parentMap (blocks.set id new) = parentMap blocks := by
  rw [parentMap_set, hp, ← parentMap_of_get h, Function.update_eq_self]

theorem parentMap_erase (blocks : Dict ι (PrefixCacheBlock ι π)) (id : ι) :
    parentMap (blocks.erase id) = Function.update (parentMap blocks) id none := by
  funext x
  by_cases hx : x = id
  · subst hx; simp [parentMap]
  · simp [parentMap, hx, Dict.get?_erase_ne _ hx]

variable {R : PrefixCacheBlock ι π → PrefixCacheBlock ι π → Prop}

theorem Updated.set (h : blocks.get? id = some old) (hid : SameIdentity old new) (hR : R old new)
    (hrefl : ∀ b, R b b) : Updated R blocks (blocks.set id new) := by
  refine ⟨keySet_set_old h, fun x o n ho hn => ?_⟩
  by_cases hx : x = id
  · subst hx
    rw [Dict.get?_set_self] at hn
    rw [h] at ho
    cases hn
    cases ho
    exact ⟨hid, hR⟩
  · rw [Dict.get?_set_ne _ _ hx, ho] at hn
    cases hn
    exact ⟨.refl o, hrefl o⟩

theorem Updated.refl (hrefl : ∀ b, R b b) : Updated R blocks blocks := by
  refine ⟨rfl, fun x o n ho hn => ?_⟩
  rw [ho] at hn
  cases hn
  exact ⟨.refl o, hrefl o⟩

omit [LinearOrder ι] in
theorem SameIdentity.trans {a b c : PrefixCacheBlock ι π} (h : SameIdentity a b)
    (h' : SameIdentity b c) : SameIdentity a c :=
  ⟨h'.objectId.trans h.objectId, h'.stableBlockId.trans h.stableBlockId,
    h'.parentBlockId.trans h.parentBlockId, h'.tokenIds.trans h.tokenIds,
    h'.logicalBlockIdx.trans h.logicalBlockIdx⟩

variable {blocks' : Dict ι (PrefixCacheBlock ι π)}

theorem Updated.get (h : Updated R blocks blocks') (ho : blocks.get? id = some old) :
    ∃ n, blocks'.get? id = some n ∧ SameIdentity old n ∧ R old n := by
  obtain ⟨n, hn⟩ := Dict.mem_keySet.mp (h.keys.symm ▸ Dict.mem_keySet.mpr ⟨old, ho⟩)
  exact ⟨n, hn, h.same id old n ho hn⟩

theorem Updated.trans {blocks'' : Dict ι (PrefixCacheBlock ι π)} (h : Updated R blocks blocks')
    (h' : Updated R blocks' blocks'') (hR : ∀ a b c, R a b → R b c → R a c) :
    Updated R blocks blocks'' := by
  refine ⟨h'.keys.trans h.keys, fun x o n ho hn => ?_⟩
  obtain ⟨m, hm, hid, hRm⟩ := h.get ho
  obtain ⟨hid', hRn⟩ := h'.same x m n hm hn
  exact ⟨hid.trans hid', hR _ _ _ hRm hRn⟩

theorem Updated.mono {R' : PrefixCacheBlock ι π → PrefixCacheBlock ι π → Prop}
    (h : Updated R blocks blocks') (hR : ∀ a b, R a b → R' a b) : Updated R' blocks blocks' :=
  ⟨h.keys, fun x o n ho hn => ⟨(h.same x o n ho hn).1, hR _ _ (h.same x o n ho hn).2⟩⟩

theorem TracksExcept.set {X F : Finset ι} {counts : Dict ι Int}
    (h : TracksExcept blocks X F counts) (hold : blocks.get? id = some old)
    (hp : new.parentBlockId = old.parentBlockId) :
    TracksExcept (blocks.set id new) (insert id X) F counts := by
  have hk : (blocks.set id new).keySet = blocks.keySet := keySet_set_old hold
  have hpar : parentMap (blocks.set id new) = parentMap blocks := parentMap_set_old hold hp
  have hch : ∀ b, blockedChildren (blocks.set id new) F b = blockedChildren blocks F b := by
    intro b
    rw [blockedChildren, hk, hpar, blockedChildren]
  refine ⟨by rw [hk]; exact h.sub, by rw [hk]; exact h.keys, fun b hb => ?_, fun b hb hbX => ?_⟩
  · rw [hk] at hb
    rw [hch]
    exact h.count b hb
  · rw [hk] at hb
    rw [Finset.mem_insert, not_or] at hbX
    rw [hch, h.eqn b hb hbX.2, LocallyFree, LocallyFree, Dict.get?_set_ne _ _ hbX.1]

theorem TracksExcept.set_same {F : Finset ι} {counts : Dict ι Int}
    (h : Tracks blocks F counts) (hold : blocks.get? id = some old)
    (hp : new.parentBlockId = old.parentBlockId)
    (hb : new.locallyBlocked = old.locallyBlocked) : Tracks (blocks.set id new) F counts := by
  have hch : blockedChildren (blocks.set id new) F id = blockedChildren blocks F id := by
    rw [blockedChildren, keySet_set_old hold, parentMap_set_old hold hp, blockedChildren]
  have hset := (h.set hold hp).erase_of_eqn (x := id) <| by
    rw [hch, locallyFree_iff (Dict.get?_set_self _ _ _), hb, ← locallyFree_iff hold]
    exact h.eqn id (Dict.mem_keySet.mpr ⟨old, hold⟩) (Finset.notMem_empty id)
  exact hset.mono (by simp)

/-- A residency that keeps the invariant when it replaces the one of `id`. -/
structure ResidencyChange (blocks : Dict ι (PrefixCacheBlock ι π)) (id : ι)
    (old new : PrefixCacheBlock ι π) : Prop where
  valid : new.residency.validate = .ok ()
  device : new.residency.devicePresent = true → old.residency.devicePresent = true ∨
    ∀ p pb, old.parentBlockId = some p → blocks.get? p = some pb → pb.residency.devicePresent = true
  host : new.residency.hostPresent = true → old.residency.hostPresent = true ∨
    ∀ p pb, old.parentBlockId = some p → blocks.get? p = some pb → pb.residency.hostPresent = true
  leaf : new.residency.devicePresent = true ∨ ∀ c cb, blocks.get? c = some cb →
    cb.parentBlockId = some id → cb.residency.devicePresent = false
  keep : old.residency.hostPresent = true → new.residency.hostPresent = true

theorem ResidencyChange.same (h : ResidencyInv blocks) (hold : blocks.get? id = some old)
    (hr : new.residency = old.residency) : ResidencyChange blocks id old new where
  valid := hr ▸ h.valid id old hold
  device := fun hd => Or.inl (hr ▸ hd)
  host := fun hh => Or.inl (hr ▸ hh)
  leaf := by
    cases hd : new.residency.devicePresent with
    | true => exact Or.inl rfl
    | false =>
      refine Or.inr fun c cb hc hcp => ?_
      by_contra hcd
      have := h.device c cb id old hc hcp hold (by simpa using hcd)
      rw [← hr, hd] at this
      cases this
  keep := fun hh => hr ▸ hh

theorem ResidencyInv.set (h : ResidencyInv blocks) (hold : blocks.get? id = some old)
    (hp : new.parentBlockId = old.parentBlockId) (hself : old.parentBlockId ≠ some id)
    (hc : ResidencyChange blocks id old new) : ResidencyInv (blocks.set id new) := by
  refine ⟨fun x b hb => ?_, fun x b p pb hb hbp hpb hd => ?_, fun x b p pb hb hbp hpb hh => ?_⟩
  · by_cases hx : x = id
    · subst hx
      rw [Dict.get?_set_self] at hb
      cases hb
      exact hc.valid
    · rw [Dict.get?_set_ne _ _ hx] at hb
      exact h.valid x b hb
  · by_cases hx : x = id
    · subst hx
      rw [Dict.get?_set_self] at hb
      cases hb
      have hpx : p ≠ x := by rintro rfl; rw [hp] at hbp; exact hself hbp
      rw [Dict.get?_set_ne _ _ hpx] at hpb
      rw [hp] at hbp
      rcases hc.device hd with hd' | hd'
      · exact h.device x old p pb hold hbp hpb hd'
      · exact hd' p pb hbp hpb
    · rw [Dict.get?_set_ne _ _ hx] at hb
      by_cases hpi : p = id
      · subst hpi
        rw [Dict.get?_set_self] at hpb
        cases hpb
        rcases hc.leaf with hl | hl
        · exact hl
        · have := hl x b hb hbp
          rw [hd] at this
          cases this
      · rw [Dict.get?_set_ne _ _ hpi] at hpb
        exact h.device x b p pb hb hbp hpb hd
  · by_cases hx : x = id
    · subst hx
      rw [Dict.get?_set_self] at hb
      cases hb
      have hpx : p ≠ x := by rintro rfl; rw [hp] at hbp; exact hself hbp
      rw [Dict.get?_set_ne _ _ hpx] at hpb
      rw [hp] at hbp
      rcases hc.host hh with hh' | hh'
      · exact h.host x old p pb hold hbp hpb hh'
      · exact hh' p pb hbp hpb
    · rw [Dict.get?_set_ne _ _ hx] at hb
      by_cases hpi : p = id
      · subst hpi
        rw [Dict.get?_set_self] at hpb
        cases hpb
        exact hc.keep (h.host x b p old hb hbp hold hh)
      · rw [Dict.get?_set_ne _ _ hpi] at hpb
        exact h.host x b p pb hb hbp hpb hh

end

end SparseEngine.RadixPrefixIndex
