import SparseEngine.PrefixCache.DeviceViews

/-! `Op` lists the operations that the cache managers call on a `RadixPrefixIndex`. -/

namespace SparseEngine.RadixPrefixIndex

open PyM List Dict

variable {ι π : Type} [LinearOrder ι]

def compactPayloads (ids : List ι) (compact : PrefixCacheBlock ι π → π) : IndexM ι π Unit := do
  let s ← PyM.get
  let affected := ids.filterMap s.blocks.get?
  PyM.forEach (fun b => PyM.modify fun s =>
    s.assign { s.deref b with payload := compact (s.deref b) }) affected
  markPayloadCompacted affected

inductive Op (ι π : Type) where
  | insertBlock (b : PrefixCacheBlock ι π)
  | setBlockRefCount (b : PrefixCacheBlock ι π) (refCount : Int)
  | acquireBlockRef (b : PrefixCacheBlock ι π)
  | releaseBlockRef (b : PrefixCacheBlock ι π)
  | beginD2h (b : PrefixCacheBlock ι π)
  | finishD2h (b : PrefixCacheBlock ι π)
  | abortD2h (b : PrefixCacheBlock ι π)
  | beginH2d (b : PrefixCacheBlock ι π)
  | finishH2d (b : PrefixCacheBlock ι π)
  | abortH2d (b : PrefixCacheBlock ι π)
  | demoteDeviceUntilWeight (needed : Int) (weight : PrefixCacheBlock ι π → Int)
  | evictUntilWeight (needed : Int) (weight : PrefixCacheBlock ι π → Int)
  | evictHostUntilWeight (needed : Int) (weight : PrefixCacheBlock ι π → Int)
  | ensureInsertCapacity (needed : Int)
  | safeDeleteSubtree (tokenIds : List Int)
  | setSubtreeEvictionPriority (tokenIds : List Int) (priority : Int)
  | rollbackInsertedLeaf (b : PrefixCacheBlock ι π)
  | markPayloadCompacted (bs : List (PrefixCacheBlock ι π))
  | compactPayloads (ids : List ι) (compact : PrefixCacheBlock ι π → π)
  | touchChain (bs : List (PrefixCacheBlock ι π))
  | freeableBlockIds
  | evictableBlockIds
  | deviceFreeableBlockIds
  | deviceReclaimableBlockIds
  | takeRemovedBlockIdsForCapacity

def ignore {α : Type} (m : IndexM ι π α) : IndexM ι π Unit := do
  let _ ← m

/-- The call `op`. -/
def Op.run (cfg : PrefixIndexConfig ι) : Op ι π → IndexM ι π Unit
  | .insertBlock b => ignore (RadixPrefixIndex.insertBlock cfg b)
  | .setBlockRefCount b n => RadixPrefixIndex.setBlockRefCount b n
  | .acquireBlockRef b => RadixPrefixIndex.acquireBlockRef b
  | .releaseBlockRef b => RadixPrefixIndex.releaseBlockRef b
  | .beginD2h b => RadixPrefixIndex.beginD2h b
  | .finishD2h b => RadixPrefixIndex.finishD2h b
  | .abortD2h b => RadixPrefixIndex.abortD2h b
  | .beginH2d b => RadixPrefixIndex.beginH2d b
  | .finishH2d b => RadixPrefixIndex.finishH2d b
  | .abortH2d b => RadixPrefixIndex.abortH2d b
  | .demoteDeviceUntilWeight n w => ignore (RadixPrefixIndex.demoteDeviceUntilWeight n w)
  | .evictUntilWeight n w => ignore (RadixPrefixIndex.evictUntilWeight n w)
  | .evictHostUntilWeight n w => ignore (RadixPrefixIndex.evictHostUntilWeight n w)
  | .ensureInsertCapacity n => ignore (RadixPrefixIndex.ensureInsertCapacity cfg n)
  | .safeDeleteSubtree t => ignore (RadixPrefixIndex.safeDeleteSubtree cfg t)
  | .setSubtreeEvictionPriority t p => ignore (RadixPrefixIndex.setSubtreeEvictionPriority cfg t p)
  | .rollbackInsertedLeaf b => RadixPrefixIndex.rollbackInsertedLeaf b
  | .markPayloadCompacted bs => RadixPrefixIndex.markPayloadCompacted bs
  | .compactPayloads ids f => RadixPrefixIndex.compactPayloads ids f
  | .touchChain bs => RadixPrefixIndex.touchChain bs
  | .freeableBlockIds => ignore RadixPrefixIndex.freeableBlockIds
  | .evictableBlockIds => ignore RadixPrefixIndex.evictableBlockIds
  | .deviceFreeableBlockIds => ignore RadixPrefixIndex.deviceFreeableBlockIds
  | .deviceReclaimableBlockIds => ignore RadixPrefixIndex.deviceReclaimableBlockIds
  | .takeRemovedBlockIdsForCapacity => ignore RadixPrefixIndex.takeRemovedBlockIdsForCapacity

def Op.next (cfg : PrefixIndexConfig ι) (op : Op ι π) (s : RadixPrefixIndex ι π) :
    RadixPrefixIndex ι π := (op.run cfg s).2

inductive Reachable (cfg : PrefixIndexConfig ι) : RadixPrefixIndex ι π → Prop
  | init : Reachable cfg {}
  | step {s : RadixPrefixIndex ι π} (op : Op ι π) : Reachable cfg s → Reachable cfg (op.next cfg s)

inductive Outcome (s : RadixPrefixIndex ι π) (op : Op ι π) (s' : RadixPrefixIndex ι π) : Prop
  | steps : Steps s s' → Outcome s op s'
  | insert {b : PrefixCacheBlock ι π} {n : Nat} : op = .insertBlock b →
      InsertStep s { b with lastAccess := n } s' → Outcome s op s'
  | taken : op = .takeRemovedBlockIdsForCapacity →
      s' = { s with removedBlockIdsForCapacity := some ∅ } → Outcome s op s'

section

variable {s : RadixPrefixIndex ι π} {cfg : PrefixIndexConfig ι}

theorem wf_empty : WellFormed ({} : RadixPrefixIndex ι π) where
  forest := ⟨by simp [parentMap], by simp [parentMap], ⟨fun _ => 0, by simp [parentMap]⟩⟩
  ids := by simp
  tree := RadixTreeBackend.represents_empty
  routing := RoutingMembership.holds_empty
  tracks := by simp
  residency := ⟨by simp, by simp, by simp⟩

theorem compactPayloads_spec (h : WellFormed s) (ids : List ι)
    (compact : PrefixCacheBlock ι π → π) :
    wp (compactPayloads ids compact)
      (fun _ s' => Steps s s' ∧
        Updated (fun o n => ∃ p, n = { o with payload := p }) s.blocks s'.blocks)
      (fun _ _ => False) s := by
  have hrefl : ∀ b : PrefixCacheBlock ι π, ∃ p, b = { b with payload := p } := fun b => ⟨_, rfl⟩
  simp only [compactPayloads, wp_bind, wp_get]
  set affected := ids.filterMap s.blocks.get? with haff
  have hin : ∀ b ∈ affected, s.blocks.get? b.stableBlockId = some b := by
    intro b hb
    obtain ⟨id, -, hid⟩ := mem_filterMap.mp hb
    rw [h.ids id b hid]
    exact hid
  by_cases hnil : affected = []
  · rw [hnil]
    exact ⟨.refl, .refl hrefl⟩
  refine wp_mono (forEach_inv (E := fun _ _ => False) (I := fun l s₁ => (∀ b ∈ l, b ∈ affected) ∧
    WellFormed s₁ ∧ s₁.epochs = s.epochs ∧ Framed s s₁ ∧
      Updated (fun o n => ∃ p, n = { o with payload := p }) s.blocks s₁.blocks)
    (fun b l s₁ hI => ?_) affected s ⟨fun b hb => hb, h, rfl, .refl s, .refl hrefl⟩) ?_
    fun _ _ he => he
  · obtain ⟨hl, h₁, hep, hfr, hupd⟩ := hI
    obtain ⟨c, hc, hid, -⟩ := hupd.get (hin b (hl b mem_cons_self))
    have hsame : SameIdentity c { c with payload := compact c } := ⟨rfl, rfl, rfl, rfl, rfl⟩
    rw [wp_modify, deref_of_indexed hc hid.objectId, h₁.assign_eq hc hsame]
    refine ⟨fun x hx => hl x (mem_cons_of_mem _ hx),
      h₁.set_same hc hsame (.same h₁.residency hc rfl) rfl, hep,
      ⟨fun v => by rw [← hfr.cache v]; cases v <;> rfl, hfr.journal⟩,
      hupd.trans (.set hc hsame ⟨_, rfl⟩ hrefl) ?_⟩
    rintro a b c ⟨p, rfl⟩ ⟨q, rfl⟩
    exact ⟨q, rfl⟩
  · rintro - s₁ ⟨-, h₁, hep, hfr, hupd⟩
    have hidx : ∀ b ∈ affected, s₁.isIndexed b = true := by
      intro b hb
      obtain ⟨c, hc, hid, -⟩ := hupd.get (hin b hb)
      exact isIndexed_iff.mpr ⟨c, hc, hid.objectId⟩
    rw [markPayloadCompacted, if_neg (by simpa using hnil), wp_bind]
    refine wp_mono (forEach_inv (E := fun _ _ => False)
      (I := fun l s₂ => s₂ = s₁ ∧ ∀ b ∈ l, b ∈ affected) (fun b l s₂ hI => ?_) affected s₁
      ⟨rfl, fun b hb => hb⟩) ?_ fun _ _ he => he
    · obtain ⟨rfl, hl⟩ := hI
      simp only [validateIndexedBlock, wp_bind, wp_get, wp_raiseIf]
      refine ⟨fun hno => ?_, fun _ => ⟨trivial, fun x hx => hl x (mem_cons_of_mem _ hx)⟩⟩
      rw [hidx b (hl b mem_cons_self)] at hno
      cases hno
    · rintro - s₂ ⟨rfl, -⟩
      rw [wp_modify]
      refine ⟨.single ⟨h₁.withEpochs _, .update (hupd.mono fun _ _ _ => Or.inr ?_) ?_ ?_ ?_
        ⟨fun v => by rw [← hfr.cache v]; cases v <;> rfl, hfr.journal⟩⟩, hupd⟩
      all_goals rw [hep]
      · exact Nat.lt_succ_self _
      · exact Nat.lt_succ_self _
      · exact Nat.le_succ _
      · rfl

omit [LinearOrder ι] in
theorem keeps_ignore {α : Type} {m : IndexM ι π α} {I : RadixPrefixIndex ι π → Prop} :
    Keeps I (ignore m) s ↔ Keeps I m s := by
  simp only [Keeps, ignore, wp_bind, wp_pure]

theorem run_outcome (h : WellFormed s) (op : Op ι π) : Outcome s op (op.next cfg s) := by
  suffices hk : Keeps (Outcome s op) (op.run cfg) s from keeps_iff.mp hk
  have hun : ∀ {s'}, Unchanged s s' → Outcome s op s' := fun hs => .steps hs.1
  have hrem : ∀ {s' bs}, Removals s s' bs → Outcome s op s' := fun hs => .steps hs.steps
  cases op with
  | insertBlock b =>
    rw [Op.run, keeps_ignore]
    refine wp_mono (insertBlock_spec cfg h b) ?_ fun _ _ he => hun he.1
    rintro r s' (⟨-, -, -, -, hs, -⟩ | ⟨n, rfl, hins⟩)
    · exact .steps hs
    · exact .insert rfl hins
  | setBlockRefCount b n =>
    exact wp_mono (setBlockRefCount_spec h b n _) (fun _ _ hs => .steps hs.1)
      fun _ _ he => he.1 ▸ .steps .refl
  | acquireBlockRef b =>
    exact wp_mono (acquireBlockRef_spec h b) (fun _ _ hs => .steps hs.1)
      fun _ _ he => he.1 ▸ .steps .refl
  | releaseBlockRef b =>
    exact wp_mono (releaseBlockRef_spec h b _) (fun _ _ hs => .steps hs.1)
      fun _ _ he => he.1 ▸ .steps .refl
  | beginD2h b => exact wp_mono (beginD2h_spec h b) (fun _ _ hs => .steps hs.1.1) fun _ _ => hun
  | finishD2h b => exact wp_mono (finishD2h_spec h b) (fun _ _ hs => .steps hs.1.1) fun _ _ => hun
  | abortD2h b => exact wp_mono (abortD2h_spec h b) (fun _ _ hs => .steps hs.1.1) fun _ _ => hun
  | beginH2d b => exact wp_mono (beginH2d_spec h b) (fun _ _ hs => .steps hs.1.1) fun _ _ => hun
  | finishH2d b => exact wp_mono (finishH2d_spec h b) (fun _ _ hs => .steps hs.1.1) fun _ _ => hun
  | abortH2d b => exact wp_mono (abortH2d_spec h b) (fun _ _ hs => .steps hs.1.1) fun _ _ => hun
  | demoteDeviceUntilWeight n w =>
    rw [Op.run, keeps_ignore]
    refine wp_mono (demoteDeviceUntilWeight_spec h n w) ?_ ?_
    · rintro - s' ⟨bs, -, hd⟩
      exact .steps hd.demotions.steps
    · rintro - s' ⟨-, ⟨bs, hd⟩, -⟩
      exact .steps hd.steps
  | evictUntilWeight n w =>
    rw [Op.run, keeps_ignore]
    exact wp_mono (evictUntilWeight_spec h n w) (fun _ _ hs => hrem hs.removals)
      fun _ _ he => hrem he.1.choose_spec
  | evictHostUntilWeight n w =>
    rw [Op.run, keeps_ignore]
    exact wp_mono (evictHostUntilWeight_spec h n w) (fun _ _ hs => hrem hs.removals)
      fun _ _ he => hrem he.1.choose_spec
  | ensureInsertCapacity n =>
    rw [Op.run, keeps_ignore]
    refine wp_mono (ensureInsertCapacity_spec cfg h n) (fun _ _ hs => hrem hs) ?_
    rintro - s' ⟨bs, s₁, hr, hs⟩
    exact .steps (hr.steps.trans hs.1)
  | safeDeleteSubtree t =>
    rw [Op.run, keeps_ignore]
    exact wp_mono (safeDeleteSubtree_spec cfg h t) (fun _ _ hs => hrem hs.choose_spec)
      fun _ _ hs => hrem hs.choose_spec
  | setSubtreeEvictionPriority t p =>
    rw [Op.run, keeps_ignore]
    exact wp_mono (setSubtreeEvictionPriority_spec cfg h t p) (fun _ _ hs => .steps hs.1)
      fun _ _ he => he ▸ .steps .refl
  | rollbackInsertedLeaf b =>
    refine wp_mono (rollbackInsertedLeaf_spec h b) ?_ fun _ _ he => he ▸ .steps .refl
    rintro - s' ⟨-, -, -, hs, -⟩
    exact .steps hs
  | markPayloadCompacted bs =>
    exact wp_mono (markPayloadCompacted_spec h bs) (fun _ _ => hun) fun _ _ he => he ▸ .steps .refl
  | compactPayloads ids f =>
    exact wp_mono (compactPayloads_spec h ids f) (fun _ _ hs => .steps hs.1) fun _ _ he => he.elim
  | touchChain bs =>
    exact wp_mono (touchChain_spec h bs) (fun _ _ hs => .steps hs.1) fun _ _ he => he.elim
  | freeableBlockIds =>
    rw [Op.run, keeps_ignore]
    exact wp_mono (freeableBlockIds_spec h) (fun _ _ hs => hun hs.2) fun _ _ he => he.elim
  | evictableBlockIds =>
    rw [Op.run, keeps_ignore]
    exact wp_mono (evictableBlockIds_spec h) (fun _ _ hs => hun hs.2) fun _ _ he => he.elim
  | deviceFreeableBlockIds =>
    rw [Op.run, keeps_ignore]
    exact wp_mono (deviceReclaimableIds_spec h) (fun _ _ hs => hun hs.2) fun _ _ he => he.elim
  | deviceReclaimableBlockIds =>
    rw [Op.run, keeps_ignore]
    exact wp_mono (deviceReclaimableIds_spec h) (fun _ _ hs => hun hs.2) fun _ _ he => he.elim
  | takeRemovedBlockIdsForCapacity =>
    rw [Op.run, keeps_ignore]
    simp only [Keeps, takeRemovedBlockIdsForCapacity, wp_bind, wp_get, wp_ite, wp_modify, wp_pure]
    split
    · exact .taken rfl rfl
    · exact .steps .refl

theorem Outcome.wf {s' : RadixPrefixIndex ι π} {op : Op ι π} (ho : Outcome s op s')
    (h : WellFormed s) : WellFormed s' := by
  cases ho with
  | steps hs => exact hs.wf h
  | insert _ hins => exact hins.wf
  | taken _ he =>
    subst he
    exact { h with }

theorem Reachable.wf (h : Reachable cfg s) : WellFormed s := by
  induction h with
  | init => exact wf_empty
  | step op _ ih => exact (run_outcome ih op).wf ih

theorem Outcome.fresh {s' : RadixPrefixIndex ι π} {op : Op ι π} {v : View} (ho : Outcome s op s')
    (h : WellFormed s) (hf : Fresh v s)
    (hv : v = .deviceReclaimable → ∀ b, op = .insertBlock b →
      s.blocks.get? b.stableBlockId = none → InsertSafe s.blocks b) : Fresh v s' := by
  cases ho with
  | steps hs => exact hs.fresh hf
  | @insert b n hop hins =>
    have hsafe : v = .deviceReclaimable → InsertSafe s.blocks b := fun hvr =>
      hv hvr b hop hins.new
    exact hins.fresh h hsafe hf
  | taken _ he =>
    subst he
    exact Fresh.of_contains (s := s) (by cases v <;> rfl) rfl (fun _ => .rfl) hf

theorem fresh_empty (v : View) : Fresh v ({} : RadixPrefixIndex ι π) := by
  refine ⟨?_, fun he => ?_⟩ <;> cases v <;> simp [cache] at *

theorem Reachable.fresh (h : Reachable cfg s) {v : View} (hv : v ≠ .deviceReclaimable) :
    Fresh v s := by
  induction h with
  | init => exact fresh_empty v
  | step op hr ih => exact (run_outcome hr.wf op).fresh hr.wf ih fun he => absurd he hv

end

/-! ## A small run

A root block and a referenced child, used by the concrete instances below. -/

section

/-- The state after the calls `ops` on an empty index. -/
def runAll (cfg : PrefixIndexConfig ι) (ops : List (Op ι π)) : RadixPrefixIndex ι π :=
  ops.foldl (fun s op => op.next cfg s) {}

theorem reachable_runAll (cfg : PrefixIndexConfig ι) (ops : List (Op ι π)) :
    Reachable cfg (runAll cfg ops) := by
  suffices h : ∀ (ops : List (Op ι π)) (s : RadixPrefixIndex ι π), Reachable cfg s →
      Reachable cfg (ops.foldl (fun s op => op.next cfg s) s) from h ops {} .init
  intro ops
  induction ops with
  | nil => exact fun s hs => hs
  | cons op ops ih => exact fun s hs => ih _ (.step op hs)

def demoConfig : PrefixIndexConfig Nat where
  blockSize := 1
  hashBlock := fun tokens parent => tokens.length + parent.getD 0
  blockSize_pos := Nat.one_pos
  maxBlocks_pos := noLimit_pos

def demoRoot : PrefixCacheBlock Nat Unit :=
  { objectId := 0, stableBlockId := 0, parentBlockId := none, logicalBlockIdx := 0, payload := () }

def demoChild : PrefixCacheBlock Nat Unit :=
  { objectId := 1, stableBlockId := 1, parentBlockId := some 0, logicalBlockIdx := 1, payload := ()
    refCount := 1 }

def demoChain : RadixPrefixIndex Nat Unit :=
  runAll demoConfig [.insertBlock demoRoot, .freeableBlockIds, .insertBlock demoChild]

end

section

variable {s : RadixPrefixIndex ι π} {cfg : PrefixIndexConfig ι}

/-- `lookup` finds the longest prefix that is a root path. -/
def LongestRootPath (par : ParentMap ι) (ids : List ι) (r : RadixLookupResult ι) : Prop :=
  r.hitBlockCount ≤ ids.length ∧ PathFrom par none (ids.take r.hitBlockCount) ∧
    (∀ n ≤ ids.length, PathFrom par none (ids.take n) → n ≤ r.hitBlockCount) ∧
    r.lastBlockId = (ids.take r.hitBlockCount).getLast?

theorem lookup_longest (h : WellFormed s) (ids : List ι) (n : Int) :
    ∃ r, s.backend.lookup ids n = .ok r ∧
      LongestRootPath (parentMap s.blocks) (ids.take n.toNat) r := by
  have hle : PathFrom.depth (parentMap s.blocks) none (ids.take n.toNat) ≤ (ids.take n.toNat).length :=
    PathFrom.depth_le_length
  refine ⟨_, h.tree.lookup_spec h.forest ids n, hle, ?_, fun m hm => ?_, rfl⟩
  · exact (PathFrom.take_iff_le_depth hle).mpr le_rfl
  · exact (PathFrom.take_iff_le_depth hm).mp

/-- The block map, the radix tree, the leaf set and the routing set of a reachable index
store one forest: the one that `parent_block_id` describes. -/
theorem reachable_structure (h : Reachable cfg s) :
    (s.backend.locations.keySet = s.blocks.keySet ∧
      s.routingMembership.root.toList.toFinset = s.blocks.keySet ∧
      s.routingMembership.root.toList.Nodup ∧
      s.routingMembership.liveBlocks = s.blocks.size) ∧
    (∀ id b, s.blocks.get? id = some b → b.stableBlockId = id ∧
      (∀ p, b.parentBlockId = some p → p ∈ s.blocks.keySet) ∧
      ∃ path, s.backend.pathToBlock id = .ok path ∧ RootPath (parentMap s.blocks) id path) ∧
    (∀ id, id ∈ s.backend.leafBlockIds ↔
      id ∈ s.blocks.keySet ∧ ∀ c, parentMap s.blocks c ≠ some (some id)) ∧
    (∀ id ∈ s.blocks.keySet, ∃ children subtree,
      s.backend.childBlockIds id = .ok children ∧ s.childCount id = .ok children.length ∧
      children.Nodup ∧ (∀ c, c ∈ children ↔ parentMap s.blocks c = some (some id)) ∧
      s.backend.subtreeBlockIds id = .ok subtree ∧ subtree.Nodup ∧
      ∀ d, d ∈ subtree ↔ Below (parentMap s.blocks) id d) ∧
    ∀ (ids : List ι) (n : Int), ∃ r, s.backend.lookup ids n = .ok r ∧
      LongestRootPath (parentMap s.blocks) (ids.take n.toNat) r := by
  have hwf := h.wf
  refine ⟨⟨hwf.tree.locations_keySet, ?_, hwf.routing.sorted.nodup, ?_⟩, fun id b hb => ?_,
    hwf.tree.leaf, fun id hid => ?_, lookup_longest hwf⟩
  · ext id
    rw [mem_toFinset, hwf.routing.mem]
  · rw [hwf.routing.live, card_keySet]
  · obtain ⟨path, hpath⟩ := hwf.forest.exists_rootPath id (mem_keySet.mpr ⟨b, hb⟩)
    refine ⟨hwf.ids id b hb, fun p hp => ?_, path, hwf.tree.pathToBlock_spec hwf.forest hpath, hpath⟩
    exact hwf.forest.closed id p ((parentMap_of_get hb).trans (by rw [hp]))
  · obtain ⟨cs, hcs, hcount, hnd, hmem⟩ := hwf.tree.childBlockIds_spec hwf.forest hid
    obtain ⟨l, hl, hlnd, hlmem⟩ := hwf.tree.subtreeBlockIds_spec hwf.forest hid
    exact ⟨cs, l, hcs, hcount, hnd, hmem, hl, hlnd, hlmem⟩

theorem reachable_structure_demo : demoChain.blocks.size = 2 ∧
    demoChain.backend.locations.keySet = demoChain.blocks.keySet :=
  ⟨by decide, (reachable_structure (reachable_runAll demoConfig _)).1.1⟩

end

section

variable {s : RadixPrefixIndex ι π} {cfg : PrefixIndexConfig ι}

/-- Residencies of a reachable index are valid, the device-resident and the host-resident
blocks are closed under parents, and a demotion raises on nothing but a negative weight. -/
theorem reachable_residency (h : Reachable cfg s) :
    (∀ id b, s.blocks.get? id = some b → b.residency.validate = .ok () ∧
      (b.residency.devicePresent = true ∨ b.residency.hostPresent = true) ∧
      (b.residency.transfer = some .d2h →
        b.residency.devicePresent = true ∧ b.residency.hostPresent = false) ∧
      (b.residency.transfer = some .h2d →
        b.residency.devicePresent = true ∧ b.residency.hostPresent = true)) ∧
    (∀ id b p, s.blocks.get? id = some b → b.parentBlockId = some p →
      ∃ pb, s.blocks.get? p = some pb ∧
        (b.residency.devicePresent = true → pb.residency.devicePresent = true) ∧
        (b.residency.hostPresent = true → pb.residency.hostPresent = true)) ∧
    ∀ (needed : Int) (weight : PrefixCacheBlock ι π → Int) (e : PyError),
      (demoteDeviceUntilWeight needed weight s).1 = .error e →
        e = .valueError "Prefix cache demotion weight must be non-negative" := by
  have hwf := h.wf
  refine ⟨fun id b hb => ?_, fun id b p hb hp => ?_, fun needed weight e he => ?_⟩
  · have hv := hwf.residency.valid id b hb
    exact ⟨hv, (validate_iff _).mp hv⟩
  · obtain ⟨pb, hpb⟩ := mem_keySet.mp
      (hwf.forest.closed id p ((parentMap_of_get hb).trans (by rw [hp])))
    exact ⟨pb, hpb, hwf.residency.device id b p pb hb hp hpb, hwf.residency.host id b p pb hb hp hpb⟩
  · have hspec := demoteDeviceUntilWeight_spec hwf needed weight
    unfold wp at hspec
    split at hspec
    · next hm => rw [hm] at he; cases he
    · next hm =>
      rw [hm] at he
      cases he
      exact hspec.1

/-- Root and leaf are copied to the host, and the leaf is dropped from the device. -/
def demoDemoted : RadixPrefixIndex Nat Unit :=
  let leaf := { demoChild with refCount := 0 }
  runAll demoConfig [.insertBlock demoRoot, .insertBlock leaf, .beginD2h demoRoot,
    .finishD2h demoRoot, .beginD2h leaf, .finishD2h leaf, .demoteDeviceUntilWeight 1 fun _ => 1]

theorem reachable_residency_demo : ∃ b pb, demoDemoted.blocks.get? 1 = some b ∧
    demoDemoted.blocks.get? 0 = some pb ∧ b.residency.devicePresent = false ∧
    b.residency.hostPresent = true ∧ pb.residency.hostPresent = true := by
  obtain ⟨valid, closed, -⟩ := reachable_residency (reachable_runAll demoConfig
    [.insertBlock demoRoot, .insertBlock { demoChild with refCount := 0 }, .beginD2h demoRoot,
      .finishD2h demoRoot, .beginD2h { demoChild with refCount := 0 },
      .finishD2h { demoChild with refCount := 0 }, .demoteDeviceUntilWeight 1 fun _ => 1])
  have leaf : (demoDemoted.blocks.get? 1).map
      (fun b => (b.parentBlockId, b.residency.devicePresent)) = some (some 0, false) := by decide
  obtain ⟨b, hb, hfields⟩ := Option.map_eq_some_iff.mp leaf
  obtain ⟨hparent, hgone⟩ := Prod.mk.inj hfields
  have hhost := (valid 1 b hb).2.1.resolve_left (by simp [hgone])
  obtain ⟨pb, hpb, -, hup⟩ := closed 1 b 0 hb hparent
  exact ⟨b, pb, hb, hpb, hgone, hhost, hup hhost⟩

end

section

variable {s : RadixPrefixIndex ι π} {cfg : PrefixIndexConfig ι}

def Unblocked (blocks : Dict ι (PrefixCacheBlock ι π)) (id : ι) : Prop :=
  ∃ b, blocks.get? id = some b ∧ b.refCount = 0 ∧ 0 ≤ b.evictionPriority ∧
    b.residency.transfer = none

theorem unblocked_iff {blocks : Dict ι (PrefixCacheBlock ι π)} {id : ι} :
    Unblocked blocks id ↔ LocallyFree blocks id := by
  simp only [Unblocked, LocallyFree, locallyBlocked_eq_false]

theorem query_eq {m : IndexM ι π (Finset ι)} {v : View} (hf : Fresh v s)
    (hq : wp m (fun F s' => QueryResult v s F ∧ Unchanged s s') (fun _ _ => False) s) :
    ∃ F, (m s).1 = .ok F ∧ ∀ id, id ∈ F ↔ v.Contains s.blocks id := by
  unfold wp at hq
  split at hq
  · next hm => exact ⟨_, by rw [hm], hq.1.contains hf⟩
  · exact hq.elim

/-- In every reachable index the freeable and the evictable query return what a
recomputation returns, and so do the incremental set, its counters and both caches. -/
theorem reachable_freeable_evictable (h : Reachable cfg s) :
    (∃ F, (freeableBlockIds s).1 = .ok F ∧ ∀ id, id ∈ F ↔
      id ∈ s.blocks.keySet ∧ ∀ d, Below (parentMap s.blocks) id d → Unblocked s.blocks d) ∧
    (∃ F, (evictableBlockIds s).1 = .ok F ∧ ∀ id, id ∈ F ↔
      Unblocked s.blocks id ∧ ∀ c, parentMap s.blocks c ≠ some (some id)) ∧
    (∀ F, s.freeableIds = some F →
      (∀ id, id ∈ F ↔ id ∈ s.blocks.keySet ∧
        ∀ d, Below (parentMap s.blocks) id d → Unblocked s.blocks d) ∧
      ∀ id ∈ s.blocks.keySet, s.blockedFreeableChildren.get? id =
        some ((s.blocks.keySet.filter fun c =>
          parentMap s.blocks c = some (some id) ∧ c ∉ F).card : Int)) ∧
    (s.freeableCache.epoch = s.epochs.capacity → ∀ id, id ∈ s.freeableCache.ids ↔
      id ∈ s.blocks.keySet ∧ ∀ d, Below (parentMap s.blocks) id d → Unblocked s.blocks d) ∧
    (s.evictableCache.epoch = s.epochs.capacity → ∀ id, id ∈ s.evictableCache.ids ↔
      Unblocked s.blocks id ∧ ∀ c, parentMap s.blocks c ≠ some (some id)) := by
  have hwf := h.wf
  simp only [unblocked_iff]
  have hfree : Fresh .freeable s := h.fresh (by simp)
  have hevict : Fresh .evictable s := h.fresh (by simp)
  refine ⟨query_eq hfree (freeableBlockIds_spec hwf), query_eq hevict (evictableBlockIds_spec hwf),
    fun F hF => ⟨fun id => (hwf.tracks F hF).mem_iff hwf.forest, (hwf.tracks F hF).count⟩,
    hfree.right, hevict.right⟩

theorem reachable_freeable_evictable_demo : demoChain.freeableIds = some ∅ ∧
    ∃ F, (freeableBlockIds demoChain).1 = .ok F ∧ 0 ∉ F := by
  obtain ⟨⟨F, hrun, hmem⟩, -⟩ := reachable_freeable_evictable (reachable_runAll demoConfig
    [.insertBlock demoRoot, .freeableBlockIds, .insertBlock demoChild])
  refine ⟨by decide, F, hrun, fun h0 => ?_⟩
  obtain ⟨b, hb, href, -⟩ := ((hmem 0).mp h0).2 1 (.single (by decide))
  cases hb
  cases href

inductive SafelyReachable (cfg : PrefixIndexConfig ι) : RadixPrefixIndex ι π → Prop
  | init : SafelyReachable cfg {}
  | step {s : RadixPrefixIndex ι π} (op : Op ι π) : SafelyReachable cfg s →
      (∀ b, op = .insertBlock b → s.blocks.get? b.stableBlockId = none → InsertSafe s.blocks b) →
      SafelyReachable cfg (op.next cfg s)

theorem SafelyReachable.reachable (h : SafelyReachable cfg s) : Reachable cfg s := by
  induction h with
  | init => exact .init
  | step op _ _ ih => exact .step op ih

theorem SafelyReachable.fresh (h : SafelyReachable cfg s) (v : View) : Fresh v s := by
  induction h with
  | init => exact fresh_empty v
  | step op hr hsafe ih =>
    exact (run_outcome hr.reachable.wf op).fresh hr.reachable.wf ih fun _ => hsafe

theorem deviceQuery_eq {includeInflightD2h : Bool} (hwf : WellFormed s)
    (hf : Fresh (deviceView includeInflightD2h) s) :
    ∃ F, (deviceReclaimableIds includeInflightD2h s).1 = .ok F ∧
      deviceReclaimableScan includeInflightD2h s = .ok F ∧
      ∀ id, id ∈ F ↔ Demotable includeInflightD2h s.blocks id := by
  obtain ⟨F, hrun, hmem⟩ := query_eq hf (deviceReclaimableIds_spec hwf)
  obtain ⟨F', hscan, hmem'⟩ := deviceReclaimableScan_spec includeInflightD2h hwf
  have hFF : F = F' := by
    ext id
    rw [hmem, hmem', deviceView_contains]
  exact ⟨F, hrun, by rw [hscan, hFF], fun id => by rw [hFF, hmem']⟩

/-- When every new block of a run is inserted safely, the device queries return what a
recomputation of the demotion closure returns. -/
theorem reachable_device_views (h : SafelyReachable cfg s) :
    (∃ F, (deviceFreeableBlockIds s).1 = .ok F ∧ deviceReclaimableScan false s = .ok F ∧
      ∀ id, id ∈ F ↔ Demotable false s.blocks id) ∧
    ∃ F, (deviceReclaimableBlockIds s).1 = .ok F ∧ deviceReclaimableScan true s = .ok F ∧
      ∀ id, id ∈ F ↔ Demotable true s.blocks id :=
  ⟨deviceQuery_eq h.reachable.wf (h.fresh _), deviceQuery_eq h.reachable.wf (h.fresh _)⟩

theorem reachable_deviceFreeable (h : Reachable cfg s) :
    ∃ F, (deviceFreeableBlockIds s).1 = .ok F ∧ deviceReclaimableScan false s = .ok F ∧
      ∀ id, id ∈ F ↔ Demotable false s.blocks id :=
  deviceQuery_eq h.wf (h.fresh (by simp [deviceView]))

/-- The root is queried before the referenced child is inserted below it. -/
theorem reachable_device_views_demo : ∃ F : Finset Nat,
    (deviceReclaimableBlockIds (runAll demoConfig
      [.insertBlock demoRoot, .deviceReclaimableBlockIds, .insertBlock demoChild])).1 = .ok F ∧
    deviceReclaimableScan true (runAll demoConfig
      [.insertBlock demoRoot, .deviceReclaimableBlockIds, .insertBlock demoChild]) = .ok F := by
  have hsafe : SafelyReachable demoConfig (runAll demoConfig
      [.insertBlock demoRoot, .deviceReclaimableBlockIds, .insertBlock demoChild]) := by
    refine .step _ (.step _ (.step _ .init ?_) ?_) ?_
    · rintro b hb -
      cases hb
      exact fun hblk => absurd hblk (by decide)
    · rintro b hb
      cases hb
    · rintro b hb -
      cases hb
      exact fun _ hpar => absurd hpar (by decide)
  obtain ⟨-, F, hrun, hscan, -⟩ := reachable_device_views hsafe
  exact ⟨F, hrun, hscan⟩

/-- A run that makes the device-reclaimable cache stale. -/
def staleRun : RadixPrefixIndex Nat Unit :=
  runAll demoConfig [.insertBlock demoRoot, .beginD2h demoRoot, .deviceReclaimableBlockIds,
    .insertBlock demoChild]

theorem deviceReclaimable_stale : Reachable demoConfig staleRun ∧
    (deviceReclaimableBlockIds staleRun).1 = .ok {0} ∧ deviceReclaimableScan true staleRun = .ok ∅ :=
  ⟨reachable_runAll demoConfig _, by decide, by decide⟩

end

end SparseEngine.RadixPrefixIndex
