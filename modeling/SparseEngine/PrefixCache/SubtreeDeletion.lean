import SparseEngine.PrefixCache.GreedyEvictions
import SparseEngine.PrefixCache.Drift

/-! `preview_delete_subtree` walks a subtree deepest blocks first and plans the blocks that are not
blocked and whose children are all planned. -/

namespace SparseEngine.RadixPrefixIndex

open PyM List Dict

variable {ι π : Type} [LinearOrder ι] {cfg : PrefixIndexConfig ι} {s s' : RadixPrefixIndex ι π}

theorem RefsNonneg.of_blocks (h : RefsNonneg s) (hs' : s'.blocks = s.blocks) : RefsNonneg s' :=
  fun id b hb => h id b (hs' ▸ hb)

theorem RefsNonneg.set (h : RefsNonneg s) {id : ι} {new : PrefixCacheBlock ι π}
    (hs' : s'.blocks = s.blocks.set id new) (hnew : 0 ≤ new.refCount) : RefsNonneg s' := by
  intro x b hb
  rw [hs', get?_set] at hb
  split at hb
  · cases hb
    exact hnew
  · exact h x b hb

theorem RefsNonneg.updated (h : RefsNonneg s) {R : PrefixCacheBlock ι π → PrefixCacheBlock ι π → Prop}
    (hs' : Updated R s.blocks s'.blocks) (hR : ∀ o n, R o n → n.refCount = o.refCount) :
    RefsNonneg s' := by
  intro id n hn
  obtain ⟨o, ho⟩ := mem_keySet.mp (hs'.keys ▸ mem_keySet.mpr ⟨n, hn⟩)
  rw [hR o n (hs'.same id o n ho hn).2]
  exact h id o ho

theorem RefsNonneg.recast (h : RefsNonneg s) {b : PrefixCacheBlock ι π}
    {r : PrefixBlockResidency → PrefixBlockResidency} (hs' : Recast s b r s') : RefsNonneg s' := by
  obtain ⟨c, hc, -, hset⟩ | ⟨-, hsame⟩ := hs'.blocks
  · exact h.set hset (h _ c hc)
  · exact h.of_blocks hsame

theorem Op.next_refsNonneg (hwf : WellFormed s) (h : RefsNonneg s) (op : Op ι π)
    (hop : ∀ b, op = .insertBlock b → 0 ≤ b.refCount) : RefsNonneg (op.next cfg s) := by
  suffices hk : Keeps RefsNonneg (op.run cfg) s from keeps_iff.mp hk
  have hun : ∀ {s'}, Unchanged s s' → RefsNonneg s' := fun hs => h.of_blocks hs.2
  have hrem : ∀ {s' bs}, Removals s s' bs → RefsNonneg s' := fun hs => (hs.drift hwf h).nonneg
  cases op with
  | insertBlock b =>
    rw [Op.run, keeps_ignore]
    refine wp_mono (insertBlock_spec cfg hwf b) ?_ fun _ _ he => hun he.1
    rintro r s' (⟨old, n, hold, rfl, -, hs⟩ | ⟨n, rfl, hins⟩)
    · exact h.set hs (h _ old hold)
    · exact h.set hins.blocks (hop b rfl)
  | setBlockRefCount b n =>
    refine wp_mono (setBlockRefCount_spec hwf b n _) ?_ fun _ _ he => he.1 ▸ h
    rintro - s' ⟨-, c, -, -, hn, hs⟩
    exact h.set hs hn
  | acquireBlockRef b =>
    refine wp_mono (acquireBlockRef_spec hwf b) ?_ fun _ _ he => he.1 ▸ h
    rintro - s' ⟨-, c, -, -, hn, hs⟩
    exact h.set hs hn
  | releaseBlockRef b =>
    refine wp_mono (releaseBlockRef_spec hwf b _) ?_ fun _ _ he => he.1 ▸ h
    rintro - s' ⟨-, c, -, -, hn, hs⟩
    exact h.set hs hn
  | beginD2h b => exact wp_mono (beginD2h_spec hwf b) (fun _ _ hs => h.recast hs.1) fun _ _ => hun
  | finishD2h b => exact wp_mono (finishD2h_spec hwf b) (fun _ _ hs => h.recast hs.1) fun _ _ => hun
  | abortD2h b => exact wp_mono (abortD2h_spec hwf b) (fun _ _ hs => h.recast hs.1) fun _ _ => hun
  | beginH2d b => exact wp_mono (beginH2d_spec hwf b) (fun _ _ hs => h.recast hs.1) fun _ _ => hun
  | finishH2d b => exact wp_mono (finishH2d_spec hwf b) (fun _ _ hs => h.recast hs.1) fun _ _ => hun
  | abortH2d b => exact wp_mono (abortH2d_spec hwf b) (fun _ _ hs => h.recast hs.1) fun _ _ => hun
  | demoteDeviceUntilWeight n w =>
    rw [Op.run, keeps_ignore]
    refine wp_mono (demoteDeviceUntilWeight_spec hwf n w) ?_ ?_
    · rintro - s' ⟨bs, -, hd⟩
      exact (hd.demotions.drift hwf h).nonneg
    · rintro - s' ⟨-, ⟨bs, hd⟩, -⟩
      exact (hd.drift hwf h).nonneg
  | evictUntilWeight n w =>
    rw [Op.run, keeps_ignore]
    exact wp_mono (evictUntilWeight_spec hwf n w) (fun _ _ hs => hrem hs.removals)
      fun _ _ he => hrem he.1.choose_spec
  | evictHostUntilWeight n w =>
    rw [Op.run, keeps_ignore]
    exact wp_mono (evictHostUntilWeight_spec hwf n w) (fun _ _ hs => hrem hs.removals)
      fun _ _ he => hrem he.1.choose_spec
  | ensureInsertCapacity n =>
    rw [Op.run, keeps_ignore]
    refine wp_mono (ensureInsertCapacity_spec cfg hwf n) (fun _ _ hs => hrem hs) ?_
    rintro - s' ⟨bs, s₁, hr, hs⟩
    exact (hrem hr).of_blocks hs.2
  | safeDeleteSubtree t =>
    rw [Op.run, keeps_ignore]
    exact wp_mono (safeDeleteSubtree_spec cfg hwf t) (fun _ _ hs => hrem hs.choose_spec)
      fun _ _ hs => hrem hs.choose_spec
  | setSubtreeEvictionPriority t p =>
    rw [Op.run, keeps_ignore]
    refine wp_mono (setSubtreeEvictionPriority_spec cfg hwf t p) (fun _ _ hs => ?_)
      fun _ _ he => he ▸ h
    exact h.updated hs.2 fun _ _ hR => by rw [hR.choose_spec]
  | rollbackInsertedLeaf b =>
    refine wp_mono (rollbackInsertedLeaf_spec hwf b) ?_ fun _ _ he => he ▸ h
    rintro - s' ⟨c, -, hr, -, hs⟩ id x hx
    rw [hs, get?_erase] at hx
    split at hx
    · cases hx
    · exact h id x hx
  | markPayloadCompacted bs =>
    exact wp_mono (markPayloadCompacted_spec hwf bs) (fun _ _ => hun) fun _ _ he => he ▸ h
  | compactPayloads ids f =>
    refine wp_mono (compactPayloads_spec hwf ids f) (fun _ _ hs => ?_) fun _ _ he => he.elim
    exact h.updated hs.2 fun _ _ hR => by rw [hR.choose_spec]
  | touchChain bs =>
    refine wp_mono (touchChain_spec hwf bs) (fun _ _ hs => ?_) fun _ _ he => he.elim
    exact h.updated hs.2 fun _ _ hR => by rw [hR.choose_spec]
  | freeableBlockIds =>
    rw [Op.run, keeps_ignore]
    exact wp_mono (freeableBlockIds_spec hwf) (fun _ _ hs => hun hs.2) fun _ _ he => he.elim
  | evictableBlockIds =>
    rw [Op.run, keeps_ignore]
    exact wp_mono (evictableBlockIds_spec hwf) (fun _ _ hs => hun hs.2) fun _ _ he => he.elim
  | deviceFreeableBlockIds =>
    rw [Op.run, keeps_ignore]
    exact wp_mono (deviceReclaimableIds_spec hwf) (fun _ _ hs => hun hs.2) fun _ _ he => he.elim
  | deviceReclaimableBlockIds =>
    rw [Op.run, keeps_ignore]
    exact wp_mono (deviceReclaimableIds_spec hwf) (fun _ _ hs => hun hs.2) fun _ _ he => he.elim
  | takeRemovedBlockIdsForCapacity =>
    rw [Op.run, keeps_ignore]
    simp only [Keeps, RadixPrefixIndex.takeRemovedBlockIdsForCapacity, wp_bind, wp_get, wp_ite,
      wp_modify, wp_pure]
    split
    · exact h.of_blocks rfl
    · exact h

inductive CountedReachable (cfg : PrefixIndexConfig ι) : RadixPrefixIndex ι π → Prop
  | init : CountedReachable cfg {}
  | step {s : RadixPrefixIndex ι π} (op : Op ι π) : CountedReachable cfg s →
      (∀ b, op = .insertBlock b → 0 ≤ b.refCount) → CountedReachable cfg (op.next cfg s)

theorem CountedReachable.reachable (h : CountedReachable cfg s) : Reachable cfg s := by
  induction h with
  | init => exact .init
  | step op _ _ ih => exact .step op ih

theorem CountedReachable.refsNonneg (h : CountedReachable cfg s) : RefsNonneg s := by
  induction h with
  | init => exact fun id b hb => by simp at hb
  | step op hs hop ih => exact Op.next_refsNonneg hs.reachable.wf ih op hop

theorem exactSubtreeIds_spec (h : WellFormed s) {tokenIds : List Int} {root : ι}
    (hpath : PathFrom (parentMap s.blocks) none (blockIdsForTokens cfg tokenIds))
    (hroot : (blockIdsForTokens cfg tokenIds).getLast? = some root) :
    root ∈ s.blocks.keySet ∧ ∃ ids, s.exactSubtreeIdsForTokens cfg tokenIds = .ok (some ids) ∧
      ids.Nodup ∧ ∀ d, d ∈ ids ↔ Below (parentMap s.blocks) root d := by
  set blockIds := blockIdsForTokens cfg tokenIds with hids
  have hmem : root ∈ blockIds := mem_of_getLast? hroot
  have hkey : root ∈ s.blocks.keySet := (h.forest.nodes root).mpr (hpath.mem_node hmem)
  have hne : blockIds ≠ [] := ne_nil_of_mem hmem
  obtain ⟨r, hr, hle, -, hlongest, hlast⟩ := lookup_longest h blockIds blockIds.length
  rw [Int.toNat_natCast, take_length] at hle hlongest hlast
  have hcount : r.hitBlockCount = blockIds.length :=
    le_antisymm hle (hlongest _ le_rfl (by rwa [take_length]))
  rw [hcount, take_length, hroot] at hlast
  obtain ⟨ids, hrun, hnd, hsub⟩ := h.tree.subtreeBlockIds_spec h.forest hkey
  refine ⟨hkey, ids, ?_, hnd, hsub⟩
  simp [exactSubtreeIdsForTokens, ← hids, hne, hr, hlast, hcount, hrun, bind, Except.bind, pure,
    Except.pure]

theorem sortedIds_children_first (h : WellFormed s) {ids : List ι}
    (hids : ∀ x ∈ ids, x ∈ s.blocks.keySet)
    (hclosed : ∀ x ∈ ids, ∀ c, parentMap s.blocks c = some (some x) → c ∈ ids) :
    ∃ keyed sortedIds, ids.mapM (fun blockId => do
          return ((← s.backend.pathToBlock blockId).length, blockId)) = .ok keyed ∧
      sortedIds = (keyed.mergeSort fun a b => decide (b.1 ≤ a.1)).map Prod.snd ∧
      sortedIds.Perm ids ∧ ∀ pre x post, sortedIds = pre ++ x :: post →
        ∀ c, parentMap s.blocks c = some (some x) → c ∈ pre := by
  have hdepth : ∀ x, ∃ n, x ∈ ids →
      ∃ l, RootPath (parentMap s.blocks) x l ∧ s.backend.pathToBlock x = .ok l ∧ l.length = n := by
    intro x
    by_cases hx : x ∈ ids
    · obtain ⟨l, hl⟩ := h.forest.exists_rootPath x (hids x hx)
      exact ⟨l.length, fun _ => ⟨l, hl, h.tree.pathToBlock_spec h.forest hl, rfl⟩⟩
    · exact ⟨0, fun hx' => absurd hx' hx⟩
  choose depth hdepth using hdepth
  set keyed := ids.map fun x => (depth x, x) with hkeyed
  set sorted := keyed.mergeSort fun a b => decide (b.1 ≤ a.1) with hsorted
  have hperm : sorted.Perm keyed := mergeSort_perm _ _
  have hdesc : sorted.Pairwise fun a b => b.1 ≤ a.1 := by
    refine (pairwise_mergeSort ?_ ?_ keyed).imp fun hab => by simpa using hab
    · intro a b c hab hbc
      simp only [decide_eq_true_eq] at hab hbc ⊢
      exact hbc.trans hab
    · intro a b
      simpa using Nat.le_total b.1 a.1
  refine ⟨keyed, sorted.map Prod.snd, mapM_ok fun x hx => ?_, rfl, ?_, ?_⟩
  · obtain ⟨l, -, hrun, hlen⟩ := hdepth x hx
    simp [hrun, hlen, bind, Except.bind, pure, Except.pure]
  · refine (hperm.map Prod.snd).trans (Perm.of_eq ?_)
    simp [hkeyed, Function.comp_def]
  · intro pre x post hsplit c hc
    have hdepths : ∀ e ∈ sorted, e.2 ∈ ids ∧ e.1 = depth e.2 := by
      intro e he
      obtain ⟨y, hy, rfl⟩ := mem_map.mp (hperm.mem_iff.mp he)
      exact ⟨hy, rfl⟩
    obtain ⟨sortedPre, rest, rfl', hpre, hrest⟩ := map_eq_append_iff.mp hsplit
    obtain ⟨e, sortedPost, rfl, rfl, hpost⟩ := map_eq_cons_iff.mp hrest
    have hx := hdepths e (by rw [rfl']; simp)
    -- A child is one deeper than its parent, so it cannot come after it.
    have hcids := hclosed e.2 hx.1 c hc
    obtain ⟨l, hl, -, hlen⟩ := hdepth e.2 hx.1
    obtain ⟨l', hl', -, hlen'⟩ := hdepth c hcids
    have hdeeper : depth c = depth e.2 + 1 := by
      rw [← hlen', hl'.unique (.child hc hl), length_append, hlen, length_singleton]
    have hcs : (depth c, c) ∈ sorted := hperm.mem_iff.mpr (mem_map_of_mem hcids)
    rw [rfl'] at hcs hdesc
    rcases mem_append.mp hcs with hcs | hcs
    · exact hpre ▸ mem_map_of_mem (f := Prod.snd) hcs
    · exfalso
      rcases mem_cons.mp hcs with he | hcs
      · have := congrArg Prod.fst he
        rw [hx.2] at this
        exact absurd (hdeeper.symm.trans this) (Nat.succ_ne_self _)
      · have hle := (pairwise_cons.mp (pairwise_append.mp hdesc).2.1).1 _ hcs
        rw [hx.2] at hle
        exact absurd hle (by simp [hdeeper])

theorem deleteBlockedReason_spec (h : WellFormed s) (hnn : RefsNonneg s) {x : ι}
    {b : PrefixCacheBlock ι π} (hb : s.blocks.get? x = some b) {planned : Finset ι}
    (hplanned : ∀ c, parentMap s.blocks c = some (some x) → (c ∈ planned ↔ Freeable s c)) :
    ∃ reason, s.deleteBlockedReason b planned = .ok reason ∧ (reason = none ↔ Freeable s x) := by
  have hid := h.ids x b hb
  subst hid
  have hkey := mem_keySet.mpr ⟨b, hb⟩
  obtain ⟨children, hrun, -, -, hmem⟩ := h.tree.childBlockIds_spec h.forest hkey
  have hfree : Freeable s b.stableBlockId ↔ b.locallyBlocked = false ∧
      ∀ c, parentMap s.blocks c = some (some b.stableBlockId) → c ∈ planned := by
    rw [Freeable, View.Contains, and_iff_right hkey, clear_step, locallyFree_iff hb]
    refine and_congr_right fun _ => forall_congr' fun c => forall_congr' fun hc => ?_
    rw [hplanned c hc, Freeable, View.Contains, and_iff_right (h.forest.mem_of_parent hc)]
  rw [hfree, locallyBlocked_eq_false]
  unfold deleteBlockedReason
  have hnn := hnn _ b hb
  by_cases href : 0 < b.refCount
  · exact ⟨some "referenced", by rw [if_pos href]; rfl, by simp [href.ne']⟩
  have href0 : b.refCount = 0 := le_antisymm (not_lt.mp href) hnn
  by_cases hprio : b.evictionPriority < 0
  · exact ⟨some "negative_priority", by rw [if_neg href, if_pos hprio]; rfl, by
      simp [not_le.mpr hprio]⟩
  cases htransfer : b.residency.transfer with
  | some t =>
    exact ⟨some "transfer_inflight", by simp [href, hprio, pure, Except.pure], by simp⟩
  | none =>
    refine ⟨if children.any (· ∉ planned) then some "has_children" else none, ?_, ?_⟩
    · simp only [href, hprio, Option.isSome_none, Bool.false_eq_true, hrun, bind,
        Except.bind, pure, Except.pure, if_false]
      split <;> rfl
    · have hall : children.any (· ∉ planned) = false ↔
          ∀ c, parentMap s.blocks c = some (some b.stableBlockId) → c ∈ planned := by
        simp [hmem]
      rw [and_iff_right (And.intro href0 ⟨not_lt.mp hprio, rfl⟩), ← hall]
      cases children.any (· ∉ planned) <;> simp

open scoped Classical in
theorem previewLoop_plans (h : WellFormed s) (hnn : RefsNonneg s) :
    ∀ (rest done : List ι) (planned : Finset ι) (result : PrefixCacheDeleteResult ι π),
      (∀ x ∈ rest, x ∈ s.blocks.keySet) →
      (∀ pre x post, done ++ rest = pre ++ x :: post →
        ∀ c, parentMap s.blocks c = some (some x) → c ∈ pre) →
      (∀ x, x ∈ planned ↔ x ∈ done ∧ Freeable s x) →
      ∃ deleted blocked, s.previewLoop rest planned result =
          .ok ⟨result.deletedBlocks ++ deleted, result.blockedBlocks ++ blocked⟩ ∧
        (∀ b ∈ deleted, s.blocks.get? b.stableBlockId = some b) ∧
        deleted.map (·.stableBlockId) = rest.filter (fun x => decide (Freeable s x)) ∧
        blocked.map Prod.fst = (rest.filter fun x => decide (¬ Freeable s x)).map some := by
  intro rest
  induction rest with
  | nil => exact fun done planned result _ _ _ => ⟨[], [], by simp [previewLoop], by simp, rfl, rfl⟩
  | cons x rest ih =>
    intro done planned result hkeys hfirst hplanned
    obtain ⟨b, hb⟩ := mem_keySet.mp (hkeys x mem_cons_self)
    have hid := h.ids x b hb
    have hchildren : ∀ c, parentMap s.blocks c = some (some x) → (c ∈ planned ↔ Freeable s c) :=
      fun c hc => by rw [hplanned, and_iff_right (hfirst done x rest rfl c hc)]
    obtain ⟨reason, hrun, hreason⟩ := deleteBlockedReason_spec h hnn hb hchildren
    have hkeys' : ∀ y ∈ rest, y ∈ s.blocks.keySet := fun y hy => hkeys y (mem_cons_of_mem x hy)
    have hfirst' : ∀ pre y post, (done ++ [x]) ++ rest = pre ++ y :: post →
        ∀ c, parentMap s.blocks c = some (some y) → c ∈ pre := by
      simpa using hfirst
    cases reason with
    | some reason =>
      have hno : ¬ Freeable s x := fun hx => by cases hreason.mpr hx
      obtain ⟨deleted, blocked, hloop, hget, hdel, hblk⟩ := ih (done ++ [x]) planned
        { result with blockedBlocks := result.blockedBlocks ++ [(some x, reason)] } hkeys' hfirst'
        fun y => by
          rw [hplanned, mem_append, mem_singleton]
          constructor
          · exact fun hy => ⟨Or.inl hy.1, hy.2⟩
          · rintro ⟨hy | rfl, hfree⟩
            · exact ⟨hy, hfree⟩
            · exact absurd hfree hno
      refine ⟨deleted, (some x, reason) :: blocked, ?_, hget, ?_, ?_⟩
      · simp only [previewLoop, hb, hrun, bind, Except.bind, hloop, append_assoc,
          singleton_append]
      · rw [hdel, filter_cons_of_neg (by simpa using hno)]
      · rw [map_cons, hblk, filter_cons_of_pos (by simpa using hno), map_cons]
    | none =>
      have hfree : Freeable s x := hreason.mp rfl
      obtain ⟨deleted, blocked, hloop, hget, hdel, hblk⟩ := ih (done ++ [x]) (insert x planned)
        { result with deletedBlocks := result.deletedBlocks ++ [b] } hkeys' hfirst'
        fun y => by
          rw [Finset.mem_insert, hplanned, mem_append, mem_singleton]
          constructor
          · rintro (rfl | hy)
            · exact ⟨Or.inr rfl, hfree⟩
            · exact ⟨Or.inl hy.1, hy.2⟩
          · rintro ⟨hy | rfl, hyf⟩
            · exact Or.inr ⟨hy, hyf⟩
            · exact Or.inl rfl
      refine ⟨b :: deleted, blocked, ?_, ?_, ?_, ?_⟩
      · simp only [previewLoop, hb, hrun, bind, Except.bind, hloop, append_assoc,
          singleton_append]
      · intro c hc
        rcases mem_cons.mp hc with rfl | hc
        · rw [hid, hb]
        · exact hget c hc
      · rw [map_cons, hdel, hid, filter_cons_of_pos (by simpa using hfree)]
      · rw [hblk, filter_cons_of_neg (by simpa using hfree)]

theorem deleteLoop_applies (h : WellFormed s) {bs : List (PrefixCacheBlock ι π)}
    (hget : ∀ b ∈ bs, s.blocks.get? b.stableBlockId = some b ∧ b.locallyBlocked = false)
    (hnd : (bs.map (·.stableBlockId)).Nodup)
    (hfirst : ∀ pre b post, bs = pre ++ b :: post →
      ∀ c, parentMap s.blocks c = some (some b.stableBlockId) → ∃ a ∈ pre, a.stableBlockId = c) :
    ∀ (rest done : List (PrefixCacheBlock ι π)) (t : RadixPrefixIndex ι π), bs = done ++ rest →
      Removals s t done → ∃ s', deleteLoop rest done t = (.ok bs, s') ∧ Removals s s' bs := by
  intro rest
  induction rest with
  | nil =>
    intro done t hbs hrem
    rw [append_nil] at hbs
    exact ⟨t, by rw [hbs]; rfl, hbs ▸ hrem⟩
  | cons b rest ih =>
    intro done t hbs hrem
    have hwf := hrem.steps.wf h
    obtain ⟨hb, hfree⟩ := hget b (by simp [hbs])
    have hnew : ∀ a ∈ done, a.stableBlockId ≠ b.stableBlockId := by
      rw [hbs, map_append, nodup_append] at hnd
      exact fun a ha => hnd.2.2 _ (mem_map_of_mem ha) _ (by simp)
    have hbt : t.blocks.get? b.stableBlockId = some b := by rw [hrem.same hnew, hb]
    have hleaf : ∀ c, parentMap t.blocks c ≠ some (some b.stableBlockId) := by
      intro c hc
      obtain ⟨cb, hcb, hcp⟩ := parentMap_eq.mp hc
      by_cases hcd : ∀ a ∈ done, a.stableBlockId ≠ c
      · rw [hrem.same hcd] at hcb
        obtain ⟨a, ha, hac⟩ := hfirst done b rest hbs c (parentMap_eq.mpr ⟨cb, hcb, hcp⟩)
        exact hcd a ha hac
      · push Not at hcd
        obtain ⟨a, ha, rfl⟩ := hcd
        rw [(hrem.gone a ha).2] at hcb
        cases hcb
    have hremovable : Removable t b.stableBlockId b := ⟨hbt, hfree, hleaf⟩
    obtain ⟨t', hrun, hstep, hblocks⟩ : ∃ t', removeBlockFromIndex b.stableBlockId t = (.ok b, t') ∧
        Step t t' ∧ t'.blocks = t.blocks.erase b.stableBlockId := by
      have hspec := removeBlockFromIndex_spec hwf b.stableBlockId
      cases hr : removeBlockFromIndex b.stableBlockId t with
      | mk r t' =>
        cases r with
        | error e => exact absurd hremovable (((wp_of_error hr).mp hspec).2 b)
        | ok c =>
          obtain ⟨hc, hstep, hblocks⟩ := (wp_of_ok hr).mp hspec
          have hcb : c = b := by
            have := hc.1
            rw [hbt] at this
            exact (Option.some.inj this).symm
          exact ⟨t', by rw [hcb], hstep, hblocks⟩
    obtain ⟨s', hloop, hall⟩ := ih (done ++ [b]) t' (by rw [hbs]; simp)
      (hrem.snoc hremovable hstep hblocks)
    refine ⟨s', ?_, hall⟩
    have hidx : t.isIndexed b = true := isIndexed_iff.mpr ⟨b, hbt, rfl⟩
    simp [deleteLoop, bind_run, get_run, raiseIf, hidx, hrun, hloop]

/-- `safe_delete_subtree` at the subtree of `root` returns the plan of the preview and leaves `s'`. -/
structure SubtreeDeletion (cfg : PrefixIndexConfig ι) (s : RadixPrefixIndex ι π)
    (tokenIds : List Int) (root : ι) (plan : PrefixCacheDeleteResult ι π)
    (s' : RadixPrefixIndex ι π) : Prop where
  preview : s.previewDeleteSubtree cfg tokenIds = .ok plan
  applied : safeDeleteSubtree cfg tokenIds s = (.ok plan, s')
  deleted : ∀ id, (∃ b ∈ plan.deletedBlocks, b.stableBlockId = id) ↔
    Below (parentMap s.blocks) root id ∧ Freeable s id
  deletedOnce : (plan.deletedBlocks.map (·.stableBlockId)).Nodup
  indexed : ∀ b ∈ plan.deletedBlocks, s.blocks.get? b.stableBlockId = some b
  childrenFirst : ∀ pre b post, plan.deletedBlocks = pre ++ b :: post →
    ∀ c, parentMap s.blocks c = some (some b.stableBlockId) → ∃ a ∈ pre, a.stableBlockId = c
  blocked : ∀ x, x ∈ plan.blockedBlocks.map Prod.fst ↔
    ∃ id, x = some id ∧ Below (parentMap s.blocks) root id ∧ ¬ Freeable s id
  blockedOnce : (plan.blockedBlocks.map Prod.fst).Nodup
  gone : ∀ id, Below (parentMap s.blocks) root id → Freeable s id → s'.blocks.get? id = none
  kept : ∀ id, ¬ (Below (parentMap s.blocks) root id ∧ Freeable s id) →
    s'.blocks.get? id = s.blocks.get? id

/-- In every reachable index, deleting the subtree that a token list names deletes exactly
its freeable blocks. -/
theorem subtree_deletion (h : CountedReachable cfg s) {tokenIds : List Int} {root : ι}
    (hpath : PathFrom (parentMap s.blocks) none (blockIdsForTokens cfg tokenIds))
    (hroot : (blockIdsForTokens cfg tokenIds).getLast? = some root) :
    ∃ plan s', SubtreeDeletion cfg s tokenIds root plan s' := by
  classical
  have hwf := h.reachable.wf
  obtain ⟨hkey, ids, hexact, hnd, hmem⟩ := exactSubtreeIds_spec hwf hpath hroot
  have hids : ∀ x ∈ ids, x ∈ s.blocks.keySet :=
    fun x hx => hwf.forest.mem_of_below hkey ((hmem x).mp hx)
  obtain ⟨keyed, sortedIds, hkeyed, hsorted, hperm, hfirst⟩ := sortedIds_children_first hwf hids
    fun x hx c hc => (hmem c).mpr (((hmem x).mp hx).tail hc)
  obtain ⟨deleted, blocked, hloop, hget, hdel, hblk⟩ := previewLoop_plans hwf h.refsNonneg sortedIds
    [] ∅ ⟨[], []⟩ (fun x hx => hids x (hperm.mem_iff.mp hx)) hfirst (by simp)
  rw [nil_append, nil_append] at hloop
  have hpreview : s.previewDeleteSubtree cfg tokenIds = .ok ⟨deleted, blocked⟩ := by
    simp only [previewDeleteSubtree, hexact, bind, Except.bind]
    simp only [bind, Except.bind, pure, Except.pure] at hkeyed
    simp only [pure, Except.pure, hkeyed, ← hsorted]
    exact hloop
  have hnd' : sortedIds.Nodup := hperm.nodup_iff.mpr hnd
  have hdelIff : ∀ id, (∃ b ∈ deleted, b.stableBlockId = id) ↔
      Below (parentMap s.blocks) root id ∧ Freeable s id := by
    intro id
    rw [← mem_map, hdel, mem_filter, hperm.mem_iff, hmem]
    simp
  have hdelNodup : (deleted.map (·.stableBlockId)).Nodup := hdel ▸ hnd'.filter _
  have hdelFirst : ∀ pre b post, deleted = pre ++ b :: post →
      ∀ c, parentMap s.blocks c = some (some b.stableBlockId) → ∃ a ∈ pre, a.stableBlockId = c := by
    intro pre b post hsplit c hc
    have hfree := ((hdelIff b.stableBlockId).mp ⟨b, by simp [hsplit], rfl⟩).2
    have hcfree : Freeable s c := ⟨hwf.forest.mem_of_parent hc, hfree.2.child hc⟩
    -- The planned ids are the freeable ones of the listing, in its order.
    rw [hsplit, map_append, map_cons] at hdel
    obtain ⟨idsPre, rest, hidsSplit, hpre, hrest⟩ := filter_eq_append_iff.mp hdel.symm
    obtain ⟨skipped, idsPost, rfl, hskip, hb, -⟩ := filter_eq_cons_iff.mp hrest
    have hcin := hfirst (idsPre ++ skipped) b.stableBlockId idsPost
      (by rw [hidsSplit, append_assoc]) c hc
    rcases mem_append.mp hcin with hcin | hcin
    · have : c ∈ pre.map (·.stableBlockId) := by
        rw [← hpre, mem_filter]
        exact ⟨hcin, by simpa using hcfree⟩
      simpa using this
    · exact absurd (by simpa using hcfree) (hskip c hcin)
  have hdelFree : ∀ b ∈ deleted, s.blocks.get? b.stableBlockId = some b ∧ b.locallyBlocked = false := by
    intro b hb
    have hclear := ((hdelIff b.stableBlockId).mp ⟨b, hb, rfl⟩).2.2.self
    exact ⟨hget b hb, (locallyFree_iff (hget b hb)).mp hclear⟩
  obtain ⟨s', hrun, hrem⟩ := deleteLoop_applies hwf hdelFree hdelNodup hdelFirst deleted [] s rfl .nil
  refine ⟨⟨deleted, blocked⟩, s', hpreview, ?_, hdelIff, hdelNodup, hget, hdelFirst, fun x => ?_, ?_,
    fun id hb hf => ?_, fun id hno => ?_⟩
  · simp only [safeDeleteSubtree, bind_run, get_run, lift_run, hpreview, hrun, pure_run]
  · rw [hblk, mem_map]
    simp only [mem_filter, hperm.mem_iff, hmem, decide_not, Bool.not_eq_eq_eq_not,
      Bool.not_true, decide_eq_false_iff_not]
    exact exists_congr fun id => ⟨fun h => ⟨h.2.symm, h.1⟩, fun h => ⟨h.2, h.1.symm⟩⟩
  · rw [hblk]
    exact (hnd'.filter _).map (Option.some_injective ι)
  · obtain ⟨b, hbd, rfl⟩ := (hdelIff id).mpr ⟨hb, hf⟩
    exact (hrem.gone b hbd).2
  · refine hrem.same fun b hb e => hno ?_
    exact (hdelIff id).mp ⟨b, hb, e⟩

/-- Every token list of one block names the block `0`. -/
def treeConfig : PrefixIndexConfig Nat where
  blockSize := 1
  hashBlock := fun tokens parent => parent.elim 0 fun p => p + tokens.length
  blockSize_pos := Nat.one_pos
  maxBlocks_pos := noLimit_pos

def demoTree : RadixPrefixIndex Nat Unit :=
  runAll treeConfig [.insertBlock demoRoot, .insertBlock demoChild,
    .insertBlock { demoRoot with
      objectId := 2, stableBlockId := 7, parentBlockId := some 0, logicalBlockIdx := 1 }]

theorem demoTree_reachable : CountedReachable treeConfig demoTree :=
  .step _ (.step _ (.step _ .init (by rintro b ⟨⟩; decide)) (by rintro b ⟨⟩; decide))
    (by rintro b ⟨⟩; decide)

theorem demoTree_freeable : Freeable demoTree 7 ∧ ¬ Freeable demoTree 1 := by
  constructor
  · refine ⟨by decide, clear_step.mpr ⟨?_, fun c hc => ?_⟩⟩
    · exact (locallyFree_iff (show demoTree.blocks.get? 7 = some { demoRoot with
        objectId := 2, stableBlockId := 7, parentBlockId := some 0, logicalBlockIdx := 1,
        lastAccess := 3 } from rfl)).mpr rfl
    · obtain ⟨b, hb, hp⟩ := parentMap_eq.mp hc
      have hno : ∀ e ∈ demoTree.blocks.entries, e.2.parentBlockId ≠ some 7 := by decide
      exact absurd hp (hno (c, b) (mem_entries.mpr hb))
  · intro h
    have hfree := (locallyFree_iff (show demoTree.blocks.get? 1 = some { demoChild with
      lastAccess := 2 } from rfl)).mp h.2.self
    cases hfree

/-- The free block goes and the referenced one stays. -/
theorem subtree_deletion_demo : ∃ plan s', SubtreeDeletion treeConfig demoTree [5] 0 plan s' ∧
    (∃ b ∈ plan.deletedBlocks, b.stableBlockId = 7) ∧ s'.blocks.get? 7 = none ∧
    some 1 ∈ plan.blockedBlocks.map Prod.fst ∧ s'.blocks.get? 1 = demoTree.blocks.get? 1 := by
  have hpath : PathFrom (parentMap demoTree.blocks) none (blockIdsForTokens treeConfig [5]) :=
    ⟨by decide, trivial⟩
  obtain ⟨plan, s', hdel⟩ := subtree_deletion demoTree_reachable hpath rfl
  have hbelow : ∀ x, parentMap demoTree.blocks x = some (some 0) →
      Below (parentMap demoTree.blocks) 0 x := fun x hx => .single hx
  obtain ⟨h7, h1⟩ := demoTree_freeable
  refine ⟨plan, s', hdel, (hdel.deleted 7).mpr ⟨hbelow 7 (by decide), h7⟩,
    hdel.gone 7 (hbelow 7 (by decide)) h7, (hdel.blocked _).mpr ⟨1, rfl, hbelow 1 (by decide), h1⟩,
    hdel.kept 1 fun h => h1 h.2⟩

end SparseEngine.RadixPrefixIndex
