import SparseEngine.Mixed.Holders

/-! A sequence holds the blocks of its attached chain and its materialised blocks. -/

namespace SparseEngine.PrefixCacheCoordinator

open PyM RadixPrefixIndex List Dict Option SequenceTables

variable {ι κ μ : Type} [LinearOrder ι]

/-- How often the sequences hold the block `id`. -/
def refs (c : PrefixCacheCoordinator ι κ μ) (id : ι) : Nat :=
  c.seqIdToPrefixBlocks.sumBy (fun _ bs => (bs.map (·.stableBlockId)).count id) +
    c.seqIdToMaterializedBlocks.sumBy fun _ d => if d.contains id then 1 else 0

/-- Every reference count is the number of references that sequences hold. -/
structure Holding (c : PrefixCacheCoordinator ι κ μ) : Prop where
  wf : WellFormed c.prefixCache
  counts : ∀ id b, c.prefixCache.blocks.get? id = some b → b.refCount = refs c id
  attached : ∀ seqId bs, c.seqIdToPrefixBlocks.get? seqId = some bs →
    ∀ b ∈ bs, c.prefixCache.isIndexed b = true
  materialized : ∀ seqId d, c.seqIdToMaterializedBlocks.get? seqId = some d →
    ∀ id b, d.get? id = some b → b.stableBlockId = id ∧ c.prefixCache.isIndexed b = true

/-- The sequence `seqId` holds the block `id`. -/
def Holds (c : PrefixCacheCoordinator ι κ μ) (seqId : Nat) (id : ι) : Prop :=
  ∃ b ∈ heldBlocks c seqId, b.stableBlockId = id

section

variable {c c' : PrefixCacheCoordinator ι κ μ} {seqId : Nat} {id : ι}

theorem Holding.nonneg (h : Holding c) : RefsNonneg c.prefixCache := by
  intro id b hb
  rw [h.counts id b hb]
  exact Int.natCast_nonneg _

variable {b : MixedBlock ι κ}

theorem mem_heldBlocks : b ∈ heldBlocks c seqId ↔
    (∃ bs, c.seqIdToPrefixBlocks.get? seqId = some bs ∧ b ∈ bs) ∨
    ∃ d id, c.seqIdToMaterializedBlocks.get? seqId = some d ∧ d.get? id = some b := by
  unfold heldBlocks
  rw [mem_append]
  refine or_congr ?_ ?_
  · cases c.seqIdToPrefixBlocks.get? seqId with
    | none => simp
    | some bs => simp
  · cases c.seqIdToMaterializedBlocks.get? seqId with
    | none => simp [Dict.values, empty]
    | some d =>
      simp only [getD_some, mem_values, Option.some.injEq]
      exact ⟨by rintro ⟨id, hid⟩; exact ⟨d, id, rfl, hid⟩, by rintro ⟨d', id, hd, hid⟩; exact ⟨id, hd ▸ hid⟩⟩

theorem Holding.isIndexed (h : Holding c) (hb : b ∈ heldBlocks c seqId) :
    c.prefixCache.isIndexed b = true := by
  rcases mem_heldBlocks.mp hb with ⟨bs, hbs, hmem⟩ | ⟨d, id, hd, hid⟩
  · exact h.attached seqId bs hbs b hmem
  · exact (h.materialized seqId d hd id b hid).2

theorem refs_pos (h : Holding c) (hh : Holds c seqId id) : 0 < refs c id := by
  obtain ⟨b, hb, rfl⟩ := hh
  unfold refs
  rcases mem_heldBlocks.mp hb with ⟨bs, hbs, hmem⟩ | ⟨d, id, hd, hid⟩
  · have hle := le_sumBy (fun (_ : Nat) (bs : List (MixedBlock ι κ)) =>
      (bs.map (·.stableBlockId)).count b.stableBlockId) c.seqIdToPrefixBlocks seqId
    rw [weightAt, hbs] at hle
    dsimp only [Option.elim] at hle
    have hpos : 0 < (bs.map (·.stableBlockId)).count b.stableBlockId :=
      count_pos_iff.mpr (mem_map_of_mem hmem)
    omega
  · have hsid := (h.materialized seqId d hd id b hid).1
    subst hsid
    have hle := le_sumBy (fun (_ : Nat) (d : Dict ι (MixedBlock ι κ)) =>
      if d.contains b.stableBlockId then 1 else 0) c.seqIdToMaterializedBlocks seqId
    rw [weightAt, hd] at hle
    dsimp only [Option.elim] at hle
    rw [if_pos (Dict.contains_iff.mpr ⟨b, hid⟩)] at hle
    omega

theorem Holds.referenced (hh : Holds c seqId id) (h : Holding c) :
    ∃ b, c.prefixCache.blocks.get? id = some b ∧ 0 < b.refCount := by
  have hpos := refs_pos h hh
  obtain ⟨b, hb, rfl⟩ := hh
  obtain ⟨d, hd, -⟩ := isIndexed_iff.mp (h.isIndexed hb)
  refine ⟨d, hd, ?_⟩
  rw [h.counts _ d hd]
  omega

omit [LinearOrder ι] in
theorem heldBlocks_tables (h : tables c' = tables c) (seqId : Nat) :
    heldBlocks c' seqId = heldBlocks c seqId := by
  have hp := congrArg SequenceTables.prefixBlocks h
  have hm := congrArg materializedBlocks h
  unfold heldBlocks
  rw [show c'.seqIdToPrefixBlocks = c.seqIdToPrefixBlocks from hp,
    show c'.seqIdToMaterializedBlocks = c.seqIdToMaterializedBlocks from hm]

theorem refs_tables (h : tables c' = tables c) (id : ι) : refs c' id = refs c id := by
  have hp := congrArg SequenceTables.prefixBlocks h
  have hm := congrArg materializedBlocks h
  unfold refs
  rw [show c'.seqIdToPrefixBlocks = c.seqIdToPrefixBlocks from hp,
    show c'.seqIdToMaterializedBlocks = c.seqIdToMaterializedBlocks from hm]

theorem Loyal.isIndexed {s s' : RadixPrefixIndex ι (MixedPrefixBlockPayload κ)} (h : Loyal s s')
    {d : MixedBlock ι κ} (hb : s.isIndexed b = true) (hd : s.blocks.get? b.stableBlockId = some d)
    (hr : 0 < d.refCount) : s'.isIndexed b = true := by
  obtain ⟨e, he, ho⟩ := isIndexed_iff.mp hb
  rw [hd] at he
  cases he
  obtain ⟨n, hn, hid, -, -⟩ := h.get hd hr
  exact isIndexed_iff.mpr ⟨n, hn, hid.objectId.trans ho⟩

theorem Holding.kept (h : Holding c) (hk : Kept c c') : Holding c' := by
  have hheld : ∀ seqId (b : MixedBlock ι κ), b ∈ heldBlocks c seqId →
      c'.prefixCache.isIndexed b = true := by
    intro seqId b hb
    obtain ⟨d, hd, hpos⟩ := Holds.referenced ⟨b, hb, rfl⟩ h
    exact Loyal.isIndexed hk.index (h.isIndexed hb) hd hpos
  have hp : c'.seqIdToPrefixBlocks = c.seqIdToPrefixBlocks :=
    congrArg SequenceTables.prefixBlocks hk.tables
  have hm : c'.seqIdToMaterializedBlocks = c.seqIdToMaterializedBlocks :=
    congrArg materializedBlocks hk.tables
  refine ⟨hk.index.wf, fun id b hb => ?_, fun seqId bs hbs b hmem => ?_,
    fun seqId d hd id b hid => ?_⟩
  · obtain ⟨o, ho, -, href⟩ := hk.index.back id b hb
    rw [href, h.counts id o ho, refs_tables hk.tables]
  · rw [hp] at hbs
    exact hheld seqId b (mem_heldBlocks.mpr (.inl ⟨bs, hbs, hmem⟩))
  · rw [hm] at hd
    exact ⟨(h.materialized seqId d hd id b hid).1,
      hheld seqId b (mem_heldBlocks.mpr (.inr ⟨d, id, hd, hid⟩))⟩

omit [LinearOrder ι] in
theorem Holds.tables (hh : Holds c seqId id) (h : tables c' = tables c) : Holds c' seqId id := by
  unfold Holds
  rw [heldBlocks_tables h]
  exact hh

theorem Holding.steady {α : Type} {m : CoordM ι κ μ α} (h : Holding c) (hm : Along Steady m) :
    Kept c (m c).2 := hm c h.wf h.nonneg

theorem Holding.of_same (h : Holding c) (hindex : c'.prefixCache = c.prefixCache)
    (hp : c'.seqIdToPrefixBlocks = c.seqIdToPrefixBlocks)
    (hm : c'.seqIdToMaterializedBlocks = c.seqIdToMaterializedBlocks) : Holding c' := by
  refine ⟨hindex ▸ h.wf, fun id b hb => ?_, fun seqId bs hbs => ?_, fun seqId d hd => ?_⟩
  · rw [hindex] at hb
    rw [h.counts id b hb]
    unfold refs
    rw [hp, hm]
  · rw [hp] at hbs
    rw [hindex]
    exact h.attached seqId bs hbs
  · rw [hm] at hd
    rw [hindex]
    exact h.materialized seqId d hd

/-- A held block stays held and on the device, and none is new. -/
structure Stays (c c' : PrefixCacheCoordinator ι κ μ) : Prop where
  kept : ∀ id b, c.prefixCache.blocks.get? id = some b → 0 < b.refCount →
    ∃ b', c'.prefixCache.blocks.get? id = some b' ∧ 0 < b'.refCount ∧
      (b.residency.devicePresent = true → b'.residency.devicePresent = true)
  absent : ∀ id, c.prefixCache.blocks.get? id = none → c'.prefixCache.blocks.get? id = none

theorem Stays.trans {c'' : PrefixCacheCoordinator ι κ μ} (h : Stays c c') (h' : Stays c' c'') :
    Stays c c'' where
  kept := fun id b hb hr => by
    obtain ⟨b', hb', hr', hd⟩ := h.kept id b hb hr
    obtain ⟨b'', hb'', hr'', hd'⟩ := h'.kept id b' hb' hr'
    exact ⟨b'', hb'', hr'', fun hdev => hd' (hd hdev)⟩
  absent := fun id hid => h'.absent id (h.absent id hid)

theorem Stays.of_same (h : c'.prefixCache = c.prefixCache) : Stays c c' :=
  ⟨fun _ b hb hr => ⟨b, h ▸ hb, hr, fun hd => hd⟩, fun _ hid => h ▸ hid⟩

theorem Kept.stays (h : Kept c c') : Stays c c' where
  kept := fun id b hb hr => by
    obtain ⟨n, hn, -, href, hd⟩ := h.index.get hb hr
    exact ⟨n, hn, href ▸ hr, hd⟩
  absent := fun id hid => by
    cases hc : c'.prefixCache.blocks.get? id with
    | none => rfl
    | some n =>
      obtain ⟨o, ho, -⟩ := h.index.back id n hc
      rw [hid] at ho
      cases ho

theorem Counted.stays {Δ : ι → Int} (h : Counted Δ c.prefixCache c'.prefixCache)
    (hΔ : ∀ id, 0 ≤ Δ id) : Stays c c' where
  kept := fun id b hb hr => by
    have hpos := hΔ id
    exact ⟨_, h.of_get hb, by show 0 < b.refCount + Δ id; omega, fun hd => hd⟩
  absent := fun id hid => by rw [h.get, hid, map_none]

/-- The tables of the other sequences are as before. -/
structure Elsewhere (seqId : Nat) (c c' : PrefixCacheCoordinator ι κ μ) : Prop where
  prefixBlocks : c'.seqIdToPrefixBlocks = c.seqIdToPrefixBlocks
  materialized : ∀ k, k ≠ seqId →
    c'.seqIdToMaterializedBlocks.get? k = c.seqIdToMaterializedBlocks.get? k
  runtime : ∀ k, k ≠ seqId → c'.runtimeStates.get? k = c.runtimeStates.get? k
  pending : ∀ k, k ≠ seqId → c'.pendingBlocks.get? k = c.pendingBlocks.get? k
  duplicates : ∀ k, k ≠ seqId → c'.pendingDuplicateRefs.get? k = c.pendingDuplicateRefs.get? k
  limited : ∀ k, k ≠ seqId → (k ∈ c'.capacityLimitedSeqIds ↔ k ∈ c.capacityLimitedSeqIds)

omit [LinearOrder ι] in
theorem Elsewhere.trans {c'' : PrefixCacheCoordinator ι κ μ} (h : Elsewhere seqId c c')
    (h' : Elsewhere seqId c' c'') : Elsewhere seqId c c'' where
  prefixBlocks := h'.prefixBlocks.trans h.prefixBlocks
  materialized := fun k hk => (h'.materialized k hk).trans (h.materialized k hk)
  runtime := fun k hk => (h'.runtime k hk).trans (h.runtime k hk)
  pending := fun k hk => (h'.pending k hk).trans (h.pending k hk)
  duplicates := fun k hk => (h'.duplicates k hk).trans (h.duplicates k hk)
  limited := fun k hk => (h'.limited k hk).trans (h.limited k hk)

omit [LinearOrder ι] in
theorem Elsewhere.of_tables (h : tables c' = tables c) (seqId : Nat) : Elsewhere seqId c c' where
  prefixBlocks := congrArg SequenceTables.prefixBlocks h
  materialized := fun k _ =>
    congrArg (fun t => t.materializedBlocks.get? k) h
  runtime := fun k _ => congrArg (fun t => t.runtimeStates.get? k) h
  pending := fun k _ => congrArg (fun t => t.pendingBlocks.get? k) h
  duplicates := fun k _ => congrArg (fun t => t.pendingDuplicateRefs.get? k) h
  limited := fun k _ => iff_of_eq (congrArg (fun t => k ∈ t.capacityLimitedSeqIds) h)

omit [LinearOrder ι] in
theorem Elsewhere.heldBlocks (h : Elsewhere seqId c c') {k : Nat} (hk : k ≠ seqId) :
    heldBlocks c' k = heldBlocks c k := by
  unfold PrefixCacheCoordinator.heldBlocks
  rw [h.prefixBlocks, h.materialized k hk]

/-- A sequence came to hold `id`. -/
structure Took (seqId : Nat) (id : ι) (c c' : PrefixCacheCoordinator ι κ μ) : Prop where
  holding : Holding c'
  stays : Stays c c'
  elsewhere : Elsewhere seqId c c'
  holds : Holds c' seqId id
  mono : ∀ x, Holds c seqId x → Holds c' seqId x
  runtime : c'.runtimeStates = c.runtimeStates
  pending : c'.pendingBlocks = c.pendingBlocks
  duplicates : c'.pendingDuplicateRefs = c.pendingDuplicateRefs
  limited : c'.capacityLimitedSeqIds = c.capacityLimitedSeqIds
  count : ¬ Holds c seqId id → ∀ x b', c'.prefixCache.blocks.get? x = some b' →
    ∃ b, c.prefixCache.blocks.get? x = some b ∧
      b'.refCount = b.refCount + if x = id then 1 else 0
  once : ¬ Holds c seqId id → ((heldBlocks c' seqId).map (·.stableBlockId)).count id = 1

def materializedOf (c : PrefixCacheCoordinator ι κ μ) (seqId : Nat) : Dict ι (MixedBlock ι κ) :=
  (c.seqIdToMaterializedBlocks.get? seqId).getD .empty

def materialize (seqId : Nat) (b : MixedBlock ι κ) (c : PrefixCacheCoordinator ι κ μ) :
    PrefixCacheCoordinator ι κ μ :=
  { c with
    seqIdToMaterializedBlocks :=
      c.seqIdToMaterializedBlocks.set seqId ((materializedOf c seqId).set b.stableBlockId b) }

theorem materializedOf_materialize (seqId : Nat) (b : MixedBlock ι κ)
    (c : PrefixCacheCoordinator ι κ μ) :
    materializedOf (materialize seqId b c) seqId =
      (materializedOf c seqId).set b.stableBlockId b := by
  show ((c.seqIdToMaterializedBlocks.set seqId _).get? seqId).getD .empty = _
  rw [Dict.get?_set, if_pos rfl, getD_some]

theorem refs_materialize (seqId : Nat) (c : PrefixCacheCoordinator ι κ μ)
    (hnew : (materializedOf c seqId).get? b.stableBlockId = none) (x : ι) :
    refs (materialize seqId b c) x = refs c x + if x = b.stableBlockId then 1 else 0 := by
  have hset := sumBy_set_getD (d := c.seqIdToMaterializedBlocks) (k := seqId) (e := empty)
    (f := fun d : Dict ι (MixedBlock ι κ) => if d.contains x then 1 else 0) rfl
    ((materializedOf c seqId).set b.stableBlockId b)
  have hcontains : (if ((materializedOf c seqId).set b.stableBlockId b).contains x then 1 else 0) =
      (if (materializedOf c seqId).contains x then 1 else 0) +
        if x = b.stableBlockId then 1 else 0 := by
    by_cases hx : x = b.stableBlockId
    · subst hx
      have hno : (materializedOf c seqId).contains b.stableBlockId = false :=
        contains_eq_false.mpr hnew
      have hyes : ((materializedOf c seqId).set b.stableBlockId b).contains b.stableBlockId =
          true := Dict.contains_iff.mpr ⟨b, by rw [Dict.get?_set, if_pos rfl]⟩
      rw [hno, hyes]
      simp
    · have hsame : ((materializedOf c seqId).set b.stableBlockId b).contains x =
          (materializedOf c seqId).contains x := by
        unfold Dict.contains
        rw [Dict.get?_set_ne _ _ hx]
      rw [hsame, if_neg hx, Nat.add_zero]
  unfold refs materialize
  dsimp only
  have hgetD : (c.seqIdToMaterializedBlocks.get? seqId).getD empty = materializedOf c seqId :=
    rfl
  rw [hcontains, hgetD] at hset
  omega

theorem Holding.materialized_sids (h : Holding c) (seqId : Nat) :
    (materializedOf c seqId).values.map (·.stableBlockId) = (materializedOf c seqId).keys := by
  unfold Dict.values Dict.keys
  rw [List.map_map]
  refine List.map_congr_left fun e he => ?_
  have hget : (materializedOf c seqId).get? e.1 = some e.2 := Dict.mem_entries.mp he
  unfold materializedOf at hget
  cases hm : c.seqIdToMaterializedBlocks.get? seqId with
  | none =>
    rw [hm] at hget
    cases hget
  | some d =>
    rw [hm] at hget
    exact (h.materialized seqId d hm e.1 e.2 hget).1

theorem count_heldBlocks (h : Holding c')
    (hmat : materializedOf c' seqId = (materializedOf c seqId).set b.stableBlockId b)
    (hp : c'.seqIdToPrefixBlocks = c.seqIdToPrefixBlocks) (hno : ¬ Holds c seqId b.stableBlockId) :
    ((heldBlocks c' seqId).map (·.stableBlockId)).count b.stableBlockId = 1 := by
  have hheld : heldBlocks c' seqId =
      (c'.seqIdToPrefixBlocks.get? seqId).getD [] ++ (materializedOf c' seqId).values := rfl
  rw [hheld, map_append, count_append, h.materialized_sids, hp]
  have hattached : (((c.seqIdToPrefixBlocks.get? seqId).getD []).map (·.stableBlockId)).count
      b.stableBlockId = 0 := by
    refine count_eq_zero.mpr fun hmem => hno ?_
    obtain ⟨x, hx, hid⟩ := List.mem_map.mp hmem
    exact ⟨x, mem_append.mpr (.inl hx), hid⟩
  have hkeys : (materializedOf c' seqId).keys.count b.stableBlockId = 1 := by
    refine count_eq_one_of_mem (keys_nodup _) (Dict.mem_keys.mpr ⟨b, ?_⟩)
    rw [hmat, Dict.get?_set, if_pos rfl]
  rw [hattached, hkeys]

theorem Holding.holds_iff (h : Holding c) : Holds c seqId id ↔
    (∃ b ∈ (c.seqIdToPrefixBlocks.get? seqId).getD [], b.stableBlockId = id) ∨
      (materializedOf c seqId).contains id = true := by
  have hsids := h.materialized_sids seqId
  have hmat : (∃ b ∈ (materializedOf c seqId).values, b.stableBlockId = id) ↔
      (materializedOf c seqId).contains id = true := by
    rw [Dict.contains_iff, ← Dict.mem_keys, ← hsids, List.mem_map]
  rw [← hmat]
  constructor
  · rintro ⟨b, hb, hid⟩
    rcases mem_append.mp hb with hb | hb
    · exact .inl ⟨b, hb, hid⟩
    · exact .inr ⟨b, hb, hid⟩
  · rintro (⟨b, hb, hid⟩ | ⟨b, hb, hid⟩)
    · exact ⟨b, mem_append.mpr (.inl hb), hid⟩
    · exact ⟨b, mem_append.mpr (.inr hb), hid⟩

theorem Holding.materialize {s' : RadixPrefixIndex ι (MixedPrefixBlockPayload κ)} (h : Holding c)
    (hnew : (materializedOf c seqId).get? b.stableBlockId = none) (hwf : WellFormed s')
    (hb : s'.isIndexed b = true) (hcounts : ∀ x n, s'.blocks.get? x = some n →
      n.refCount = refs c x + if x = b.stableBlockId then 1 else 0)
    (hindexed : ∀ seqId (a : MixedBlock ι κ), a ∈ heldBlocks c seqId → s'.isIndexed a = true) :
    Holding (PrefixCacheCoordinator.materialize seqId b { c with prefixCache := s' }) := by
  refine ⟨hwf, fun x n hn => ?_, fun k bs hbs a ha => ?_, fun k d hd x a ha => ?_⟩
  · have hrefs := refs_materialize seqId { c with prefixCache := s' } hnew x
    rw [hrefs, hcounts x n hn]
    push_cast
    rfl
  · exact hindexed k a (mem_heldBlocks.mpr (.inl ⟨bs, hbs, ha⟩))
  · have hd' : (c.seqIdToMaterializedBlocks.set seqId
        ((materializedOf c seqId).set b.stableBlockId b)).get? k = some d := hd
    rw [Dict.get?_set] at hd'
    split at hd'
    · next hk =>
      cases hd'
      rw [Dict.get?_set] at ha
      split at ha
      · next hx =>
        cases ha
        exact ⟨hx.symm, hb⟩
      · subst hk
        cases hm : c.seqIdToMaterializedBlocks.get? k with
        | none =>
          unfold materializedOf at ha
          rw [hm] at ha
          cases ha
        | some d =>
          have ha' : d.get? x = some a := by
            unfold materializedOf at ha
            rw [hm] at ha
            exact ha
          exact ⟨(h.materialized k d hm x a ha').1,
            hindexed k a (mem_heldBlocks.mpr (.inr ⟨d, x, hm, ha'⟩))⟩
    · exact ⟨(h.materialized k d hd' x a ha).1,
        hindexed k a (mem_heldBlocks.mpr (.inr ⟨d, x, hd', ha⟩))⟩

theorem Holds.of_attachedAt (h : attachedAt ((c.seqIdToPrefixBlocks.get? seqId).getD []) b = true) :
    Holds c seqId b.stableBlockId := by
  unfold attachedAt at h
  cases ha : ((c.seqIdToPrefixBlocks.get? seqId).getD [])[b.logicalBlockIdx]? with
  | none => rw [ha] at h; cases h
  | some a =>
    rw [ha] at h
    exact ⟨a, mem_append.mpr (.inl (mem_of_getElem? ha)), by simpa using h⟩

theorem holdMaterializedRef_spec (h : Holding c)
    (hb : c.prefixCache.blocks.get? b.stableBlockId = some b) :
    wp (holdMaterializedRef seqId b) (fun _ c' => Took seqId b.stableBlockId c c')
      (fun _ _ => False) c := by
  simp only [holdMaterializedRef, wp_bind, wp_get, wp_ite]
  split
  · next hheld =>
    have hholds : Holds c seqId b.stableBlockId := by
      rcases Bool.or_eq_true_iff.mp hheld with hatt | hmat
      · exact .of_attachedAt hatt
      · exact h.holds_iff.mpr (.inr hmat)
    exact ⟨h, .of_same rfl, .of_tables rfl seqId, hholds, fun _ hx => hx, rfl, rfl, rfl, rfl,
      fun hno => absurd hholds hno, fun hno => absurd hholds hno⟩
  · next hfree =>
    have hindexed : c.prefixCache.isIndexed b = true := isIndexed_iff.mpr ⟨b, hb, rfl⟩
    have hnew : (materializedOf c seqId).get? b.stableBlockId = none := by
      rw [← contains_eq_false]
      exact (Bool.or_eq_false_iff.mp (Bool.eq_false_iff.mpr hfree)).2
    unfold onIndex
    rw [wp_zoom]
    refine wp_mono (acquireBlockRef_counted h.wf h.nonneg hindexed) (fun _ s' hs => ?_)
      fun _ _ he => he
    have hheld : ∀ k (a : MixedBlock ι κ), a ∈ heldBlocks c k → s'.isIndexed a = true :=
      fun k a ha => (hs.isIndexed a).trans (h.isIndexed ha)
    have hcount : ∀ x n, s'.blocks.get? x = some n → ∃ o, c.prefixCache.blocks.get? x = some o ∧
        n.refCount = o.refCount + if x = b.stableBlockId then 1 else 0 := by
      intro x n hn
      obtain ⟨o, ho, rfl⟩ := hs.back hn
      refine ⟨o, ho, ?_⟩
      show o.refCount + Pi.single (M := fun _ => Int) b.stableBlockId 1 x = _
      rw [Pi.single_apply]
    have hholding : Holding (materialize seqId b { c with prefixCache := s' }) := by
      refine h.materialize hnew hs.wf ((hs.isIndexed b).trans hindexed) (fun x n hn => ?_) hheld
      obtain ⟨o, ho, href⟩ := hcount x n hn
      rw [href, h.counts x o ho]
    have hmat := materializedOf_materialize seqId b { c with prefixCache := s' }
    show Took seqId b.stableBlockId c (materialize seqId b { c with prefixCache := s' })
    have hmono : ∀ x, Holds c seqId x →
        Holds (materialize seqId b { c with prefixCache := s' }) seqId x := by
      intro x hx
      refine hholding.holds_iff.mpr ((h.holds_iff.mp hx).imp_right fun hcon => ?_)
      obtain ⟨a, ha⟩ := Dict.contains_iff.mp hcon
      rw [hmat, Dict.contains_iff]
      by_cases hxb : x = b.stableBlockId
      · exact ⟨b, by rw [hxb, Dict.get?_set, if_pos rfl]⟩
      · exact ⟨a, by rw [Dict.get?_set_ne _ _ hxb]; exact ha⟩
    refine ⟨hholding, ?_, ?_, ?_, hmono, rfl, rfl, rfl, rfl, fun _ x n hn => hcount x n hn,
      fun hno => count_heldBlocks hholding hmat rfl hno⟩
    · have hstays : Stays c (materialize seqId b { c with prefixCache := s' }) :=
        Counted.stays hs fun x => by rw [Pi.single_apply]; split <;> omega
      exact hstays
    · refine ⟨rfl, fun k hk => ?_, fun _ _ => rfl, fun _ _ => rfl, fun _ _ => rfl, fun _ _ => .rfl⟩
      show (c.seqIdToMaterializedBlocks.set seqId _).get? k = _
      rw [Dict.get?_set_ne _ _ hk]
    · refine hholding.holds_iff.mpr (.inr ?_)
      rw [hmat, Dict.contains_iff]
      exact ⟨b, by rw [Dict.get?_set, if_pos rfl]⟩

end

end SparseEngine.PrefixCacheCoordinator
