import SparseEngine.PrefixCache.Drift

/-! What an attach does to the index: it walks the chain down to the last block of the hit and takes
a reference on every block of it; a release gives them back. -/

namespace SparseEngine.RadixPrefixIndex

open PyM RadixPrefixIndex

variable {ι π : Type} [LinearOrder ι] {s s' s'' : RadixPrefixIndex ι π} {Δ Δ' : ι → Int}
  {b : PrefixCacheBlock ι π}

/-- Every reference count moved by `Δ`, and nothing else changed. -/
structure Counted (Δ : ι → Int) (s s' : RadixPrefixIndex ι π) : Prop where
  wf : WellFormed s'
  fresh : ∀ v, Fresh v s → Fresh v s'
  get : ∀ id, s'.blocks.get? id =
    (s.blocks.get? id).map fun b => { b with refCount := b.refCount + Δ id }

theorem Counted.refl (h : WellFormed s) : Counted 0 s s where
  wf := h
  fresh := fun _ hv => hv
  get := fun id => by cases s.blocks.get? id <;> simp

theorem Counted.trans (h : Counted Δ s s') (h' : Counted Δ' s' s'') :
    Counted (fun id => Δ id + Δ' id) s s'' where
  wf := h'.wf
  fresh := fun v hv => h'.fresh v (h.fresh v hv)
  get := fun id => by
    rw [h'.get, h.get]
    cases s.blocks.get? id <;> simp [add_assoc]

theorem Counted.congr (h : Counted Δ s s') (hΔ : ∀ id, Δ id = Δ' id) : Counted Δ' s s' :=
  (funext hΔ : Δ = Δ') ▸ h

variable {id : ι}

theorem Counted.of_get (h : Counted Δ s s') {o : PrefixCacheBlock ι π}
    (ho : s.blocks.get? id = some o) :
    s'.blocks.get? id = some { o with refCount := o.refCount + Δ id } := by
  rw [h.get, ho, Option.map_some]

theorem Counted.back (h : Counted Δ s s') {n : PrefixCacheBlock ι π}
    (hn : s'.blocks.get? id = some n) : ∃ o, s.blocks.get? id = some o ∧
      n = { o with refCount := o.refCount + Δ id } := by
  rw [h.get] at hn
  obtain ⟨o, ho, rfl⟩ := Option.map_eq_some_iff.mp hn
  exact ⟨o, ho, rfl⟩

theorem Counted.isIndexed (h : Counted Δ s s') (b : PrefixCacheBlock ι π) :
    s'.isIndexed b = s.isIndexed b := by
  unfold RadixPrefixIndex.isIndexed
  rw [h.get]
  cases s.blocks.get? b.stableBlockId <;> rfl

theorem Counted.of_set {c : PrefixCacheBlock ι π} {δ : Int} (hwf : WellFormed s)
    (hsteps : Steps s s') (hc : s.blocks.get? b.stableBlockId = some c)
    (hs' : s'.blocks = s.blocks.set b.stableBlockId { c with refCount := c.refCount + δ }) :
    Counted (Pi.single b.stableBlockId δ) s s' where
  wf := hsteps.wf hwf
  fresh := fun _ => hsteps.fresh
  get := fun id => by
    rw [hs', Dict.get?_set]
    split
    · next hid => subst hid; simp [hc]
    · next hid => cases s.blocks.get? id <;> simp [hid]

/-- How often a list of blocks names `id`. -/
def refsOf (bs : List (PrefixCacheBlock ι π)) (id : ι) : Int :=
  ((bs.map (·.stableBlockId)).count id : Nat)

theorem refsOf_cons (b : PrefixCacheBlock ι π) (bs : List (PrefixCacheBlock ι π)) (id : ι) :
    refsOf (b :: bs) id = Pi.single (M := fun _ => Int) b.stableBlockId 1 id + refsOf bs id := by
  simp only [refsOf, List.map_cons, List.count_cons, Pi.single_apply]
  by_cases h : id = b.stableBlockId
  · simp [h, add_comm]
  · simp [h, Ne.symm h]

theorem refsOf_nonneg (bs : List (PrefixCacheBlock ι π)) (id : ι) : 0 ≤ refsOf bs id :=
  Int.natCast_nonneg _

theorem refsOf_pos {bs : List (PrefixCacheBlock ι π)} (h : b ∈ bs) :
    0 < refsOf bs b.stableBlockId := by
  have : 0 < (bs.map (·.stableBlockId)).count b.stableBlockId :=
    List.count_pos_iff.mpr (List.mem_map_of_mem h)
  simp only [refsOf]
  omega

/-- The last `blockCount` blocks on the way from the root to `lastBlockId`. -/
structure ChainOf (s : RadixPrefixIndex ι π) (lastBlockId : ι) (blockCount : Nat)
    (chain : List (PrefixCacheBlock ι π)) : Prop where
  path : ∃ l, RootPath (parentMap s.blocks) lastBlockId l ∧
    chain.map (·.stableBlockId) = l.drop (l.length - blockCount) ∧ blockCount ≤ l.length
  get : ∀ b ∈ chain, s.blocks.get? b.stableBlockId = some b

variable {chain : List (PrefixCacheBlock ι π)}

theorem ChainOf.isIndexed {n : Nat} (h : ChainOf s id n chain) :
    ∀ b ∈ chain, s.isIndexed b = true := fun b hb =>
  isIndexed_iff.mpr ⟨b, h.get b hb, rfl⟩

theorem mapM_blocks {ids : List ι} {e : PyError} (hwf : WellFormed s)
    (h : (ids.mapM fun id => match s.blocks.get? id with
      | none => (.error e : Except PyError _)
      | some block => .ok block) = .ok chain) :
    chain.map (·.stableBlockId) = ids ∧ ∀ b ∈ chain, s.blocks.get? b.stableBlockId = some b := by
  have hall := forall₂_of_mapM h
  clear h
  induction hall with
  | nil => simp
  | @cons id b ids chain hb _ ih =>
    have hget : s.blocks.get? id = some b := by
      split at hb
      · cases hb
      · next c hc => cases hb; exact hc
    have hid := hwf.ids id b hget
    refine ⟨by rw [List.map_cons, ih.1, hid], fun c hc => ?_⟩
    rcases List.mem_cons.mp hc with rfl | hc
    · rw [hid]; exact hget
    · exact ih.2 c hc

theorem getChain_spec (hwf : WellFormed s) {lastBlockId : ι} {blockCount : Nat}
    (h : s.getChain lastBlockId blockCount = .ok chain) :
    ChainOf s lastBlockId blockCount chain := by
  unfold getChain at h
  split at h
  · cases h
  · cases hpath : s.backend.pathToBlock lastBlockId with
    | error e => simp only [hpath, bind, Except.bind] at h; cases h
    | ok path =>
      simp only [hpath, bind, Except.bind] at h
      split at h
      · cases h
      · next hlen =>
        have hmem : lastBlockId ∈ s.blocks.keySet := by
          by_contra hno
          have := hwf.tree.loc_none hno
          simp only [RadixTreeBackend.pathToBlock, this] at hpath
          cases hpath
        obtain ⟨l, hl⟩ := hwf.forest.exists_rootPath lastBlockId hmem
        have heq := hwf.tree.pathToBlock_spec hwf.forest hl
        rw [hpath] at heq
        cases heq
        obtain ⟨hmap, hget⟩ := mapM_blocks hwf h
        rw [Int.toNat_natCast] at hmap
        exact ⟨⟨path, hl, hmap, by omega⟩, hget⟩

theorem acquireBlockRef_counted (hwf : WellFormed s) (hnn : RefsNonneg s)
    (hi : s.isIndexed b = true) :
    wp (acquireBlockRef b) (fun _ s' => Counted (Pi.single b.stableBlockId 1) s s')
      (fun _ _ => False) s := by
  obtain ⟨c, hc, ho⟩ := isIndexed_iff.mp hi
  refine wp_mono (acquireBlockRef_spec hwf b) (fun _ s' hs => ?_) (fun _ s' hs => ?_)
  · obtain ⟨hsteps, c', hc', -, -, hblocks⟩ := hs
    exact .of_set hwf hsteps hc' hblocks
  · rcases hs.2 with hno | hneg
    · rw [hi] at hno
      cases hno
    · rw [deref_of_indexed hc ho] at hneg
      have := hnn _ c hc
      omega

theorem releaseBlockRef_counted (hwf : WellFormed s) (hi : s.isIndexed b = true)
    (hpos : ∀ c, s.blocks.get? b.stableBlockId = some c → 1 ≤ c.refCount) (message : String) :
    wp (releaseBlockRef b message) (fun _ s' => Counted (Pi.single b.stableBlockId (-1)) s s')
      (fun _ _ => False) s := by
  obtain ⟨c, hc, ho⟩ := isIndexed_iff.mp hi
  refine wp_mono (releaseBlockRef_spec hwf b message) (fun _ s' hs => ?_) (fun _ s' hs => ?_)
  · obtain ⟨hsteps, c', hc', -, -, hblocks⟩ := hs
    exact .of_set hwf hsteps hc' hblocks
  · rcases hs.2 with hno | hneg
    · rw [hi] at hno
      cases hno
    · rw [deref_of_indexed hc ho] at hneg
      have := hpos c hc
      omega

theorem acquireRefs_counted (hwf : WellFormed s) (hnn : RefsNonneg s) :
    ∀ bs : List (PrefixCacheBlock ι π), (∀ b ∈ bs, s.isIndexed b = true) →
      wp (forEach acquireBlockRef bs) (fun _ s' => Counted (refsOf bs) s s') (fun _ _ => False) s := by
  intro bs
  induction bs generalizing s with
  | nil => exact fun _ => (Counted.refl hwf).congr fun _ => rfl
  | cons b bs ih =>
    intro hi
    simp only [forEach, wp_bind]
    refine wp_mono (acquireBlockRef_counted hwf hnn (hi b List.mem_cons_self)) (fun _ s₁ h₁ => ?_)
      (fun _ _ he => he)
    have hnn₁ : RefsNonneg s₁ := fun id n hn => by
      obtain ⟨o, ho, rfl⟩ := h₁.back hn
      have := hnn id o ho
      simp only [Pi.single_apply]
      split <;> omega
    refine wp_mono (ih h₁.wf hnn₁ fun c hc => ?_) (fun _ s₂ h₂ => ?_) (fun _ _ he => he)
    · rw [h₁.isIndexed]
      exact hi c (List.mem_cons_of_mem b hc)
    · exact (h₁.trans h₂).congr fun id => (refsOf_cons b bs id).symm

theorem releaseRefs_counted (hwf : WellFormed s) (message : String) :
    ∀ bs : List (PrefixCacheBlock ι π), (∀ b ∈ bs, s.isIndexed b = true) →
      (∀ id c, s.blocks.get? id = some c → refsOf bs id ≤ c.refCount) →
      wp (forEach (fun b => releaseBlockRef b message) bs)
        (fun _ s' => Counted (fun id => -refsOf bs id) s s') (fun _ _ => False) s := by
  intro bs
  induction bs generalizing s with
  | nil => exact fun _ _ => (Counted.refl hwf).congr fun _ => rfl
  | cons b bs ih =>
    intro hi hle
    simp only [forEach, wp_bind]
    refine wp_mono (releaseBlockRef_counted hwf (hi b List.mem_cons_self) (fun c hc => ?_) _)
      (fun _ s₁ h₁ => ?_) (fun _ _ he => he)
    · have := hle _ c hc
      have := refsOf_pos (show b ∈ b :: bs from List.mem_cons_self)
      omega
    refine wp_mono (ih h₁.wf (fun c hc => ?_) fun id n hn => ?_) (fun _ s₂ h₂ => ?_)
      (fun _ _ he => he)
    · rw [h₁.isIndexed]
      exact hi c (List.mem_cons_of_mem b hc)
    · obtain ⟨o, ho, rfl⟩ := h₁.back hn
      have := hle id o ho
      rw [refsOf_cons] at this
      simp only [Pi.single_apply] at this ⊢
      split <;> split at this <;> omega
    · refine (h₁.trans h₂).congr fun id => ?_
      rw [refsOf_cons]
      simp only [Pi.single_apply]
      split <;> omega

end SparseEngine.RadixPrefixIndex
