import SparseEngine.Mixed.Accounts

/-! A block's place in the index and its snapshot bytes are reserved when the block is recorded and
turned into an indexed block when the step commits. -/

namespace SparseEngine.PrefixCacheCoordinator

open PyM RadixPrefixIndex

variable {ι κ μ : Type} [LinearOrder ι]

def indexedBytes (c : PrefixCacheCoordinator ι κ μ) : Nat :=
  c.prefixCache.blocks.sumBy fun _ b => b.payload.recurrentBytes

def pendingBytes (c : PrefixCacheCoordinator ι κ μ) : Nat :=
  c.pendingBlocks.sumBy fun _ ps => (ps.map fun p => p.payload.recurrentBytes).sum

/-- How many pending blocks have the id `id`. -/
def pendingCount (c : PrefixCacheCoordinator ι κ μ) (id : ι) : Nat :=
  c.pendingBlocks.sumBy fun _ ps => (ps.map (·.stableBlockId)).count id

def pendingSnapshot (p : PendingMixedPrefixBlock ι κ) : Nat := p.payload.recurrentPayload.objectId

/-- How many indexed and pending blocks own the snapshot `x`. -/
def owners (c : PrefixCacheCoordinator ι κ μ) (x : Nat) : Nat :=
  c.prefixCache.blocks.sumBy (fun _ b => if snapshot b = x then 1 else 0) +
    c.pendingBlocks.sumBy fun _ ps => (ps.map pendingSnapshot).count x

/-- What the local variables of a running operation own. -/
structure InHand (ι : Type) where
  snapshots : List Nat := []
  reservations : List (ι × Nat) := []
  removed : List Nat := []

/-- The accounts of a coordinator while the operation that runs owns `hand`. -/
structure Accounts (cfg : CoordinatorConfig ι κ μ) (hand : InHand ι)
    (c : PrefixCacheCoordinator ι κ μ) : Prop where
  wf : WellFormed c.prefixCache
  blockLimit : ∀ m, cfg.index.maxBlocks = some m →
    c.prefixCache.blocks.size + c.pendingBlockIds.card ≤ m
  byteLimit : (indexedBytes c : Int) + c.pendingRecurrentBytes ≤ cfg.maxRecurrentBytes
  ids : ∀ id, pendingCount c id + (hand.reservations.map Prod.fst).count id =
    if id ∈ c.pendingBlockIds then 1 else 0
  bytes : c.pendingRecurrentBytes = (pendingBytes c + (hand.reservations.map Prod.snd).sum : Nat)
  apart : ∀ id ∈ c.pendingBlockIds, c.prefixCache.blocks.get? id = none
  cache : ∀ cached, c.recurrentBytesCache = some cached →
    cached.insertEpoch ≤ c.prefixCache.epochs.insert ∧
    cached.removeEpoch + hand.removed.length ≤ c.prefixCache.epochs.remove ∧
    (cached.insertEpoch = c.prefixCache.epochs.insert →
      cached.removeEpoch + hand.removed.length = c.prefixCache.epochs.remove →
      cached.total = (indexedBytes c + hand.removed.sum : Nat))
  single : ∀ x, owners c x + hand.snapshots.count x ≤ 1
  known : ∀ x, 0 < owners c x + hand.snapshots.count x → x < c.nextSnapshotId
  built : ∀ x ∈ c.liveSnapshots, x < c.nextSnapshotId
  exact : c.releaseRaised = false → ∀ x, owners c x + hand.snapshots.count x =
    if x ∈ c.liveSnapshots then 1 else 0

abbrev Balanced (cfg : CoordinatorConfig ι κ μ) (c : PrefixCacheCoordinator ι κ μ) : Prop :=
  Accounts cfg {} c

section

variable {cfg : CoordinatorConfig ι κ μ} {hand : InHand ι} {c c' : PrefixCacheCoordinator ι κ μ}

theorem sumBy_accounts {s s' : RadixPrefixIndex ι (MixedPrefixBlockPayload κ)}
    (h : ∀ id, (s'.blocks.get? id).map account = (s.blocks.get? id).map account)
    {f : MixedBlock ι κ → Nat} {g : Nat × Nat → Nat} (hf : ∀ b, f b = g (account b)) :
    s'.blocks.sumBy (fun _ b => f b) = s.blocks.sumBy fun _ b => f b := by
  refine Dict.sumBy_congr_at fun id => ?_
  have key : ∀ o : Option (MixedBlock ι κ), o.elim 0 f = (o.map account).elim 0 g := by
    intro o
    cases o with
    | none => rfl
    | some b => exact hf b
  unfold Dict.weightAt
  rw [key, key, h id]

theorem size_accounts {s s' : RadixPrefixIndex ι (MixedPrefixBlockPayload κ)}
    (h : ∀ id, (s'.blocks.get? id).map account = (s.blocks.get? id).map account) :
    s'.blocks.size = s.blocks.size := by
  rw [← Dict.card_keySet, ← Dict.card_keySet]
  congr 1
  ext id
  have hid := congrArg Option.isSome (h id)
  simp only [Option.isSome_map] at hid
  simp only [Dict.mem_keySet, ← Option.isSome_iff_exists, hid]

variable {gone : Finset Nat}

theorem Released.indexedBytes (h : Released gone c c') : indexedBytes c' = indexedBytes c :=
  sumBy_accounts h.index.accounts (g := Prod.fst) fun _ => rfl

theorem Released.size (h : Released gone c c') :
    c'.prefixCache.blocks.size = c.prefixCache.blocks.size := size_accounts h.index.accounts

theorem Released.owners (h : Released gone c c') (x : Nat) : owners c' x = owners c x := by
  have hblocks := sumBy_accounts h.index.accounts (f := fun b => if snapshot b = x then 1 else 0)
    (g := fun a => if a.2 = x then 1 else 0) fun _ => rfl
  unfold PrefixCacheCoordinator.owners
  rw [h.pendingBlocks, hblocks]

theorem Released.pendingCount (h : Released gone c c') (id : ι) :
    pendingCount c' id = pendingCount c id := by
  unfold PrefixCacheCoordinator.pendingCount
  rw [h.pendingBlocks]

theorem Released.pendingBytes (h : Released gone c c') : pendingBytes c' = pendingBytes c := by
  unfold PrefixCacheCoordinator.pendingBytes
  rw [h.pendingBlocks]

theorem Released.get_none (h : Released gone c c') {id : ι}
    (hid : c.prefixCache.blocks.get? id = none) : c'.prefixCache.blocks.get? id = none := by
  have hmap := h.index.accounts id
  rw [hid, Option.map_none] at hmap
  cases hc : c'.prefixCache.blocks.get? id with
  | none => rfl
  | some b => rw [hc] at hmap; cases hmap

variable (hand) in
theorem Accounts.released {gone kept : List Nat}
    (ha : Accounts cfg { hand with snapshots := gone ++ kept } c)
    (h : Released gone.toFinset c c') : Accounts cfg { hand with snapshots := kept } c' where
  wf := h.index.wf
  blockLimit := fun m hm => by rw [h.size, h.pendingBlockIds]; exact ha.blockLimit m hm
  byteLimit := by rw [h.indexedBytes, h.pendingRecurrentBytes]; exact ha.byteLimit
  ids := fun id => by rw [h.pendingCount, h.pendingBlockIds]; exact ha.ids id
  bytes := by rw [h.pendingBytes, h.pendingRecurrentBytes]; exact ha.bytes
  apart := fun id hid => h.get_none (ha.apart id (h.pendingBlockIds ▸ hid))
  cache := fun cached hc => by
    rw [h.recurrentBytesCache] at hc
    rw [h.index.membership.1, h.index.membership.2, h.indexedBytes]
    exact ha.cache cached hc
  single := fun x => by
    have hx := ha.single x
    rw [List.count_append] at hx
    rw [h.owners]
    show owners c x + kept.count x ≤ 1
    omega
  known := fun x hx => by
    rw [h.owners] at hx
    rw [h.nextSnapshotId]
    refine ha.known x ?_
    rw [List.count_append]
    have : 0 < owners c x + kept.count x := hx
    omega
  built := fun x hx => by
    rw [h.liveSnapshots] at hx
    rw [h.nextSnapshotId]
    exact ha.built x (Finset.mem_sdiff.mp hx).1
  exact := fun hr x => by
    have hr' : c.releaseRaised = false := by
      cases hc : c.releaseRaised with
      | false => rfl
      | true => rw [h.raised hc] at hr; cases hr
    have hx := ha.exact hr' x
    have hone := ha.single x
    rw [List.count_append] at hx hone
    rw [h.owners, h.liveSnapshots]
    show owners c x + kept.count x = _
    by_cases hg : x ∈ gone
    · have hpos : 0 < gone.count x := List.count_pos_iff.mpr hg
      simp only [Finset.mem_sdiff, List.mem_toFinset, hg, not_true_eq_false, and_false, if_false]
      omega
    · have hzero : gone.count x = 0 := List.count_eq_zero.mpr hg
      simp only [Finset.mem_sdiff, List.mem_toFinset, hg, not_false_eq_true, and_true]
      omega

theorem Accounts.undisturbed (ha : Accounts cfg hand c) (h : Undisturbed c c') :
    Accounts cfg hand c' := by
  have hnone : Accounts cfg { hand with snapshots := [] ++ hand.snapshots } c := ha
  exact hnone.released hand h

theorem Accounts.quiet {α : Type} {m : CoordM ι κ μ α} (hm : Along Quiet m)
    (ha : Accounts cfg hand c) : Accounts cfg hand (m c).2 := ha.undisturbed (hm c ha.wf)

variable (hand) in
theorem Accounts.abandon {gone kept : List Nat}
    (ha : Accounts cfg { hand with snapshots := gone ++ kept } c) (hr : c.releaseRaised = true) :
    Accounts cfg { hand with snapshots := kept } c where
  __ := ha
  single := fun x => by
    have hx := ha.single x
    rw [List.count_append] at hx
    show owners c x + kept.count x ≤ 1
    omega
  known := fun x hx => by
    refine ha.known x ?_
    rw [List.count_append]
    have : 0 < owners c x + kept.count x := hx
    omega
  exact := fun hf => by rw [hr] at hf; cases hf

theorem Accounts.forget (ha : Accounts cfg hand c) :
    Accounts cfg { hand with removed := [] } c :=
  { ha with
    cache := fun cached hc => by
      obtain ⟨hi, hr, htotal⟩ := ha.cache cached hc
      refine ⟨hi, ?_, fun hie hre => ?_⟩
      · show cached.removeEpoch + 0 ≤ _
        omega
      · have hzero : hand.removed.length = 0 := by
          have : cached.removeEpoch + 0 = c.prefixCache.epochs.remove := hre
          omega
        rw [List.length_eq_zero_iff] at hzero
        have ht := htotal hie (by rw [hzero]; exact hre)
        rw [hzero] at ht
        exact ht }

end

section

variable {cfg : CoordinatorConfig ι κ μ} {hand : InHand ι} {c c' : PrefixCacheCoordinator ι κ μ}

def bytesOf (bs : List (MixedBlock ι κ)) : List Nat := bs.map fun b => b.payload.recurrentBytes

omit [LinearOrder ι] in
theorem sum_bytesOf : ∀ bs : List (MixedBlock ι κ),
    (bs.map fun b => (b.payload.recurrentBytes : Int)).sum = ((bytesOf bs).sum : Nat)
  | [] => rfl
  | b :: bs => by
    have ih := sum_bytesOf bs
    simp only [bytesOf, List.map_cons, List.sum_cons, Nat.cast_add] at ih ⊢
    rw [ih]

variable {s s' : RadixPrefixIndex ι (MixedPrefixBlockPayload κ)} {bs : List (MixedBlock ι κ)}

theorem Removals.sumBy (h : Removals s s' bs) (f : MixedBlock ι κ → Nat) :
    s'.blocks.sumBy (fun _ b => f b) + (bs.map f).sum = s.blocks.sumBy fun _ b => f b := by
  induction h with
  | nil => simp
  | @snoc s₁ s₂ bs b _ hrem _ hblocks ih =>
    have he := Dict.sumBy_erase (fun (_ : ι) (b : MixedBlock ι κ) => f b) hrem.1
    rw [hblocks, List.map_append, List.sum_append, ← ih, ← he]
    simp only [List.map_cons, List.map_nil, List.sum_cons, List.sum_nil]
    omega

omit [LinearOrder ι] in
theorem sumBy_one (d : Dict ι (MixedBlock ι κ)) : d.sumBy (fun _ _ => 1) = d.size := by
  simp [Dict.sumBy, Dict.size]

theorem Removals.size (h : Removals s s' bs) : s'.blocks.size + bs.length = s.blocks.size := by
  have hsum := Removals.sumBy h fun _ => 1
  rw [sumBy_one, sumBy_one] at hsum
  simpa using hsum

theorem Removals.get_none (h : Removals s s' bs) {id : ι} (hid : s.blocks.get? id = none) :
    s'.blocks.get? id = none := by
  induction h with
  | nil => exact hid
  | snoc _ _ _ hblocks ih =>
    rw [hblocks, Dict.get?_erase]
    split
    · rfl
    · exact ih

theorem Removals.not_mem (h : Removals s s' bs) :
    ∀ b ∈ bs, s'.blocks.get? b.stableBlockId = none := by
  induction h with
  | nil => simp
  | @snoc s₁ s₂ bs b _ _ _ hblocks ih =>
    intro x hx
    rw [hblocks, Dict.get?_erase]
    split
    · rfl
    · next hne =>
      rcases List.mem_append.mp hx with hx | hx
      · exact ih x hx
      · exact absurd (by rw [List.mem_singleton.mp hx]) hne

variable (hand) in
theorem Accounts.removals (ha : Accounts cfg { hand with removed := [] } c)
    (h : Removals c.prefixCache s' bs) (hwf : WellFormed s') :
    Accounts cfg
      { hand with snapshots := bs.map snapshot ++ hand.snapshots, removed := bytesOf bs }
      { c with prefixCache := s' } := by
  have hsize := Removals.size h
  have hbytes : s'.blocks.sumBy (fun _ b => b.payload.recurrentBytes) + (bytesOf bs).sum =
      indexedBytes c := Removals.sumBy h _
  have howners : ∀ x, owners { c with prefixCache := s' } x + (bs.map snapshot).count x =
      owners c x := by
    intro x
    have hsum := Removals.sumBy h fun b => if snapshot b = x then 1 else 0
    have hcount : (bs.map snapshot).count x = (bs.map fun b => if snapshot b = x then 1 else 0).sum := by
      clear hsum h hwf hsize hbytes ha
      induction bs with
      | nil => rfl
      | cons b bs ih =>
        rw [List.map_cons, List.map_cons, List.sum_cons, List.count_cons, ih]
        simp only [beq_iff_eq]
        omega
    unfold owners
    dsimp only
    rw [hcount, ← hsum]
    omega
  have hall : ∀ x, owners { c with prefixCache := s' } x +
      (bs.map snapshot ++ hand.snapshots).count x = owners c x + hand.snapshots.count x := by
    intro x
    rw [List.count_append, ← howners x]
    omega
  exact
    { wf := hwf
      blockLimit := fun m hm => by
        have := ha.blockLimit m hm
        show s'.blocks.size + c.pendingBlockIds.card ≤ m
        omega
      byteLimit := by
        have := ha.byteLimit
        show ((s'.blocks.sumBy fun _ b => b.payload.recurrentBytes : Nat) : Int) +
          c.pendingRecurrentBytes ≤ cfg.maxRecurrentBytes
        omega
      ids := ha.ids
      bytes := ha.bytes
      apart := fun id hid => Removals.get_none h (ha.apart id hid)
      cache := fun cached hc => by
        obtain ⟨hi, hr, htotal⟩ := ha.cache cached hc
        obtain ⟨hie, hre⟩ := h.epochs
        have hlen : (bytesOf bs).length = bs.length := by simp [bytesOf]
        have hr' : cached.removeEpoch + 0 ≤ c.prefixCache.epochs.remove := hr
        show cached.insertEpoch ≤ s'.epochs.insert ∧
          cached.removeEpoch + (bytesOf bs).length ≤ s'.epochs.remove ∧ _
        rw [hie, hre, hlen]
        refine ⟨hi, by omega, fun hie' hre' => ?_⟩
        have ht := htotal hie' (by show cached.removeEpoch + 0 = _; omega)
        rw [ht, ← hbytes]
        rfl
      single := fun x => by rw [hall]; exact ha.single x
      known := fun x hx => ha.known x (by rw [hall] at hx; exact hx)
      built := ha.built
      exact := fun hr x => by rw [hall]; exact ha.exact hr x }

/-- The state after `patchRecurrentBytes`. -/
def patched (bs : List (MixedBlock ι κ)) (c : PrefixCacheCoordinator ι κ μ) :
    PrefixCacheCoordinator ι κ μ := (patchRecurrentBytes bs c).2

variable (hand) in
theorem Accounts.patched (ha : Accounts cfg { hand with removed := bytesOf bs } c) :
    Accounts cfg { hand with removed := [] } (patched bs c) := by
  have hlen : (bytesOf bs).length = bs.length := by simp [bytesOf]
  have hsum := sum_bytesOf bs
  unfold PrefixCacheCoordinator.patched patchRecurrentBytes
  simp only [modify_run]
  split
  · exact ha.forget
  · next cached hc =>
    split
    · next hmatch =>
      obtain ⟨-, -, htotal⟩ := ha.cache cached hc
      refine { ha with cache := ?_ }
      intro cached' hc'
      cases hc'
      refine ⟨le_rfl, le_rfl, fun _ _ => ?_⟩
      have ht := htotal hmatch.1 (by
        show cached.removeEpoch + (bytesOf bs).length = _
        rw [hlen]
        exact hmatch.2)
      show cached.total - _ = ((indexedBytes c + 0 : Nat) : Int)
      rw [hsum, ht]
      show ((indexedBytes c + (bytesOf bs).sum : Nat) : Int) - _ = _
      push_cast
      ring
    · exact ha.forget

/-- A block of `bs` that is still indexed is indexed with its own snapshot. -/
def OwnSnapshots (bs : List (MixedBlock ι κ)) (c : PrefixCacheCoordinator ι κ μ) : Prop :=
  ∀ b ∈ bs, ∀ d, c.prefixCache.blocks.get? b.stableBlockId = some d → snapshot d = snapshot b

theorem OwnSnapshots.released {gone : Finset Nat} (h : OwnSnapshots bs c)
    (hr : Released gone c c') : OwnSnapshots bs c' := by
  intro b hb d hd
  have hacc := hr.index.accounts b.stableBlockId
  rw [hd, Option.map_some] at hacc
  cases ho : c.prefixCache.blocks.get? b.stableBlockId with
  | none => rw [ho] at hacc; cases hacc
  | some o =>
    rw [ho, Option.map_some] at hacc
    have hsnap : snapshot d = snapshot o := congrArg Prod.snd (Option.some.inj hacc)
    rw [hsnap]
    exact h b hb o ho

variable {b : MixedBlock ι κ}

theorem OwnSnapshots.deref (h : OwnSnapshots bs c) (hb : b ∈ bs) :
    snapshot (c.prefixCache.deref b) = snapshot b := by
  unfold RadixPrefixIndex.deref
  split
  · rfl
  · next d hd =>
    split
    · exact h b hb d hd
    · rfl

theorem patched_undisturbed (bs : List (MixedBlock ι κ)) (hwf : WellFormed c.prefixCache)
    (d : Dict ι (MixedBlock ι κ)) :
    Undisturbed (patched bs c) (patched bs { c with writeThroughCandidates := d }) := by
  unfold patched patchRecurrentBytes
  simp only [modify_run]
  split
  · exact ⟨.refl hwf, rfl, rfl, rfl, rfl, rfl, by simp, fun h => h⟩
  · split <;> exact ⟨.refl hwf, rfl, rfl, rfl, rfl, rfl, by simp, fun h => h⟩

omit [LinearOrder ι] in
theorem patched_prefixCache (bs : List (MixedBlock ι κ)) (c : PrefixCacheCoordinator ι κ μ) :
    (patched bs c).prefixCache = c.prefixCache := by
  unfold patched patchRecurrentBytes
  simp only [modify_run]
  split
  · rfl
  · split <;> rfl

theorem freePrefixRecurrentPayload_released (payload : RecurrentPrefixPayload)
    (hwf : WellFormed c.prefixCache) :
    Released {payload.objectId} c (freePrefixRecurrentPayload payload c).2 :=
  ⟨.refl hwf, rfl, rfl, rfl, rfl, rfl, by
    show c.liveSnapshots.erase _ = _
    rw [Finset.erase_eq], fun h => h⟩

def FreedSoFar (bs : List (MixedBlock ι κ)) (c : PrefixCacheCoordinator ι κ μ)
    (rest : List (MixedBlock ι κ)) (c' : PrefixCacheCoordinator ι κ μ) : Prop :=
  ∃ done, bs = done ++ rest ∧ Released (done.map snapshot).toFinset c c'

theorem freeOne_spec {rest : List (MixedBlock ι κ)} {m : CoordM ι κ μ Unit} (hm : Along Quiet m)
    (hfree : FreedSoFar bs c (b :: rest) c') {payload : RecurrentPrefixPayload}
    (hp : payload.objectId = snapshot b) :
    wp (do
        releasing m
        freePrefixRecurrentPayload payload)
      (fun _ c'' => FreedSoFar bs c rest c'')
      (fun _ c'' => c''.releaseRaised = true ∧ ∃ rest, FreedSoFar bs c rest c'') c' := by
  obtain ⟨done, hbs, hrel⟩ := hfree
  rw [wp_bind]
  refine wp_mono (releasing_spec hm hrel.index.wf) (fun _ c₁ h₁ => ?_) (fun _ c₁ h₁ => ?_)
  · refine ⟨done ++ [b], by simp [hbs], ?_⟩
    have hall := (hrel.trans h₁).trans (freePrefixRecurrentPayload_released payload h₁.index.wf)
    rw [hp] at hall
    have hset : (((done ++ [b]).map snapshot).toFinset : Finset Nat) =
        (done.map snapshot).toFinset ∪ ∅ ∪ {snapshot b} := by simp
    rw [hset]
    exact hall
  · refine ⟨h₁.2, b :: rest, done, hbs, ?_⟩
    simpa using hrel.trans h₁.1

theorem FreedSoFar.pure_turn {rest : List (MixedBlock ι κ)} (hfree : FreedSoFar bs c (b :: rest) c')
    {payload : RecurrentPrefixPayload} (hp : payload.objectId = snapshot b) :
    FreedSoFar bs c rest (freePrefixRecurrentPayload payload c').2 := by
  obtain ⟨done, hbs, hrel⟩ := hfree
  refine ⟨done ++ [b], by simp [hbs], ?_⟩
  have hall := hrel.trans (freePrefixRecurrentPayload_released payload hrel.index.wf)
  rw [hp] at hall
  simpa using hall

theorem freeBlocks_spec (bs : List (MixedBlock ι κ)) (hwf : WellFormed c.prefixCache)
    (hown : OwnSnapshots bs c) :
    wp (freeBlocks cfg bs)
      (fun _ c' => Released (bs.map snapshot).toFinset (patched bs c) c')
      (fun _ c' => c'.releaseRaised = true ∧ ∃ rest, FreedSoFar bs (patched bs c) rest c') c := by
  simp only [freeBlocks, wp_bind, wp_modify]
  have hpatch : ∀ c₁ : PrefixCacheCoordinator ι κ μ, wp (patchRecurrentBytes bs) (fun _ c' => c' = patched bs c₁)
      (fun _ _ => False) c₁ := fun _ => rfl
  refine wp_mono (hpatch _) (fun _ c₂ h₂ => ?_) (fun _ _ h => h.elim)
  have hstart : Undisturbed (patched bs c) c₂ := h₂ ▸ patched_undisturbed bs hwf _
  have hfree : FreedSoFar bs (patched bs c) bs c₂ := ⟨[], rfl, hstart⟩
  have hown₀ : OwnSnapshots bs (patched bs c) := by
    intro b hb d hd
    rw [patched_prefixCache] at hd
    exact hown b hb d hd
  have hdone : ∀ c', FreedSoFar bs (patched bs c) [] c' →
      Released (bs.map snapshot).toFinset (patched bs c) c' := by
    rintro c' ⟨done, hbs, hrel⟩
    rw [List.append_nil] at hbs
    exact hbs.symm ▸ hrel
  rw [wp_ite]
  split
  · rw [wp_bind]
    refine wp_mono (forEach_inv
      (I := fun rest c' => FreedSoFar bs (patched bs c) rest c') ?_ bs c₂ hfree)
      (fun _ c₃ h₃ => ?_) (fun _ _ h => h)
    · intro b rest c' hI
      have hmem : b ∈ bs := by
        obtain ⟨done, hbs, -⟩ := hI
        rw [hbs]
        simp
      have hsnap : snapshot (c'.prefixCache.deref b) = snapshot b := by
        obtain ⟨done, -, hrel⟩ := hI
        exact (hown₀.released hrel).deref hmem
      rw [wp_bind, wp_get]
      split
      · exact freeOne_spec (tolerates_quiet.freeDeviceBlock b) hI hsnap
      · exact hI.pure_turn hsnap
    · have hrel := hdone c₃ h₃
      rw [wp_bind, wp_get]
      split
      · exact hrel
      · refine wp_mono (releasing_spec (tolerates_quiet.freeHostPayloads _) hrel.index.wf)
          (fun _ c₄ h₄ => ?_) (fun _ c₄ h₄ => ⟨h₄.2, [], bs, by simp, ?_⟩)
        · simpa using hrel.trans h₄
        · simpa using hrel.trans h₄.1
  · refine wp_mono (forEach_inv
      (I := fun rest c' => FreedSoFar bs (patched bs c) rest c') ?_ bs c₂ hfree)
      (fun _ c₃ h₃ => hdone c₃ h₃) (fun _ _ h => h)
    intro b rest c' hI
    exact freeOne_spec (quiet_onManagers _) hI rfl

variable (hand) in
theorem Accounts.freeBlocks (ha : Accounts cfg
      { hand with snapshots := bs.map snapshot ++ hand.snapshots, removed := bytesOf bs } c)
    (hown : OwnSnapshots bs c) :
    wp (freeBlocks cfg bs)
      (fun _ c' => Accounts cfg { hand with removed := [] } c' ∧
        Released (bs.map snapshot).toFinset (PrefixCacheCoordinator.patched bs c) c')
      (fun _ c' => Accounts cfg { hand with removed := [] } c' ∧
        ∃ gone, Released gone (PrefixCacheCoordinator.patched bs c) c') c := by
  have hp := ha.patched { hand with snapshots := bs.map snapshot ++ hand.snapshots }
  refine wp_mono (freeBlocks_spec bs ha.wf hown) (fun _ c' h => ?_) (fun _ c' h => ?_)
  · exact ⟨hp.released { hand with removed := [] } h, h⟩
  · obtain ⟨hr, rest, done, rfl, hrel⟩ := h
    refine ⟨?_, _, hrel⟩
    have hsplit : Accounts cfg
        { hand with
          snapshots := done.map snapshot ++ (rest.map snapshot ++ hand.snapshots)
          removed := [] } (PrefixCacheCoordinator.patched (done ++ rest) c) := by
      simpa using hp
    have hrest := hsplit.released { hand with removed := [] } hrel
    exact hrest.abandon { hand with removed := [] } hr

end

end SparseEngine.PrefixCacheCoordinator
