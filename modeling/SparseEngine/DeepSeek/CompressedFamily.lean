import SparseEngine.DeepSeek.PageAllocator

/-! `CompressedKVFamily`: the storage of one compression ratio. A lease owns a reference on each
page it lists. -/

namespace SparseEngine

open PyM PhysicalPageAllocator List Function Dict

structure CompressedFamilyLease where
  pages : List Nat := []
  materializedTokens : Nat := 0
  released : Bool := false
deriving DecidableEq, Repr

structure FamilyConfig where
  pageSize : Nat
  pools : Nat
  pageSize_pos : 0 < pageSize

/-- `CompressedKVFamily`. -/
structure CompressedKVFamily (β : Type) where
  allocator : PhysicalPageAllocator
  leases : Dict Nat CompressedFamilyLease := .empty
  nextLease : Nat := 0
  byteStorage : Nat → Nat → Nat → β

namespace CompressedKVFamily

variable {β : Type}

abbrev FamilyM (β : Type) := PyM (CompressedKVFamily β)

def create (numPages reservedPages : Nat) (storage : Nat → Nat → Nat → β) : CompressedKVFamily β where
  allocator := PhysicalPageAllocator.create numPages reservedPages
  byteStorage := storage

def onAllocator {α : Type} (m : AllocM α) : FamilyM β α :=
  zoom (·.allocator) (fun a f => { f with allocator := a }) m

def addLease (l : CompressedFamilyLease) (f : CompressedKVFamily β) : CompressedKVFamily β :=
  { f with leases := f.leases.set f.nextLease l, nextLease := f.nextLease + 1 }

def setLease (lease : Nat) (l : CompressedFamilyLease) (f : CompressedKVFamily β) :
    CompressedKVFamily β :=
  { f with leases := f.leases.set lease l }

def newLease : FamilyM β Nat := do
  let f ← PyM.get
  PyM.modify (addLease {})
  return f.nextLease

/-- `_validate`, and the lease. -/
def validate (lease : Nat) : FamilyM β CompressedFamilyLease := do
  match (← PyM.get).leases.get? lease with
  | none => raise (.valueError "Compressed lease belongs to another physical family")
  | some l => do
    raiseIf (l.released = true) (.valueError "Compressed family lease has already been released")
    return l

/-- `pages[i]`. -/
def pageAt (pages : List Nat) (i : Nat) : FamilyM β Nat :=
  match pages[i]? with
  | none => raise (.indexError "list index out of range")
  | some page => pure page

/-- The pages of `token_capacity` tokens, rounded up. -/
def requiredPages (cfg : FamilyConfig) (tokenCapacity : Nat) : Nat :=
  (tokenCapacity + cfg.pageSize - 1) / cfg.pageSize

def reservationPages (cfg : FamilyConfig) (lease tokenCapacity : Nat) : FamilyM β Nat := do
  let l ← validate lease
  raiseIf (tokenCapacity < l.materializedTokens)
    (.valueError "Cannot reserve below materialized compressed length")
  let additional := requiredPages cfg tokenCapacity - l.pages.length
  if l.materializedTokens % cfg.pageSize ≠ 0 ∧ l.materializedTokens < tokenCapacity then do
    let page ← pageAt l.pages (l.materializedTokens / cfg.pageSize)
    let references ← onAllocator (referenceCount page)
    return additional + (if 1 < references then 1 else 0)
  else
    return additional

/-- `pool.byte_storage[new].copy_(pool.byte_storage[old])`. -/
def copyPool (old new pool : Nat) (f : CompressedKVFamily β) : CompressedKVFamily β :=
  { f with
    byteStorage := update f.byteStorage pool
      (update (f.byteStorage pool) new (f.byteStorage pool old)) }

/-- The copy of a page in every pool. -/
def copyPage (cfg : FamilyConfig) (old new : Nat) (fault : Option Nat) : FamilyM β Unit :=
  forEach (fun pool => do
    raiseIf (fault = some pool) (.runtimeError "copy_")
    PyM.modify (copyPool old new pool)) (List.range cfg.pools)

def reserve (cfg : FamilyConfig) (lease tokenCapacity : Nat) (fault : Option Nat) :
    FamilyM β Unit := do
  let count ← reservationPages cfg lease tokenCapacity
  let allocated ← onAllocator (allocatePages count)
  let l ← validate lease
  let additional := requiredPages cfg tokenCapacity - l.pages.length
  if additional < count then do
    let index := l.materializedTokens / cfg.pageSize
    let old ← pageAt l.pages index
    let new ← pageAt allocated 0
    tryExcept (copyPage cfg old new fault) fun e => do
      onAllocator (releasePages allocated)
      raise e
    let pages := l.pages.set index new
    PyM.modify (setLease lease { l with pages := pages })
    onAllocator (releasePages [old])
    PyM.modify (setLease lease { l with pages := pages ++ allocated.drop 1 })
  else
    PyM.modify (setLease lease { l with pages := l.pages ++ allocated })

def markMaterialized (cfg : FamilyConfig) (lease tokenCount : Nat) : FamilyM β Unit := do
  let l ← validate lease
  raiseIf (¬ (l.materializedTokens ≤ tokenCount ∧ tokenCount ≤ l.pages.length * cfg.pageSize))
    (.valueError "Materialized compressed length exceeds its reservation")
  PyM.modify (setLease lease { l with materializedTokens := tokenCount })

def snapshot (cfg : FamilyConfig) (lease : Nat) : FamilyM β Nat := do
  let l ← validate lease
  let pages := l.pages.take (requiredPages cfg l.materializedTokens)
  onAllocator (retainPages pages)
  let f ← PyM.get
  PyM.modify (addLease { pages := pages, materializedTokens := l.materializedTokens })
  return f.nextLease

def release (lease : Nat) : FamilyM β Unit := do
  let l ← validate lease
  onAllocator (releasePages l.pages)
  PyM.modify (setLease lease { l with pages := [], released := true })

/-- The slots of the positions from `start` to `stop`. -/
def slotsOf (cfg : FamilyConfig) (pages : List Nat) (start stop : Nat) : List Nat :=
  (range' start (stop - start)).map fun i =>
    pages.getD (i / cfg.pageSize) 0 * cfg.pageSize + i % cfg.pageSize

/-- `physical_slots`. -/
def physicalSlots (cfg : FamilyConfig) (lease start stop : Nat) : FamilyM β (List Nat) := do
  let l ← validate lease
  raiseIf (¬ (start ≤ stop ∧ stop ≤ l.pages.length * cfg.pageSize))
    (.valueError "Compressed slot range exceeds physical reservation")
  return slotsOf cfg l.pages start stop

def readSlot (cfg : FamilyConfig) (f : CompressedKVFamily β) (pool slot : Nat) : β :=
  f.byteStorage pool (slot / cfg.pageSize) (slot % cfg.pageSize)

def storeSlot (cfg : FamilyConfig) (pool slot : Nat) (value : β) (f : CompressedKVFamily β) :
    CompressedKVFamily β :=
  { f with
    byteStorage := update f.byteStorage pool
      (update (f.byteStorage pool) (slot / cfg.pageSize)
        (update (f.byteStorage pool (slot / cfg.pageSize)) (slot % cfg.pageSize) value)) }

def writeToken (cfg : FamilyConfig) (lease pool position : Nat) (value : β) : FamilyM β Unit := do
  let slots ← physicalSlots cfg lease position (position + 1)
  forEach (fun slot => PyM.modify (storeSlot cfg pool slot value)) slots

def held (f : CompressedKVFamily β) (page : Nat) : Nat :=
  f.leases.sumBy fun _ l => l.pages.count page

/-- The page at index `i` starts at or after the materialized tokens, or it is the page they fill in
part and more tokens are reserved. -/
def Exclusive (cfg : FamilyConfig) (l : CompressedFamilyLease) (reserved i : Nat) : Prop :=
  l.materializedTokens ≤ i * cfg.pageSize ∨
    l.materializedTokens < reserved ∧ i = l.materializedTokens / cfg.pageSize

/-- A lease that has reserved `reserved` tokens since its last snapshot. -/
structure LeaseInv (cfg : FamilyConfig) (held : Nat → Nat) (reserved : Nat)
    (l : CompressedFamilyLease) : Prop where
  nodup : l.pages.Nodup
  released : l.released = true → l.pages = []
  covered : l.released = false → l.materializedTokens ≤ l.pages.length * cfg.pageSize ∧
    reserved ≤ l.pages.length * cfg.pageSize
  exclusive : ∀ i page, l.pages[i]? = some page → Exclusive cfg l reserved i → held page = 1

/-- Each page counts its holders, and every lease is in order. -/
structure Inv (cfg : FamilyConfig) (reserved : Nat → Nat) (f : CompressedKVFamily β) : Prop where
  pages : f.allocator.Holds (held f)
  fresh : ∀ lease, f.nextLease ≤ lease → f.leases.get? lease = none ∧ reserved lease = 0
  lease : ∀ lease l, f.leases.get? lease = some l → LeaseInv cfg (held f) (reserved lease) l

section

variable {cfg : FamilyConfig} {f f' : CompressedKVFamily β} {reserved : Nat → Nat} {lease : Nat}
  {l l' : CompressedFamilyLease} {page : Nat}

theorem count_le_held (hl : f.leases.get? lease = some l) (page : Nat) :
    l.pages.count page ≤ held f page := by
  have hle := le_sumBy (fun (_ : Nat) (l : CompressedFamilyLease) => l.pages.count page)
    f.leases lease
  rwa [weightAt_of_get hl] at hle

theorem not_mem_of_held_one {lease' : Nat} (hne : lease ≠ lease')
    (hl : f.leases.get? lease = some l) (hl' : f.leases.get? lease' = some l')
    (hpage : page ∈ l'.pages) (hone : held f page = 1) : page ∉ l.pages := by
  intro hmem
  have hle := add_weightAt_le_sumBy
    (fun (_ : Nat) (l : CompressedFamilyLease) => l.pages.count page) f.leases hne
  rw [weightAt_of_get hl, weightAt_of_get hl'] at hle
  have hpos := count_pos_iff.mpr hmem
  have hpos' := count_pos_iff.mpr hpage
  unfold held at hone
  omega

theorem held_ne_zero (hl : f.leases.get? lease = some l) (hpage : page ∈ l.pages) :
    held f page ≠ 0 := by
  have hle := count_le_held hl page
  have hpos := count_pos_iff.mpr hpage
  omega

theorem held_set (hl : f.leases.get? lease = some l) (hleases : f'.leases = f.leases.set lease l')
    (page : Nat) : held f' page + l.pages.count page = held f page + l'.pages.count page := by
  unfold held
  rw [hleases]
  exact sumBy_set_old _ l' hl

theorem held_setLease (hl : f.leases.get? lease = some l) (l' : CompressedFamilyLease) (page : Nat) :
    held (setLease lease l' f) page + l.pages.count page = held f page + l'.pages.count page :=
  held_set hl rfl page

theorem held_add (hnew : f.leases.get? lease = none) (hleases : f'.leases = f.leases.set lease l')
    (page : Nat) : held f' page = held f page + l'.pages.count page := by
  unfold held
  rw [hleases]
  exact sumBy_set_new _ l' hnew

theorem held_addLease (hnew : f.leases.get? f.nextLease = none) (l' : CompressedFamilyLease)
    (page : Nat) : held (addLease l' f) page = held f page + l'.pages.count page :=
  held_add hnew rfl page

theorem LeaseInv.frame {held held' : Nat → Nat} {reserved : Nat} (h : LeaseInv cfg held reserved l)
    (hframe : ∀ i page, l.pages[i]? = some page → Exclusive cfg l reserved i → held page = 1 →
      held' page = 1) : LeaseInv cfg held' reserved l :=
  ⟨h.nodup, h.released, h.covered, fun i page hpage hex =>
    hframe i page hpage hex (h.exclusive i page hpage hex)⟩

theorem Inv.set {reserved' : Nat} (h : Inv cfg reserved f) (hl : f.leases.get? lease = some l)
    (hleases : f'.leases = f.leases.set lease l') (hnext : f'.nextLease = f.nextLease)
    (hpages : f'.allocator.Holds (held f'))
    (htaken : ∀ page ∈ l'.pages, page ∈ l.pages ∨ held f page = 0)
    (hl' : LeaseInv cfg (held f') reserved' l') :
    Inv cfg (update reserved lease reserved') f' := by
  refine ⟨hpages, fun k hk => ?_, fun k lk hk => ?_⟩
  · rw [hnext] at hk
    have hne : k ≠ lease := by
      rintro rfl
      rw [(h.fresh k hk).1] at hl
      cases hl
    rw [hleases, get?_set_ne _ _ hne, update_of_ne hne]
    exact h.fresh k hk
  · rw [hleases, get?_set] at hk
    split at hk
    · next heq =>
      cases hk
      rw [heq, update_self]
      exact hl'
    · next hne =>
      rw [update_of_ne hne]
      refine (h.lease k lk hk).frame fun i page hpage _ hone => ?_
      have hold : page ∉ l.pages :=
        not_mem_of_held_one (Ne.symm hne) hl hk (mem_of_getElem? hpage) hone
      have hnew : page ∉ l'.pages := by
        intro hmem
        rcases htaken page hmem with hmem | hzero
        · exact hold hmem
        · omega
      have hheld := held_set hl hleases page
      rw [count_eq_zero.mpr hold, count_eq_zero.mpr hnew] at hheld
      omega

theorem Inv.set_same (h : Inv cfg reserved f) (hl : f.leases.get? lease = some l)
    (hleases : f'.leases = f.leases.set lease l') (hnext : f'.nextLease = f.nextLease)
    (hpages : f'.allocator.Holds (held f'))
    (htaken : ∀ page ∈ l'.pages, page ∈ l.pages ∨ held f page = 0)
    (hl' : LeaseInv cfg (held f') (reserved lease) l') : Inv cfg reserved f' := by
  have hset := h.set hl hleases hnext hpages htaken hl'
  rwa [update_eq_self] at hset

theorem Inv.add (h : Inv cfg reserved f) (hleases : f'.leases = f.leases.set f.nextLease l')
    (hnext : f'.nextLease = f.nextLease + 1) (hpages : f'.allocator.Holds (held f'))
    (hapart : ∀ k lk, f.leases.get? k = some lk → ∀ i page, lk.pages[i]? = some page →
      Exclusive cfg lk (reserved k) i → page ∉ l'.pages)
    (hl' : LeaseInv cfg (held f') 0 l') : Inv cfg reserved f' := by
  have hnew := (h.fresh f.nextLease le_rfl).1
  refine ⟨hpages, fun k hk => ?_, fun k lk hk => ?_⟩
  · rw [hnext] at hk
    rw [hleases, get?_set_ne _ _ (by omega)]
    exact h.fresh k (by omega)
  · rw [hleases, get?_set] at hk
    split at hk
    · next heq =>
      cases hk
      rw [heq, (h.fresh f.nextLease le_rfl).2]
      exact hl'
    · refine (h.lease k lk hk).frame fun i page hpage hex hone => ?_
      rw [held_add hnew hleases, count_eq_zero.mpr (hapart k lk hk i page hpage hex), hone]

theorem Inv.forget (h : Inv cfg reserved f) (lease : Nat) :
    Inv cfg (update reserved lease 0) f := by
  refine ⟨h.pages, fun k hk => ⟨(h.fresh k hk).1, ?_⟩, fun k lk hk => ?_⟩
  · by_cases heq : k = lease
    · rw [heq, update_self]
    · rw [update_of_ne heq]
      exact (h.fresh k hk).2
  · by_cases heq : k = lease
    · have hlk := h.lease k lk hk
      rw [heq, update_self]
      refine ⟨hlk.nodup, hlk.released, fun hlive => ⟨(hlk.covered hlive).1, Nat.zero_le _⟩,
        fun i page hpage hex => hlk.exclusive i page hpage ?_⟩
      exact .inl (hex.resolve_right fun hlt => absurd hlt.1 (Nat.not_lt_zero _))
    · rw [update_of_ne heq]
      exact h.lease k lk hk

end

def contentAt (cfg : FamilyConfig) (f : CompressedKVFamily β) (pool : Nat) (l : CompressedFamilyLease)
    (position : Nat) : β :=
  f.byteStorage pool (l.pages.getD (position / cfg.pageSize) 0) (position % cfg.pageSize)

/-- No lease goes, and a live one keeps its tokens. -/
structure Preserved (cfg : FamilyConfig) (f f' : CompressedKVFamily β) : Prop where
  kept : ∀ lease l, f.leases.get? lease = some l → ∃ l', f'.leases.get? lease = some l' ∧
    (l.released = true → l'.released = true)
  content : ∀ lease l l', f.leases.get? lease = some l → f'.leases.get? lease = some l' →
    l'.released = false → l.materializedTokens ≤ l'.materializedTokens ∧
      ∀ pool < cfg.pools, ∀ position < l.materializedTokens,
        contentAt cfg f' pool l' position = contentAt cfg f pool l position

section

variable {cfg : FamilyConfig} {f f' f'' : CompressedKVFamily β} {lease : Nat}
  {l l' : CompressedFamilyLease}

theorem Preserved.trans (h : Preserved cfg f f') (h' : Preserved cfg f' f'') :
    Preserved cfg f f'' := by
  refine ⟨fun k l hl => ?_, fun k l l'' hl hl'' hlive => ?_⟩
  · obtain ⟨l', hl', hrel⟩ := h.kept k l hl
    obtain ⟨l'', hl'', hrel'⟩ := h'.kept k l' hl'
    exact ⟨l'', hl'', hrel' ∘ hrel⟩
  · obtain ⟨l', hl', -⟩ := h.kept k l hl
    obtain ⟨l₂, hl₂, hrel⟩ := h'.kept k l' hl'
    rw [hl''] at hl₂
    cases hl₂
    have hlive' : l'.released = false := by
      by_contra hno
      rw [hrel (Bool.not_eq_false _ ▸ hno)] at hlive
      cases hlive
    obtain ⟨hle, hcontent⟩ := h.content k l l' hl hl' hlive'
    obtain ⟨hle', hcontent'⟩ := h'.content k l' l'' hl' hl'' hlive
    refine ⟨hle.trans hle', fun pool hpool position hpos => ?_⟩
    rw [hcontent' pool hpool position (hpos.trans_le hle), hcontent pool hpool position hpos]

theorem Preserved.of_storage (hleases : f'.leases = f.leases)
    (hstorage : ∀ lease l, f.leases.get? lease = some l → l.released = false →
      ∀ pool < cfg.pools, ∀ position < l.materializedTokens,
        contentAt cfg f' pool l position = contentAt cfg f pool l position) :
    Preserved cfg f f' := by
  refine ⟨fun k l hl => ⟨l, by rw [hleases, hl], fun hr => hr⟩, fun k l l' hl hl' hlive => ?_⟩
  rw [hleases, hl] at hl'
  cases hl'
  exact ⟨le_rfl, hstorage k l hl hlive⟩

theorem Preserved.refl (f : CompressedKVFamily β) : Preserved cfg f f :=
  .of_storage rfl fun _ _ _ _ _ _ _ _ => rfl

theorem Preserved.of_set (hl : f.leases.get? lease = some l)
    (hleases : f'.leases = f.leases.set lease l') (hrel : l.released = true → l'.released = true)
    (hcontent : l'.released = false → l.materializedTokens ≤ l'.materializedTokens ∧
      ∀ pool < cfg.pools, ∀ position < l.materializedTokens,
        contentAt cfg f' pool l' position = contentAt cfg f pool l position)
    (hothers : ∀ k lk, k ≠ lease → f.leases.get? k = some lk → lk.released = false →
      ∀ pool < cfg.pools, ∀ position < lk.materializedTokens,
        contentAt cfg f' pool lk position = contentAt cfg f pool lk position) :
    Preserved cfg f f' := by
  refine ⟨fun k lk hk => ?_, fun k lk lk' hk hk' hlive => ?_⟩
  · rw [hleases, get?_set]
    split
    · next heq =>
      subst heq
      rw [hl] at hk
      cases hk
      exact ⟨l', rfl, hrel⟩
    · exact ⟨lk, hk, fun hr => hr⟩
  · rw [hleases, get?_set] at hk'
    split at hk'
    · next heq =>
      subst heq
      rw [hl] at hk
      cases hk
      cases hk'
      exact hcontent hlive
    · next hne =>
      rw [hk] at hk'
      cases hk'
      exact ⟨le_rfl, hothers k lk hne hk hlive⟩

theorem Preserved.of_add (hnew : f.leases.get? lease = none)
    (hleases : f'.leases = f.leases.set lease l') (hstorage : f'.byteStorage = f.byteStorage) :
    Preserved cfg f f' := by
  have hget : ∀ k lk, f.leases.get? k = some lk → f'.leases.get? k = some lk := by
    intro k lk hk
    have hne : k ≠ lease := by
      rintro rfl
      rw [hnew] at hk
      cases hk
    rw [hleases, get?_set_ne _ _ hne, hk]
  refine ⟨fun k lk hk => ⟨lk, hget k lk hk, fun hr => hr⟩, fun k lk lk' hk hk' _ => ?_⟩
  rw [hget k lk hk] at hk'
  cases hk'
  refine ⟨le_rfl, fun pool _ position _ => ?_⟩
  unfold contentAt
  rw [hstorage]

end

section

variable {cfg : FamilyConfig} {f f' : CompressedKVFamily β} {reserved : Nat → Nat} {lease : Nat}
  {l l' : CompressedFamilyLease}

theorem requiredPages_le_iff {n i : Nat} : requiredPages cfg n ≤ i ↔ n ≤ i * cfg.pageSize := by
  have hpos := cfg.pageSize_pos
  unfold requiredPages
  rw [← Nat.lt_succ_iff, Nat.div_lt_iff_lt_mul hpos, Nat.succ_mul]
  omega

theorem le_requiredPages_mul (n : Nat) : n ≤ requiredPages cfg n * cfg.pageSize :=
  requiredPages_le_iff.mp le_rfl

theorem Inv.of_same (h : Inv cfg reserved f) (hleases : f'.leases = f.leases)
    (hnext : f'.nextLease = f.nextLease) (hpages : f'.allocator.Holds (held f)) :
    Inv cfg reserved f' := by
  have hheld : held f' = held f := by
    unfold held
    rw [hleases]
  refine ⟨hheld ▸ hpages, fun k hk => ?_, fun k lk hk => ?_⟩
  · rw [hleases]
    exact h.fresh k (hnext ▸ hk)
  · rw [hheld]
    exact h.lease k lk (hleases ▸ hk)

theorem validate_spec (lease : Nat) :
    wp (validate lease)
      (fun l f' => f' = f ∧ f.leases.get? lease = some l ∧ l.released = false)
      (fun _ f' => f' = f) f := by
  unfold validate
  rw [wp_bind, wp_get]
  cases hl : f.leases.get? lease with
  | none => exact rfl
  | some l =>
    dsimp only
    rw [wp_bind, wp_raiseIf]
    refine ⟨fun _ => rfl, fun hlive => ⟨rfl, rfl, ?_⟩⟩
    rwa [Bool.not_eq_true] at hlive

theorem newLease_spec (h : Inv cfg reserved f) :
    wp newLease (fun _ f' => Inv cfg reserved f' ∧ Preserved cfg f f') (fun _ _ => False) f := by
  have hnew := (h.fresh f.nextLease le_rfl).1
  have hheld : ∀ page, held (addLease {} f) page = held f page := held_addLease hnew {}
  refine ⟨h.add rfl rfl (h.pages.congr hheld) (fun _ _ _ _ _ _ _ => not_mem_nil)
    ⟨nodup_nil, fun _ => rfl, fun _ => ⟨Nat.zero_le _, Nat.zero_le _⟩, fun i page hpage => ?_⟩,
    .of_add hnew rfl rfl⟩
  cases hpage

theorem markMaterialized_spec (h : Inv cfg reserved f) (lease tokenCount : Nat) :
    wp (markMaterialized cfg lease tokenCount)
      (fun _ f' => Inv cfg reserved f' ∧ Preserved cfg f f') (fun _ f' => f' = f) f := by
  unfold markMaterialized
  rw [wp_bind]
  refine wp_mono (validate_spec lease) ?_ fun _ _ he => he
  rintro l f₁ ⟨rfl, hl, hlive⟩
  rw [wp_bind, wp_raiseIf]
  refine ⟨fun _ => rfl, fun hrange => ?_⟩
  rw [not_not] at hrange
  rw [wp_modify]
  have hinv := h.lease lease l hl
  have hheld : ∀ page,
      held (setLease lease { l with materializedTokens := tokenCount } f₁) page = held f₁ page :=
    fun page => Nat.add_right_cancel (held_setLease hl _ page)
  refine ⟨h.set_same hl rfl rfl (h.pages.congr hheld) (fun page hpage => .inl hpage) ?_,
    .of_set hl rfl (fun hr => hr) (fun _ => ⟨hrange.1, fun _ _ _ _ => rfl⟩)
      fun _ _ _ _ _ _ _ _ _ => rfl⟩
  · refine ⟨hinv.nodup, hinv.released, fun hlive => ⟨hrange.2, (hinv.covered hlive).2⟩,
      fun i page hpage hex => ?_⟩
    rw [hheld]
    refine hinv.exclusive i page hpage ?_
    rcases hex with hle | ⟨hlt, hi⟩
    · exact .inl (hrange.1.trans hle)
    · have hlt' : tokenCount < reserved lease := hlt
      have hi' : i = tokenCount / cfg.pageSize := hi
      rcases Nat.lt_or_ge (i * cfg.pageSize) l.materializedTokens with hmore | hless
      · refine .inr ⟨hrange.1.trans_lt hlt', le_antisymm ?_ ?_⟩
        · exact (Nat.le_div_iff_mul_le cfg.pageSize_pos).mpr hmore.le
        · rw [hi']
          exact Nat.div_le_div_right hrange.1
      · exact .inl hless

variable {r : Nat}

theorem LeaseInv.not_mem_take {held : Nat → Nat} {i n page : Nat} (h : LeaseInv cfg held r l)
    (hpage : l.pages[i]? = some page) (hle : n ≤ i) : page ∉ l.pages.take n := by
  intro hmem
  obtain ⟨j, hj⟩ := mem_iff_getElem?.mp hmem
  rw [getElem?_take] at hj
  split at hj
  · next hlt =>
    have heq := (getElem?_inj (List.getElem?_eq_some_iff.mp hj).1 h.nodup).mp (hj.trans hpage.symm)
    omega
  · cases hj

theorem snapshot_spec (h : Inv cfg reserved f) (lease : Nat) :
    wp (snapshot cfg lease)
      (fun _ f' => Inv cfg (update reserved lease 0) f' ∧ Preserved cfg f f')
      (fun _ f' => f' = f) f := by
  unfold snapshot
  rw [wp_bind]
  refine wp_mono (validate_spec lease) ?_ fun _ _ he => he
  rintro l f₁ ⟨rfl, hl, hlive⟩
  have hinv := h.lease lease l hl
  have hnew := (h.fresh f₁.nextLease le_rfl).1
  have hmem : ∀ page ∈ l.pages.take (requiredPages cfg l.materializedTokens), page ∈ l.pages :=
    fun page hp => mem_of_mem_take hp
  dsimp only
  rw [wp_bind, onAllocator, wp_zoom]
  refine wp_mono (h.pages.retainPages fun page hp => held_ne_zero hl (hmem page hp)) ?_
    fun _ _ hf => hf.elim
  rintro - a ⟨-, -, -, ha⟩
  rw [wp_bind, wp_get, wp_bind, wp_modify, wp_pure]
  refine ⟨(h.forget lease).add rfl rfl (ha.congr (held_addLease hnew _)) ?_ ?_, .of_add hnew rfl rfl⟩
  · intro k lk hk i page hpage hex hshared
    by_cases heq : k = lease
    · subst heq
      rw [hl] at hk
      cases hk
      rw [update_self] at hex
      have hle := hex.resolve_right fun hlt => absurd hlt.1 (Nat.not_lt_zero _)
      exact hinv.not_mem_take hpage (requiredPages_le_iff.mpr hle) hshared
    · rw [update_of_ne heq] at hex
      exact not_mem_of_held_one (Ne.symm heq) hl hk (mem_of_getElem? hpage)
        ((h.lease k lk hk).exclusive i page hpage hex) (hmem page hshared)
  · refine ⟨hinv.nodup.sublist (take_sublist _ _), nofun,
      fun _ => ⟨?_, Nat.zero_le _⟩, fun i page hpage hex => ?_⟩
    · show l.materializedTokens ≤ (l.pages.take _).length * cfg.pageSize
      rw [length_take]
      rcases min_cases (requiredPages cfg l.materializedTokens) l.pages.length with ⟨heq, -⟩ | ⟨heq, -⟩
      · rw [heq]
        exact le_requiredPages_mul _
      · rw [heq]
        exact (hinv.covered hlive).1
    · -- Every page of a snapshot has a materialized token.
      have hle : requiredPages cfg l.materializedTokens ≤ i :=
        requiredPages_le_iff.mpr (hex.resolve_right fun hlt => absurd hlt.1 (Nat.not_lt_zero _))
      have hpage' : (l.pages.take (requiredPages cfg l.materializedTokens))[i]? = some page := hpage
      rw [getElem?_take, if_neg (not_lt.mpr hle)] at hpage'
      cases hpage'

theorem release_spec (h : Inv cfg reserved f) (lease : Nat) :
    wp (release lease) (fun _ f' => Inv cfg reserved f' ∧ Preserved cfg f f') (fun _ f' => f' = f) f := by
  unfold release
  rw [wp_bind]
  refine wp_mono (validate_spec lease) ?_ fun _ _ he => he
  rintro l f₁ ⟨rfl, hl, -⟩
  rw [wp_bind, onAllocator, wp_zoom]
  refine wp_mono (h.pages.releasePages (count_le_held hl)) ?_ fun _ _ hf => hf.elim
  rintro - a ⟨-, -, -, ha⟩
  rw [wp_modify]
  refine ⟨h.set_same hl rfl rfl (ha.congr fun page => ?_) nofun ?_,
    .of_set hl rfl (fun _ => rfl) nofun fun _ _ _ _ _ _ _ _ _ => rfl⟩
  · have hsum : held (setLease lease { l with pages := [], released := true } f₁) page +
        l.pages.count page = held f₁ page + ([] : List Nat).count page := held_setLease hl _ page
    rw [count_nil] at hsum
    show held (setLease lease { l with pages := [], released := true } f₁) page = _
    omega
  · exact ⟨nodup_nil, fun _ => rfl, nofun, nofun⟩

/-! ### Reserving -/

def tailPage (cfg : FamilyConfig) (l : CompressedFamilyLease) : Nat :=
  l.pages.getD (l.materializedTokens / cfg.pageSize) 0

def CopiesTail (cfg : FamilyConfig) (f : CompressedKVFamily β) (l : CompressedFamilyLease)
    (tokenCapacity : Nat) : Prop :=
  l.materializedTokens % cfg.pageSize ≠ 0 ∧ l.materializedTokens < tokenCapacity ∧
    1 < held f (tailPage cfg l)

instance (f : CompressedKVFamily β) (tokenCapacity : Nat) :
    Decidable (CopiesTail cfg f l tokenCapacity) := inferInstanceAs (Decidable (_ ∧ _ ∧ _))

/-- What `reservation_pages` returns. -/
def reservationCost (cfg : FamilyConfig) (f : CompressedKVFamily β) (l : CompressedFamilyLease)
    (tokenCapacity : Nat) : Nat :=
  requiredPages cfg tokenCapacity - l.pages.length +
    if CopiesTail cfg f l tokenCapacity then 1 else 0

theorem LeaseInv.tail_lt {held : Nat → Nat} (h : LeaseInv cfg held r l) (hlive : l.released = false)
    (htail : l.materializedTokens % cfg.pageSize ≠ 0) :
    l.materializedTokens / cfg.pageSize < l.pages.length := by
  rw [Nat.div_lt_iff_lt_mul cfg.pageSize_pos]
  refine lt_of_le_of_ne (h.covered hlive).1 fun heq => htail ?_
  rw [heq, Nat.mul_mod_left]

theorem LeaseInv.getElem?_tail {held : Nat → Nat} (h : LeaseInv cfg held r l)
    (hlive : l.released = false) (htail : l.materializedTokens % cfg.pageSize ≠ 0) :
    l.pages[l.materializedTokens / cfg.pageSize]? = some (tailPage cfg l) := by
  have hlt := h.tail_lt hlive htail
  rw [tailPage, getD_eq_getElem?_getD, getElem?_eq_getElem hlt, Option.getD_some]

theorem reservationPages_spec (h : Inv cfg reserved f) (lease tokenCapacity : Nat) :
    wp (reservationPages cfg lease tokenCapacity)
      (fun count f' => f' = f ∧ ∃ l, f.leases.get? lease = some l ∧ l.released = false ∧
        l.materializedTokens ≤ tokenCapacity ∧ count = reservationCost cfg f l tokenCapacity)
      (fun _ f' => f' = f) f := by
  unfold reservationPages
  rw [wp_bind]
  refine wp_mono (validate_spec lease) ?_ fun _ _ he => he
  rintro l f₁ ⟨rfl, hl, hlive⟩
  rw [wp_bind, wp_raiseIf]
  refine ⟨fun _ => rfl, fun hcap => ?_⟩
  dsimp only
  unfold reservationCost
  split
  · next htail =>
    have hpage := (h.lease lease l hl).getElem?_tail hlive htail.1
    have hheld : held f₁ (tailPage cfg l) ≠ 0 := held_ne_zero hl (mem_of_getElem? hpage)
    rw [wp_bind, pageAt, hpage]
    dsimp only
    rw [wp_pure, wp_bind, onAllocator, wp_zoom, wp_of_ok (h.pages.run_referenceCount hheld), wp_pure]
    refine ⟨rfl, l, hl, hlive, not_lt.mp hcap, ?_⟩
    congr 1
    refine if_congr ?_ rfl rfl
    exact ⟨fun hmany => ⟨htail.1, htail.2, hmany⟩, fun hcopy => hcopy.2.2⟩
  · next htail =>
    rw [wp_pure]
    refine ⟨rfl, l, hl, hlive, not_lt.mp hcap, ?_⟩
    rw [if_neg fun hcopy : CopiesTail cfg f₁ l tokenCapacity => htail ⟨hcopy.1, hcopy.2.1⟩,
      Nat.add_zero]

/-- Only the page `new` of the storage changed. -/
structure Touched (new : Nat) (f f' : CompressedKVFamily β) : Prop where
  leases : f'.leases = f.leases
  nextLease : f'.nextLease = f.nextLease
  allocator : f'.allocator = f.allocator
  storage : ∀ pool page, page ≠ new → f'.byteStorage pool page = f.byteStorage pool page

theorem copyPool_touched (old new pool : Nat) (f : CompressedKVFamily β) :
    Touched new f (copyPool old new pool f) := by
  refine ⟨rfl, rfl, rfl, fun q page hne => ?_⟩
  unfold copyPool
  dsimp only
  by_cases hq : q = pool
  · rw [hq, update_self, update_of_ne hne]
  · rw [update_of_ne hq]

theorem Touched.trans {f'' : CompressedKVFamily β} {new : Nat} (h : Touched new f f')
    (h' : Touched new f' f'') : Touched new f f'' :=
  ⟨h'.leases.trans h.leases, h'.nextLease.trans h.nextLease, h'.allocator.trans h.allocator,
    fun pool page hne => (h'.storage pool page hne).trans (h.storage pool page hne)⟩

theorem copyPools_spec {old new : Nat} (fault : Option Nat) (hne : old ≠ new) :
    ∀ (pools : List Nat) (f : CompressedKVFamily β), pools.Nodup →
      wp (forEach (fun pool => do
          raiseIf (fault = some pool) (.runtimeError "copy_")
          PyM.modify (copyPool old new pool)) pools)
        (fun _ f' => Touched new f f' ∧
          (∀ pool ∈ pools, f'.byteStorage pool new = f.byteStorage pool old) ∧
          ∀ pool ∉ pools, f'.byteStorage pool new = f.byteStorage pool new)
        (fun _ f' => Touched new f f') f
  | [], f, _ => ⟨⟨rfl, rfl, rfl, fun _ _ _ => rfl⟩, nofun, fun _ _ => rfl⟩
  | pool :: pools, f, hnodup => by
    rw [nodup_cons] at hnodup
    have hfirst := copyPool_touched old new pool f
    have hcopied : (copyPool old new pool f).byteStorage pool new = f.byteStorage pool old := by
      unfold copyPool
      dsimp only
      rw [update_self, update_self]
    have hother : ∀ q ≠ pool, (copyPool old new pool f).byteStorage q = f.byteStorage q := by
      intro q hq
      unfold copyPool
      dsimp only
      rw [update_of_ne hq]
    rw [forEach, wp_bind, wp_bind, wp_raiseIf]
    refine ⟨fun _ => ⟨rfl, rfl, rfl, fun _ _ _ => rfl⟩, fun _ => ?_⟩
    rw [wp_modify]
    refine wp_mono (copyPools_spec fault hne pools (copyPool old new pool f) hnodup.2) ?_
      fun _ _ ht => hfirst.trans ht
    rintro - f' ⟨htouched, hin, hout⟩
    refine ⟨hfirst.trans htouched, fun q hq => ?_, fun q hq => ?_⟩
    · by_cases heq : q = pool
      · rw [heq, hout pool hnodup.1, hcopied]
      · rw [hin q ((mem_cons.mp hq).resolve_left heq), hother q heq]
    · rw [mem_cons, not_or] at hq
      rw [hout q hq.2, hother q hq.1]

theorem Touched.content {new : Nat} (h : Touched new f f') (hunheld : held f new = 0)
    {k : Nat} {lk : CompressedFamilyLease} (hinv : Inv cfg reserved f)
    (hk : f.leases.get? k = some lk) (hlive : lk.released = false) (pool : Nat) {position : Nat}
    (hpos : position < lk.materializedTokens) :
    contentAt cfg f' pool lk position = contentAt cfg f pool lk position := by
  have hlt : position / cfg.pageSize < lk.pages.length := by
    rw [Nat.div_lt_iff_lt_mul cfg.pageSize_pos]
    exact hpos.trans_le ((hinv.lease k lk hk).covered hlive).1
  unfold contentAt
  rw [h.storage]
  rintro rfl
  refine held_ne_zero hk ?_ hunheld
  rw [getD_eq_getElem?_getD, getElem?_eq_getElem hlt, Option.getD_some]
  exact getElem_mem hlt

theorem LeaseInv.extended {held held' : Nat → Nat} {tokenCapacity : Nat} {allocated : List Nat}
    (h : LeaseInv cfg held r l) (hlive : l.released = false)
    (hlisted : ∀ page ∈ l.pages, held page ≠ 0)
    (hlength : allocated.length = requiredPages cfg tokenCapacity - l.pages.length)
    (hnodup : allocated.Nodup) (hunheld : ∀ page ∈ allocated, held page = 0)
    (hheld : ∀ page, held' page = held page + allocated.count page)
    (hprivate : l.materializedTokens % cfg.pageSize ≠ 0 → l.materializedTokens < tokenCapacity →
      held (tailPage cfg l) = 1) :
    LeaseInv cfg held' (max r tokenCapacity) { l with pages := l.pages ++ allocated } := by
  have hdisjoint : ∀ page ∈ l.pages, page ∉ allocated :=
    fun page hpage hmem => hlisted page hpage (hunheld page hmem)
  have hcap : tokenCapacity ≤ (l.pages ++ allocated).length * cfg.pageSize := by
    rw [← requiredPages_le_iff, length_append]
    omega
  have hgrow : l.pages.length * cfg.pageSize ≤ (l.pages ++ allocated).length * cfg.pageSize := by
    rw [length_append]
    exact Nat.mul_le_mul_right _ (Nat.le_add_right _ _)
  refine ⟨nodup_append.mpr ⟨h.nodup, hnodup, ?_⟩, fun hr => ?_, fun _ =>
    ⟨(h.covered hlive).1.trans hgrow, max_le ((h.covered hlive).2.trans hgrow) hcap⟩,
    fun i page hpage hex => ?_⟩
  · rintro page hpage _ hmem rfl
    exact hdisjoint page hpage hmem
  · rw [hlive] at hr
    cases hr
  · have hpage' : (l.pages ++ allocated)[i]? = some page := hpage
    rw [hheld]
    rw [getElem?_append] at hpage'
    split at hpage'
    · have hmem : page ∈ l.pages := mem_of_getElem? hpage'
      rw [count_eq_zero.mpr (hdisjoint page hmem), Nat.add_zero]
      rcases hex with hle | ⟨hlt, hi⟩
      · exact h.exclusive i page hpage' (.inl hle)
      · have hi' : i = l.materializedTokens / cfg.pageSize := hi
        have hlt' : l.materializedTokens < max r tokenCapacity := hlt
        by_cases htail : l.materializedTokens % cfg.pageSize = 0
        · refine h.exclusive i page hpage' (.inl ?_)
          rw [hi', Nat.div_mul_cancel (Nat.dvd_of_mod_eq_zero htail)]
        · rcases lt_max_iff.mp hlt' with hlt' | hlt'
          · exact h.exclusive i page hpage' (.inr ⟨hlt', hi'⟩)
          · have hpageTail := h.getElem?_tail hlive htail
            rw [← hi', hpage'] at hpageTail
            cases hpageTail
            exact hprivate htail hlt'
    · have hmem : page ∈ allocated := mem_of_getElem? hpage'
      rw [hunheld page hmem, count_eq_one_of_mem hnodup hmem]

theorem LeaseInv.copied {held held' : Nat → Nat} {tokenCapacity new : Nat} {rest : List Nat}
    (h : LeaseInv cfg held r l) (hlive : l.released = false)
    (htail : l.materializedTokens % cfg.pageSize ≠ 0) (hlisted : ∀ page ∈ l.pages, held page ≠ 0)
    (hlength : rest.length = requiredPages cfg tokenCapacity - l.pages.length)
    (hnodup : (new :: rest).Nodup) (hunheld : ∀ page ∈ new :: rest, held page = 0)
    (hheld : ∀ page, held' page + [tailPage cfg l].count page =
      held page + (new :: rest).count page) :
    LeaseInv cfg held' (max r tokenCapacity)
      { l with pages := l.pages.set (l.materializedTokens / cfg.pageSize) new ++ rest } := by
  have hdisjoint : ∀ page ∈ l.pages, page ∉ new :: rest :=
    fun page hpage hmem => hlisted page hpage (hunheld page hmem)
  have hindex := h.tail_lt hlive htail
  have hold := h.getElem?_tail hlive htail
  have hlen : (l.pages.set (l.materializedTokens / cfg.pageSize) new).length = l.pages.length :=
    length_set
  have hcap : tokenCapacity ≤
      (l.pages.set (l.materializedTokens / cfg.pageSize) new ++ rest).length * cfg.pageSize := by
    rw [← requiredPages_le_iff, length_append]
    omega
  have hgrow : l.pages.length * cfg.pageSize ≤
      (l.pages.set (l.materializedTokens / cfg.pageSize) new ++ rest).length * cfg.pageSize := by
    rw [length_append, hlen]
    exact Nat.mul_le_mul_right _ (Nat.le_add_right _ _)
  have hnewNodup : (l.pages.set (l.materializedTokens / cfg.pageSize) new).Nodup :=
    h.nodup.set fun hmem => hdisjoint new hmem mem_cons_self
  -- A page that was not listed before has the lease as its only holder.
  have hfresh : ∀ page ∈ new :: rest, held' page = 1 := by
    intro page hmem
    have hne : page ≠ tailPage cfg l := by
      rintro rfl
      exact hdisjoint _ (mem_of_getElem? hold) hmem
    have hsum := hheld page
    rw [hunheld page hmem, count_eq_one_of_mem hnodup hmem,
      count_eq_zero.mpr fun hmem => hne (mem_singleton.mp hmem)] at hsum
    omega
  refine ⟨nodup_append.mpr ⟨hnewNodup, (nodup_cons.mp hnodup).2, ?_⟩, fun hr => ?_, fun _ =>
    ⟨(h.covered hlive).1.trans hgrow, max_le ((h.covered hlive).2.trans hgrow) hcap⟩,
    fun i page hpage hex => ?_⟩
  · rintro page hpage _ hmem rfl
    rcases mem_or_eq_of_mem_set hpage with hpage | rfl
    · exact hdisjoint page hpage (mem_cons_of_mem _ hmem)
    · exact (nodup_cons.mp hnodup).1 hmem
  · rw [hlive] at hr
    cases hr
  · have hpage' : (l.pages.set (l.materializedTokens / cfg.pageSize) new ++ rest)[i]? = some page :=
      hpage
    rw [getElem?_append] at hpage'
    split at hpage'
    · by_cases hi : i = l.materializedTokens / cfg.pageSize
      · rw [hi, getElem?_set_self hindex] at hpage'
        cases hpage'
        exact hfresh _ mem_cons_self
      · rw [getElem?_set_ne (Ne.symm hi)] at hpage'
        have hmem : page ∈ l.pages := mem_of_getElem? hpage'
        have hne : page ≠ tailPage cfg l := by
          rintro rfl
          exact hi ((getElem?_inj (List.getElem?_eq_some_iff.mp hpage').1 h.nodup).mp
            (hpage'.trans hold.symm))
        have hone := h.exclusive i page hpage' (.inl (hex.resolve_right fun hx => hi hx.2))
        have hsum := hheld page
        rw [hone, count_eq_zero.mpr (hdisjoint page hmem),
          count_eq_zero.mpr fun hmem => hne (mem_singleton.mp hmem)] at hsum
        omega
    · exact hfresh page (mem_cons_of_mem _ (mem_of_getElem? hpage'))

theorem Inv.extend {tokenCapacity : Nat} {allocated : List Nat} {a : PhysicalPageAllocator}
    (h : Inv cfg reserved f) (hl : f.leases.get? lease = some l) (hlive : l.released = false)
    (hcost : reservationCost cfg f l tokenCapacity =
      requiredPages cfg tokenCapacity - l.pages.length)
    (hallocated : Allocated (held f) f.allocator (reservationCost cfg f l tokenCapacity) allocated)
    (ha : a.Holds fun page => held f page + allocated.count page) :
    let f' := setLease lease { l with pages := l.pages ++ allocated } { f with allocator := a }
    Inv cfg (update reserved lease (max (reserved lease) tokenCapacity)) f' ∧
      Preserved cfg f f' := by
  intro f'
  have hinv := h.lease lease l hl
  have hheld : ∀ page, held f' page = held f page + allocated.count page := by
    intro page
    have hleases : f'.leases = f.leases.set lease { l with pages := l.pages ++ allocated } := rfl
    have hsum := held_set hl hleases page
    rw [count_append] at hsum
    omega
  refine ⟨h.set hl rfl rfl (ha.congr hheld) (fun page hpage => ?_) ?_, .of_set hl rfl (fun hr => hr)
    (fun _ => ⟨le_rfl, fun pool _ position hpos => ?_⟩) fun _ _ _ _ _ _ _ _ _ => rfl⟩
  · exact (mem_append.mp hpage).imp_right (hallocated.unheld page)
  · refine hinv.extended hlive (fun page hpage => held_ne_zero hl hpage)
      (hallocated.length.trans hcost) hallocated.nodup hallocated.unheld hheld fun htail hcap => ?_
    have hnocopy : ¬ CopiesTail cfg f l tokenCapacity := by
      intro hcopy
      unfold reservationCost at hcost
      rw [if_pos hcopy] at hcost
      omega
    have hle : held f (tailPage cfg l) ≤ 1 := not_lt.mp fun hlt => hnocopy ⟨htail, hcap, hlt⟩
    have hne := held_ne_zero hl (mem_of_getElem? (hinv.getElem?_tail hlive htail))
    omega
  · have hlt : position / cfg.pageSize < l.pages.length := by
      rw [Nat.div_lt_iff_lt_mul cfg.pageSize_pos]
      exact hpos.trans_le (hinv.covered hlive).1
    show f.byteStorage pool ((l.pages ++ allocated).getD _ 0) _ = _
    rw [getD_eq_getElem?_getD, getElem?_append_left hlt, ← getD_eq_getElem?_getD]
    rfl

theorem Inv.copy {tokenCapacity new : Nat} {rest : List Nat} {a : PhysicalPageAllocator}
    {f₁ : CompressedKVFamily β} (h : Inv cfg reserved f) (hl : f.leases.get? lease = some l)
    (hlive : l.released = false) (htail : l.materializedTokens % cfg.pageSize ≠ 0)
    (hlength : rest.length = requiredPages cfg tokenCapacity - l.pages.length)
    (hnodup : (new :: rest).Nodup) (hunheld : ∀ page ∈ new :: rest, held f page = 0)
    (htouched : Touched new f f₁)
    (hcopied : ∀ pool < cfg.pools, f₁.byteStorage pool new = f.byteStorage pool (tailPage cfg l))
    (ha : a.Holds fun page => held f page + (new :: rest).count page - [tailPage cfg l].count page) :
    let pages := l.pages.set (l.materializedTokens / cfg.pageSize) new ++ rest
    let f' : CompressedKVFamily β :=
      { f₁ with allocator := a, leases := f.leases.set lease { l with pages := pages } }
    Inv cfg (update reserved lease (max (reserved lease) tokenCapacity)) f' ∧
      Preserved cfg f f' := by
  intro pages f'
  have hinv := h.lease lease l hl
  have hindex := hinv.tail_lt hlive htail
  have hold := hinv.getElem?_tail hlive htail
  have hheld : ∀ page, held f' page + [tailPage cfg l].count page =
      held f page + (new :: rest).count page := by
    intro page
    have hleases : f'.leases = f.leases.set lease { l with pages := pages } := rfl
    have hsum : held f' page + l.pages.count page = held f page + pages.count page :=
      held_set hl hleases page
    have hpos := count_le_held hl page
    have hcount : pages.count page + [tailPage cfg l].count page =
        l.pages.count page + (new :: rest).count page := by
      have hmem : 0 < l.pages.count l.pages[l.materializedTokens / cfg.pageSize] :=
        count_pos_iff.mpr (getElem_mem hindex)
      have hget : l.pages[l.materializedTokens / cfg.pageSize] = tailPage cfg l := by
        rw [getElem?_eq_getElem hindex] at hold
        exact Option.some.inj hold
      rw [hget] at hmem
      show (l.pages.set (l.materializedTokens / cfg.pageSize) new ++ rest).count page + _ = _
      rw [count_append, count_set hindex, hget, count_cons, count_cons,
        count_nil]
      by_cases heq : tailPage cfg l = page
      · subst heq
        simp only [beq_self_eq_true, if_true]
        omega
      · simp only [beq_eq_false_iff_ne.mpr heq, Bool.false_eq_true, if_false]
        omega
    omega
  refine ⟨h.set hl rfl htouched.nextLease (ha.congr fun page => ?_) (fun page hpage => ?_)
    (hinv.copied hlive htail (fun page hpage => held_ne_zero hl hpage) hlength hnodup hunheld hheld),
    .of_set hl rfl (fun hr => hr) (fun _ => ⟨le_rfl, fun pool hpool position hpos => ?_⟩)
    fun k lk _ hk hklive pool _ position hpos => htouched.content (hunheld new mem_cons_self)
      h hk hklive pool hpos⟩
  · have hsum := hheld page
    omega
  · rcases mem_append.mp hpage with hpage | hpage
    · rcases mem_or_eq_of_mem_set hpage with hpage | rfl
      · exact .inl hpage
      · exact .inr (hunheld _ mem_cons_self)
    · exact .inr (hunheld page (mem_cons_of_mem _ hpage))
  · have hlt : position / cfg.pageSize < l.pages.length := by
      rw [Nat.div_lt_iff_lt_mul cfg.pageSize_pos]
      exact hpos.trans_le (hinv.covered hlive).1
    show f₁.byteStorage pool (pages.getD (position / cfg.pageSize) 0) _ = _
    rw [getD_eq_getElem?_getD, getElem?_append_left (by rwa [length_set])]
    by_cases hi : position / cfg.pageSize = l.materializedTokens / cfg.pageSize
    · rw [hi, getElem?_set_self hindex, Option.getD_some, hcopied pool hpool]
      unfold contentAt tailPage
      rw [hi]
    · rw [getElem?_set_ne (Ne.symm hi), ← getD_eq_getElem?_getD]
      exact htouched.content (hunheld new mem_cons_self) h hl hlive pool hpos

theorem validate_ok (hl : f.leases.get? lease = some l) (hlive : l.released = false) :
    validate lease f = (.ok l, f) := by
  unfold validate
  simp only [bind_run, PyM.get_run, hl, raiseIf, hlive, Bool.false_eq_true, if_false, pure_run]

theorem reserve_spec (h : Inv cfg reserved f) (lease tokenCapacity : Nat) (fault : Option Nat) :
    wp (reserve cfg lease tokenCapacity fault)
      (fun _ f' =>
        Inv cfg (update reserved lease (max (reserved lease) tokenCapacity)) f' ∧
          Preserved cfg f f')
      (fun _ f' => Inv cfg reserved f' ∧ Preserved cfg f f') f := by
  unfold reserve
  rw [wp_bind]
  refine wp_mono (reservationPages_spec h lease tokenCapacity) ?_ fun _ f' he => ?_
  swap
  · subst he
    exact ⟨h, .refl _⟩
  rintro count f₁ ⟨rfl, l, hl, hlive, hcap, rfl⟩
  rw [wp_bind, onAllocator, wp_zoom]
  refine wp_mono (h.pages.allocatePages _) ?_ fun _ a he => ?_
  swap
  · rw [he.1]
    exact ⟨h, .refl _⟩
  rintro allocated a ⟨hallocated, -, -, -, ha⟩
  have hinv := h.lease lease l hl
  rw [wp_bind, wp_of_ok (validate_ok (f := { f₁ with allocator := a }) hl hlive)]
  dsimp only
  split
  · next hmore =>
    have hcopy : CopiesTail cfg f₁ l tokenCapacity := by
      by_contra hno
      unfold reservationCost at hmore
      rw [if_neg hno] at hmore
      omega
    have hcost : reservationCost cfg f₁ l tokenCapacity =
        requiredPages cfg tokenCapacity - l.pages.length + 1 := by
      unfold reservationCost
      rw [if_pos hcopy]
    have hold := hinv.getElem?_tail hlive hcopy.1
    have hlength := hallocated.length.trans hcost
    have hunheld := hallocated.unheld
    have hnodup := hallocated.nodup
    cases allocated with
    | nil => cases hlength
    | cons new rest =>
      have hne : tailPage cfg l ≠ new := by
        intro heq
        exact held_ne_zero hl (mem_of_getElem? hold) (heq ▸ hunheld new mem_cons_self)
      have hstart : Touched new f₁ f₁ := ⟨rfl, rfl, rfl, fun _ _ _ => rfl⟩
      rw [wp_bind, pageAt, hold]
      dsimp only
      rw [wp_pure, wp_bind, pageAt, getElem?_cons_zero]
      dsimp only
      rw [wp_pure, wp_bind, wp_tryExcept]
      refine wp_mono (copyPools_spec fault hne (List.range cfg.pools)
        { f₁ with allocator := a } nodup_range) ?_ fun e f₂ htouched => ?_
      · rintro - f₂ ⟨htouched, hcopied, -⟩
        have htouched' : Touched new f₁ { f₂ with allocator := f₁.allocator } :=
          ⟨htouched.leases, htouched.nextLease, rfl, htouched.storage⟩
        have hallocator : f₂.allocator = a := htouched.allocator
        have hone : ∀ page, [tailPage cfg l].count page ≤ held f₁ page + (new :: rest).count page := by
          intro page
          have hle := count_le_held hl page
          have hmem := mem_of_getElem? hold
          by_cases heq : page = tailPage cfg l
          · have hpos := count_pos_iff.mpr hmem
            rw [heq] at hle ⊢
            rw [count_singleton_self]
            omega
          · rw [count_eq_zero.mpr fun hmem => heq (mem_singleton.mp hmem)]
            exact Nat.zero_le _
        rw [wp_bind, wp_modify, wp_bind, onAllocator, wp_zoom]
        dsimp only [setLease]
        rw [hallocator]
        refine wp_mono (ha.releasePages hone) ?_ fun _ _ hf => hf.elim
        rintro - a₂ ⟨-, -, -, ha₂⟩
        rw [wp_modify]
        have hresult := h.copy hl hlive hcopy.1 (Nat.succ.inj hlength) hnodup hunheld htouched'
          (fun pool hpool => hcopied pool (mem_range.mpr hpool)) ha₂
        dsimp only [setLease, drop_succ_cons, drop_zero] at hresult ⊢
        have hleases : f₂.leases = f₁.leases := htouched.leases
        rw [hleases, Dict.set_set]
        exact hresult
      · rw [wp_bind, onAllocator, wp_zoom]
        have hallocator : f₂.allocator = a := htouched.allocator
        rw [hallocator]
        refine wp_mono (ha.releasePages fun page => Nat.le_add_left _ _) ?_ fun _ _ hf => hf.elim
        rintro - a₂ ⟨-, -, -, ha₂⟩
        rw [wp_raise]
        have htouched' : Touched new f₁ { f₂ with allocator := f₁.allocator } :=
          ⟨htouched.leases, htouched.nextLease, rfl, htouched.storage⟩
        refine ⟨h.of_same htouched.leases htouched.nextLease
          (ha₂.congr fun page => (Nat.add_sub_cancel _ _).symm), .of_storage htouched.leases ?_⟩
        intro k lk hk hklive pool _ position hpos
        exact htouched'.content (hunheld new mem_cons_self) h hk hklive pool hpos
  · next hless =>
    rw [wp_modify]
    refine h.extend hl hlive ?_ hallocated ha
    exact le_antisymm (not_lt.mp hless) (Nat.le_add_right _ _)

theorem Inv.writable (h : Inv cfg reserved f) (hl : f.leases.get? lease = some l)
    (hlive : l.released = false) {position : Nat} (hfrom : l.materializedTokens ≤ position)
    (hto : position < reserved lease) :
    ∃ page, l.pages[position / cfg.pageSize]? = some page ∧ held f page = 1 := by
  have hinv := h.lease lease l hl
  have hlt : position / cfg.pageSize < l.pages.length := by
    rw [Nat.div_lt_iff_lt_mul cfg.pageSize_pos]
    exact hto.trans_le (hinv.covered hlive).2
  refine ⟨_, getElem?_eq_getElem hlt, hinv.exclusive _ _ (getElem?_eq_getElem hlt) ?_⟩
  rcases Nat.lt_or_ge (position / cfg.pageSize * cfg.pageSize) l.materializedTokens with hmore | hless
  · refine .inr ⟨hfrom.trans_lt hto, le_antisymm ?_ (Nat.div_le_div_right hfrom)⟩
    exact (Nat.le_div_iff_mul_le cfg.pageSize_pos).mpr hmore.le
  · exact .inl hless

theorem writeToken_spec (h : Inv cfg reserved f) (hl : f.leases.get? lease = some l)
    (hlive : l.released = false) (pool : Nat) {position : Nat} (value : β)
    (hfrom : l.materializedTokens ≤ position) (hto : position < reserved lease) :
    wp (writeToken cfg lease pool position value)
      (fun _ f' => Inv cfg reserved f' ∧ Preserved cfg f f') (fun _ _ => False) f := by
  have hinv := h.lease lease l hl
  obtain ⟨page, hpage, hone⟩ := h.writable hl hlive hfrom hto
  have hcovered : position + 1 ≤ l.pages.length * cfg.pageSize :=
    (Nat.succ_le_of_lt hto).trans (hinv.covered hlive).2
  have hslots : slotsOf cfg l.pages position (position + 1) =
      [page * cfg.pageSize + position % cfg.pageSize] := by
    unfold slotsOf
    rw [Nat.add_sub_cancel_left, range'_one, map_singleton, getD_eq_getElem?_getD,
      hpage, Option.getD_some]
  have hmod := Nat.mod_lt position cfg.pageSize_pos
  have hdivSlot : (page * cfg.pageSize + position % cfg.pageSize) / cfg.pageSize = page := by
    rw [Nat.mul_comm, Nat.mul_add_div cfg.pageSize_pos, Nat.div_eq_of_lt hmod, Nat.add_zero]
  have hmodSlot : (page * cfg.pageSize + position % cfg.pageSize) % cfg.pageSize =
      position % cfg.pageSize := by
    rw [Nat.mul_comm, Nat.mul_add_mod, Nat.mod_mod]
  unfold writeToken physicalSlots
  rw [wp_bind, wp_bind, wp_of_ok (validate_ok hl hlive), wp_bind, wp_raiseIf]
  refine ⟨fun hno => hno ⟨Nat.le_succ _, hcovered⟩, fun _ => ?_⟩
  rw [wp_pure, hslots, forEach, wp_bind, wp_modify, forEach, wp_pure]
  refine ⟨h.of_same rfl rfl h.pages, .of_storage rfl fun k lk hk hklive q _ other hpos => ?_⟩
  have hkinv := h.lease k lk hk
  have hlt : other / cfg.pageSize < lk.pages.length := by
    rw [Nat.div_lt_iff_lt_mul cfg.pageSize_pos]
    exact hpos.trans_le (hkinv.covered hklive).1
  have hget : lk.pages[other / cfg.pageSize]? = some (lk.pages.getD (other / cfg.pageSize) 0) := by
    rw [getD_eq_getElem?_getD, getElem?_eq_getElem hlt, Option.getD_some]
  unfold contentAt storeSlot
  dsimp only
  rw [hdivSlot, hmodSlot]
  by_cases hq : q = pool
  · subst hq
    rw [update_self]
    by_cases hsame : lk.pages.getD (other / cfg.pageSize) 0 = page
    · -- The page is the writer's own, so the position is one of its earlier ones.
      rw [hsame] at hget ⊢
      have hk' : k = lease := by
        by_contra hne
        exact not_mem_of_held_one hne hk hl (mem_of_getElem? hpage) hone
          (mem_of_getElem? hget)
      subst hk'
      rw [hl] at hk
      cases hk
      have hdiv := (getElem?_inj hlt hinv.nodup).mp (hget.trans hpage.symm)
      have hoffset : other % cfg.pageSize ≠ position % cfg.pageSize := by
        intro heq
        have hother := Nat.div_add_mod other cfg.pageSize
        have hposition := Nat.div_add_mod position cfg.pageSize
        rw [hdiv, heq, hposition] at hother
        omega
      rw [update_self, update_of_ne hoffset]
    · rw [update_of_ne hsame]
  · rw [update_of_ne hq]

end

end CompressedKVFamily

end SparseEngine
