import SparseEngine.Mixed.Transfers
import SparseEngine.PrefixCache.Runs

/-! A block with a D2H transfer is reserved for a copy to the host. -/

namespace SparseEngine.MixedBackups

open RadixPrefixIndex List Finset

variable {ι κ : Type} [LinearOrder ι]

abbrev Blocks (ι κ : Type) [LinearOrder ι] := Dict ι (MixedBlock ι κ)

/-- `c` is what the index stores for the object `b`. -/
def Live (blocks : Blocks ι κ) (b c : MixedBlock ι κ) : Prop :=
  blocks.get? b.stableBlockId = some c ∧ c.objectId = b.objectId

/-- The block `x` is in host memory. -/
def HostPresent (blocks : Blocks ι κ) (x : ι) : Prop :=
  ∃ c, blocks.get? x = some c ∧ c.residency.hostPresent = true

/-- The block `x` is in host memory. -/
def HostOwns (blocks : Blocks ι κ) (x : ι) (i : Nat) : Prop :=
  ∃ c, blocks.get? x = some c ∧ c.residency.hostPresent = true ∧
    c.payload.hostBlockIndex = some i

def names (queue : List (MixedBlock ι κ)) : List ι := queue.map (·.stableBlockId)

omit [LinearOrder ι] in
@[simp] theorem names_nil : names ([] : List (MixedBlock ι κ)) = [] := rfl

omit [LinearOrder ι] in
@[simp] theorem names_cons (b : MixedBlock ι κ) (queue : List (MixedBlock ι κ)) :
    names (b :: queue) = b.stableBlockId :: names queue := rfl

omit [LinearOrder ι] in
@[simp] theorem names_append (q q' : List (MixedBlock ι κ)) :
    names (q ++ q') = names q ++ names q' := map_append

omit [LinearOrder ι] in
theorem mem_names {b : MixedBlock ι κ} {queue : List (MixedBlock ι κ)} (h : b ∈ queue) :
    b.stableBlockId ∈ names queue := mem_map_of_mem h

/-- The queue holds the blocks with a D2H transfer, each once. -/
structure Marked (blocks : Blocks ι κ) (queue : List (MixedBlock ι κ)) : Prop where
  nodup : (names queue).Nodup
  live : ∀ b ∈ queue, ∃ c, Live blocks b c ∧ c.residency.transfer = some .d2h
  covers : ∀ x c, blocks.get? x = some c → c.residency.transfer = some .d2h → x ∈ names queue

def ParentFirst (blocks : Blocks ι κ) (queue : List (MixedBlock ι κ)) : Prop :=
  ∀ before b after p, queue = before ++ b :: after →
    parentMap blocks b.stableBlockId = some (some p) → HostPresent blocks p ∨ p ∈ names before

/-- A host index is free, reserved or owned by one block. -/
structure Accounted (blocks : Blocks ι κ) (free : List Nat) (allocated : Finset Nat)
    (reserved : List Nat) : Prop where
  freeNodup : free.Nodup
  freeOut : ∀ i ∈ free, i ∉ allocated
  reservedNodup : reserved.Nodup
  owned : ∀ x, HostPresent blocks x → ∃ i, HostOwns blocks x i
  apart : ∀ x y i, HostOwns blocks x i → HostOwns blocks y i → x = y
  outside : ∀ x i, HostOwns blocks x i → i ∉ reserved
  exact : ∀ i, i ∈ allocated ↔ i ∈ reserved ∨ ∃ x, HostOwns blocks x i

structure Kept (blocks blocks' : Blocks ι κ) : Prop where
  hosts : ∀ x, HostPresent blocks' x ↔ HostPresent blocks x
  parents : parentMap blocks' = parentMap blocks

theorem Kept.refl (blocks : Blocks ι κ) : Kept blocks blocks := ⟨fun _ => .rfl, rfl⟩

theorem Kept.trans {blocks blocks' blocks'' : Blocks ι κ} (h : Kept blocks blocks')
    (h' : Kept blocks' blocks'') : Kept blocks blocks'' :=
  ⟨fun x => (h'.hosts x).trans (h.hosts x), h'.parents.trans h.parents⟩

section

variable {blocks : Blocks ι κ} {x : ι} {c c' : MixedBlock ι κ} {queue : List (MixedBlock ι κ)}
  {free reserved : List Nat} {allocated : Finset Nat}

theorem hostPresent_set {y : ι} : HostPresent (blocks.set x c') y ↔
    if y = x then c'.residency.hostPresent = true else HostPresent blocks y := by
  unfold HostPresent
  split
  · next h => subst h; simp
  · next h => rw [Dict.get?_set_ne _ _ h]

theorem hostOwns_set {y : ι} {i : Nat} : HostOwns (blocks.set x c') y i ↔
    if y = x then c'.residency.hostPresent = true ∧ c'.payload.hostBlockIndex = some i
    else HostOwns blocks y i := by
  unfold HostOwns
  split
  · next h => subst h; simp
  · next h => rw [Dict.get?_set_ne _ _ h]

theorem hostPresent_iff (hc : blocks.get? x = some c) :
    HostPresent blocks x ↔ c.residency.hostPresent = true := by
  simp [HostPresent, hc]

theorem Kept.set (hc : blocks.get? x = some c) (hp : c'.parentBlockId = c.parentBlockId)
    (hh : c'.residency.hostPresent = c.residency.hostPresent) :
    Kept blocks (blocks.set x c') := by
  refine ⟨fun y => ?_, parentMap_set_old hc hp⟩
  rw [hostPresent_set]
  split
  · next h => rw [h, hostPresent_iff hc, hh]
  · exact .rfl

theorem Accounted.set (h : Accounted blocks free allocated reserved)
    (hc : blocks.get? x = some c)
    (hh : c'.residency.hostPresent = c.residency.hostPresent)
    (hi : c.residency.hostPresent = true →
      c'.payload.hostBlockIndex = c.payload.hostBlockIndex) :
    Accounted (blocks.set x c') free allocated reserved := by
  have owns : ∀ y i, HostOwns (blocks.set x c') y i ↔ HostOwns blocks y i := by
    intro y i
    rw [hostOwns_set]
    split
    · next hy =>
      subst hy
      constructor
      · rintro ⟨hp, hidx⟩
        have hp : c.residency.hostPresent = true := hh ▸ hp
        exact ⟨c, hc, hp, hi hp ▸ hidx⟩
      · rintro ⟨d, hd, hp, hidx⟩
        rw [hc] at hd
        cases hd
        exact ⟨hh ▸ hp, (hi hp).trans hidx⟩
    · exact .rfl
  refine ⟨h.freeNodup, h.freeOut, h.reservedNodup, fun y hy => ?_, fun y z i hy hz => ?_,
    fun y i hy => ?_, fun i => ?_⟩
  · have hy : HostPresent blocks y := by
      rw [hostPresent_set] at hy
      split at hy
      · next he => rw [he, hostPresent_iff hc, ← hh]; exact hy
      · exact hy
    obtain ⟨i, hi⟩ := h.owned y hy
    exact ⟨i, (owns y i).mpr hi⟩
  · exact h.apart y z i ((owns y i).mp hy) ((owns z i).mp hz)
  · exact h.outside y i ((owns y i).mp hy)
  · simp only [owns]
    exact h.exact i

theorem Accounted.finish {i : Nat} (h : Accounted blocks free allocated (i :: reserved))
    (hc : blocks.get? x = some c) (hh : c.residency.hostPresent = false)
    (hh' : c'.residency.hostPresent = true) (hi : c'.payload.hostBlockIndex = some i) :
    Accounted (blocks.set x c') free allocated reserved := by
  have hnodup := nodup_cons.mp h.reservedNodup
  have old : ∀ j, ¬ HostOwns blocks x j := by
    rintro j ⟨d, hd, hp, -⟩
    rw [hc] at hd
    cases hd
    simp [hh] at hp
  have owns : ∀ y j, HostOwns (blocks.set x c') y j ↔ (y = x ∧ j = i) ∨ HostOwns blocks y j := by
    intro y j
    rw [hostOwns_set]
    split
    · next hy =>
      subst hy
      simp [hh', hi, old, eq_comm]
    · next hy => simp [hy]
  have fresh : ∀ y, ¬ HostOwns blocks y i := fun y hy =>
    h.outside y i hy mem_cons_self
  refine ⟨h.freeNodup, h.freeOut, hnodup.2, fun y hy => ?_, fun y z j hy hz => ?_,
    fun y j hy => ?_, fun j => ?_⟩
  · rw [hostPresent_set] at hy
    split at hy
    · next he => exact ⟨i, (owns y i).mpr (Or.inl ⟨he, rfl⟩)⟩
    · obtain ⟨j, hj⟩ := h.owned y hy
      exact ⟨j, (owns y j).mpr (Or.inr hj)⟩
  · rcases (owns y j).mp hy with ⟨hyx, hj⟩ | hy'
    · rcases (owns z j).mp hz with ⟨hzx, -⟩ | hz'
      · exact hyx.trans hzx.symm
      · exact (fresh z (hj ▸ hz')).elim
    · rcases (owns z j).mp hz with ⟨-, hj⟩ | hz'
      · exact (fresh y (hj ▸ hy')).elim
      · exact h.apart y z j hy' hz'
  · rcases (owns y j).mp hy with ⟨-, rfl⟩ | hy
    · exact hnodup.1
    · exact fun hj => h.outside y j hy (List.mem_cons_of_mem i hj)
  · rw [h.exact j, List.mem_cons]
    constructor
    · rintro ((rfl | hj) | ⟨y, hy⟩)
      · exact Or.inr ⟨x, (owns x j).mpr (Or.inl ⟨rfl, rfl⟩)⟩
      · exact Or.inl hj
      · exact Or.inr ⟨y, (owns y j).mpr (Or.inr hy)⟩
    · rintro (hj | ⟨y, hy⟩)
      · exact Or.inl (Or.inr hj)
      · rcases (owns y j).mp hy with ⟨-, rfl⟩ | hy
        · exact Or.inl (Or.inl rfl)
        · exact Or.inr ⟨y, hy⟩

theorem Marked.push (h : Marked blocks queue) {b : MixedBlock ι κ} (hb : Live blocks b c)
    (ht : c.residency.transfer = none) (ho : c'.objectId = c.objectId)
    (ht' : c'.residency.transfer = some .d2h) :
    Marked (blocks.set b.stableBlockId c') (queue ++ [b]) := by
  have hnew : b.stableBlockId ∉ names queue := by
    intro hmem
    obtain ⟨d, hd, hid⟩ := mem_map.mp hmem
    obtain ⟨e, ⟨he, -⟩, hte⟩ := h.live d hd
    rw [hid, hb.1] at he
    cases he
    rw [ht] at hte
    cases hte
  refine ⟨?_, fun d hd => ?_, fun y e hy hte => ?_⟩
  · rw [names_append, nodup_append]
    refine ⟨h.nodup, by simp [names], fun y hy z hz => ?_⟩
    rintro rfl
    simp only [names_cons, names_nil, List.mem_singleton] at hz
    exact hnew (hz ▸ hy)
  · rcases List.mem_append.mp hd with hd | hd
    · obtain ⟨e, ⟨he, heo⟩, hte⟩ := h.live d hd
      have hne : d.stableBlockId ≠ b.stableBlockId := fun heq => hnew (heq ▸ mem_names hd)
      exact ⟨e, ⟨by rw [Dict.get?_set_ne _ _ hne]; exact he, heo⟩, hte⟩
    · rw [List.mem_singleton.mp hd]
      exact ⟨c', ⟨Dict.get?_set_self _ _ _, ho.trans hb.2⟩, ht'⟩
  · by_cases hx : y = b.stableBlockId
    · simp [hx]
    · rw [Dict.get?_set_ne _ _ hx] at hy
      rw [names_append]
      exact mem_append_left _ (h.covers y e hy hte)

theorem Marked.drop (before after : List (MixedBlock ι κ)) {b : MixedBlock ι κ}
    (h : Marked blocks (before ++ b :: after)) (ht' : c'.residency.transfer = none) :
    Marked (blocks.set b.stableBlockId c') (before ++ after) := by
  have hnodup : b.stableBlockId ∉ names (before ++ after) ∧ (names (before ++ after)).Nodup := by
    have := h.nodup
    rw [names_append, names_cons, nodup_middle, nodup_cons] at this
    rwa [names_append]
  refine ⟨hnodup.2, fun d hd => ?_, fun y e hy hte => ?_⟩
  · have hmem : d ∈ before ++ b :: after := by
      rcases List.mem_append.mp hd with hd | hd
      · exact mem_append_left _ hd
      · exact mem_append_right _ (List.mem_cons_of_mem b hd)
    obtain ⟨e, ⟨he, heo⟩, hte⟩ := h.live d hmem
    have hne : d.stableBlockId ≠ b.stableBlockId := fun heq => hnodup.1 (heq ▸ mem_names hd)
    exact ⟨e, ⟨by rw [Dict.get?_set_ne _ _ hne]; exact he, heo⟩, hte⟩
  · by_cases hx : y = b.stableBlockId
    · subst hx
      rw [Dict.get?_set_self] at hy
      cases hy
      rw [ht'] at hte
      cases hte
    · rw [Dict.get?_set_ne _ _ hx] at hy
      have := h.covers y e hy hte
      rw [names_append, names_cons, List.mem_append, List.mem_cons] at this
      rw [names_append, List.mem_append]
      rcases this with hb | hxb | ha
      · exact Or.inl hb
      · exact (hx hxb).elim
      · exact Or.inr ha

theorem Marked.set (h : Marked blocks queue) (hc : blocks.get? x = some c)
    (ho : c'.objectId = c.objectId)
    (ht : c'.residency.transfer = some .d2h ↔ c.residency.transfer = some .d2h) :
    Marked (blocks.set x c') queue := by
  refine ⟨h.nodup, fun d hd => ?_, fun y e hy hte => ?_⟩
  · obtain ⟨e, ⟨he, heo⟩, hte⟩ := h.live d hd
    by_cases hx : d.stableBlockId = x
    · rw [hx, hc] at he
      cases he
      exact ⟨c', ⟨by rw [hx]; exact Dict.get?_set_self _ _ _, ho.trans heo⟩, ht.mpr hte⟩
    · exact ⟨e, ⟨by rw [Dict.get?_set_ne _ _ hx]; exact he, heo⟩, hte⟩
  · by_cases hx : y = x
    · subst hx
      rw [Dict.get?_set_self] at hy
      cases hy
      exact h.covers y c hc (ht.mp hte)
    · rw [Dict.get?_set_ne _ _ hx] at hy
      exact h.covers y e hy hte

end

section

variable {blocks blocks' : Blocks ι κ} {queue : List (MixedBlock ι κ)} {b : MixedBlock ι κ}

theorem ParentFirst.nil : ParentFirst blocks ([] : List (MixedBlock ι κ)) :=
  fun before b after p h => by simp at h

theorem ParentFirst.mono (h : ParentFirst blocks queue)
    (hosts : ∀ x, HostPresent blocks x → HostPresent blocks' x)
    (parents : parentMap blocks' = parentMap blocks) : ParentFirst blocks' queue :=
  fun before b after p hq hp =>
    (h before b after p hq (parents ▸ hp)).imp (hosts p) id

theorem ParentFirst.push (h : ParentFirst blocks queue)
    (hb : ∀ p, parentMap blocks b.stableBlockId = some (some p) →
      HostPresent blocks p ∨ p ∈ names queue) : ParentFirst blocks (queue ++ [b]) := by
  intro before d after p hq hp
  rcases eq_nil_or_concat after with rfl | ⟨rest, last, rfl⟩
  · obtain ⟨rfl, hd⟩ := append_inj' hq rfl
    obtain rfl : b = d := by simpa using hd
    exact hb p hp
  · have hq' : queue ++ [b] = (before ++ d :: rest) ++ [last] := by
      rw [hq]; simp
    obtain ⟨rfl, -⟩ := append_inj' hq' rfl
    exact h before d rest p rfl hp

theorem ParentFirst.head (h : ParentFirst blocks (b :: queue)) {p : ι}
    (hp : parentMap blocks b.stableBlockId = some (some p)) : HostPresent blocks p := by
  simpa using h [] b queue p rfl hp

theorem ParentFirst.tail (h : ParentFirst blocks (b :: queue))
    (hosts : ∀ x, HostPresent blocks x → HostPresent blocks' x)
    (hb : HostPresent blocks' b.stableBlockId) (parents : parentMap blocks' = parentMap blocks) :
    ParentFirst blocks' queue := by
  intro before d after p hq hp
  rcases h (b :: before) d after p (by rw [hq]; rfl) (parents ▸ hp) with hh | hmem
  · exact Or.inl (hosts p hh)
  · rcases List.mem_cons.mp hmem with rfl | hmem
    · exact Or.inl hb
    · exact Or.inr hmem

end

section

variable {blocks : Blocks ι κ} {free reserved : List Nat} {allocated : Finset Nat}

theorem Accounted.perm {reserved' : List Nat} (h : Accounted blocks free allocated reserved)
    (hp : reserved.Perm reserved') : Accounted blocks free allocated reserved' where
  __ := h
  reservedNodup := hp.nodup_iff.mp h.reservedNodup
  outside := fun x i hx hi => h.outside x i hx (hp.mem_iff.mpr hi)
  exact := fun i => by rw [h.exact i, hp.mem_iff]

theorem Accounted.reserve {rest taken : List Nat}
    (h : Accounted blocks free allocated reserved) (hfree : free = rest ++ taken.reverse) :
    Accounted blocks rest (allocated ∪ taken.toFinset) (reserved ++ taken) := by
  subst hfree
  obtain ⟨hrest, htaken, hdisj⟩ := nodup_append.mp h.freeNodup
  have out : ∀ i ∈ taken, i ∉ allocated := fun i hi =>
    h.freeOut i (mem_append_right _ (mem_reverse.mpr hi))
  refine ⟨hrest, fun i hi hmem => ?_, ?_, h.owned, h.apart, fun x i hx hi => ?_, fun i => ?_⟩
  · rcases mem_union.mp hmem with ha | ht
    · exact h.freeOut i (mem_append_left _ hi) ha
    · exact hdisj i hi i (mem_reverse.mpr (mem_toFinset.mp ht)) rfl
  · refine nodup_append.mpr ⟨h.reservedNodup, nodup_reverse.mp htaken, ?_⟩
    rintro i hi j hj rfl
    exact out i hj ((h.exact i).mpr (Or.inl hi))
  · rcases List.mem_append.mp hi with hi | hi
    · exact h.outside x i hx hi
    · exact out i hi ((h.exact i).mpr (Or.inr ⟨x, hx⟩))
  · rw [mem_union, h.exact i, List.mem_append, mem_toFinset]
    tauto

theorem Accounted.release {indices : List Nat}
    (h : Accounted blocks free allocated (indices ++ reserved)) :
    Accounted blocks (free ++ indices) (allocated \ indices.toFinset) reserved := by
  obtain ⟨hind, hres, hdisj⟩ := nodup_append.mp h.reservedNodup
  have inside : ∀ i ∈ indices, i ∈ allocated := fun i hi =>
    (h.exact i).mpr (Or.inl (mem_append_left _ hi))
  refine ⟨?_, fun i hi hmem => ?_, hres, h.owned, h.apart,
    fun x i hx hi => h.outside x i hx (mem_append_right _ hi), fun i => ?_⟩
  · refine nodup_append.mpr ⟨h.freeNodup, hind, ?_⟩
    rintro i hi j hj rfl
    exact h.freeOut i hi (inside i hj)
  · rw [mem_sdiff, mem_toFinset] at hmem
    rcases List.mem_append.mp hi with hi | hi
    · exact h.freeOut i hi hmem.1
    · exact hmem.2 hi
  · rw [mem_sdiff, mem_toFinset, h.exact i, List.mem_append]
    constructor
    · rintro ⟨(hi | hi) | hx, hno⟩
      · exact (hno hi).elim
      · exact Or.inl hi
      · exact Or.inr hx
    · rintro (hi | ⟨x, hx⟩)
      · exact ⟨Or.inl (Or.inr hi), fun hi' => hdisj i hi' i hi rfl⟩
      · exact ⟨Or.inr ⟨x, hx⟩, fun hi' => h.outside x i hx (mem_append_left _ hi')⟩

end

end SparseEngine.MixedBackups
