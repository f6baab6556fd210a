import SparseEngine.CacheManager.TransferMemory

/-! The memory of the manager with its blocks in flight. -/

namespace SparseEngine

open List Function Finset Option

variable {ι V : Type}

/-- A transfer in flight: block and host index, then the two token vectors. -/
structure KvTransfer (ι : Type) where
  entries : List (ι × Nat)
  deviceTokenIndices : List Nat
  hostTokenIndices : List Nat

/-- The payloads, both memories and who may use their cells. -/
structure KvState (ι V : Type) where
  payloads : ι → Option StandardPrefixBlockPayload
  device : Nat → V
  host : Nat → V
  freeSlots : Finset Nat
  rowSlots : Finset Nat
  freeIndices : Finset Nat
  d2h : List (KvTransfer ι)
  h2d : List (KvTransfer ι)
  published : ι → Nat → V

def StandardPrefixBlockPayload.slots (payload : StandardPrefixBlockPayload) : List Nat :=
  payload.tokenSlots.getD []

namespace KvState

/-- No transfer of the block is in flight. -/
def Idle (s : KvState ι V) (id : ι) : Prop :=
  ∀ op ∈ s.d2h ++ s.h2d, id ∉ op.entries.map Prod.fst

def Promoting (s : KvState ι V) (id : ι) : Prop := ∃ op ∈ s.h2d, id ∈ op.entries.map Prod.fst

/-- Idle blocks, each once, with their payloads. -/
structure BatchOf (s : KvState ι V) (batch : List (ι × StandardPrefixBlockPayload)) : Prop where
  nodup : (batch.map Prod.fst).Nodup
  payloads : ∀ e ∈ batch, s.payloads e.1 = some e.2
  idle : ∀ e ∈ batch, s.Idle e.1

/-- The loop that writes the new payloads back. -/
def assign [DecidableEq ι] (payloads : ι → Option StandardPrefixBlockPayload) :
    List (ι × StandardPrefixBlockPayload) → ι → Option StandardPrefixBlockPayload
  | [] => payloads
  | e :: es => assign (update payloads e.1 (some e.2)) es

/-- `setattr(block.payload, "host_block_index", ...)` for each block of a backup. -/
def setHostIndices [DecidableEq ι] (payloads : ι → Option StandardPrefixBlockPayload) :
    List (ι × Nat) → ι → Option StandardPrefixBlockPayload
  | [] => payloads
  | e :: es => setHostIndices (update payloads e.1
      ((payloads e.1).map fun payload => { payload with hostBlockIndex := some e.2 })) es

/-- `_finish_d2h`. -/
def finishD2h [DecidableEq ι] (s : KvState ι V) (op : KvTransfer ι) (rest : List (KvTransfer ι)) : KvState ι V :=
  { s with
    d2h := rest
    host := copyInto s.host s.device
      ((op.deviceTokenIndices.zip op.hostTokenIndices).map Prod.swap)
    payloads := setHostIndices s.payloads op.entries }

def finishH2d (s : KvState ι V) (op : KvTransfer ι) (rest : List (KvTransfer ι)) : KvState ι V :=
  { s with
    h2d := rest
    device := copyInto s.device s.host (op.deviceTokenIndices.zip op.hostTokenIndices) }

end KvState

open KvState

/-- One step of the manager; a copy is in flight between its submission and its end. -/
inductive KvStep [DecidableEq ι] (blockSize : Nat) : KvState ι V → KvState ι V → Prop
  | take {s : KvState ι V} {xs : Finset Nat} : xs ⊆ s.freeSlots →
      KvStep blockSize s { s with freeSlots := s.freeSlots \ xs, rowSlots := s.rowSlots ∪ xs }
  | give {s : KvState ι V} {xs : Finset Nat} : xs ⊆ s.rowSlots →
      KvStep blockSize s { s with freeSlots := s.freeSlots ∪ xs, rowSlots := s.rowSlots \ xs }
  | compute {s : KvState ι V} {x : Nat} {v : V} : x ∈ s.rowSlots →
      KvStep blockSize s { s with device := update s.device x v }
  | publish {s : KvState ι V} {id : ι} {slots : List Nat} : s.payloads id = none → slots.Nodup →
      slots.toFinset ⊆ s.rowSlots → slots.length = blockSize →
      KvStep blockSize s { s with
        rowSlots := s.rowSlots \ slots.toFinset
        payloads := update s.payloads id
          (some (StandardCacheManager.makePrefixBlockPayload slots))
        published := update s.published id fun offset => s.device (slots.getD offset 0) }
  | submitD2h {s : KvState ι V} {batch : List (ι × StandardPrefixBlockPayload)}
      {hostIndices devices hosts : List Nat} : s.BatchOf batch →
      (∀ e ∈ batch, e.2.tokenSlots.isSome = true ∧ e.2.hostBlockIndex = none) → hostIndices.Nodup →
      hostIndices.toFinset ⊆ s.freeIndices → hostIndices.length = batch.length →
      transferVectors blockSize ((batch.map Prod.snd).zip hostIndices) = .ok (devices, hosts) →
      devices ≠ [] →
      KvStep blockSize s { s with
        freeIndices := s.freeIndices \ hostIndices.toFinset
        d2h := s.d2h ++ [⟨(batch.map Prod.fst).zip hostIndices, devices, hosts⟩] }
  | backupEmpty {s : KvState ι V} {batch : List (ι × StandardPrefixBlockPayload)}
      {hostIndices hosts : List Nat} : s.BatchOf batch →
      (∀ e ∈ batch, e.2.tokenSlots.isSome = true ∧ e.2.hostBlockIndex = none) → hostIndices.Nodup →
      hostIndices.toFinset ⊆ s.freeIndices → hostIndices.length = batch.length →
      transferVectors blockSize ((batch.map Prod.snd).zip hostIndices) = .ok ([], hosts) →
      KvStep blockSize s { s with
        freeIndices := s.freeIndices \ hostIndices.toFinset
        payloads := setHostIndices s.payloads ((batch.map Prod.fst).zip hostIndices) }
  | failD2h {s : KvState ι V} {batch : List (ι × StandardPrefixBlockPayload)}
      {hostIndices devices hosts : List Nat} {host : Nat → V} : s.BatchOf batch →
      (∀ e ∈ batch, e.2.tokenSlots.isSome = true ∧ e.2.hostBlockIndex = none) →
      hostIndices.toFinset ⊆ s.freeIndices → hostIndices.length = batch.length →
      transferVectors blockSize ((batch.map Prod.snd).zip hostIndices) = .ok (devices, hosts) →
      (∀ x, x ∉ hosts → host x = s.host x) → KvStep blockSize s { s with host := host }
  | finishD2h {s : KvState ι V} {op : KvTransfer ι} {rest : List (KvTransfer ι)} :
      s.d2h = op :: rest → KvStep blockSize s (s.finishD2h op rest)
  | submitH2d {s : KvState ι V} {batch : List (ι × StandardPrefixBlockPayload)}
      {assigned : List StandardPrefixBlockPayload} {slots devices hosts : List Nat} :
      s.BatchOf batch →
      (∀ e ∈ batch, e.2.tokenSlots = none ∧ e.2.hostBlockIndex.isSome = true) → slots.Nodup →
      slots.toFinset ⊆ s.freeSlots → slots.length = promotionSlotCount blockSize (batch.map Prod.snd) →
      assigned = assignSlices blockSize (batch.map Prod.snd) slots →
      transferVectors blockSize (assigned.map fun p => (p, p.hostBlockIndex.getD 0)) =
        .ok (devices, hosts) →
      KvStep blockSize s { s with
        freeSlots := s.freeSlots \ slots.toFinset
        payloads := assign s.payloads ((batch.map Prod.fst).zip assigned)
        h2d :=
          let entries := (((batch.map Prod.fst).zip assigned).filter fun e => !e.2.slots.isEmpty).map
            fun e => (e.1, e.2.hostBlockIndex.getD 0)
          if entries.isEmpty then s.h2d else s.h2d ++ [⟨entries, devices, hosts⟩] }
  | failH2d {s : KvState ι V} {batch : List (ι × StandardPrefixBlockPayload)}
      {slots devices hosts : List Nat} {device : Nat → V} : s.BatchOf batch →
      (∀ e ∈ batch, e.2.tokenSlots = none ∧ e.2.hostBlockIndex.isSome = true) →
      slots.toFinset ⊆ s.freeSlots → slots.length = promotionSlotCount blockSize (batch.map Prod.snd) →
      transferVectors blockSize ((assignSlices blockSize (batch.map Prod.snd) slots).map
        fun p => (p, p.hostBlockIndex.getD 0)) = .ok (devices, hosts) →
      (∀ x, x ∉ devices → device x = s.device x) → KvStep blockSize s { s with device := device }
  | finishH2d {s : KvState ι V} {op : KvTransfer ι} {rest : List (KvTransfer ι)} :
      s.h2d = op :: rest → KvStep blockSize s (s.finishH2d op rest)
  | prune {s : KvState ι V} {batch : List (ι × StandardPrefixBlockPayload)} {selected : List Int}
      {pruned : List StandardPrefixBlockPayload} {dropped : List Nat} : s.BatchOf batch →
      prunePayloads blockSize selected (batch.map Prod.snd) = .ok (pruned, dropped) →
      KvStep blockSize s { s with
        freeSlots := s.freeSlots ∪ dropped.toFinset
        payloads := assign s.payloads ((batch.map Prod.fst).zip pruned) }
  | demote {s : KvState ι V} {id : ι} {payload : StandardPrefixBlockPayload} :
      s.payloads id = some payload → s.Idle id → payload.hostBlockIndex.isSome = true →
      KvStep blockSize s { s with
        freeSlots := s.freeSlots ∪ payload.slots.toFinset
        payloads := update s.payloads id (some { payload with tokenSlots := none }) }
  | remove {s : KvState ι V} {id : ι} {payload : StandardPrefixBlockPayload} :
      s.payloads id = some payload → s.Idle id →
      KvStep blockSize s { s with
        freeSlots := s.freeSlots ∪ payload.slots.toFinset
        freeIndices := s.freeIndices ∪ payload.hostBlockIndex.toFinset
        payloads := update s.payloads id none }

/-- No block, no row and no copy in flight. -/
structure KvInitial (s : KvState ι V) : Prop where
  payloads : ∀ id, s.payloads id = none
  rows : s.rowSlots = ∅
  d2h : s.d2h = []
  h2d : s.h2d = []

inductive KvReachable [DecidableEq ι] (blockSize : Nat) : KvState ι V → Prop
  | start {s : KvState ι V} : KvInitial s → KvReachable blockSize s
  | step {s s' : KvState ι V} : KvReachable blockSize s → KvStep blockSize s s' →
      KvReachable blockSize s'

namespace KvState

variable {id : ι}

theorem assign_of_not_mem [DecidableEq ι] : ∀ (es : List (ι × StandardPrefixBlockPayload))
    (payloads : ι → Option StandardPrefixBlockPayload), id ∉ es.map Prod.fst →
    assign payloads es id = payloads id
  | [], _, _ => rfl
  | e :: es, payloads, outside => by
    rw [List.map_cons, List.mem_cons, not_or] at outside
    rw [assign, assign_of_not_mem es _ outside.2, Function.update_of_ne outside.1]

theorem assign_of_mem [DecidableEq ι] {p : StandardPrefixBlockPayload} :
    ∀ (es : List (ι × StandardPrefixBlockPayload))
      (payloads : ι → Option StandardPrefixBlockPayload), (es.map Prod.fst).Nodup →
      (id, p) ∈ es → assign payloads es id = some p
  | [], _, _, present => by cases present
  | e :: es, payloads, nodup, present => by
    rw [List.map_cons, List.nodup_cons] at nodup
    rcases List.mem_cons.mp present with rfl | present
    · rw [assign, assign_of_not_mem es _ nodup.1, Function.update_self]
    · exact assign_of_mem es _ nodup.2 present

theorem setHostIndices_get [DecidableEq ι] : ∀ (es : List (ι × Nat))
    (payloads : ι → Option StandardPrefixBlockPayload),
    (id ∉ es.map Prod.fst ∧ setHostIndices payloads es id = payloads id) ∨
      ∃ h, (id, h) ∈ es ∧ setHostIndices payloads es id =
        (payloads id).map fun payload => { payload with hostBlockIndex := some h }
  | [], _ => Or.inl ⟨by simp, rfl⟩
  | e :: es, payloads => by
    rw [setHostIndices]
    rcases setHostIndices_get es (update payloads e.1
      ((payloads e.1).map fun payload => { payload with hostBlockIndex := some e.2 })) with
      ⟨outside, heq⟩ | ⟨h, present, heq⟩
    · by_cases hid : id = e.1
      · refine Or.inr ⟨e.2, by rw [hid]; exact List.mem_cons_self, ?_⟩
        rw [heq, hid, Function.update_self]
      · refine Or.inl ⟨?_, by rw [heq, Function.update_of_ne hid]⟩
        rw [List.map_cons, List.mem_cons, not_or]
        exact ⟨hid, outside⟩
    · refine Or.inr ⟨h, List.mem_cons_of_mem e present, ?_⟩
      rw [heq]
      by_cases hid : id = e.1
      · rw [hid, Function.update_self, Option.map_map]
        rfl
      · rw [Function.update_of_ne hid]

end KvState

/-- The device and host cells that one entry copies between. -/
def entryPairs (blockSize : Nat) (payloads : ι → Option StandardPrefixBlockPayload)
    (e : ι × Nat) : List (Nat × Nat) :=
  match payloads e.1 with
  | none => []
  | some payload => blockPairs blockSize payload e.2

/-- The copy is between the slots and the host blocks of its entries. -/
structure Moves (blockSize : Nat) (payloads : ι → Option StandardPrefixBlockPayload)
    (op : KvTransfer ι) : Prop where
  present : ∀ e ∈ op.entries, ∃ p, payloads e.1 = some p ∧ p.tokenSlots.isSome = true
  pairs : op.deviceTokenIndices.zip op.hostTokenIndices =
    op.entries.flatMap (entryPairs blockSize payloads)

/-- The payloads hold the same cells. -/
def SameKv (p p' : StandardPrefixBlockPayload) : Prop :=
  p'.tokenSlots = p.tokenSlots ∧ p'.retainedOffsets = p.retainedOffsets

theorem Moves.congr {blockSize : Nat} {payloads payloads' : ι → Option StandardPrefixBlockPayload}
    {op : KvTransfer ι} (h : Moves blockSize payloads op)
    (same : ∀ id ∈ op.entries.map Prod.fst, ∀ p, payloads id = some p →
      ∃ p', payloads' id = some p' ∧ SameKv p p') : Moves blockSize payloads' op := by
  refine ⟨fun e he => ?_, h.pairs.trans (flatMap_congr fun e he => ?_)⟩
  · obtain ⟨p, hp, hslots⟩ := h.present e he
    obtain ⟨p', hp', htoken, -⟩ := same e.1 (List.mem_map_of_mem he) p hp
    exact ⟨p', hp', by rw [htoken]; exact hslots⟩
  · obtain ⟨p, hp, -⟩ := h.present e he
    obtain ⟨p', hp', htoken, hoffsets⟩ := same e.1 (List.mem_map_of_mem he) p hp
    simp only [entryPairs, hp, hp', blockPairs, StandardPrefixBlockPayload.offsets, htoken, hoffsets]

theorem Moves.mem_pairs {blockSize : Nat} {payloads : ι → Option StandardPrefixBlockPayload}
    {op : KvTransfer ι} (h : Moves blockSize payloads op) {slot x : Nat} :
    (slot, x) ∈ op.deviceTokenIndices.zip op.hostTokenIndices ↔
      ∃ e ∈ op.entries, ∃ p offset, payloads e.1 = some p ∧
        (slot, offset) ∈ p.slots.zip (p.offsets blockSize) ∧ x = e.2 * blockSize + offset := by
  rw [h.pairs, mem_flatMap]
  refine exists_congr fun e => and_congr_right fun he => ?_
  obtain ⟨p, hp, -⟩ := h.present e he
  simp only [entryPairs, hp, blockPairs, List.zip_map_right, List.mem_map, Option.some.injEq,
    Prod.exists, Prod.map, id_eq, Prod.mk.injEq]
  constructor
  · rintro ⟨slot', offset, hmem, rfl, rfl⟩
    exact ⟨p, offset, rfl, hmem, rfl⟩
  · rintro ⟨p', offset, rfl, hmem, rfl⟩
    exact ⟨slot, offset, hmem, rfl, rfl⟩

/-- A block owns the host block, or a backup in flight writes it. -/
def HoldsHost (s : KvState ι V) (id : ι) (h : Nat) : Prop :=
  (∃ p, s.payloads id = some p ∧ p.hostBlockIndex = some h) ∨ ∃ op ∈ s.d2h, (id, h) ∈ op.entries

/-- Slots and host indices have one owner, queued transfers fit the present payloads, and
what a block has, on the device or on the host, is what was published. -/
structure KvInv (blockSize : Nat) (s : KvState ι V) : Prop where
  transferable : ∀ id p, s.payloads id = some p → Transferable blockSize p
  nodup : ∀ id p, s.payloads id = some p → p.slots.Nodup
  disjoint : ∀ id id' p p' x, s.payloads id = some p → s.payloads id' = some p' → x ∈ p.slots →
    x ∈ p'.slots → id = id'
  owned : ∀ id p x, s.payloads id = some p → x ∈ p.slots → x ∉ s.freeSlots ∧ x ∉ s.rowSlots
  rows : Disjoint s.freeSlots s.rowSlots
  hostOwned : ∀ id h, HoldsHost s id h → h ∉ s.freeIndices
  hostUnique : ∀ id id' h, HoldsHost s id h → HoldsHost s id' h → id = id'
  backups : ∀ op ∈ s.d2h, Moves blockSize s.payloads op ∧ ∀ e ∈ op.entries, ¬ s.Promoting e.1
  promotions : ∀ op ∈ s.h2d, Moves blockSize s.payloads op ∧
    ∀ e ∈ op.entries, ∃ p, s.payloads e.1 = some p ∧ p.hostBlockIndex = some e.2
  deviceValues : ∀ id p, s.payloads id = some p → ¬ s.Promoting id →
    ∀ e ∈ p.slots.zip (p.offsets blockSize), s.device e.1 = s.published id e.2
  hostValues : ∀ id p h, s.payloads id = some p → p.hostBlockIndex = some h →
    ∀ offset ∈ p.offsets blockSize, s.host (h * blockSize + offset) = s.published id offset

section

variable {blockSize : Nat} {s : KvState ι V}

theorem KvInitial.inv (h : KvInitial s) : KvInv blockSize s where
  transferable id p hp := by rw [h.payloads] at hp; cases hp
  nodup id p hp := by rw [h.payloads] at hp; cases hp
  disjoint id id' p p' x hp := by rw [h.payloads] at hp; cases hp
  owned id p x hp := by rw [h.payloads] at hp; cases hp
  rows := by rw [h.rows]; exact disjoint_empty_right _
  hostOwned id k held := by
    rcases held with ⟨p, hp, -⟩ | ⟨op, hop, -⟩
    · rw [h.payloads] at hp; cases hp
    · rw [h.d2h] at hop; cases hop
  hostUnique id id' k held := by
    rcases held with ⟨p, hp, -⟩ | ⟨op, hop, -⟩
    · rw [h.payloads] at hp; cases hp
    · rw [h.d2h] at hop; cases hop
  backups op hop := by rw [h.d2h] at hop; cases hop
  promotions op hop := by rw [h.h2d] at hop; cases hop
  deviceValues id p hp := by rw [h.payloads] at hp; cases hp
  hostValues id p k hp := by rw [h.payloads] at hp; cases hp

variable {op : KvTransfer ι} {id : ι} {p p' : StandardPrefixBlockPayload}
  {payloads : ι → Option StandardPrefixBlockPayload} {host : Nat → V}
  {slots hostIndices devices hosts : List Nat} {batch es : List (ι × StandardPrefixBlockPayload)}

theorem not_idle (hop : op ∈ s.d2h ++ s.h2d) (h : id ∈ op.entries.map Prod.fst) :
    ¬ s.Idle id := fun idle => idle op hop h

theorem Idle.not_promoting (idle : s.Idle id) : ¬ s.Promoting id := by
  rintro ⟨op, hop, h⟩
  exact idle op (mem_append_right _ hop) h

theorem hostToken_inj {h h' o o' : Nat} (ho : o < blockSize) (ho' : o' < blockSize)
    (heq : h * blockSize + o = h' * blockSize + o') : h = h' ∧ o = o' := by
  have hpos : 0 < blockSize := Nat.zero_lt_of_lt ho
  have hdiv := congrArg (· / blockSize) heq
  have hmod := congrArg (· % blockSize) heq
  simp only [Nat.mul_comm _ blockSize, Nat.mul_add_div hpos,
    Nat.div_eq_of_lt ho, Nat.div_eq_of_lt ho', Nat.mul_add_mod, Nat.mod_eq_of_lt ho,
    Nat.mod_eq_of_lt ho', Nat.add_zero] at hdiv hmod
  exact ⟨hdiv, hmod⟩

theorem mem_slots_of_zip {e : Nat × Nat} (h : e ∈ p.slots.zip (p.offsets blockSize)) :
    e.1 ∈ p.slots ∧ e.2 ∈ p.offsets blockSize :=
  ⟨(List.of_mem_zip (a := e.1) (b := e.2) h).1, (List.of_mem_zip (a := e.1) (b := e.2) h).2⟩

/-- Only idle payloads change, and they keep their host block and gain no offset. -/
structure Rewrites (blockSize : Nat) (s : KvState ι V)
    (payloads : ι → Option StandardPrefixBlockPayload) : Prop where
  kept : ∀ id, ¬ s.Idle id → payloads id = s.payloads id
  changed : ∀ id p', payloads id = some p' → ∃ p, s.payloads id = some p ∧
    p'.hostBlockIndex = p.hostBlockIndex ∧ ∀ o ∈ p'.offsets blockSize, o ∈ p.offsets blockSize

theorem Rewrites.moves (h : Rewrites blockSize s payloads) (hop : op ∈ s.d2h ++ s.h2d)
    (moves : Moves blockSize s.payloads op) : Moves blockSize payloads op :=
  moves.congr fun id hid p hp => ⟨p, (h.kept id (not_idle hop hid)).trans hp, rfl, rfl⟩

theorem Rewrites.holds (h : Rewrites blockSize s payloads) {s' : KvState ι V} {k : Nat}
    (held : HoldsHost s' id k) (hpayloads : s'.payloads = payloads) (hd2h : s'.d2h = s.d2h) :
    HoldsHost s id k := by
  rcases held with ⟨p', hp', hhost⟩ | ⟨op, hop, hmem⟩
  · rw [hpayloads] at hp'
    obtain ⟨p, hp, heq, -⟩ := h.changed id p' hp'
    exact Or.inl ⟨p, hp, heq.symm.trans hhost⟩
  · exact Or.inr ⟨op, hd2h ▸ hop, hmem⟩

theorem Rewrites.hostValues (h : Rewrites blockSize s payloads) (inv : KvInv blockSize s) {k : Nat}
    (hp' : payloads id = some p') (hhost : p'.hostBlockIndex = some k) {offset : Nat}
    (ho : offset ∈ p'.offsets blockSize) :
    s.host (k * blockSize + offset) = s.published id offset := by
  obtain ⟨p, hp, heq, hsub⟩ := h.changed id p' hp'
  exact inv.hostValues id p k hp (heq.symm.trans hhost) offset (hsub offset ho)

/-- Rows take free slots. -/
theorem KvInv.take (inv : KvInv blockSize s) {xs : Finset Nat} (hxs : xs ⊆ s.freeSlots) :
    KvInv blockSize { s with freeSlots := s.freeSlots \ xs, rowSlots := s.rowSlots ∪ xs } where
  __ := inv
  owned id p x hp hx := by
    obtain ⟨hfree, hrow⟩ := inv.owned id p x hp hx
    exact ⟨fun h => hfree (mem_sdiff.mp h).1, fun h =>
      (mem_union.mp h).elim hrow fun h => hfree (hxs h)⟩
  rows := by
    refine disjoint_union_right.mpr ⟨?_, sdiff_disjoint⟩
    exact inv.rows.mono_left sdiff_subset

/-- Rows give slots back. -/
theorem KvInv.give (inv : KvInv blockSize s) {xs : Finset Nat} (hxs : xs ⊆ s.rowSlots) :
    KvInv blockSize { s with freeSlots := s.freeSlots ∪ xs, rowSlots := s.rowSlots \ xs } where
  __ := inv
  owned id p x hp hx := by
    obtain ⟨hfree, hrow⟩ := inv.owned id p x hp hx
    exact ⟨fun h => (mem_union.mp h).elim hfree fun h => hrow (hxs h),
      fun h => hrow (mem_sdiff.mp h).1⟩
  rows := by
    refine Finset.disjoint_union_left.mpr ⟨?_, disjoint_sdiff⟩
    exact inv.rows.mono_right sdiff_subset

/-- Kernels write outside the blocks. -/
theorem KvInv.write (inv : KvInv blockSize s) {device : Nat → V}
    (outside : ∀ id p x, s.payloads id = some p → x ∈ p.slots → device x = s.device x) :
    KvInv blockSize { s with device := device } where
  __ := inv
  deviceValues id p hp hnot e he := by
    rw [← inv.deviceValues id p hp hnot e he]
    exact outside id p e.1 hp (mem_slots_of_zip he).1

/-- The host pool is written outside the held blocks. -/
theorem KvInv.writeHost (inv : KvInv blockSize s)
    (outside : ∀ id h o, HoldsHost s id h → o < blockSize →
      host (h * blockSize + o) = s.host (h * blockSize + o)) :
    KvInv blockSize { s with host := host } where
  __ := inv
  hostValues id p h hp hhost o ho := by
    rw [← inv.hostValues id p h hp hhost o ho]
    exact outside id h o (Or.inl ⟨p, hp, hhost⟩) ((inv.transferable id p hp).inside o ho)

/-- A full block of row slots becomes a payload. -/
theorem KvInv.publish [DecidableEq ι] (inv : KvInv blockSize s) (new : s.payloads id = none)
    (nodup : slots.Nodup) (rows : slots.toFinset ⊆ s.rowSlots) (full : slots.length = blockSize) :
    KvInv blockSize { s with
      rowSlots := s.rowSlots \ slots.toFinset
      payloads := update s.payloads id
        (some (StandardCacheManager.makePrefixBlockPayload slots))
      published := update s.published id fun offset => s.device (slots.getD offset 0) } := by
  have hcases : ∀ id' p, update s.payloads id
      (some (StandardCacheManager.makePrefixBlockPayload slots)) id' = some p →
      (id' = id ∧ p = StandardCacheManager.makePrefixBlockPayload slots) ∨
        (id' ≠ id ∧ s.payloads id' = some p) := by
    intro id' p hp
    by_cases hid : id' = id
    · rw [hid, Function.update_self] at hp
      exact Or.inl ⟨hid, (Option.some.inj hp).symm⟩
    · rw [Function.update_of_ne hid] at hp
      exact Or.inr ⟨hid, hp⟩
  have hrow : ∀ x ∈ slots, x ∈ s.rowSlots := fun x hx => rows (List.mem_toFinset.mpr hx)
  have hqueued : ∀ op : KvTransfer ι, Moves blockSize s.payloads op → id ∉ op.entries.map Prod.fst := by
    intro op hmoves hmem
    obtain ⟨e, he, rfl⟩ := List.mem_map.mp hmem
    obtain ⟨p, hp, -⟩ := hmoves.present e he
    rw [new] at hp
    cases hp
  have hmoves : ∀ op : KvTransfer ι, Moves blockSize s.payloads op → Moves blockSize
      (update s.payloads id (some (StandardCacheManager.makePrefixBlockPayload slots)))
      op := fun op h => h.congr fun id' hid' p hp =>
    ⟨p, by rw [Function.update_of_ne fun (heq : id' = id) => hqueued op h (heq ▸ hid')]; exact hp,
      rfl, rfl⟩
  have hholds : ∀ id' h, HoldsHost { s with
      rowSlots := s.rowSlots \ slots.toFinset
      payloads := update s.payloads id
        (some (StandardCacheManager.makePrefixBlockPayload slots))
      published := update s.published id fun offset => s.device (slots.getD offset 0) }
      id' h → HoldsHost s id' h := by
    rintro id' h (⟨p, hp, hhost⟩ | hop)
    · rcases hcases id' p hp with ⟨-, rfl⟩ | ⟨-, hp⟩
      · cases hhost
      · exact Or.inl ⟨p, hp, hhost⟩
    · exact Or.inr hop
  refine ⟨?_, ?_, ?_, ?_, ?_, ?_, ?_, ?_, ?_, ?_, ?_⟩
  · intro id' p hp
    rcases hcases id' p hp with ⟨-, rfl⟩ | ⟨-, hp⟩
    · refine ⟨fun slots' hs => ?_, fun o ho => List.mem_range.mp ho⟩
      cases hs
      exact full.trans (List.length_range).symm
    · exact inv.transferable id' p hp
  · intro id' p hp
    rcases hcases id' p hp with ⟨-, rfl⟩ | ⟨-, hp⟩
    · exact nodup
    · exact inv.nodup id' p hp
  · intro id₁ id₂ p₁ p₂ x hp₁ hp₂ hx₁ hx₂
    rcases hcases id₁ p₁ hp₁ with ⟨hid₁, rfl⟩ | ⟨-, hq₁⟩
    · rcases hcases id₂ p₂ hp₂ with ⟨hid₂, rfl⟩ | ⟨-, hq₂⟩
      · exact hid₁.trans hid₂.symm
      · exact absurd (hrow x hx₁) (inv.owned id₂ p₂ x hq₂ hx₂).2
    · rcases hcases id₂ p₂ hp₂ with ⟨-, rfl⟩ | ⟨-, hq₂⟩
      · exact absurd (hrow x hx₂) (inv.owned id₁ p₁ x hq₁ hx₁).2
      · exact inv.disjoint id₁ id₂ p₁ p₂ x hq₁ hq₂ hx₁ hx₂
  · intro id' p x hp hx
    rcases hcases id' p hp with ⟨-, rfl⟩ | ⟨-, hp⟩
    · refine ⟨disjoint_right.mp inv.rows (hrow x hx), fun h => ?_⟩
      exact (mem_sdiff.mp h).2 (List.mem_toFinset.mpr hx)
    · obtain ⟨hfree, hnot⟩ := inv.owned id' p x hp hx
      exact ⟨hfree, fun h => hnot (mem_sdiff.mp h).1⟩
  · exact inv.rows.mono_right sdiff_subset
  · exact fun id' h held => inv.hostOwned id' h (hholds id' h held)
  · exact fun id₁ id₂ h held₁ held₂ => inv.hostUnique id₁ id₂ h (hholds id₁ h held₁)
      (hholds id₂ h held₂)
  · exact fun op hop => ⟨hmoves op (inv.backups op hop).1, (inv.backups op hop).2⟩
  · intro op hop
    obtain ⟨hm, hhost⟩ := inv.promotions op hop
    refine ⟨hmoves op hm, fun e he => ?_⟩
    obtain ⟨p, hp, hh⟩ := hhost e he
    exact ⟨p, (Function.update_of_ne (fun (heq : e.1 = id) =>
      hqueued op hm (heq ▸ List.mem_map_of_mem he)) _ _).trans hp, hh⟩
  · intro id' p hp hnot e he
    rcases hcases id' p hp with ⟨rfl, rfl⟩ | ⟨hne, hp⟩
    · show s.device e.1 = update s.published id' _ id' e.2
      rw [Function.update_self]
      obtain ⟨i, hi⟩ := mem_iff_getElem?.mp he
      rw [getElem?_zip_eq_some] at hi
      obtain ⟨hslot, hoffset⟩ := hi
      have hoff : e.2 = i := by
        have hrange : (List.range blockSize)[i]? = some e.2 := hoffset
        rw [List.getElem?_eq_some_iff] at hrange
        obtain ⟨_, hrange⟩ := hrange
        rw [← hrange, List.getElem_range]
      have hslot' : slots[i]? = some e.1 := hslot
      rw [hoff, getD_eq_getElem?_getD, hslot', getD_some]
    · show s.device e.1 = update s.published id _ id' e.2
      rw [Function.update_of_ne hne]
      exact inv.deviceValues id' p hp hnot e he
  · intro id' p h hp hhost o ho
    rcases hcases id' p hp with ⟨-, rfl⟩ | ⟨hne, hp⟩
    · cases hhost
    · show s.host _ = update s.published id _ id' o
      rw [Function.update_of_ne hne]
      exact inv.hostValues id' p h hp hhost o ho

theorem batch_moves (ok : ∀ e ∈ batch, Transferable blockSize e.2)
    (found : ∀ e ∈ batch, payloads e.1 = some e.2)
    (present : ∀ e ∈ batch, e.2.tokenSlots.isSome = true)
    (h : transferVectors blockSize ((batch.map Prod.snd).zip hostIndices) = .ok (devices, hosts)) :
    Moves blockSize payloads ⟨(batch.map Prod.fst).zip hostIndices, devices, hosts⟩ ∧
      devices.length = hosts.length := by
  have hmem : ∀ e ∈ (batch.map Prod.snd).zip hostIndices, ∃ e' ∈ batch, e'.2 = e.1 := by
    intro e he
    exact List.mem_map.mp (List.of_mem_zip (a := e.1) (b := e.2) he).1
  obtain ⟨devices', hosts', hvec, hpairs, hlen⟩ := @transferVectors_ok blockSize
    ((batch.map Prod.snd).zip hostIndices)
    (fun e he => by obtain ⟨e', he', heq⟩ := hmem e he; exact heq ▸ ok e' he')
    (fun e he => by obtain ⟨e', he', heq⟩ := hmem e he; exact heq ▸ present e' he')
  rw [h] at hvec
  cases hvec
  refine ⟨⟨fun e he => ?_, ?_⟩, hlen⟩
  · obtain ⟨e', he', heq⟩ := List.mem_map.mp (List.of_mem_zip (a := e.1) (b := e.2) he).1
    exact ⟨e'.2, heq ▸ found e' he', present e' he'⟩
  · show devices.zip hosts = ((batch.map Prod.fst).zip hostIndices).flatMap _
    have hzip : ∀ {α : Type} (f : ι × StandardPrefixBlockPayload → α),
        (batch.map f).zip hostIndices = (batch.zip hostIndices).map fun e => (f e.1, e.2) := by
      intro α f
      rw [zip_map_left]
      rfl
    rw [hpairs, hzip, hzip, List.flatMap_map, List.flatMap_map]
    refine flatMap_congr fun e he => ?_
    have hfound := found e.1 (List.of_mem_zip (a := e.1) (b := e.2) he).1
    simp only [entryPairs, hfound]

theorem hostUnique_submitted (inv : KvInv blockSize s) (ids : List ι) (nodup : hostIndices.Nodup)
    (free : hostIndices.toFinset ⊆ s.freeIndices) (holds : ι → Nat → Prop)
    (split : ∀ id h, holds id h → HoldsHost s id h ∨ (id, h) ∈ ids.zip hostIndices) :
    (∀ id h, holds id h → h ∉ s.freeIndices \ hostIndices.toFinset) ∧
      ∀ id id' h, holds id h → holds id' h → id = id' := by
  have hnew : ∀ {id h}, (id, h) ∈ ids.zip hostIndices → h ∈ hostIndices := fun hmem =>
    (List.of_mem_zip hmem).2
  have hfree : ∀ {h}, h ∈ hostIndices → h ∈ s.freeIndices := fun hmem =>
    free (List.mem_toFinset.mpr hmem)
  constructor
  · intro id h held hmem
    rw [mem_sdiff, List.mem_toFinset] at hmem
    rcases split id h held with old | new
    · exact inv.hostOwned id h old hmem.1
    · exact hmem.2 (hnew new)
  · intro id id' h held held'
    rcases split id h held with old | new
    · rcases split id' h held' with old' | new'
      · exact inv.hostUnique id id' h old old'
      · exact absurd (hfree (hnew new')) (inv.hostOwned id h old)
    · rcases split id' h held' with old' | new'
      · exact absurd (hfree (hnew new)) (inv.hostOwned id' h old')
      · obtain ⟨i, hi⟩ := mem_iff_getElem?.mp new
        obtain ⟨j, hj⟩ := mem_iff_getElem?.mp new'
        rw [getElem?_zip_eq_some] at hi hj
        have hij : i = j := by
          have hlt := (List.getElem?_eq_some_iff.mp hi.2).1
          exact (getElem?_inj hlt nodup).mp (hi.2.trans hj.2.symm)
        rw [hij] at hi
        exact Option.some.inj (hi.1.symm.trans hj.1)

theorem KvInv.submitD2h (inv : KvInv blockSize s) (hbatch : s.BatchOf batch)
    (present : ∀ e ∈ batch, e.2.tokenSlots.isSome = true ∧ e.2.hostBlockIndex = none)
    (nodup : hostIndices.Nodup) (free : hostIndices.toFinset ⊆ s.freeIndices)
    (hvec : transferVectors blockSize ((batch.map Prod.snd).zip hostIndices) = .ok (devices, hosts)) :
    KvInv blockSize { s with
      freeIndices := s.freeIndices \ hostIndices.toFinset
      d2h := s.d2h ++ [⟨(batch.map Prod.fst).zip hostIndices, devices, hosts⟩] } := by
  have hmoves := (batch_moves (fun e he => inv.transferable e.1 e.2 (hbatch.payloads e he))
    hbatch.payloads (fun e he => (present e he).1) hvec).1
  obtain ⟨howned, hunique⟩ := hostUnique_submitted inv (batch.map Prod.fst) nodup free
    (HoldsHost { s with
      freeIndices := s.freeIndices \ hostIndices.toFinset
      d2h := s.d2h ++ [⟨(batch.map Prod.fst).zip hostIndices, devices, hosts⟩] }) (by
      rintro id h (held | ⟨op, hop, hmem⟩)
      · exact Or.inl (Or.inl held)
      · rcases List.mem_append.mp hop with hop | hop
        · exact Or.inl (Or.inr ⟨op, hop, hmem⟩)
        · rw [List.mem_singleton] at hop
          rw [hop] at hmem
          exact Or.inr hmem)
  refine ⟨inv.transferable, inv.nodup, inv.disjoint, inv.owned, inv.rows, howned, hunique, ?_,
    inv.promotions, inv.deviceValues, inv.hostValues⟩
  intro op hop
  rcases List.mem_append.mp hop with hop | hop
  · exact inv.backups op hop
  · rw [List.mem_singleton] at hop
    rw [hop]
    refine ⟨hmoves, fun e he => ?_⟩
    obtain ⟨e', he', heq⟩ := List.mem_map.mp (List.of_mem_zip (a := e.1) (b := e.2) he).1
    have hnot : ¬ s.Promoting e'.1 := Idle.not_promoting (hbatch.idle e' he')
    exact heq ▸ hnot

theorem KvInv.setHostIndices [DecidableEq ι] (inv : KvInv blockSize s) {entries : List (ι × Nat)}
    {freeIndices : Finset Nat} {d2h : List (KvTransfer ι)} (hd2h : ∀ op ∈ d2h, op ∈ s.d2h)
    (apart : ∀ e ∈ entries, ¬ s.Promoting e.1)
    (howned : ∀ id h, HoldsHost s id h ∨ (id, h) ∈ entries → h ∉ freeIndices)
    (hunique : ∀ id id' h, HoldsHost s id h ∨ (id, h) ∈ entries →
      HoldsHost s id' h ∨ (id', h) ∈ entries → id = id')
    (hhost : ∀ id p h, s.payloads id = some p →
      p.hostBlockIndex = some h ∨ (id, h) ∈ entries → ∀ o ∈ p.offsets blockSize,
      host (h * blockSize + o) = s.published id o) :
    KvInv blockSize { s with
      freeIndices := freeIndices
      d2h := d2h
      host := host
      payloads := KvState.setHostIndices s.payloads entries } := by
  have hback : ∀ id p', KvState.setHostIndices s.payloads entries id = some p' →
      ∃ p, s.payloads id = some p ∧ SameKv p p' ∧
        ∀ h, p'.hostBlockIndex = some h → p.hostBlockIndex = some h ∨ (id, h) ∈ entries := by
    intro id p' hp'
    rcases setHostIndices_get entries s.payloads with ⟨-, heq⟩ | ⟨h, hmem, heq⟩
    · rw [heq] at hp'
      exact ⟨p', hp', ⟨rfl, rfl⟩, fun h hh => Or.inl hh⟩
    · rw [heq, map_eq_some_iff] at hp'
      obtain ⟨p, hp, rfl⟩ := hp'
      exact ⟨p, hp, ⟨rfl, rfl⟩, fun h' hh => Or.inr (Option.some.inj hh ▸ hmem)⟩
  have hforth : ∀ id p, s.payloads id = some p →
      ∃ p', KvState.setHostIndices s.payloads entries id = some p' ∧ SameKv p p' := by
    intro id p hp
    rcases setHostIndices_get entries s.payloads with ⟨-, heq⟩ | ⟨h, -, heq⟩
    · exact ⟨p, heq.trans hp, rfl, rfl⟩
    · refine ⟨{ p with hostBlockIndex := some h }, ?_, rfl, rfl⟩
      rw [heq, hp, map_some]
  have hslots : ∀ {p p' : StandardPrefixBlockPayload}, SameKv p p' → p'.slots = p.slots ∧
      p'.offsets blockSize = p.offsets blockSize := fun h =>
    ⟨by rw [StandardPrefixBlockPayload.slots, h.1]; rfl,
      by rw [StandardPrefixBlockPayload.offsets, h.2]; rfl⟩
  have hmoves : ∀ op : KvTransfer ι, Moves blockSize s.payloads op →
      Moves blockSize (KvState.setHostIndices s.payloads entries) op := fun op h =>
    h.congr fun id _ p hp => hforth id p hp
  have hholds : ∀ id h, HoldsHost { s with
      freeIndices := freeIndices
      d2h := d2h
      host := host
      payloads := KvState.setHostIndices s.payloads entries } id h →
      HoldsHost s id h ∨ (id, h) ∈ entries := by
    rintro id h (⟨p', hp', hh⟩ | ⟨op, hop, hmem⟩)
    · obtain ⟨p, hp, -, hor⟩ := hback id p' hp'
      exact (hor h hh).imp (fun hh => Or.inl ⟨p, hp, hh⟩) fun hmem => hmem
    · exact Or.inl (Or.inr ⟨op, hd2h op hop, hmem⟩)
  refine ⟨?_, ?_, ?_, ?_, inv.rows, fun id h held => howned id h (hholds id h held),
    fun id id' h held held' => hunique id id' h (hholds id h held) (hholds id' h held'), ?_, ?_, ?_, ?_⟩
  · intro id p' hp'
    obtain ⟨p, hp, hsame, -⟩ := hback id p' hp'
    obtain ⟨hsized, hinside⟩ := inv.transferable id p hp
    refine ⟨fun slots hs => ?_, ?_⟩
    · rw [(hslots hsame).2]
      exact hsized slots (hsame.1 ▸ hs)
    · rw [(hslots hsame).2]
      exact hinside
  · intro id p' hp'
    obtain ⟨p, hp, hsame, -⟩ := hback id p' hp'
    rw [(hslots hsame).1]
    exact inv.nodup id p hp
  · intro id₁ id₂ p₁' p₂' x hp₁ hp₂ hx₁ hx₂
    obtain ⟨p₁, hq₁, hsame₁, -⟩ := hback id₁ p₁' hp₁
    obtain ⟨p₂, hq₂, hsame₂, -⟩ := hback id₂ p₂' hp₂
    rw [(hslots hsame₁).1] at hx₁
    rw [(hslots hsame₂).1] at hx₂
    exact inv.disjoint id₁ id₂ p₁ p₂ x hq₁ hq₂ hx₁ hx₂
  · intro id p' x hp' hx
    obtain ⟨p, hp, hsame, -⟩ := hback id p' hp'
    rw [(hslots hsame).1] at hx
    exact inv.owned id p x hp hx
  · exact fun op hop => ⟨hmoves op (inv.backups op (hd2h op hop)).1, (inv.backups op (hd2h op hop)).2⟩
  · intro op hop
    obtain ⟨hm, hh⟩ := inv.promotions op hop
    refine ⟨hmoves op hm, fun e he => ?_⟩
    obtain ⟨p, hp, hhost⟩ := hh e he
    have hpromoting : s.Promoting e.1 := ⟨op, hop, List.mem_map_of_mem he⟩
    rcases @setHostIndices_get ι e.1 _ entries s.payloads with ⟨-, heq⟩ | ⟨h, hmem, -⟩
    · exact ⟨p, heq.trans hp, hhost⟩
    · exact absurd hpromoting (apart (e.1, h) hmem)
  · intro id p' hp' hnot e he
    obtain ⟨p, hp, hsame, -⟩ := hback id p' hp'
    rw [(hslots hsame).1, (hslots hsame).2] at he
    exact inv.deviceValues id p hp hnot e he
  · intro id p' h hp' hh o ho
    obtain ⟨p, hp, hsame, hor⟩ := hback id p' hp'
    rw [(hslots hsame).2] at ho
    exact hhost id p h hp (hor h hh) o ho

/-- A backup that has no token to copy gets its index at once. -/
theorem KvInv.backupEmpty [DecidableEq ι] (inv : KvInv blockSize s) (hbatch : s.BatchOf batch)
    (present : ∀ e ∈ batch, e.2.tokenSlots.isSome = true ∧ e.2.hostBlockIndex = none)
    (nodup : hostIndices.Nodup) (free : hostIndices.toFinset ⊆ s.freeIndices)
    (hvec : transferVectors blockSize ((batch.map Prod.snd).zip hostIndices) = .ok ([], hosts)) :
    KvInv blockSize { s with
      freeIndices := s.freeIndices \ hostIndices.toFinset
      payloads := KvState.setHostIndices s.payloads ((batch.map Prod.fst).zip hostIndices) } := by
  have hmoves := (batch_moves (fun e he => inv.transferable e.1 e.2 (hbatch.payloads e he))
    hbatch.payloads (fun e he => (present e he).1) hvec).1
  obtain ⟨howned, hunique⟩ := hostUnique_submitted inv (batch.map Prod.fst) nodup free
    (fun id h => HoldsHost s id h ∨ (id, h) ∈ (batch.map Prod.fst).zip hostIndices)
    (fun _ _ h => h)
  refine inv.setHostIndices (fun op hop => hop) (fun e he => ?_) howned hunique ?_
  · obtain ⟨e', he', heq⟩ := List.mem_map.mp (List.of_mem_zip (a := e.1) (b := e.2) he).1
    exact heq ▸ Idle.not_promoting (hbatch.idle e' he')
  · -- The blocks of the batch have no offsets left.
    intro id p h hp hor o ho
    rcases hor with hh | hmem
    · exact inv.hostValues id p h hp hh o ho
    · have hempty : ([] : List Nat).zip hosts = _ := hmoves.pairs
      rw [List.zip_nil_left, eq_comm, flatMap_eq_nil_iff] at hempty
      have hnone := hempty (id, h) hmem
      obtain ⟨q, hq, hslots⟩ := hmoves.present (id, h) hmem
      rw [hp] at hq
      cases hq
      obtain ⟨slots, hs⟩ := isSome_iff_exists.mp hslots
      have hlen := (inv.transferable id p hp).sized slots hs
      simp only [entryPairs, hp, blockPairs, hs, getD_some] at hnone
      have hzero := congrArg length hnone
      rw [length_zip, length_map, hlen, Nat.min_self] at hzero
      rw [length_eq_zero_iff.mp hzero] at ho
      cases ho

theorem KvInv.finishD2h [DecidableEq ι] (inv : KvInv blockSize s) {rest : List (KvTransfer ι)}
    (hqueue : s.d2h = op :: rest) :
    KvInv blockSize (s.finishD2h op rest) := by
  have hop : op ∈ s.d2h := hqueue ▸ List.mem_cons_self
  obtain ⟨hmoves, hapart⟩ := inv.backups op hop
  have hheld : ∀ id h, HoldsHost s id h ∨ (id, h) ∈ op.entries → HoldsHost s id h := fun id h hor =>
    hor.elim (fun hh => hh) fun hmem => Or.inr ⟨op, hop, hmem⟩
  refine inv.setHostIndices (fun op' hop' => hqueue ▸ List.mem_cons_of_mem op hop') hapart
    (fun id h hor => inv.hostOwned id h (hheld id h hor))
    (fun id id' h hor hor' => inv.hostUnique id id' h (hheld id h hor) (hheld id' h hor')) ?_
  intro id p h hp hor o ho
  have ho' := (inv.transferable id p hp).inside o ho
  have hid : HoldsHost s id h := hor.elim (fun hh => Or.inl ⟨p, hp, hh⟩) fun hmem =>
    Or.inr ⟨op, hop, hmem⟩
  refine copyInto_eq _ _ (fun e he heq => ?_) ?_
  · obtain ⟨⟨slot, x⟩, hmem, rfl⟩ := List.mem_map.mp he
    obtain ⟨e', he', p', o', hp', hpair, hx⟩ := hmoves.mem_pairs.mp hmem
    have hin := (inv.transferable e'.1 p' hp').inside o' (mem_slots_of_zip hpair).2
    obtain ⟨hh, rfl⟩ := hostToken_inj hin ho' (hx.symm.trans heq)
    have hsame : e'.1 = id := inv.hostUnique e'.1 id h (Or.inr ⟨op, hop, hh ▸ he'⟩) hid
    rw [← hsame]
    exact inv.deviceValues e'.1 p' hp' (hapart e' he') (slot, o') hpair
  · rcases hor with hh | hmem
    · exact Or.inl (inv.hostValues id p h hp hh o ho)
    · right
      obtain ⟨q, hq, hslots⟩ := hmoves.present (id, h) hmem
      rw [hp] at hq
      cases hq
      obtain ⟨slots, hs⟩ := isSome_iff_exists.mp hslots
      have hlen := (inv.transferable id p hp).sized slots hs
      obtain ⟨i, hi, heq⟩ := mem_iff_getElem.mp ho
      have hslot : p.slots.length = (p.offsets blockSize).length := by
        rw [StandardPrefixBlockPayload.slots, hs]
        exact hlen
      have hpair : (p.slots[i], o) ∈ p.slots.zip (p.offsets blockSize) := by
        rw [mem_iff_getElem]
        exact ⟨i, by rw [length_zip]; omega, by rw [getElem_zip, heq]⟩
      refine List.mem_map.mpr ⟨(h * blockSize + o, p.slots[i]), List.mem_map.mpr
        ⟨(p.slots[i], h * blockSize + o), ?_, rfl⟩, rfl⟩
      exact hmoves.mem_pairs.mpr ⟨(id, h), hmem, p, o, hp, hpair, rfl⟩

theorem exists_zip_of_mem {α β : Type} {as : List α} {bs : List β} (hlen : as.length = bs.length)
    {b : β} (h : b ∈ bs) : ∃ a, (a, b) ∈ as.zip bs := by
  obtain ⟨i, hi, rfl⟩ := mem_iff_getElem.mp h
  refine ⟨as[i], mem_iff_getElem.mpr ⟨i, ?_, ?_⟩⟩
  · rw [length_zip]
    omega
  · rw [getElem_zip]

/-- A failing submission has written free host cells only. -/
theorem KvInv.failD2h (inv : KvInv blockSize s) (hbatch : s.BatchOf batch)
    (present : ∀ e ∈ batch, e.2.tokenSlots.isSome = true ∧ e.2.hostBlockIndex = none)
    (free : hostIndices.toFinset ⊆ s.freeIndices)
    (hvec : transferVectors blockSize ((batch.map Prod.snd).zip hostIndices) = .ok (devices, hosts))
    (outside : ∀ x, x ∉ hosts → host x = s.host x) : KvInv blockSize { s with host := host } := by
  obtain ⟨hmoves, hlen⟩ := batch_moves (fun e he => inv.transferable e.1 e.2 (hbatch.payloads e he))
    hbatch.payloads (fun e he => (present e he).1) hvec
  refine inv.writeHost fun id h o held ho => outside _ fun hmem => ?_
  obtain ⟨slot, hpair⟩ := exists_zip_of_mem hlen hmem
  obtain ⟨e, he, p, o', hp, hzip, hx⟩ := hmoves.mem_pairs.mp hpair
  have hin := (inv.transferable e.1 p hp).inside o' (mem_slots_of_zip hzip).2
  obtain ⟨rfl, -⟩ := hostToken_inj ho hin hx
  have hnew : e.2 ∈ hostIndices := (List.of_mem_zip (a := e.1) (b := e.2) he).2
  exact inv.hostOwned id e.2 held (free (List.mem_toFinset.mpr hnew))

theorem mem_zip_forall₂ {α β γ : Type} {R : α → β → Prop} : ∀ {batch : List (γ × α)} {bs : List β},
    Forall₂ R (batch.map Prod.snd) bs → ∀ {c : γ} {b : β}, (c, b) ∈ (batch.map Prod.fst).zip bs →
    ∃ a, (c, a) ∈ batch ∧ R a b
  | [], _, h, c, b, hmem => by cases hmem
  | e :: batch, [], h, c, b, hmem => by cases hmem
  | e :: batch, b' :: bs, h, c, b, hmem => by
    rw [List.map_cons, List.forall₂_cons] at h
    rw [List.map_cons, List.zip_cons_cons, List.mem_cons] at hmem
    rcases hmem with heq | hmem
    · cases heq
      exact ⟨e.2, List.mem_cons_self, h.1⟩
    · obtain ⟨a, ha, hR⟩ := mem_zip_forall₂ h.2 hmem
      exact ⟨a, List.mem_cons_of_mem e ha, hR⟩

theorem eq_of_mem_flatMap {α β : Type} {f : α → List β} {l : List α} (nodup : (l.flatMap f).Nodup)
    {a b : α} {x : β} (ha : a ∈ l) (hb : b ∈ l) (hxa : x ∈ f a) (hxb : x ∈ f b) : a = b := by
  by_contra hne
  have hpair := (List.nodup_flatMap.mp nodup).2
  have : Std.Symm (onFun List.Disjoint f) := ⟨fun _ _ h => List.Disjoint.symm h⟩
  exact (hpair.forall ha hb hne) hxa hxb

/-- New payloads for idle blocks, with the host blocks of the old ones. -/
structure Renewal (blockSize : Nat) (s : KvState ι V) (es : List (ι × StandardPrefixBlockPayload)) :
    Prop where
  nodup : (es.map Prod.fst).Nodup
  idle : ∀ e ∈ es, s.Idle e.1
  old : ∀ e ∈ es, ∃ p, s.payloads e.1 = some p ∧ e.2.hostBlockIndex = p.hostBlockIndex ∧
    ∀ o ∈ e.2.offsets blockSize, o ∈ p.offsets blockSize
  transferable : ∀ e ∈ es, Transferable blockSize e.2

theorem Renewal.cases [DecidableEq ι] (h : Renewal blockSize s es)
    (hp' : assign s.payloads es id = some p') :
    (id ∉ es.map Prod.fst ∧ s.payloads id = some p') ∨ (id, p') ∈ es := by
  by_cases hmem : id ∈ es.map Prod.fst
  · obtain ⟨e, he, rfl⟩ := List.mem_map.mp hmem
    rw [assign_of_mem es _ h.nodup (show (e.1, e.2) ∈ es from he)] at hp'
    cases hp'
    exact Or.inr he
  · rw [assign_of_not_mem es _ hmem] at hp'
    exact Or.inl ⟨hmem, hp'⟩

theorem Renewal.rewrites [DecidableEq ι] (h : Renewal blockSize s es) :
    Rewrites blockSize s (assign s.payloads es) := by
  refine ⟨fun id hbusy => assign_of_not_mem es _ fun hmem => ?_, fun id p' hp' => ?_⟩
  · obtain ⟨e, he, rfl⟩ := List.mem_map.mp hmem
    exact hbusy (h.idle e he)
  · rcases h.cases hp' with ⟨-, hp⟩ | hmem
    · exact ⟨p', hp, rfl, fun o ho => ho⟩
    · exact h.old (id, p') hmem

/-- Pruning and promotion both replace the payloads of a batch. -/
theorem KvInv.renew [DecidableEq ι] (inv : KvInv blockSize s) (h : Renewal blockSize s es)
    {freeSlots : Finset Nat} {h2d : List (KvTransfer ι)} (nodup : ∀ e ∈ es, e.2.slots.Nodup)
    (inside : ∀ e ∈ es, ∀ e' ∈ es, ∀ x ∈ e.2.slots, x ∈ e'.2.slots → e.1 = e'.1)
    (apart : ∀ e ∈ es, ∀ id p, id ∉ es.map Prod.fst → s.payloads id = some p → ∀ x ∈ e.2.slots,
      x ∉ p.slots)
    (free : ∀ e ∈ es, ∀ x ∈ e.2.slots, x ∉ freeSlots ∧ x ∉ s.rowSlots)
    (others : ∀ id p, id ∉ es.map Prod.fst → s.payloads id = some p → ∀ x ∈ p.slots, x ∉ freeSlots)
    (rows : Disjoint freeSlots s.rowSlots)
    (queue : ∀ op ∈ h2d, op ∈ s.h2d ∨ (Moves blockSize (assign s.payloads es) op ∧
      ∀ e ∈ op.entries, ∃ p', (e.1, p') ∈ es ∧ p'.hostBlockIndex = some e.2))
    (grows : ∀ op ∈ s.h2d, op ∈ h2d)
    (values : ∀ e ∈ es, (∀ op ∈ h2d, e.1 ∉ op.entries.map Prod.fst) →
      ∀ x ∈ e.2.slots.zip (e.2.offsets blockSize), s.device x.1 = s.published e.1 x.2) :
    KvInv blockSize { s with
      freeSlots := freeSlots
      payloads := assign s.payloads es
      h2d := h2d } := by
  have hrw := h.rewrites
  have hholds : ∀ id k, HoldsHost { s with
      freeSlots := freeSlots
      payloads := assign s.payloads es
      h2d := h2d } id k → HoldsHost s id k := fun id k held => hrw.holds held rfl rfl
  refine ⟨?_, ?_, ?_, ?_, rows, fun id k held => inv.hostOwned id k (hholds id k held),
    fun id id' k held held' => inv.hostUnique id id' k (hholds id k held) (hholds id' k held'),
    ?_, ?_, ?_, fun id p' k hp' hhost o ho => hrw.hostValues inv hp' hhost ho⟩
  · intro id p' hp'
    rcases h.cases hp' with ⟨-, hp⟩ | hmem
    · exact inv.transferable id p' hp
    · exact h.transferable (id, p') hmem
  · intro id p' hp'
    rcases h.cases hp' with ⟨-, hp⟩ | hmem
    · exact inv.nodup id p' hp
    · exact nodup (id, p') hmem
  · intro id₁ id₂ p₁ p₂ x hp₁ hp₂ hx₁ hx₂
    rcases h.cases hp₁ with ⟨hnot₁, hq₁⟩ | hmem₁
    · rcases h.cases hp₂ with ⟨-, hq₂⟩ | hmem₂
      · exact inv.disjoint id₁ id₂ p₁ p₂ x hq₁ hq₂ hx₁ hx₂
      · exact absurd hx₁ (apart (id₂, p₂) hmem₂ id₁ p₁ hnot₁ hq₁ x hx₂)
    · rcases h.cases hp₂ with ⟨hnot₂, hq₂⟩ | hmem₂
      · exact absurd hx₂ (apart (id₁, p₁) hmem₁ id₂ p₂ hnot₂ hq₂ x hx₁)
      · exact inside (id₁, p₁) hmem₁ (id₂, p₂) hmem₂ x hx₁ hx₂
  · intro id p' x hp' hx
    rcases h.cases hp' with ⟨hnot, hp⟩ | hmem
    · exact ⟨others id p' hnot hp x hx, (inv.owned id p' x hp hx).2⟩
    · exact free (id, p') hmem x hx
  · intro op hop
    obtain ⟨hmoves, hapart⟩ := inv.backups op hop
    refine ⟨hrw.moves (mem_append_left _ hop) hmoves, fun e he => ?_⟩
    rintro ⟨op', hop', hmem⟩
    rcases queue op' hop' with hold | ⟨-, hnew⟩
    · exact hapart e he ⟨op', hold, hmem⟩
    · -- The blocks of a new promotion are idle.
      obtain ⟨e', he', heq⟩ := List.mem_map.mp hmem
      obtain ⟨p', hp', -⟩ := hnew e' he'
      have hidle : s.Idle e.1 := heq ▸ h.idle (e'.1, p') hp'
      exact hidle op (mem_append_left _ hop) (List.mem_map_of_mem he)
  · intro op hop
    rcases queue op hop with hold | ⟨hmoves, hnew⟩
    · obtain ⟨hmoves, hhost⟩ := inv.promotions op hold
      refine ⟨hrw.moves (mem_append_right _ hold) hmoves, fun e he => ?_⟩
      obtain ⟨p, hp, hh⟩ := hhost e he
      exact ⟨p, (hrw.kept e.1 (not_idle (mem_append_right _ hold)
        (List.mem_map_of_mem he))).trans hp, hh⟩
    · refine ⟨hmoves, fun e he => ?_⟩
      obtain ⟨p', hp', hh⟩ := hnew e he
      exact ⟨p', assign_of_mem es _ h.nodup hp', hh⟩
  · intro id p' hp' hnot e he
    rcases h.cases hp' with ⟨-, hp⟩ | hmem
    · refine inv.deviceValues id p' hp ?_ e he
      rintro ⟨op, hop, hin⟩
      exact hnot ⟨op, grows op hop, hin⟩
    · exact values (id, p') hmem (fun op hop hin => hnot ⟨op, hop, hin⟩) e he

theorem offsets_of_retained (h : p'.retainedOffsets = p.retainedOffsets) :
    p'.offsets blockSize = p.offsets blockSize := by
  rw [StandardPrefixBlockPayload.offsets, StandardPrefixBlockPayload.offsets, h]

/-- The entries of a batch share out the slots taken for it. -/
structure Promotion (blockSize : Nat) (batch : List (ι × StandardPrefixBlockPayload))
    (slots : List Nat) (es : List (ι × StandardPrefixBlockPayload)) : Prop where
  keys : es.map Prod.fst = batch.map Prod.fst
  assigned : ∀ e ∈ es, ∃ p, (e.1, p) ∈ batch ∧ AssignedTo blockSize p e.2
  slots : es.flatMap (fun e => e.2.slots) = slots

theorem zip_assignSlices_snd
    (hcount : slots.length = promotionSlotCount blockSize (batch.map Prod.snd)) :
    ((batch.map Prod.fst).zip (assignSlices blockSize (batch.map Prod.snd) slots)).map Prod.snd =
      assignSlices blockSize (batch.map Prod.snd) slots := by
  have hlen := (assignSlices_spec (batch.map Prod.snd) slots hcount).1.length_eq
  rw [length_map] at hlen
  exact map_snd_zip (by rw [length_map]; exact hlen.ge)

theorem promotion_of_slices
    (hcount : slots.length = promotionSlotCount blockSize (batch.map Prod.snd)) :
    Promotion blockSize batch slots
      ((batch.map Prod.fst).zip (assignSlices blockSize (batch.map Prod.snd) slots)) := by
  obtain ⟨hall, hflat⟩ := assignSlices_spec (batch.map Prod.snd) slots hcount
  have hlen := hall.length_eq
  rw [length_map] at hlen
  refine ⟨map_fst_zip (by rw [length_map]; exact hlen.le), fun e he => ?_, ?_⟩
  · exact mem_zip_forall₂ hall (show (e.1, e.2) ∈ _ from he)
  · rw [← List.flatMap_map Prod.snd StandardPrefixBlockPayload.slots, zip_assignSlices_snd hcount]
    exact hflat

theorem Promotion.transferable (inv : KvInv blockSize s) (hbatch : s.BatchOf batch)
    (h : Promotion blockSize batch slots es) :
    ∀ e ∈ es, Transferable blockSize e.2 ∧ e.2.tokenSlots.isSome = true := by
  intro e he
  obtain ⟨p, hp, ha⟩ := h.assigned e he
  obtain ⟨ss, hss, hlen⟩ := ha.slots
  refine ⟨⟨fun slots' hs => ?_, ?_⟩, by rw [hss]; rfl⟩
  · rw [hss] at hs
    cases hs
    rw [offsets_of_retained ha.retained, hlen]
  · rw [offsets_of_retained ha.retained]
    exact (inv.transferable e.1 p (hbatch.payloads (e.1, p) hp)).inside

theorem promotion_moves [DecidableEq ι] (nodup : (es.map Prod.fst).Nodup)
    (ok : ∀ e ∈ es, Transferable blockSize e.2) (present : ∀ e ∈ es, e.2.tokenSlots.isSome = true)
    (hvec : transferVectors blockSize ((es.map Prod.snd).map fun p => (p, p.hostBlockIndex.getD 0)) =
      .ok (devices, hosts)) :
    Moves blockSize (assign payloads es) ⟨((es.filter fun e => !e.2.slots.isEmpty).map
        fun e => (e.1, e.2.hostBlockIndex.getD 0)), devices, hosts⟩ ∧
      devices.length = hosts.length ∧ ∀ x ∈ devices, ∃ e ∈ es, x ∈ e.2.slots := by
  have hmem : ∀ e ∈ (es.map Prod.snd).map fun p => (p, p.hostBlockIndex.getD 0),
      ∃ e' ∈ es, e'.2 = e.1 := by
    intro e he
    obtain ⟨p, hp, rfl⟩ := List.mem_map.mp he
    exact List.mem_map.mp hp
  obtain ⟨devices', hosts', hvec', hpairs, hlen⟩ := @transferVectors_ok blockSize _
    (fun e he => by obtain ⟨e', he', heq⟩ := hmem e he; exact heq ▸ ok e' he')
    (fun e he => by obtain ⟨e', he', heq⟩ := hmem e he; exact heq ▸ present e' he')
  rw [hvec] at hvec'
  cases hvec'
  have hget : ∀ e ∈ es, assign payloads es e.1 = some e.2 := fun e he =>
    assign_of_mem es payloads nodup he
  have hall : devices.zip hosts =
      es.flatMap fun e => blockPairs blockSize e.2 (e.2.hostBlockIndex.getD 0) := by
    rw [hpairs, List.map_map, List.flatMap_map]
    rfl
  refine ⟨⟨fun e he => ?_, ?_⟩, hlen, fun x hx => ?_⟩
  · obtain ⟨e', he', rfl⟩ := List.mem_map.mp he
    have hin := (mem_filter.mp he').1
    exact ⟨e'.2, hget e' hin, present e' hin⟩
  · rw [List.flatMap_map]
    show devices.zip hosts = _
    rw [hall, ← @flatMap_filter_of_empty _ _ (fun e : ι × StandardPrefixBlockPayload => !e.2.slots.isEmpty)]
    · refine flatMap_congr fun e he => ?_
      simp only [entryPairs, hget e (mem_filter.mp he).1]
    · intro e he hempty
      have hnil : e.2.slots = [] := by simpa using hempty
      rw [blockPairs, show e.2.tokenSlots.getD [] = [] from hnil, List.zip_nil_left]
  · obtain ⟨i, hi, rfl⟩ := mem_iff_getElem.mp hx
    have hpair : (devices[i], hosts[i]) ∈ devices.zip hosts :=
      mem_iff_getElem.mpr ⟨i, by rw [length_zip]; omega, by rw [getElem_zip]⟩
    rw [hall, mem_flatMap] at hpair
    obtain ⟨e, he, hzip⟩ := hpair
    exact ⟨e, he, (List.of_mem_zip hzip).1⟩

theorem KvInv.submitH2d [DecidableEq ι] (inv : KvInv blockSize s)
    {assigned : List StandardPrefixBlockPayload} (hbatch : s.BatchOf batch)
    (hostOnly : ∀ e ∈ batch, e.2.tokenSlots = none ∧ e.2.hostBlockIndex.isSome = true)
    (nodup : slots.Nodup) (free : slots.toFinset ⊆ s.freeSlots)
    (hcount : slots.length = promotionSlotCount blockSize (batch.map Prod.snd))
    (hassigned : assigned = assignSlices blockSize (batch.map Prod.snd) slots)
    (hvec : transferVectors blockSize (assigned.map fun p => (p, p.hostBlockIndex.getD 0)) =
      .ok (devices, hosts)) :
    KvInv blockSize { s with
      freeSlots := s.freeSlots \ slots.toFinset
      payloads := assign s.payloads ((batch.map Prod.fst).zip assigned)
      h2d :=
        let entries := (((batch.map Prod.fst).zip assigned).filter fun e => !e.2.slots.isEmpty).map
          fun e => (e.1, e.2.hostBlockIndex.getD 0)
        if entries.isEmpty then s.h2d else s.h2d ++ [⟨entries, devices, hosts⟩] } := by
  have hpromo := promotion_of_slices hcount
  have hsnd := zip_assignSlices_snd hcount
  rw [← hassigned] at hpromo hsnd
  rw [← hsnd] at hvec
  set es := (batch.map Prod.fst).zip assigned with hes
  have hren : Renewal blockSize s es := by
    refine ⟨hpromo.keys ▸ hbatch.nodup, fun e he => ?_, fun e he => ?_,
      fun e he => (hpromo.transferable inv hbatch e he).1⟩
    · obtain ⟨p, hp, -⟩ := hpromo.assigned e he
      exact hbatch.idle (e.1, p) hp
    · obtain ⟨p, hp, ha⟩ := hpromo.assigned e he
      refine ⟨p, hbatch.payloads (e.1, p) hp, ha.host, fun o ho => ?_⟩
      rwa [offsets_of_retained ha.retained] at ho
  obtain ⟨hmoves, -, -⟩ := @promotion_moves ι blockSize s.payloads devices hosts es _
    hren.nodup hren.transferable (fun e he => (hpromo.transferable inv hbatch e he).2) hvec
  have hfree : ∀ e ∈ es, ∀ x ∈ e.2.slots, x ∈ slots ∧ x ∈ s.freeSlots := by
    intro e he x hx
    have hin : x ∈ slots := hpromo.slots ▸ mem_flatMap.mpr ⟨e, he, hx⟩
    exact ⟨hin, free (List.mem_toFinset.mpr hin)⟩
  have hnodup : (es.flatMap fun e => e.2.slots).Nodup := hpromo.slots ▸ nodup
  have hrows : ∀ x ∈ s.freeSlots, x ∉ s.rowSlots := fun x hx => Finset.disjoint_left.mp inv.rows hx
  have hqueue : ∀ op ∈ (if ((es.filter fun e => !e.2.slots.isEmpty).map
      fun e => (e.1, e.2.hostBlockIndex.getD 0)).isEmpty then s.h2d else s.h2d ++
        [⟨(es.filter fun e => !e.2.slots.isEmpty).map fun e => (e.1, e.2.hostBlockIndex.getD 0),
          devices, hosts⟩]), op ∈ s.h2d ∨ op = ⟨(es.filter fun e => !e.2.slots.isEmpty).map
            fun e => (e.1, e.2.hostBlockIndex.getD 0), devices, hosts⟩ := by
    intro op hop
    split at hop
    · exact Or.inl hop
    · exact (List.mem_append.mp hop).imp id List.mem_singleton.mp
  refine inv.renew hren (fun e he => (List.nodup_flatMap.mp hnodup).1 e he)
    (fun e he e' he' x hx hx' => congrArg Prod.fst (eq_of_mem_flatMap hnodup he he' hx hx'))
    (fun e he id p _ hp x hx hx' => (inv.owned id p x hp hx').1 (hfree e he x hx).2)
    (fun e he x hx => ⟨fun h => (mem_sdiff.mp h).2 (List.mem_toFinset.mpr (hfree e he x hx).1),
      hrows x (hfree e he x hx).2⟩)
    (fun id p _ hp x hx h => (inv.owned id p x hp hx).1 (mem_sdiff.mp h).1)
    (inv.rows.mono_left sdiff_subset) (fun op hop => ?_) (fun op hop => ?_)
    (fun e he hout x hx => ?_)
  · rcases hqueue op hop with hold | rfl
    · exact Or.inl hold
    · refine Or.inr ⟨hmoves, fun e he => ?_⟩
      obtain ⟨e', he', rfl⟩ := List.mem_map.mp he
      have hin := (mem_filter.mp he').1
      obtain ⟨p, hp, ha⟩ := hpromo.assigned e' hin
      obtain ⟨h, hh⟩ := isSome_iff_exists.mp (hostOnly (e'.1, p) hp).2
      exact ⟨e'.2, hin, by rw [ha.host, hh]; rfl⟩
  · show op ∈ if _ then s.h2d else _
    split
    · exact hop
    · exact mem_append_left _ hop
  · -- A block without slots has no values; one with slots is in the new transfer.
    exfalso
    have hx' := (mem_slots_of_zip hx).1
    have hkeep : e ∈ es.filter fun e => !e.2.slots.isEmpty := by
      refine mem_filter.mpr ⟨he, ?_⟩
      cases hsl : e.2.slots with
      | nil => rw [hsl] at hx'; cases hx'
      | cons a l => rfl
    have hentry : e.1 ∈ (((es.filter fun e => !e.2.slots.isEmpty).map
        fun e => (e.1, e.2.hostBlockIndex.getD 0))).map Prod.fst :=
      List.mem_map.mpr ⟨_, List.mem_map_of_mem hkeep, rfl⟩
    refine hout ⟨_, devices, hosts⟩ ?_ hentry
    show _ ∈ if _ then s.h2d else _
    rw [if_neg]
    · exact mem_append_right _ List.mem_cons_self
    · intro hempty
      rw [List.isEmpty_iff] at hempty
      rw [hempty] at hentry
      cases hentry

/-- A failing submission has written free device slots only. -/
theorem KvInv.failH2d [DecidableEq ι] (inv : KvInv blockSize s) {device : Nat → V}
    (hbatch : s.BatchOf batch) (free : slots.toFinset ⊆ s.freeSlots)
    (hcount : slots.length = promotionSlotCount blockSize (batch.map Prod.snd))
    (hvec : transferVectors blockSize ((assignSlices blockSize (batch.map Prod.snd) slots).map
      fun p => (p, p.hostBlockIndex.getD 0)) = .ok (devices, hosts))
    (outside : ∀ x, x ∉ devices → device x = s.device x) :
    KvInv blockSize { s with device := device } := by
  have hpromo := promotion_of_slices hcount
  rw [← zip_assignSlices_snd hcount] at hvec
  set es := (batch.map Prod.fst).zip (assignSlices blockSize (batch.map Prod.snd) slots)
  have hok := hpromo.transferable inv hbatch
  obtain ⟨-, -, hdevices⟩ := @promotion_moves ι blockSize s.payloads devices hosts es _
    (hpromo.keys ▸ hbatch.nodup) (fun e he => (hok e he).1) (fun e he => (hok e he).2) hvec
  refine inv.write fun id p x hp hx => outside x fun hmem => ?_
  obtain ⟨e, he, hxe⟩ := hdevices x hmem
  have hin : x ∈ slots := hpromo.slots ▸ mem_flatMap.mpr ⟨e, he, hxe⟩
  exact (inv.owned id p x hp hx).1 (free (List.mem_toFinset.mpr hin))

theorem KvInv.finishH2d (inv : KvInv blockSize s) {rest : List (KvTransfer ι)}
    (hqueue : s.h2d = op :: rest) :
    KvInv blockSize (s.finishH2d op rest) := by
  have hop : op ∈ s.h2d := hqueue ▸ List.mem_cons_self
  have hrest : ∀ op' ∈ rest, op' ∈ s.h2d := fun op' h => hqueue ▸ List.mem_cons_of_mem op h
  obtain ⟨hmoves, hhost⟩ := inv.promotions op hop
  refine ⟨inv.transferable, inv.nodup, inv.disjoint, inv.owned, inv.rows, inv.hostOwned,
    inv.hostUnique, fun op' hop' => ⟨(inv.backups op' hop').1, fun e he hpro => ?_⟩,
    fun op' hop' => inv.promotions op' (hrest op' hop'), ?_, inv.hostValues⟩
  · obtain ⟨op'', hop'', hmem⟩ := hpro
    exact (inv.backups op' hop').2 e he ⟨op'', hrest op'' hop'', hmem⟩
  · rintro id p hp hnot ⟨slot, o⟩ he
    replace hp : s.payloads id = some p := hp
    show copyInto s.device s.host _ slot = s.published id o
    have hslot := (mem_slots_of_zip he).1
    refine copyInto_eq _ _ (fun e hpair heq => ?_) ?_
    · obtain ⟨e', he', p', o', hp', hzip, hx⟩ :=
        hmoves.mem_pairs.mp (show (e.1, e.2) ∈ _ from hpair)
      rw [heq] at hzip
      have hid : e'.1 = id := inv.disjoint e'.1 id p' p slot hp' hp (mem_slots_of_zip hzip).1 hslot
      rw [hid, hp] at hp'
      cases hp'
      have ho : o' = o := by
        obtain ⟨i, hi⟩ := mem_iff_getElem?.mp hzip
        obtain ⟨j, hj⟩ := mem_iff_getElem?.mp he
        rw [getElem?_zip_eq_some] at hi hj
        have hlt := (List.getElem?_eq_some_iff.mp hi.1).1
        have hij : i = j := (getElem?_inj hlt (inv.nodup id p hp)).mp (hi.1.trans hj.1.symm)
        rw [hij] at hi
        exact Option.some.inj (hi.2.symm.trans hj.2)
      obtain ⟨q, hq, hh⟩ := hhost e' he'
      rw [hid, hp] at hq
      cases hq
      rw [hx, ho]
      exact inv.hostValues id p e'.2 hp hh o (mem_slots_of_zip he).2
    · by_cases hin : id ∈ op.entries.map Prod.fst
      · right
        obtain ⟨e', he', rfl⟩ := List.mem_map.mp hin
        exact List.mem_map.mpr ⟨(slot, e'.2 * blockSize + o),
          hmoves.mem_pairs.mpr ⟨e', he', p, o, hp, he, rfl⟩, rfl⟩
      · left
        refine inv.deviceValues id p hp ?_ (slot, o) he
        rintro ⟨op', hop', hmem⟩
        rw [hqueue] at hop'
        rcases List.mem_cons.mp hop' with rfl | hop'
        · exact hin hmem
        · exact hnot ⟨op', hop', hmem⟩

theorem PrunedTo.zip {keep : Nat → Bool} (h : PrunedTo blockSize keep p p')
    (ok : Transferable blockSize p) :
    p'.slots.zip (p'.offsets blockSize) =
      (p.slots.zip (p.offsets blockSize)).filter fun e => keep e.2 := by
  have hoffsets : p'.offsets blockSize = (p.offsets blockSize).filter keep := by
    rw [StandardPrefixBlockPayload.offsets, h.offsets]
    rfl
  cases hs : p.tokenSlots with
  | none =>
    rw [StandardPrefixBlockPayload.slots, h.absent hs, StandardPrefixBlockPayload.slots, hs]
    simp
  | some slots =>
    rw [hoffsets, StandardPrefixBlockPayload.slots, h.slots slots hs,
      StandardPrefixBlockPayload.slots, hs, getD_some, getD_some]
    have hlen := ok.sized slots hs
    have hgen : ∀ offsets slots : List Nat, slots.length = offsets.length →
        (((offsets.zip slots).filter fun e => keep e.1).map Prod.snd).zip (offsets.filter keep) =
          (slots.zip offsets).filter fun e => keep e.2 := by
      intro offsets
      induction offsets with
      | nil => intro slots _; simp
      | cons o offsets ih =>
        intro slots hlen
        cases slots with
        | nil => cases hlen
        | cons x slots =>
          have ih := ih slots (by simpa using hlen)
          rw [List.zip_cons_cons, List.zip_cons_cons, List.filter_cons, List.filter_cons,
            List.filter_cons]
          cases keep o with
          | true => simpa using ih
          | false => simpa using ih
    exact hgen _ _ hlen

theorem slotsOfAll_nodup (inv : KvInv blockSize s) : ∀ {batch : List (ι × StandardPrefixBlockPayload)},
    (batch.map Prod.fst).Nodup → (∀ e ∈ batch, s.payloads e.1 = some e.2) →
    (slotsOfAll (batch.map Prod.snd)).Nodup
  | [], _, _ => List.nodup_nil
  | e :: batch, nodup, found => by
    rw [List.map_cons, List.nodup_cons] at nodup
    have hrest := slotsOfAll_nodup inv nodup.2 fun e' he' => found e' (List.mem_cons_of_mem e he')
    have he := found e List.mem_cons_self
    rw [slotsOfAll, List.map_cons, List.flatMap_cons, List.nodup_append']
    refine ⟨inv.nodup e.1 e.2 he, hrest, fun x hx hx' => ?_⟩
    obtain ⟨p, hp, hxp⟩ := mem_flatMap.mp hx'
    obtain ⟨e', he', rfl⟩ := List.mem_map.mp hp
    have heq := inv.disjoint e.1 e'.1 e.2 e'.2 x he (found e' (List.mem_cons_of_mem e he')) hx hxp
    exact nodup.1 (heq ▸ List.mem_map_of_mem he')

theorem KvInv.prune [DecidableEq ι] (inv : KvInv blockSize s) {selected : List Int}
    {pruned : List StandardPrefixBlockPayload} {dropped : List Nat} (hbatch : s.BatchOf batch)
    (h : prunePayloads blockSize selected (batch.map Prod.snd) = .ok (pruned, dropped)) :
    KvInv blockSize { s with
      freeSlots := s.freeSlots ∪ dropped.toFinset
      payloads := assign s.payloads ((batch.map Prod.fst).zip pruned) } := by
  obtain ⟨hall, hcount⟩ := prunePayloads_spec h
  have hlen := hall.length_eq
  rw [length_map] at hlen
  have hkeys : ((batch.map Prod.fst).zip pruned).map Prod.fst = batch.map Prod.fst :=
    map_fst_zip (by rw [length_map]; exact hlen.le)
  have hsnd : ((batch.map Prod.fst).zip pruned).map Prod.snd = pruned :=
    map_snd_zip (by rw [length_map]; exact hlen.ge)
  set es := (batch.map Prod.fst).zip pruned with hes
  have hold : ∀ e ∈ es, ∃ p keep, s.payloads e.1 = some p ∧ PrunedTo blockSize keep p e.2 ∧
      (e.1, p) ∈ batch := by
    intro e he
    obtain ⟨p, hp, keep, hk⟩ := mem_zip_forall₂ hall (show (e.1, e.2) ∈ _ from he)
    exact ⟨p, keep, hbatch.payloads (e.1, p) hp, hk, hp⟩
  have hallNodup := slotsOfAll_nodup inv hbatch.nodup hbatch.payloads
  -- Kept and dropped slots together are the slots of the batch, each once.
  have hkept : ∀ e ∈ es, ∀ x ∈ e.2.slots, x ∉ dropped := by
    intro e he x hx hdrop
    have hone := nodup_iff_count_le_one.mp hallNodup x
    have hin : x ∈ slotsOfAll pruned := by
      rw [← hsnd]
      exact mem_flatMap.mpr ⟨e.2, List.mem_map_of_mem he, hx⟩
    have h₁ := count_pos_iff.mpr hin
    have h₂ := count_pos_iff.mpr hdrop
    have h₃ := hcount x
    omega
  have hdropped : ∀ x ∈ dropped, ∃ e ∈ batch, x ∈ e.2.slots := by
    intro x hx
    have h₁ := count_pos_iff.mpr hx
    have h₂ := hcount x
    have hin : x ∈ slotsOfAll (batch.map Prod.snd) := count_pos_iff.mp (by omega)
    obtain ⟨p, hp, hxp⟩ := mem_flatMap.mp hin
    obtain ⟨e, he, rfl⟩ := List.mem_map.mp hp
    exact ⟨e, he, hxp⟩
  have hzip : ∀ e ∈ es, ∀ p keep, s.payloads e.1 = some p → PrunedTo blockSize keep p e.2 →
      ∀ x ∈ e.2.slots.zip (e.2.offsets blockSize), x ∈ p.slots.zip (p.offsets blockSize) := by
    intro e he p keep hp hk x hx
    rw [hk.zip (inv.transferable e.1 p hp)] at hx
    exact (mem_filter.mp hx).1
  have hsized : ∀ e ∈ es, e.2.tokenSlots.isSome = true →
      e.2.slots.length = (e.2.offsets blockSize).length := by
    intro e he hsome
    obtain ⟨p, keep, hp, hk, -⟩ := hold e he
    have hoffsets : e.2.offsets blockSize = (p.offsets blockSize).filter keep := by
      rw [StandardPrefixBlockPayload.offsets, hk.offsets]
      rfl
    cases hs : p.tokenSlots with
    | none => rw [hk.absent hs] at hsome; cases hsome
    | some slots =>
      rw [hoffsets, StandardPrefixBlockPayload.slots, hk.slots slots hs]
      exact length_filter_zip keep _ _ ((inv.transferable e.1 p hp).sized slots hs)
  have hslots : ∀ e ∈ es, ∀ p keep, s.payloads e.1 = some p → PrunedTo blockSize keep p e.2 →
      e.2.slots.Sublist p.slots := by
    intro e he p keep hp hk
    cases hs : p.tokenSlots with
    | none =>
      rw [StandardPrefixBlockPayload.slots, hk.absent hs]
      exact nil_sublist _
    | some slots =>
      have hlen := (inv.transferable e.1 p hp).sized slots hs
      rw [StandardPrefixBlockPayload.slots, hk.slots slots hs, StandardPrefixBlockPayload.slots, hs,
        getD_some, getD_some]
      have hmap : ((p.offsets blockSize).zip slots).map Prod.snd = slots :=
        map_snd_zip hlen.le
      conv_rhs => rw [← hmap]
      exact filter_sublist.map _
  have hren : Renewal blockSize s es := by
    refine ⟨hkeys ▸ hbatch.nodup, fun e he => ?_, fun e he => ?_, fun e he => ?_⟩
    · obtain ⟨p, keep, -, -, hmem⟩ := hold e he
      exact hbatch.idle (e.1, p) hmem
    · obtain ⟨p, keep, hp, hk, -⟩ := hold e he
      refine ⟨p, hp, hk.host, fun o ho => ?_⟩
      rw [StandardPrefixBlockPayload.offsets, hk.offsets] at ho
      exact (mem_filter.mp ho).1
    · obtain ⟨p, keep, hp, hk, -⟩ := hold e he
      refine ⟨fun slots hs => ?_, fun o ho => ?_⟩
      · have := hsized e he (by rw [hs]; rfl)
        rwa [StandardPrefixBlockPayload.slots, hs] at this
      · rw [StandardPrefixBlockPayload.offsets, hk.offsets] at ho
        exact (inv.transferable e.1 p hp).inside o (mem_filter.mp ho).1
  refine inv.renew hren (fun e he => ?_) (fun e he e' he' x hx hx' => ?_)
    (fun e he id p hid hp x hx hx' => ?_) (fun e he x hx => ?_) (fun id p hid hp x hx => ?_) ?_
    (fun op hop => Or.inl hop) (fun op hop => hop) (fun e he hout x hx => ?_)
  · obtain ⟨p, keep, hp, hk, -⟩ := hold e he
    exact (hslots e he p keep hp hk).nodup (inv.nodup e.1 p hp)
  · obtain ⟨p, keep, hp, hk, -⟩ := hold e he
    obtain ⟨p', keep', hp', hk', -⟩ := hold e' he'
    exact inv.disjoint e.1 e'.1 p p' x hp hp' ((hslots e he p keep hp hk).subset hx)
      ((hslots e' he' p' keep' hp' hk').subset hx')
  · obtain ⟨q, keep, hq, hk, -⟩ := hold e he
    have heq := inv.disjoint e.1 id q p x hq hp ((hslots e he q keep hq hk).subset hx) hx'
    exact hid (heq ▸ List.mem_map_of_mem he)
  · obtain ⟨p, keep, hp, hk, -⟩ := hold e he
    obtain ⟨hfree, hrow⟩ := inv.owned e.1 p x hp ((hslots e he p keep hp hk).subset hx)
    refine ⟨fun hmem => ?_, hrow⟩
    rcases mem_union.mp hmem with hmem | hmem
    · exact hfree hmem
    · exact hkept e he x hx (List.mem_toFinset.mp hmem)
  · intro hmem
    rcases mem_union.mp hmem with hmem | hmem
    · exact (inv.owned id p x hp hx).1 hmem
    · obtain ⟨e, he, hxe⟩ := hdropped x (List.mem_toFinset.mp hmem)
      have heq := inv.disjoint e.1 id e.2 p x (hbatch.payloads e he) hp hxe hx
      rw [hkeys] at hid
      exact hid (heq ▸ List.mem_map_of_mem he)
  · refine Finset.disjoint_union_left.mpr ⟨inv.rows, Finset.disjoint_left.mpr fun x hx hrow => ?_⟩
    obtain ⟨e, he, hxe⟩ := hdropped x (List.mem_toFinset.mp hx)
    exact (inv.owned e.1 e.2 x (hbatch.payloads e he) hxe).2 hrow
  · obtain ⟨p, keep, hp, hk, hmem⟩ := hold e he
    exact inv.deviceValues e.1 p hp (Idle.not_promoting (hbatch.idle (e.1, p) hmem)) x
      (hzip e he p keep hp hk x hx)

/-- The device slots are freed, the host copy stays. -/
theorem KvInv.demote [DecidableEq ι] (inv : KvInv blockSize s)
    {payload : StandardPrefixBlockPayload} (found : s.payloads id = some payload) (idle : s.Idle id) :
    KvInv blockSize { s with
      freeSlots := s.freeSlots ∪ payload.slots.toFinset
      payloads := update s.payloads id (some { payload with tokenSlots := none }) } := by
  set es : List (ι × StandardPrefixBlockPayload) := [(id, { payload with tokenSlots := none })]
    with hes
  have hmem : ∀ e ∈ es, e = (id, { payload with tokenSlots := none }) := fun e he =>
    List.mem_singleton.mp he
  have hempty : ∀ e ∈ es, e.2.slots = [] := fun e he => by rw [hmem e he]; rfl
  have hren : Renewal blockSize s es := by
    refine ⟨List.nodup_singleton _, fun e he => ?_, fun e he => ?_, fun e he => ?_⟩
    · rw [hmem e he]
      exact idle
    · rw [hmem e he]
      exact ⟨payload, found, rfl, fun o ho => ho⟩
    · rw [hmem e he]
      refine ⟨fun slots hs => ?_, (inv.transferable id payload found).inside⟩
      cases hs
  refine inv.renew hren (fun e he => ?_) (fun e he _ _ x hx => ?_) (fun e he _ _ _ _ x hx => ?_)
    (fun e he x hx => ?_) (fun id' p hid hp x hx hin => ?_) ?_ (fun op hop => Or.inl hop)
    (fun op hop => hop) (fun e he _ x hx => ?_)
  · rw [hempty e he]
    exact List.nodup_nil
  · rw [hempty e he] at hx
    cases hx
  · rw [hempty e he] at hx
    cases hx
  · rw [hempty e he] at hx
    cases hx
  · rcases mem_union.mp hin with hin | hin
    · exact (inv.owned id' p x hp hx).1 hin
    · have heq := inv.disjoint id' id p payload x hp found hx (List.mem_toFinset.mp hin)
      exact hid (heq ▸ List.mem_map_of_mem (List.mem_singleton.mpr rfl))
  · refine Finset.disjoint_union_left.mpr ⟨inv.rows, Finset.disjoint_left.mpr fun x hx hrow => ?_⟩
    exact (inv.owned id payload x found (List.mem_toFinset.mp hx)).2 hrow
  · rw [hempty e he, List.zip_nil_left] at hx
    cases hx

theorem KvInv.remove [DecidableEq ι] (inv : KvInv blockSize s)
    {payload : StandardPrefixBlockPayload} (found : s.payloads id = some payload) (idle : s.Idle id) :
    KvInv blockSize { s with
      freeSlots := s.freeSlots ∪ payload.slots.toFinset
      freeIndices := s.freeIndices ∪ payload.hostBlockIndex.toFinset
      payloads := update s.payloads id none } := by
  have hcases : ∀ {id' p}, update s.payloads id none id' = some p →
      id' ≠ id ∧ s.payloads id' = some p := by
    intro id' p hp
    by_cases hid : id' = id
    · rw [hid, Function.update_self] at hp
      cases hp
    · rw [Function.update_of_ne hid] at hp
      exact ⟨hid, hp⟩
  have hrw : Rewrites blockSize s (update s.payloads id none) :=
    ⟨fun id' hbusy => Function.update_of_ne (fun (heq : id' = id) => hbusy (heq ▸ idle)) _ _,
      fun id' p' hp' => ⟨p', (hcases hp').2, rfl, fun o ho => ho⟩⟩
  have hholds : ∀ id' k, HoldsHost { s with
      freeSlots := s.freeSlots ∪ payload.slots.toFinset
      freeIndices := s.freeIndices ∪ payload.hostBlockIndex.toFinset
      payloads := update s.payloads id none } id' k → HoldsHost s id' k ∧ id' ≠ id := by
    intro id' k held
    refine ⟨hrw.holds held rfl rfl, ?_⟩
    rcases held with ⟨p, hp, -⟩ | ⟨op, hop, hmem⟩
    · exact (hcases hp).1
    · rintro rfl
      exact idle op (mem_append_left _ hop) (List.mem_map_of_mem hmem)
  refine ⟨fun id' p hp => inv.transferable id' p (hcases hp).2,
    fun id' p hp => inv.nodup id' p (hcases hp).2,
    fun id₁ id₂ p₁ p₂ x hp₁ hp₂ => inv.disjoint id₁ id₂ p₁ p₂ x (hcases hp₁).2 (hcases hp₂).2,
    fun id' p x hp hx => ?_, ?_, fun id' k held hin => ?_,
    fun id₁ id₂ k held₁ held₂ => inv.hostUnique id₁ id₂ k (hholds id₁ k held₁).1
      (hholds id₂ k held₂).1, fun op hop => ?_, fun op hop => ?_,
    fun id' p hp => inv.deviceValues id' p (hcases hp).2,
    fun id' p k hp hh o ho => inv.hostValues id' p k (hcases hp).2 hh o ho⟩
  · obtain ⟨hne, hq⟩ := hcases hp
    obtain ⟨hfree, hrow⟩ := inv.owned id' p x hq hx
    refine ⟨fun hin => ?_, hrow⟩
    rcases mem_union.mp hin with hin | hin
    · exact hfree hin
    · exact hne (inv.disjoint id' id p payload x hq found hx (List.mem_toFinset.mp hin))
  · refine Finset.disjoint_union_left.mpr ⟨inv.rows, Finset.disjoint_left.mpr fun x hx hrow => ?_⟩
    exact (inv.owned id payload x found (List.mem_toFinset.mp hx)).2 hrow
  · obtain ⟨hheld, hne⟩ := hholds id' k held
    rcases mem_union.mp hin with hin | hin
    · exact inv.hostOwned id' k hheld hin
    · rw [Option.mem_toFinset] at hin
      exact hne (inv.hostUnique id' id k hheld (Or.inl ⟨payload, found, hin⟩))
  · obtain ⟨hmoves, hapart⟩ := inv.backups op hop
    exact ⟨hrw.moves (mem_append_left _ hop) hmoves, hapart⟩
  · obtain ⟨hmoves, hhost⟩ := inv.promotions op hop
    refine ⟨hrw.moves (mem_append_right _ hop) hmoves, fun e he => ?_⟩
    obtain ⟨p, hp, hh⟩ := hhost e he
    exact ⟨p, (hrw.kept e.1 (not_idle (mem_append_right _ hop) (List.mem_map_of_mem he))).trans hp,
      hh⟩

/-- Every step keeps the invariant. -/
theorem KvInv.step [DecidableEq ι] {s' : KvState ι V} (inv : KvInv blockSize s)
    (h : KvStep blockSize s s') : KvInv blockSize s' := by
  cases h with
  | take hxs => exact inv.take hxs
  | give hxs => exact inv.give hxs
  | compute hx =>
    refine inv.write fun id p y hp hy => Function.update_of_ne ?_ _ _
    rintro rfl
    exact (inv.owned id p _ hp hy).2 hx
  | publish new nodup rows full => exact inv.publish new nodup rows full
  | submitD2h hbatch present nodup free _ hvec _ => exact inv.submitD2h hbatch present nodup free hvec
  | backupEmpty hbatch present nodup free _ hvec =>
    exact inv.backupEmpty hbatch present nodup free hvec
  | failD2h hbatch present free _ hvec outside => exact inv.failD2h hbatch present free hvec outside
  | finishD2h hqueue => exact inv.finishD2h hqueue
  | submitH2d hbatch hostOnly nodup free hcount hassigned hvec =>
    exact inv.submitH2d hbatch hostOnly nodup free hcount hassigned hvec
  | failH2d hbatch _ free hcount hvec outside => exact inv.failH2d hbatch free hcount hvec outside
  | finishH2d hqueue => exact inv.finishH2d hqueue
  | prune hbatch h => exact inv.prune hbatch h
  | demote found idle _ => exact inv.demote found idle
  | remove found idle => exact inv.remove found idle

theorem KvReachable.inv [DecidableEq ι] (h : KvReachable blockSize s) : KvInv blockSize s := by
  induction h with
  | start initial => exact initial.inv
  | step _ hstep ih => exact ih.step hstep

/-- Offload keeps the KV of every block, by logical offset. -/
theorem kv_round_trip [DecidableEq ι] (h : KvReachable blockSize s) :
    (∀ id p slots, s.payloads id = some p → p.tokenSlots = some slots → ¬ s.Promoting id →
      slots.length = (p.offsets blockSize).length ∧
        ∀ (i slot offset : Nat), slots[i]? = some slot → (p.offsets blockSize)[i]? = some offset →
          s.device slot = s.published id offset) ∧
      (∀ op rest, s.d2h = op :: rest → (s.finishD2h op rest).device = s.device ∧
        ∀ x, (s.finishD2h op rest).host x ≠ s.host x →
          ∃ e ∈ op.entries, e.2 * blockSize ≤ x ∧ x < (e.2 + 1) * blockSize) ∧
      (∀ op rest, s.h2d = op :: rest → (s.finishH2d op rest).host = s.host ∧
        ∀ x, (s.finishH2d op rest).device x ≠ s.device x →
          ∃ e ∈ op.entries, ∃ p, s.payloads e.1 = some p ∧ x ∈ p.slots) ∧
      (∀ batch hostIndices, s.BatchOf batch → (∀ e ∈ batch, e.2.tokenSlots.isSome = true) →
        ∃ devices hosts, transferVectors blockSize ((batch.map Prod.snd).zip hostIndices) =
          .ok (devices, hosts)) ∧
      ∀ batch slots, s.BatchOf batch →
        slots.length = promotionSlotCount blockSize (batch.map Prod.snd) →
        ∃ devices hosts, transferVectors blockSize ((assignSlices blockSize (batch.map Prod.snd)
          slots).map fun p => (p, p.hostBlockIndex.getD 0)) = .ok (devices, hosts) := by
  have inv := h.inv
  refine ⟨?_, ?_, ?_, ?_, ?_⟩
  · intro id p slots hp hslots hnot
    refine ⟨(inv.transferable id p hp).sized slots hslots, fun i slot offset hslot hoffset => ?_⟩
    refine inv.deviceValues id p hp hnot (slot, offset) (mem_iff_getElem?.mpr ⟨i, ?_⟩)
    rw [getElem?_zip_eq_some, StandardPrefixBlockPayload.slots, hslots]
    exact ⟨hslot, hoffset⟩
  · intro op rest hqueue
    refine ⟨rfl, fun x hx => ?_⟩
    obtain ⟨hmoves, -⟩ := inv.backups op (hqueue ▸ List.mem_cons_self)
    have hmem := not_imp_comm.mp (copyInto_of_not_mem
      ((op.deviceTokenIndices.zip op.hostTokenIndices).map Prod.swap) s.host) hx
    obtain ⟨pair, hswap, rfl⟩ := List.mem_map.mp hmem
    obtain ⟨⟨slot, y⟩, hpair, rfl⟩ := List.mem_map.mp hswap
    obtain ⟨e, he, p, o, hp, hzip, rfl⟩ := hmoves.mem_pairs.mp hpair
    have hin := (inv.transferable e.1 p hp).inside o (mem_slots_of_zip hzip).2
    refine ⟨e, he, Nat.le_add_right _ _, ?_⟩
    show e.2 * blockSize + o < (e.2 + 1) * blockSize
    rw [Nat.add_mul, Nat.one_mul]
    omega
  · intro op rest hqueue
    refine ⟨rfl, fun x hx => ?_⟩
    obtain ⟨hmoves, -⟩ := inv.promotions op (hqueue ▸ List.mem_cons_self)
    have hmem := not_imp_comm.mp (copyInto_of_not_mem
      (op.deviceTokenIndices.zip op.hostTokenIndices) s.device) hx
    obtain ⟨⟨slot, y⟩, hpair, rfl⟩ := List.mem_map.mp hmem
    obtain ⟨e, he, p, o, hp, hzip, -⟩ := hmoves.mem_pairs.mp hpair
    exact ⟨e, he, p, hp, (mem_slots_of_zip hzip).1⟩
  · intro batch hostIndices hbatch present
    have hmem : ∀ e ∈ (batch.map Prod.snd).zip hostIndices, ∃ e' ∈ batch, e'.2 = e.1 := fun e he =>
      List.mem_map.mp (List.of_mem_zip (a := e.1) (b := e.2) he).1
    obtain ⟨devices, hosts, hvec, -⟩ := @transferVectors_ok blockSize
      ((batch.map Prod.snd).zip hostIndices)
      (fun e he => by
        obtain ⟨e', he', heq⟩ := hmem e he
        exact heq ▸ inv.transferable e'.1 e'.2 (hbatch.payloads e' he'))
      (fun e he => by obtain ⟨e', he', heq⟩ := hmem e he; exact heq ▸ present e' he')
    exact ⟨devices, hosts, hvec⟩
  · intro batch slots hbatch hcount
    have hok := (@promotion_of_slices ι blockSize slots batch hcount).transferable inv hbatch
    rw [← zip_assignSlices_snd hcount, List.map_map]
    obtain ⟨devices, hosts, hvec, -⟩ := @transferVectors_ok blockSize
      (((batch.map Prod.fst).zip (assignSlices blockSize (batch.map Prod.snd) slots)).map
        fun e => (e.2, e.2.hostBlockIndex.getD 0))
      (fun e he => by obtain ⟨e', he', rfl⟩ := List.mem_map.mp he; exact (hok e' he').1)
      (fun e he => by obtain ⟨e', he', rfl⟩ := List.mem_map.mp he; exact (hok e' he').2)
    exact ⟨devices, hosts, hvec⟩

/-- Every slot and host index has one owner, and what a queued copy reads or writes stays in place. -/
theorem kv_memory_exclusive [DecidableEq ι] (h : KvReachable blockSize s) :
    (∀ id p, s.payloads id = some p → p.slots.Nodup ∧ ∀ x ∈ p.slots,
      x ∉ s.freeSlots ∧ x ∉ s.rowSlots ∧ ∀ id' p', s.payloads id' = some p' → x ∈ p'.slots → id' = id) ∧
    Disjoint s.freeSlots s.rowSlots ∧
    (∀ id k, HoldsHost s id k → k ∉ s.freeIndices ∧ ∀ id', HoldsHost s id' k → id' = id) ∧
    (∀ op ∈ s.d2h, ∀ e ∈ op.entries, ¬ s.Promoting e.1 ∧
      ∃ p, s.payloads e.1 = some p ∧ p.tokenSlots.isSome = true) ∧
    (∀ op ∈ s.h2d, ∀ e ∈ op.entries, ∃ p, s.payloads e.1 = some p ∧ p.tokenSlots.isSome = true ∧
      p.hostBlockIndex = some e.2) ∧
    ∀ id p k, s.payloads id = some p → p.hostBlockIndex = some k →
      ∀ offset ∈ p.offsets blockSize, s.host (k * blockSize + offset) = s.published id offset := by
  have inv := h.inv
  refine ⟨fun id p hp => ⟨inv.nodup id p hp, fun x hx => ?_⟩, inv.rows, fun id k hk => ?_,
    fun op hop e he => ?_, fun op hop e he => ?_, inv.hostValues⟩
  · obtain ⟨hfree, hrow⟩ := inv.owned id p x hp hx
    exact ⟨hfree, hrow, fun id' p' hp' hx' => inv.disjoint id' id p' p x hp' hp hx' hx⟩
  · exact ⟨inv.hostOwned id k hk, fun id' hk' => inv.hostUnique id' id k hk' hk⟩
  · obtain ⟨hmoves, hidle⟩ := inv.backups op hop
    exact ⟨hidle e he, hmoves.present e he⟩
  · obtain ⟨hmoves, hindex⟩ := inv.promotions op hop
    obtain ⟨p, hp, hslots⟩ := hmoves.present e he
    obtain ⟨p', hp', hhost⟩ := hindex e he
    cases hp.symm.trans hp'
    exact ⟨p, hp, hslots, hhost⟩

end

/-- Four slots and one host block. -/
def roundTripStart : KvState Nat Nat where
  payloads _ := none
  device x := 10 + x
  host _ := 0
  freeSlots := {0, 1, 2, 3}
  rowSlots := ∅
  freeIndices := {0}
  d2h := []
  h2d := []
  published _ _ := 0

theorem batchOf_single {s : KvState ι V} {id : ι} {p : StandardPrefixBlockPayload}
    (found : s.payloads id = some p) (d2h : s.d2h = []) (h2d : s.h2d = []) : s.BatchOf [(id, p)] := by
  refine ⟨List.nodup_singleton _, fun e he => ?_, fun e he op hop => ?_⟩
  · rw [List.mem_singleton.mp he]
    exact found
  · rw [d2h, h2d] at hop
    cases hop

/-- A block of two tokens is backed up, pruned to its second token, demoted and promoted again. -/
theorem roundTrip_reachable : ∃ s : KvState Nat Nat, KvReachable 2 s ∧
    s.payloads 0 = some ⟨some [3], some 0, some [1]⟩ ∧ s.h2d = [] ∧ s.published 0 1 = 11 := by
  have start : KvReachable 2 roundTripStart := .start ⟨fun _ => rfl, rfl, rfl, rfl⟩
  have rows := start.step (@KvStep.take Nat Nat _ 2 _ {0, 1} (by decide))
  have published := rows.step (@KvStep.publish Nat Nat _ 2 _ 0 [0, 1] rfl (by decide) (by decide) rfl)
  have submitted := published.step (@KvStep.submitD2h Nat Nat _ 2 _ [(0, ⟨some [0, 1], none, none⟩)]
    [0] [0, 1] [0, 1] (batchOf_single rfl rfl rfl) (by decide) (by decide) (by decide) rfl rfl
    (by decide))
  have backedUp := submitted.step (.finishD2h rfl)
  have pruned := backedUp.step (@KvStep.prune Nat Nat _ 2 _ [(0, ⟨some [0, 1], some 0, none⟩)] [1]
    [⟨some [1], some 0, some [1]⟩] [0] (batchOf_single rfl rfl rfl) rfl)
  have demoted := pruned.step (@KvStep.demote Nat Nat _ 2 _ 0 ⟨some [1], some 0, some [1]⟩ rfl
    (by rintro op ⟨⟩) rfl)
  have promoted := demoted.step (@KvStep.submitH2d Nat Nat _ 2 _ [(0, ⟨none, some 0, some [1]⟩)]
    [⟨some [3], some 0, some [1]⟩] [3] [3] [1] (batchOf_single rfl rfl rfl) (by decide) (by decide)
    (by decide) rfl rfl rfl)
  exact ⟨_, promoted.step (.finishH2d rfl), rfl, rfl, rfl⟩

theorem kv_round_trip_demo : ∃ s : KvState Nat Nat, KvReachable 2 s ∧
    s.payloads 0 = some ⟨some [3], some 0, some [1]⟩ ∧ s.device 3 = 11 := by
  obtain ⟨s, restored, found, idle, value⟩ := roundTrip_reachable
  refine ⟨s, restored, found, value ▸ ((kv_round_trip restored).1 0 _ [3] found rfl ?_).2 0 3 1 rfl rfl⟩
  rintro ⟨op, hop, -⟩
  rw [idle] at hop
  cases hop

theorem kv_memory_exclusive_demo : ∃ s : KvState Nat Nat, KvReachable 2 s ∧
    s.payloads 0 = some ⟨some [3], some 0, some [1]⟩ ∧ 3 ∉ s.freeSlots ∧ 0 ∉ s.freeIndices ∧
    s.host 1 = s.published 0 1 := by
  obtain ⟨s, restored, found, -⟩ := roundTrip_reachable
  obtain ⟨slots, -, indices, -, -, copies⟩ := kv_memory_exclusive restored
  exact ⟨s, restored, found, ((slots 0 _ found).2 3 (by decide)).1,
    (indices 0 0 (Or.inl ⟨_, found, rfl⟩)).1, copies 0 _ 0 found rfl 1 (by decide)⟩

end SparseEngine
