import SparseEngine.DeepSeek.CompressedFamily

/-! Runs of a compressed family under the protocol of its cache manager. -/

namespace SparseEngine.CompressedKVFamily

open PyM PhysicalPageAllocator

variable {β : Type}

inductive FamilyOp (β : Type)
  | newLease
  | reserve (lease tokenCapacity : Nat) (fault : Option Nat)
  | markMaterialized (lease tokenCount : Nat)
  | snapshot (lease : Nat)
  | release (lease : Nat)
  | write (lease pool position : Nat) (value : β)

def FamilyOp.run (cfg : FamilyConfig) : FamilyOp β → FamilyM β Unit
  | .newLease => do
    let _ ← CompressedKVFamily.newLease
  | .reserve lease tokenCapacity fault => CompressedKVFamily.reserve cfg lease tokenCapacity fault
  | .markMaterialized lease tokenCount => CompressedKVFamily.markMaterialized cfg lease tokenCount
  | .snapshot lease => do
    let _ ← CompressedKVFamily.snapshot cfg lease
  | .release lease => CompressedKVFamily.release lease
  | .write lease pool position value => writeToken cfg lease pool position value

structure FamilyTrace (β : Type) where
  family : CompressedKVFamily β
  reserved : Nat → Nat := fun _ => 0

def FamilyOp.reserves (reserved : Nat → Nat) : FamilyOp β → Nat → Nat
  | .reserve lease tokenCapacity _ =>
    Function.update reserved lease (max (reserved lease) tokenCapacity)
  | .snapshot lease => Function.update reserved lease 0
  | _ => reserved

def FamilyOp.next (cfg : FamilyConfig) (op : FamilyOp β) (t : FamilyTrace β) : FamilyTrace β where
  family := (op.run cfg t.family).2
  reserved :=
    match (op.run cfg t.family).1 with
    | .ok _ => op.reserves t.reserved
    | .error _ => t.reserved

def Writable (t : FamilyTrace β) (lease position : Nat) : Prop :=
  ∃ l, t.family.leases.get? lease = some l ∧ l.released = false ∧
    l.materializedTokens ≤ position ∧ position < t.reserved lease

def FamilyOp.Permitted (t : FamilyTrace β) : FamilyOp β → Prop
  | .write lease _ position _ => Writable t lease position
  | _ => True

def Step (cfg : FamilyConfig) (t t' : FamilyTrace β) : Prop :=
  ∃ op : FamilyOp β, op.Permitted t ∧ t' = op.next cfg t

def Steps (cfg : FamilyConfig) : FamilyTrace β → FamilyTrace β → Prop :=
  Relation.ReflTransGen (Step cfg)

def Reachable (cfg : FamilyConfig) (t : FamilyTrace β) : Prop :=
  ∃ numPages reservedPages storage,
    Steps cfg { family := create numPages reservedPages storage } t

section

variable {cfg : FamilyConfig} {t t' : FamilyTrace β}

theorem inv_create (numPages reservedPages : Nat) (storage : Nat → Nat → Nat → β) :
    Inv cfg (fun _ => 0) (create numPages reservedPages storage) :=
  ⟨holds_create numPages reservedPages, fun _ _ => ⟨rfl, rfl⟩, nofun⟩

theorem FamilyOp.spec (op : FamilyOp β) (h : Inv cfg t.reserved t.family) (hop : op.Permitted t) :
    wp (op.run cfg)
      (fun _ f => Inv cfg (op.reserves t.reserved) f ∧ Preserved cfg t.family f)
      (fun _ f => Inv cfg t.reserved f ∧ Preserved cfg t.family f) t.family := by
  have hsame : ∀ (_ : PyError) (f : CompressedKVFamily β), f = t.family → Inv cfg t.reserved f ∧ Preserved cfg t.family f := by
    rintro - f rfl
    exact ⟨h, .refl _⟩
  cases op with
  | newLease =>
    rw [FamilyOp.run, wp_bind]
    exact wp_mono (newLease_spec h) (fun _ _ hf => hf) fun _ _ hf => hf.elim
  | reserve lease tokenCapacity fault => exact reserve_spec h lease tokenCapacity fault
  | markMaterialized lease tokenCount =>
    exact wp_mono (markMaterialized_spec h lease tokenCount) (fun _ _ hf => hf) hsame
  | snapshot lease =>
    rw [FamilyOp.run, wp_bind]
    exact wp_mono (snapshot_spec h lease) (fun _ _ hf => hf) hsame
  | release lease => exact wp_mono (release_spec h lease) (fun _ _ hf => hf) hsame
  | write lease pool position value =>
    obtain ⟨l, hl, hlive, hfrom, hto⟩ : Writable t lease position := hop
    exact wp_mono (writeToken_spec h hl hlive pool value hfrom hto) (fun _ _ hf => hf)
      fun _ _ hf => hf.elim

theorem Step.inv (hstep : Step cfg t t') (h : Inv cfg t.reserved t.family) :
    Inv cfg t'.reserved t'.family ∧ Preserved cfg t.family t'.family := by
  obtain ⟨op, hop, rfl⟩ := hstep
  have hspec := op.spec h hop
  unfold FamilyOp.next
  cases hrun : op.run cfg t.family with
  | mk r f =>
    cases r with
    | ok u => exact (wp_of_ok hrun).mp hspec
    | error e => exact (wp_of_error hrun).mp hspec

theorem Steps.inv (hsteps : Steps cfg t t') (h : Inv cfg t.reserved t.family) :
    Inv cfg t'.reserved t'.family ∧ Preserved cfg t.family t'.family := by
  induction hsteps with
  | refl => exact ⟨h, .refl _⟩
  | tail _ hstep ih =>
    obtain ⟨hinv, hpreserved⟩ := hstep.inv ih.1
    exact ⟨hinv, ih.2.trans hpreserved⟩

theorem Reachable.inv (h : Reachable cfg t) : Inv cfg t.reserved t.family := by
  obtain ⟨numPages, reservedPages, storage, hsteps⟩ := h
  exact (hsteps.inv (inv_create numPages reservedPages storage)).1

theorem Inv.held_eq {reserved : Nat → Nat} {f : CompressedKVFamily β} (h : Inv cfg reserved f)
    (page : Nat) :
    held f page = (f.leases.values.filter fun l => !l.released && decide (page ∈ l.pages)).length := by
  refine Dict.sumBy_eq_length_filter fun lease l hl => ?_
  have hinv := h.lease lease l hl
  rw [hinv.nodup.count]
  refine if_congr ?_ rfl rfl
  cases hr : l.released with
  | true => simp [hinv.released hr]
  | false => simp

/-! ### What a lease reads -/

theorem readSlot_slotsOf (f : CompressedKVFamily β) (pool : Nat) (l : CompressedFamilyLease) (n : Nat) :
    (slotsOf cfg l.pages 0 n).map (readSlot cfg f pool) =
      (List.range' 0 n).map (contentAt cfg f pool l) := by
  unfold slotsOf
  rw [List.map_map, Nat.sub_zero]
  refine List.map_congr_left fun i _ => ?_
  have hmod := Nat.mod_lt i cfg.pageSize_pos
  show f.byteStorage pool _ _ = f.byteStorage pool _ _
  dsimp only
  rw [Nat.mul_comm, Nat.mul_add_div cfg.pageSize_pos, Nat.div_eq_of_lt hmod, Nat.add_zero,
    Nat.mul_add_mod, Nat.mod_mod]

theorem Inv.physicalSlots {reserved : Nat → Nat} {f : CompressedKVFamily β} (h : Inv cfg reserved f)
    {lease n : Nat} {l : CompressedFamilyLease} (hl : f.leases.get? lease = some l)
    (hlive : l.released = false) (hn : n ≤ l.materializedTokens) :
    physicalSlots cfg lease 0 n f = (.ok (slotsOf cfg l.pages 0 n), f) := by
  have hcovered := hn.trans ((h.lease lease l hl).covered hlive).1
  rw [CompressedKVFamily.physicalSlots, bind_ok (validate_ok hl hlive)]
  simp [bind_run, raiseIf, hcovered]

/-- In every state that the protocol reaches the references are the live leases, the free pages are
those without a reference, and a page that a lease may write is listed by no other. -/
theorem compressed_family_isolation (h : Reachable cfg t) :
    (∀ page, t.family.allocator.references page =
      (t.family.leases.values.filter fun l => !l.released && decide (page ∈ l.pages)).length) ∧
    t.family.allocator.free.Nodup ∧
    (∀ page, page ∈ t.family.allocator.free ↔ t.family.allocator.reservedPages ≤ page ∧
      page < t.family.allocator.numPages ∧ t.family.allocator.references page = 0) ∧
    (∀ lease position, Writable t lease position →
      ∃ l page, t.family.leases.get? lease = some l ∧ l.pages[position / cfg.pageSize]? = some page ∧
        ∀ other l', other ≠ lease → t.family.leases.get? other = some l' → page ∉ l'.pages) ∧
    ∀ t', Steps cfg t t' → ∀ lease l l', t.family.leases.get? lease = some l →
      t'.family.leases.get? lease = some l' → l'.released = false →
      ∃ slots slots', physicalSlots cfg lease 0 l.materializedTokens t.family = (.ok slots, t.family) ∧
        physicalSlots cfg lease 0 l.materializedTokens t'.family = (.ok slots', t'.family) ∧
        ∀ pool < cfg.pools,
          slots'.map (readSlot cfg t'.family pool) = slots.map (readSlot cfg t.family pool) := by
  have hinv := h.inv
  refine ⟨fun page => (hinv.pages.counts page).trans (hinv.held_eq page), hinv.pages.nodup,
    fun page => ?_, fun lease position hwrite => ?_, fun t' hsteps lease l l' hl hl' hlive' => ?_⟩
  · rw [hinv.pages.counts page]
    exact hinv.pages.free page
  · obtain ⟨l, hl, hlive, hfrom, hto⟩ := hwrite
    obtain ⟨page, hpage, hone⟩ := hinv.writable hl hlive hfrom hto
    exact ⟨l, page, hl, hpage, fun other l' hne hl' =>
      not_mem_of_held_one hne hl' hl (List.mem_of_getElem? hpage) hone⟩
  · obtain ⟨hinv', hpreserved⟩ := hsteps.inv hinv
    have hlive : l.released = false := by
      obtain ⟨l₂, hl₂, hrel⟩ := hpreserved.kept lease l hl
      rw [hl'] at hl₂
      cases hl₂
      by_contra hno
      rw [hrel (Bool.not_eq_false _ ▸ hno)] at hlive'
      cases hlive'
    obtain ⟨hle, hcontent⟩ := hpreserved.content lease l l' hl hl' hlive'
    refine ⟨_, _, hinv.physicalSlots hl hlive le_rfl, hinv'.physicalSlots hl' hlive' hle,
      fun pool hpool => ?_⟩
    rw [readSlot_slotsOf, readSlot_slotsOf]
    refine List.map_congr_left fun position hmem => hcontent pool hpool position ?_
    exact (Nat.zero_add l.materializedTokens ▸ (List.mem_range'_1.mp hmem).2)

end

def demoFamilyConfig : FamilyConfig := { pageSize := 2, pools := 1, pageSize_pos := Nat.two_pos }

def demoFamilyOps : List (FamilyOp Nat) :=
  [.newLease, .reserve 0 1 none, .write 0 0 0 7, .markMaterialized 0 1, .snapshot 0, .reserve 0 2 none]

def demoFamilyTrace : FamilyTrace Nat :=
  demoFamilyOps.foldl (fun t op => op.next demoFamilyConfig t)
    { family := create 4 1 fun _ _ _ => 0 }

theorem demoFamilyTrace_reachable : Reachable demoFamilyConfig demoFamilyTrace := by
  refine ⟨4, 1, fun _ _ _ => 0, ?_⟩
  have hstep : ∀ {t t' : FamilyTrace Nat} (op : FamilyOp Nat), op.Permitted t' →
      Steps demoFamilyConfig t t' → Steps demoFamilyConfig t (op.next demoFamilyConfig t') :=
    fun op hop hsteps => .tail hsteps ⟨op, hop, rfl⟩
  refine hstep (.reserve 0 2 none) trivial <| hstep (.snapshot 0) trivial <|
    hstep (.markMaterialized 0 1) trivial <| hstep (.write 0 0 0 7) ?_ <|
    hstep (.reserve 0 1 none) trivial <| hstep .newLease trivial .refl
  exact ⟨{ pages := [1] }, by decide +kernel, rfl, Nat.zero_le _, by decide +kernel⟩

/-- The snapshot keeps page 1 and its token when the lease writes the rest of its copy. -/
theorem compressed_family_isolation_demo :
    demoFamilyTrace.family.leases.get? 0 = some { pages := [2], materializedTokens := 1 } ∧
      demoFamilyTrace.family.leases.get? 1 = some { pages := [1], materializedTokens := 1 } ∧
      demoFamilyTrace.family.allocator.references 1 = 1 ∧
      ∀ t', Steps demoFamilyConfig demoFamilyTrace t' → ∀ l',
        t'.family.leases.get? 1 = some l' → l'.released = false →
        ∃ slots', physicalSlots demoFamilyConfig 1 0 1 t'.family = (.ok slots', t'.family) ∧
          slots'.map (readSlot demoFamilyConfig t'.family 0) = [7] := by
  have hsnapshot : demoFamilyTrace.family.leases.get? 1 =
      some { pages := [1], materializedTokens := 1 } := by decide +kernel
  refine ⟨by decide +kernel, hsnapshot, by decide +kernel, fun t' hsteps l' hl' hlive => ?_⟩
  obtain ⟨slots, slots', hslots, hslots', hread⟩ :=
    (compressed_family_isolation demoFamilyTrace_reachable).2.2.2.2 t' hsteps 1 _ l' hsnapshot hl' hlive
  refine ⟨slots', hslots', (hread 0 (by decide)).trans ?_⟩
  have hfirst : (physicalSlots demoFamilyConfig 1 0 1 demoFamilyTrace.family).1 = .ok [2] := by
    decide +kernel
  have hsame : (Except.ok slots : Except PyError (List Nat)) = .ok [2] :=
    (congrArg Prod.fst hslots).symm.trans hfirst
  cases hsame
  decide +kernel

end SparseEngine.CompressedKVFamily
