import SparseEngine.PrefixCache.GreedyEvictions

/-! `ensure_insert_capacity` evicts first and counts afterwards. -/

namespace SparseEngine.RadixPrefixIndex

open PyM

variable {ι π : Type} [LinearOrder ι] {cfg : PrefixIndexConfig ι} {s s' : RadixPrefixIndex ι π}
  {bs : List (PrefixCacheBlock ι π)} {needed : Int} {m : Nat}

/-- How many blocks are over the limit once `needed` more are in. -/
def overCapacity (s : RadixPrefixIndex ι π) (needed : Int) (m : Nat) : Int :=
  s.blocks.size + needed - m

theorem ensureInsertCapacity_outcome (hm : cfg.maxBlocks = some m) (h : WellFormed s)
    (needed : Int) :
    wp (ensureInsertCapacity cfg needed)
      (fun bs s' => 0 < needed ∧ Removals s s' bs ∧ (bs.length : Int) = max 0 (overCapacity s needed m))
      (fun _ s' => (needed ≤ 0 ∧ s' = s) ∨ (0 < needed ∧ ∃ bs s₁, Removals s s₁ bs ∧
        Unchanged s₁ s' ∧ (bs.length : Int) < overCapacity s needed m ∧
        ∀ id, Freeable s id ↔ ∃ b ∈ bs, b.stableBlockId = id)) s := by
  unfold ensureInsertCapacity
  rw [hm]
  simp only [wp_bind, wp_raiseIf, wp_get, wp_ite]
  refine ⟨fun hle => Or.inl ⟨hle, trivial⟩, fun hpos => ?_⟩
  have hpos : 0 < needed := not_le.mp hpos
  split
  · next hover => exact ⟨hpos, .nil, by simp [overCapacity, hover]⟩
  · next hover =>
    have hover' : 0 < overCapacity s needed m := not_le.mp hover
    -- The eviction is the greedy policy with unit weights.
    obtain ⟨bs, s₁, hcall, hres, hrun⟩ :
        ∃ bs s₁, evictUntilWeight (overCapacity s needed m) (fun _ => 1) s = (.ok bs, s₁) ∧
          EvictResult (fun b => b.locallyBlocked = false) (fun _ => 1) (overCapacity s needed m) s
            bs s₁ ∧
          GreedyRun (evictionPolicy canEvict fun _ => 1) (overCapacity s needed m) 0 s bs s₁ :=
      exists_of_wp <| wp_mono (evictLeavesUntilWeight_greedy _ canSpec_canEvict h)
        (fun _ _ hs => hs) fun _ _ he => by
          obtain ⟨_, _, _, _, _, hneg⟩ := he
          exact absurd hneg (by decide)
    have hle := hrun.length_le (fun _ => rfl) hover'.le
    rw [Int.zero_add] at hle
    rw [evictUntilFreeable,
      wp_of_ok (show evictUntilWeight (s.blocks.size + needed - m) _ s = _ from hcall)]
    split
    · next hlen =>
      exact ⟨hpos, hres.removals, by rw [max_eq_right hover'.le]; exact hlen⟩
    · next hlen =>
      have hlt : (bs.length : Int) < overCapacity s needed m := lt_of_le_of_ne hle hlen
      have h₁ := hres.removals.steps.wf h
      have hno : ∀ id b, s₁.blocks.get? id = some b → b.locallyBlocked = false → ¬ Leaf s₁ id := by
        refine hres.enough.resolve_left fun hge => ?_
        simp only [List.map_const', List.sum_replicate, mul_one, nsmul_eq_mul] at hge
        omega
      simp only [wp_raise]
      refine wp_mono (evictableBlockIds_spec h₁) ?_ fun _ _ he => he.elim
      rintro - s₂ ⟨-, hs₂⟩
      refine Or.inr ⟨hpos, bs, s₁, hres.removals, hs₂, hlt, fun id => ?_⟩
      rw [freeable_removals h hres.removals]
      exact or_iff_right (not_freeable_of_no_leaf h₁ hno id)

/-- The error of `insert_block` in a full index. -/
def capacityError : PyError := .runtimeError "Prefix cache capacity exceeded before insert"

/-- The state after inserting `new`. -/
def afterInserts (cfg : PrefixIndexConfig ι) (s : RadixPrefixIndex ι π) :
    List (PrefixCacheBlock ι π) → RadixPrefixIndex ι π
  | [] => s
  | b :: new => afterInserts cfg (insertBlock cfg b s).2 new

theorem insertBlock_grows (cfg : PrefixIndexConfig ι) (h : WellFormed s) (b : PrefixCacheBlock ι π) :
    WellFormed (insertBlock cfg b s).2 ∧ (insertBlock cfg b s).2.blocks.size ≤ s.blocks.size + 1 := by
  have hsize : ∀ {t : RadixPrefixIndex ι π}, t.blocks = s.blocks → t.blocks.size ≤ s.blocks.size + 1 :=
    fun ht => by rw [ht]; exact Nat.le_succ _
  have key := insertBlock_spec cfg h b
  unfold wp at key
  split at key
  · next hrun =>
    rw [hrun]
    rcases key with ⟨old, n, hold, rfl, hsteps, hblocks⟩ | ⟨n, rfl, hins⟩
    · refine ⟨hsteps.wf h, ?_⟩
      have hkeys : (s.blocks.set b.stableBlockId { old with lastAccess := n }).keySet =
          s.blocks.keySet := keySet_set_old hold
      have hk := congrArg Finset.card hkeys
      rw [Dict.card_keySet, Dict.card_keySet] at hk
      rw [hblocks]
      omega
    · refine ⟨hins.wf, ?_⟩
      have hnew := Dict.size_set_new { b with lastAccess := n } hins.new
      rw [hins.blocks]
      exact hnew.le
  · next hrun =>
    rw [hrun]
    exact ⟨key.1.1.wf h, hsize key.1.2⟩

theorem insertBlock_room (h : WellFormed s) (hroom : ¬ Full cfg s) (b : PrefixCacheBlock ι π) :
    (insertBlock cfg b s).1 ≠ .error capacityError := by
  have hnot : cfg.maxBlocks.any (· ≤ s.blocks.size) = false := by
    by_contra hany
    exact hroom (by simpa [Full, Option.any_eq_true] using hany)
  have key : wp (insertBlock cfg b) (fun _ _ => True) (fun e _ => e ≠ capacityError) s := by
    simp only [insertBlock, wp_bind, wp_get, wp_lift]
    cases hv : (s.deref b).residency.validate with
    | error e =>
      rintro rfl
      unfold PrefixBlockResidency.validate capacityError at hv
      repeat' split at hv
      all_goals simp at hv
    | ok _ =>
      simp only
      cases hget : s.blocks.get? (s.deref b).stableBlockId with
      | some old => simp only [wp_bind, wp_of_ok tick_run, wp_modify, wp_pure]
      | none =>
        simp only [hnot, Bool.false_eq_true, if_false, wp_bind]
        have hpar : wp (checkInsertParent (s.deref b)) (fun _ s' => s' = s ∧ Admissible s.blocks (s.deref b))
            (fun e _ => e ≠ capacityError) s := by
          have herr : wp (checkInsertParent (s.deref b)) (fun _ _ => True)
              (fun e _ => e ≠ capacityError) s := by
            simp only [checkInsertParent, wp_bind, wp_get]
            cases (s.deref b).parentBlockId with
            | none => trivial
            | some p =>
              cases hp : s.blocks.get? p with
              | none => simp [hp, capacityError]
              | some pb => simp [hp, capacityError]
          exact wp_mono (wp_and (checkInsertParent_spec hv) herr) (fun _ _ hs => hs.1)
            fun _ _ he => he.2
        refine wp_mono hpar ?_ fun _ _ he => he
        rintro - s₁ ⟨rfl, hadm⟩
        obtain ⟨s₂, hrun, -⟩ := storeNewBlock_spec h hget hadm
        rw [wp_of_ok hrun]
        trivial
  unfold wp at key
  split at key
  · next hrun => rw [hrun]; simp
  · next hrun => rw [hrun]; simpa using key

theorem afterInserts_room (hm : cfg.maxBlocks = some m) :
    ∀ (new : List (PrefixCacheBlock ι π)) (s : RadixPrefixIndex ι π), WellFormed s →
      s.blocks.size + new.length ≤ m → ∀ pre b post, new = pre ++ b :: post →
      (insertBlock cfg b (afterInserts cfg s pre)).1 ≠ .error capacityError := by
  intro new s h hfit pre
  induction pre generalizing new s with
  | nil =>
    rintro b post rfl
    refine insertBlock_room h ?_ b
    rintro ⟨m', hm', hle⟩
    rw [hm] at hm'
    cases hm'
    simp only [List.nil_append, List.length_cons] at hfit
    omega
  | cons a pre ih =>
    rintro b post rfl
    obtain ⟨h₁, hsize⟩ := insertBlock_grows cfg h a
    refine ih (pre ++ b :: post) _ h₁ ?_ b post rfl
    simp only [List.cons_append, List.length_cons] at hfit
    omega

def InsertCapacityKept (cfg : PrefixIndexConfig ι) (m : Nat) (needed : Int)
    (s : RadixPrefixIndex ι π) : Prop :=
  wp (ensureInsertCapacity cfg needed)
    (fun bs s' => (bs.map (·.stableBlockId)).Nodup ∧
      (∀ id, s'.blocks.get? id = none ↔
        s.blocks.get? id = none ∨ ∃ b ∈ bs, b.stableBlockId = id) ∧
      (bs.length : Int) = max 0 (overCapacity s needed m) ∧
      ∀ new : List (PrefixCacheBlock ι π), (new.length : Int) = needed →
        (new.map (·.stableBlockId)).Nodup → (∀ b ∈ new, s'.blocks.get? b.stableBlockId = none) →
        ∀ pre b post, new = pre ++ b :: post →
          (insertBlock cfg b (afterInserts cfg s' pre)).1 ≠ .error capacityError)
    (fun _ s' => s'.blocks = s.blocks) s

noncomputable def freeableCount (s : RadixPrefixIndex ι π) : Nat := {id | Freeable s id}.ncard

theorem freeableCount_eq {F : Finset ι} (hF : ∀ id, id ∈ F ↔ Freeable s id) :
    s.freeableCount = F.card := by
  have hset : {id | Freeable s id} = (F : Set ι) := by
    ext id
    exact (hF id).symm
  rw [freeableCount, hset, Set.ncard_coe_finset]

theorem Removals.length_le (h : WellFormed s) (hrem : Removals s s' bs) :
    bs.length ≤ s.freeableCount := by
  have hfin : {id | Freeable s id}.Finite :=
    s.blocks.keySet.finite_toSet.subset fun id hid => hid.1
  have hsub : ((bs.map (·.stableBlockId)).toFinset : Set ι) ⊆ {id | Freeable s id} := fun id hid => by
    obtain ⟨b, hb, rfl⟩ := List.mem_map.mp (List.mem_toFinset.mp hid)
    exact (freeable_removals h hrem _).mpr (Or.inr ⟨b, hb, rfl⟩)
  have hcard := Set.ncard_le_ncard hsub hfin
  rwa [Set.ncard_coe_finset, List.toFinset_card_of_nodup hrem.nodup, List.length_map] at hcard

theorem Removals.eq_of_nil (hrem : Removals s s' bs) (hbs : bs = []) : s' = s := by
  cases hrem with
  | nil => rfl
  | snoc _ _ _ _ => simp at hbs

/-- In a reachable index with a limit, a call keeps its promise exactly when it asks for no
block, or enough blocks are freeable, or none is: otherwise it removes the freeable blocks,
too few of them, and raises. -/
theorem insertCapacity_iff (h : Reachable cfg s) (hm : cfg.maxBlocks = some m) (needed : Int) :
    InsertCapacityKept cfg m needed s ↔
      needed ≤ 0 ∨ overCapacity s needed m ≤ s.freeableCount ∨ s.freeableCount = 0 := by
  have hout := ensureInsertCapacity_outcome hm h.wf needed
  unfold InsertCapacityKept
  unfold wp at hout ⊢
  split at hout
  · next bs s' hrun =>
    -- The call returned: everything holds, and the excess was freeable.
    obtain ⟨hpos, hrem, hlen⟩ := hout
    have hfree := hrem.length_le h.wf
    refine iff_of_true ⟨hrem.nodup, fun id => ?_, hlen, fun new hnew _ _ => ?_⟩
      (Or.inr (Or.inl ?_))
    · by_cases hid : ∃ b ∈ bs, b.stableBlockId = id
      · obtain ⟨b, hb, rfl⟩ := hid
        exact iff_of_true (hrem.gone b hb).2 (Or.inr ⟨b, hb, rfl⟩)
      · rw [hrem.same (by simpa using hid)]
        exact (or_iff_left hid).symm
    · refine afterInserts_room hm new s' (hrem.steps.wf h.wf) ?_
      have hsize := hrem.size
      have := le_max_right 0 (overCapacity s needed m)
      simp only [overCapacity] at this hlen
      omega
    · have := le_max_right 0 (overCapacity s needed m)
      omega
  · next e s' hrun =>
    rcases hout with ⟨hle, rfl⟩ | ⟨hpos, bs, s₁, hrem, hun, hlt, hall⟩
    · exact iff_of_true rfl (Or.inl hle)
    · -- The call raised after removing the freeable set.
      have hcount : s.freeableCount = bs.length := by
        rw [freeableCount_eq (F := (bs.map (·.stableBlockId)).toFinset) fun id => by
          rw [hall id]; simp, List.toFinset_card_of_nodup hrem.nodup, List.length_map]
      have hsize := hrem.size
      rw [hcount]
      constructor
      · intro hsame
        have : s₁.blocks.size = s.blocks.size := by rw [← hun.2, hsame]
        exact Or.inr (Or.inr (by omega))
      · rintro (hle | hle | hzero)
        · omega
        · omega
        · have hnil : bs = [] := List.length_eq_zero_iff.mp hzero
          rw [← hrem.eq_of_nil hnil]
          exact hun.2

def tightConfig : PrefixIndexConfig Nat :=
  { demoConfig with maxBlocks := some 2, maxBlocks_pos := twoBlocks_pos }

def tightIndex : RadixPrefixIndex Nat Unit :=
  runAll tightConfig [.insertBlock { demoRoot with refCount := 1 },
    .insertBlock { demoRoot with objectId := 1, stableBlockId := 1 }]

theorem tightIndex_reachable : Reachable tightConfig tightIndex := reachable_runAll tightConfig _

theorem tightIndex_freeable (id : Nat) : id ∈ ({1} : Finset Nat) ↔ Freeable tightIndex id := by
  obtain ⟨F, hF, hmem⟩ := query_eq (tightIndex_reachable.fresh (v := .freeable) (by simp))
    (freeableBlockIds_spec tightIndex_reachable.wf)
  have hFval : F = {1} := by
    refine Except.ok.inj (hF.symm.trans ?_)
    decide
  rw [← hFval, hmem]

/-- The call removes the free root and then raises. -/
theorem not_insertCapacity : Reachable tightConfig tightIndex ∧
    ¬ InsertCapacityKept tightConfig 2 2 tightIndex ∧
    ∃ e s', ensureInsertCapacity tightConfig 2 tightIndex = (.error e, s') ∧
      (tightIndex.blocks.get? 1).isSome = true ∧ s'.blocks.get? 1 = none := by
  have hrun : ∃ e s', ensureInsertCapacity tightConfig 2 tightIndex = (.error e, s') ∧
      (tightIndex.blocks.get? 1).isSome = true ∧ s'.blocks.get? 1 = none := by
    have hover : overCapacity tightIndex 2 2 = 2 := by decide
    have hout := ensureInsertCapacity_outcome (show tightConfig.maxBlocks = some 2 from rfl) tightIndex_reachable.wf 2
    unfold wp at hout
    split at hout
    · -- Two blocks cannot go when one is freeable.
      obtain ⟨-, hrem, hlen⟩ := hout
      have hle := hrem.length_le tightIndex_reachable.wf
      rw [freeableCount_eq tightIndex_freeable, Finset.card_singleton] at hle
      rw [hover] at hlen
      omega
    · next e s' hcall =>
      refine ⟨e, s', hcall, by decide, ?_⟩
      rcases hout with ⟨hle, -⟩ | ⟨-, bs, s₁, hrem, hun, -, hall⟩
      · omega
      · obtain ⟨b, hb, hid⟩ := (hall 1).mp ((tightIndex_freeable 1).mp (by simp))
        rw [hun.2, ← hid]
        exact (hrem.gone b hb).2
  refine ⟨tightIndex_reachable, fun hkept => ?_, hrun⟩
  obtain ⟨e, s', hcall, hin, hout⟩ := hrun
  have hsame := (wp_of_error hcall).mp hkept
  rw [hsame] at hout
  rw [hout] at hin
  cases hin

/-- The same index keeps the promise for one block: the free root makes room. -/
theorem insertCapacity_demo : InsertCapacityKept tightConfig 2 1 tightIndex := by
  refine (insertCapacity_iff tightIndex_reachable rfl 1).mpr (Or.inr (Or.inl ?_))
  rw [freeableCount_eq tightIndex_freeable]
  decide

end SparseEngine.RadixPrefixIndex
