import SparseEngine.PrefixCache.Invariant

/-! One specification for every mutator of the index, from a well-formed state. -/

namespace SparseEngine.RadixPrefixIndex

open PyM List Function Finset Dict

variable {ι π : Type} [LinearOrder ι]

section

variable {s : RadixPrefixIndex ι π} {id : ι} {old new : PrefixCacheBlock ι π}

theorem WellFormed.parent_ne (h : WellFormed s) (hold : s.blocks.get? id = some old) :
    old.parentBlockId ≠ some id := by
  intro hp
  exact h.forest.not_below_parent ((parentMap_of_get hold).trans (by rw [hp])) .refl

theorem refresh_spec (hf : Forest s.blocks.keySet (parentMap s.blocks))
    (hid : id ∈ s.blocks.keySet) (h : ∀ F, s.freeableIds = some F →
      TracksExcept s.blocks {id} F s.blockedFreeableChildren) :
    ∃ F counts, refreshFreeablePath (some id) s =
        (.ok (), { s with freeableIds := F, blockedFreeableChildren := counts }) ∧
      ∀ F', F = some F' → Tracks s.blocks F' counts := by
  obtain ⟨l, hl⟩ := hf.exists_rootPath id hid
  have hlen : l.length ≤ s.blocks.size + 1 := by
    have := hf.rootPath_length_le hl
    rw [card_keySet] at this
    omega
  cases hF : s.freeableIds with
  | none =>
    refine ⟨none, s.blockedFreeableChildren, ?_, by simp⟩
    simp only [refreshFreeablePath, hF]
    rw [← hF]
  | some F =>
    obtain ⟨F', counts', hrun, ht⟩ := refreshLoop_spec hf hl hlen (h F hF)
    refine ⟨some F', counts', ?_, fun F'' hF'' => ?_⟩
    · simp [refreshFreeablePath, hF, hrun]
    · cases hF''
      exact ht

theorem WellFormed.set_refresh (h : WellFormed s) (hold : s.blocks.get? id = some old)
    (hid : SameIdentity old new) (hres : ResidencyChange s.blocks id old new) :
    ∃ F counts, refreshFreeablePath (some id) { s with blocks := s.blocks.set id new } =
        (.ok (), { s with
          blocks := s.blocks.set id new
          freeableIds := F
          blockedFreeableChildren := counts }) ∧
      WellFormed { s with
        blocks := s.blocks.set id new
        freeableIds := F
        blockedFreeableChildren := counts } := by
  have hk : (s.blocks.set id new).keySet = s.blocks.keySet := keySet_set_old hold
  have hp : parentMap (s.blocks.set id new) = parentMap s.blocks :=
    parentMap_set_old hold hid.parentBlockId
  have hf : Forest (s.blocks.set id new).keySet (parentMap (s.blocks.set id new)) := by
    rw [hk, hp]; exact h.forest
  obtain ⟨F, counts, hrun, ht⟩ := refresh_spec (s := { s with blocks := s.blocks.set id new }) hf
    (by rw [hk]; exact Dict.mem_keySet.mpr ⟨old, hold⟩)
    fun F hF => ((h.tracks F hF).set hold hid.parentBlockId).mono (by simp)
  refine ⟨F, counts, hrun, hf, fun x b hb => ?_, ?_, ?_, ht, ?_⟩
  · by_cases hx : x = id
    · subst hx
      rw [get?_set_self] at hb
      cases hb
      rw [hid.stableBlockId]
      exact h.ids x old hold
    · rw [get?_set_ne _ _ hx] at hb
      exact h.ids x b hb
  · rw [hk, hp]; exact h.tree
  · rw [hk]; exact h.routing
  · exact h.residency.set hold hid.parentBlockId (h.parent_ne hold) hres

theorem WellFormed.set_same (h : WellFormed s) (hold : s.blocks.get? id = some old)
    (hid : SameIdentity old new) (hres : ResidencyChange s.blocks id old new)
    (hb : new.locallyBlocked = old.locallyBlocked) :
    WellFormed { s with blocks := s.blocks.set id new } := by
  have hk : (s.blocks.set id new).keySet = s.blocks.keySet := keySet_set_old hold
  have hp : parentMap (s.blocks.set id new) = parentMap s.blocks :=
    parentMap_set_old hold hid.parentBlockId
  refine ⟨?_, fun x b hb => ?_, ?_, ?_, fun F hF => ?_, ?_⟩
  · rw [hk, hp]; exact h.forest
  · by_cases hx : x = id
    · subst hx
      rw [get?_set_self] at hb
      cases hb
      rw [hid.stableBlockId]
      exact h.ids x old hold
    · rw [get?_set_ne _ _ hx] at hb
      exact h.ids x b hb
  · rw [hk, hp]; exact h.tree
  · rw [hk]; exact h.routing
  · exact TracksExcept.set_same (h.tracks F hF) hold hid.parentBlockId hb
  · exact h.residency.set hold hid.parentBlockId (h.parent_ne hold) hres

theorem WellFormed.assign_eq (h : WellFormed s) (hold : s.blocks.get? id = some old)
    (hid : SameIdentity old new) : s.assign new = { s with blocks := s.blocks.set id new } := by
  have hnew : new.stableBlockId = id := hid.stableBlockId.trans (h.ids id old hold)
  subst hnew
  exact assign_of_indexed (isIndexed_iff.mpr ⟨old, hold, hid.objectId.symm⟩)

theorem WellFormed.withEpochs (h : WellFormed s) (e : IndexEpochs) :
    WellFormed { s with epochs := e } :=
  { h with }

theorem WellFormed.withClock (h : WellFormed s) (n : Nat) : WellFormed { s with clock := n } :=
  { h with }

omit [LinearOrder ι] in
theorem Framed.refl (s : RadixPrefixIndex ι π) : Framed s s := ⟨fun _ => rfl, rfl⟩

theorem Step.quiet_set (h : WellFormed s) (hold : s.blocks.get? id = some old)
    (hid : SameIdentity old new) (hv : SameViews old new) (clock mutation : Nat) :
    Step s { s with
      blocks := s.blocks.set id new
      clock := clock
      epochs := { s.epochs with mutation := mutation } } := by
  have hb : new.locallyBlocked = old.locallyBlocked := by
    unfold PrefixCacheBlock.locallyBlocked
    rw [hv.residency, decide_eq_decide.mpr (not_congr hv.refCount), decide_eq_decide.mpr hv.priority]
  refine ⟨?_, .quiet ?_ rfl le_rfl rfl ⟨fun v => by cases v <;> rfl, rfl⟩⟩
  · exact ((h.set_same hold hid (.same h.residency hold hv.residency) hb).withClock clock).withEpochs _
  · exact Updated.set hold hid hv SameViews.refl

theorem Step.quiet_clock (h : WellFormed s) (clock : Nat) : Step s { s with clock := clock } :=
  ⟨h.withClock clock, .quiet (.refl SameViews.refl) rfl le_rfl rfl ⟨fun v => by cases v <;> rfl, rfl⟩⟩

theorem Step.bump (h : WellFormed s) {e : IndexEpochs} (hc : s.epochs.capacity < e.capacity)
    (hp : s.epochs.residentPayload ≤ e.residentPayload) (hl : e.lookup = s.epochs.lookup) :
    Step s { s with epochs := e } :=
  ⟨h.withEpochs e, .update (.refl fun _ => Or.inl ⟨rfl, rfl⟩) hc hp hl
    ⟨fun v => by cases v <;> rfl, rfl⟩⟩

end

section

variable {s : RadixPrefixIndex ι π} {b : PrefixCacheBlock ι π}

theorem setBlockRefCount_spec (h : WellFormed s) (b : PrefixCacheBlock ι π) (r : Int)
    (message : String) :
    wp (setBlockRefCount b r message)
      (fun _ s' => Steps s s' ∧ ∃ c, s.blocks.get? b.stableBlockId = some c ∧
        c.objectId = b.objectId ∧ 0 ≤ r ∧
        s'.blocks = s.blocks.set b.stableBlockId { c with refCount := r })
      (fun _ s' => s' = s ∧ (s.isIndexed b = false ∨ r < 0)) s := by
  simp only [setBlockRefCount, validateIndexedBlock, wp_bind, wp_get, wp_raiseIf]
  refine ⟨fun hi => ⟨trivial, Or.inl hi⟩, fun hi => ⟨fun hr => ⟨trivial, Or.inr hr⟩, fun hr => ?_⟩⟩
  obtain ⟨c, hc, ho⟩ := isIndexed_iff.mp (by simpa using hi)
  have hid : SameIdentity c { c with refCount := r } := ⟨rfl, rfl, rfl, rfl, rfl⟩
  rw [deref_of_indexed hc ho]
  by_cases hsame : c.refCount = r
  · rw [if_pos hsame, wp_pure]
    refine ⟨.refl, c, hc, ho, not_lt.mp hr, ?_⟩
    rw [← hsame]
    exact (set_eq_self hc).symm
  · rw [if_neg hsame, wp_bind, wp_modify, h.assign_eq hc hid, wp_ite]
    split
    · obtain ⟨F, counts, hrun, hwf⟩ := h.set_refresh hc hid (.same h.residency hc rfl)
      rw [wp_bind, wp_of_ok hrun, markCapacityMutated, wp_modify]
      refine ⟨.single ⟨hwf.withEpochs _, .update ?_ (Nat.lt_succ_self _) le_rfl rfl
        ⟨fun v => by cases v <;> rfl, rfl⟩⟩, c, hc, ho, not_lt.mp hr, rfl⟩
      exact Updated.set hc hid (Or.inl ⟨rfl, rfl⟩) fun _ => Or.inl ⟨rfl, rfl⟩
    · next hzero =>
      rw [markMutated, wp_modify]
      refine ⟨.single ?_, c, hc, ho, not_lt.mp hr, rfl⟩
      have hv : SameViews c { c with refCount := r } :=
        ⟨⟨by simpa [eq_iff_iff, iff_comm] using hzero, .rfl, rfl⟩, rfl⟩
      exact Step.quiet_set h hc hid hv s.clock (s.epochs.mutation + 1)

theorem acquireBlockRef_spec (h : WellFormed s) (b : PrefixCacheBlock ι π) :
    wp (acquireBlockRef b)
      (fun _ s' => Steps s s' ∧ ∃ c, s.blocks.get? b.stableBlockId = some c ∧
        c.objectId = b.objectId ∧ 0 ≤ c.refCount + 1 ∧
        s'.blocks = s.blocks.set b.stableBlockId { c with refCount := c.refCount + 1 })
      (fun _ s' => s' = s ∧ (s.isIndexed b = false ∨ (s.deref b).refCount + 1 < 0)) s := by
  simp only [acquireBlockRef, wp_bind, wp_get]
  refine wp_mono (setBlockRefCount_spec h b _ _) ?_ fun _ _ he => he
  rintro - s' ⟨hs, c, hc, ho, hr, hb⟩
  rw [deref_of_indexed hc ho] at hr hb
  exact ⟨hs, c, hc, ho, hr, hb⟩

theorem releaseBlockRef_spec (h : WellFormed s) (b : PrefixCacheBlock ι π) (message : String) :
    wp (releaseBlockRef b message)
      (fun _ s' => Steps s s' ∧ ∃ c, s.blocks.get? b.stableBlockId = some c ∧
        c.objectId = b.objectId ∧ 0 ≤ c.refCount - 1 ∧
        s'.blocks = s.blocks.set b.stableBlockId { c with refCount := c.refCount - 1 })
      (fun _ s' => s' = s ∧ (s.isIndexed b = false ∨ (s.deref b).refCount - 1 < 0)) s := by
  simp only [releaseBlockRef, wp_bind, wp_get]
  refine wp_mono (setBlockRefCount_spec h b _ _) ?_ fun _ _ he => he
  rintro - s' ⟨hs, c, hc, ho, hr, hb⟩
  rw [deref_of_indexed hc ho] at hr hb
  exact ⟨hs, c, hc, ho, hr, hb⟩

end

theorem validate_iff (r : PrefixBlockResidency) : r.validate = .ok () ↔
    (r.devicePresent = true ∨ r.hostPresent = true) ∧
    (r.transfer = some .d2h → r.devicePresent = true ∧ r.hostPresent = false) ∧
    (r.transfer = some .h2d → r.devicePresent = true ∧ r.hostPresent = true) := by
  obtain ⟨d, h, t⟩ := r
  cases d <;> cases h <;> cases t with
  | none => decide
  | some k => cases k <;> decide

section

variable {s : RadixPrefixIndex ι π} {b c : PrefixCacheBlock ι π}

theorem deviceChildCount_spec (h : WellFormed s) {id : ι} (hid : id ∈ s.blocks.keySet) :
    ∃ n, s.deviceChildCount id = .ok n ∧ (n = 0 ↔ ∀ x cb, s.blocks.get? x = some cb →
      cb.parentBlockId = some id → cb.residency.devicePresent = false) ∧
      n = (s.blocks.keySet.filter fun x => blockWith s.blocks
        (fun child => child.residency.devicePresent) x = true ∧
          parentMap s.blocks x = some (some id)).card := by
  obtain ⟨cs, hcs, -, hnd, hmem⟩ := h.tree.childBlockIds_spec h.forest hid
  refine ⟨_, by simp only [deviceChildCount, hcs]; rfl, ?_, ?_⟩
  · rw [length_eq_zero_iff, filter_eq_nil_iff]
    constructor
    · intro hno x cb hx hp
      have := hno x ((hmem x).mpr ((parentMap_of_get hx).trans (by rw [hp])))
      simpa [blockWith, hx] using this
    · intro hno x hx
      obtain ⟨cb, hcb, hp⟩ := parentMap_eq.mp ((hmem x).mp hx)
      simp [blockWith, hcb, hno x cb hcb hp]
  · rw [← toFinset_card_of_nodup (hnd.filter _)]
    congr 1
    ext x
    simp only [mem_toFinset, List.mem_filter, Finset.mem_filter, hmem]
    constructor
    · rintro ⟨hp, hd⟩
      exact ⟨h.forest.mem_of_parent hp, hd, hp⟩
    · rintro ⟨-, hd, hp⟩
      exact ⟨hp, hd⟩

theorem commitResidency_indexed (h : WellFormed s)
    (hc : s.blocks.get? b.stableBlockId = some c) (ho : c.objectId = b.objectId)
    {r : PrefixBlockResidency}
    (hres : ResidencyChange s.blocks b.stableBlockId c { c with residency := r }) :
    ∃ F counts, commitResidency b r s = (.ok (), { s with
        blocks := s.blocks.set b.stableBlockId { c with residency := r }
        freeableIds := F
        blockedFreeableChildren := counts
        epochs := s.epochs.markCapacityMutated }) ∧
      WellFormed { s with
        blocks := s.blocks.set b.stableBlockId { c with residency := r }
        freeableIds := F
        blockedFreeableChildren := counts
        epochs := s.epochs.markCapacityMutated } := by
  have hid : SameIdentity c { c with residency := r } := ⟨rfl, rfl, rfl, rfl, rfl⟩
  obtain ⟨F, counts, hrun, hwf⟩ := h.set_refresh hc hid hres
  refine ⟨F, counts, ?_, hwf.withEpochs _⟩
  have hvalid : r.validate = .ok () := hres.valid
  rw [commitResidency, bind_ok (modify_run _), deref_of_indexed hc ho, h.assign_eq hc hid,
    bind_ok (by rw [lift_run, hvalid]), bind_ok hrun]
  rfl

theorem commitResidency_detached (h : WellFormed s) (hi : s.isIndexed b = false)
    (r : PrefixBlockResidency) :
    wp (commitResidency b r) (fun _ s' => Steps s s' ∧ s'.blocks = s.blocks)
      (fun _ s' => Steps s s' ∧ s'.blocks = s.blocks) s := by
  have hass : s.assign { s.deref b with residency := r } = s := by
    rw [deref_of_not_indexed hi]
    exact assign_of_not_indexed hi
  simp only [commitResidency, wp_bind, wp_modify, hass, wp_lift]
  cases r.validate with
  | error e => exact ⟨.refl, trivial⟩
  | ok _ =>
    simp only [markCapacityMutated]
    by_cases hid : b.stableBlockId ∈ s.blocks.keySet
    · obtain ⟨F, counts, hrun, ht⟩ := refresh_spec h.forest hid fun F hF =>
        (h.tracks F hF).mono (by simp)
      rw [wp_of_ok hrun, wp_modify]
      refine ⟨.single ⟨{ h with tracks := ht }, .update
        (.refl fun _ => Or.inl ⟨rfl, rfl⟩) (Nat.lt_succ_self _) le_rfl rfl
        ⟨fun v => by cases v <;> rfl, rfl⟩⟩, rfl⟩
    · cases hF : s.freeableIds with
      | none =>
        have hrun : refreshFreeablePath (some b.stableBlockId) s = (.ok (), s) := by
          simp only [refreshFreeablePath, hF]
        rw [wp_of_ok hrun, wp_modify]
        exact ⟨.single (Step.bump h (Nat.lt_succ_self _) le_rfl rfl), rfl⟩
      | some F =>
        have hget : entry s.blocks b.stableBlockId = .error (.keyError "key") := by
          unfold entry
          split
          · rfl
          · next v hv => exact absurd (Dict.mem_keySet.mpr ⟨v, hv⟩) hid
        have hrun : refreshFreeablePath (some b.stableBlockId) s =
            (.error (.keyError "key"), s) := by
          simp only [refreshFreeablePath, hF, refreshLoop, bind_run, lift_run, hget]
          rw [← hF]
        rw [wp_of_error hrun]
        exact ⟨.refl, rfl⟩

/-- The outcome of a transfer operation. -/
structure Recast (s : RadixPrefixIndex ι π) (b : PrefixCacheBlock ι π)
    (r : PrefixBlockResidency → PrefixBlockResidency) (s' : RadixPrefixIndex ι π) : Prop where
  steps : Steps s s'
  blocks : (∃ c, s.blocks.get? b.stableBlockId = some c ∧ c.objectId = b.objectId ∧
      s'.blocks = s.blocks.set b.stableBlockId { c with residency := r c.residency }) ∨
    (s.isIndexed b = false ∧ s'.blocks = s.blocks)

def Unchanged (s s' : RadixPrefixIndex ι π) : Prop := Steps s s' ∧ s'.blocks = s.blocks

theorem Unchanged.refl (s : RadixPrefixIndex ι π) : Unchanged s s := ⟨.refl, rfl⟩

theorem commitResidency_keep (h : WellFormed s) {r : PrefixBlockResidency → PrefixBlockResidency}
    (hd : ∀ x, (r x).devicePresent = x.devicePresent)
    (hres : ∀ c, s.blocks.get? b.stableBlockId = some c → c.objectId = b.objectId →
      ResidencyChange s.blocks b.stableBlockId c { c with residency := r c.residency }) :
    wp (commitResidency b (r (s.deref b).residency)) (fun _ s' => Recast s b r s')
      (fun _ s' => Unchanged s s') s := by
  by_cases hi : s.isIndexed b = true
  · obtain ⟨c, hc, ho⟩ := isIndexed_iff.mp hi
    rw [deref_of_indexed hc ho]
    obtain ⟨F, counts, hrun, hwf⟩ := commitResidency_indexed h hc ho (hres c hc ho)
    rw [wp_of_ok hrun]
    refine ⟨.single ⟨hwf, .update ?_ (Nat.lt_succ_self _) le_rfl rfl
      ⟨fun v => by cases v <;> rfl, rfl⟩⟩, Or.inl ⟨c, hc, ho, rfl⟩⟩
    exact Updated.set hc ⟨rfl, rfl, rfl, rfl, rfl⟩ (Or.inl ⟨rfl, (hd _).symm⟩) fun _ =>
      Or.inl ⟨rfl, rfl⟩
  · have hi : s.isIndexed b = false := by simpa using hi
    refine wp_mono (commitResidency_detached h hi _) ?_ fun _ _ he => he
    rintro - s' ⟨hs, hb⟩
    exact ⟨hs, Or.inr ⟨hi, hb⟩⟩

theorem commitResidency_move (h : WellFormed s) {r : PrefixBlockResidency → PrefixBlockResidency}
    (hres : ∀ c, s.blocks.get? b.stableBlockId = some c → c.objectId = b.objectId →
      ResidencyChange s.blocks b.stableBlockId c { c with residency := r c.residency }) :
    wp (do markPayload; commitResidency b (r (s.deref b).residency)) (fun _ s' => Recast s b r s')
      (fun _ s' => Unchanged s s') s := by
  set s₁ : RadixPrefixIndex ι π := { s with epochs := s.epochs.markPayload } with hs₁
  have h₁ : WellFormed s₁ := h.withEpochs _
  have hstep : Step s s₁ := ⟨h₁, .quiet (.refl SameViews.refl) rfl (Nat.le_succ _) rfl
    ⟨fun v => by cases v <;> rfl, rfl⟩⟩
  have hmark : (markPayload : IndexM ι π Unit) s = (.ok (), s₁) := rfl
  rw [wp_bind, wp_of_ok hmark]
  by_cases hi : s.isIndexed b = true
  · obtain ⟨c, hc, ho⟩ := isIndexed_iff.mp hi
    rw [deref_of_indexed hc ho]
    obtain ⟨F, counts, hrun, hwf⟩ := commitResidency_indexed h₁ hc ho (hres c hc ho)
    rw [wp_of_ok hrun]
    refine ⟨.single ⟨hwf, .update ?_ (Nat.lt_succ_self _) (Nat.le_succ _) rfl
      ⟨fun v => by cases v <;> rfl, rfl⟩⟩, Or.inl ⟨c, hc, ho, rfl⟩⟩
    exact Updated.set hc ⟨rfl, rfl, rfl, rfl, rfl⟩ (Or.inr (Nat.lt_succ_self _)) fun _ =>
      Or.inl ⟨rfl, rfl⟩
  · have hi : s.isIndexed b = false := by simpa using hi
    have hi₁ : s₁.isIndexed b = false := hi
    refine wp_mono (commitResidency_detached h₁ hi₁ _) ?_ ?_
    · rintro - s' ⟨hs, hb⟩
      exact ⟨.head hstep hs, Or.inr ⟨hi, hb⟩⟩
    · rintro - s' ⟨hs, hb⟩
      exact ⟨.head hstep hs, hb⟩

theorem parent_test {p : PrefixCacheBlock ι π → Bool} {q : Option ι}
    (h : ¬ (q.any fun parentId => !blockWith s.blocks p parentId) = true) {x : ι}
    {pb : PrefixCacheBlock ι π} (hx : q = some x) (hpb : s.blocks.get? x = some pb) :
    p pb = true := by
  subst hx
  simpa [blockWith, hpb] using h

theorem beginD2h_spec (h : WellFormed s) (b : PrefixCacheBlock ι π) :
    wp (beginD2h b)
      (fun _ s' => Recast s b (fun r => { r with transfer := some .d2h }) s' ∧
        ∃ c, s.blocks.get? b.stableBlockId = some c ∧ c.objectId = b.objectId ∧ c.refCount = 0 ∧
          c.residency.hostPresent = false ∧ c.residency.transfer = none)
      (fun _ s' => Unchanged s s') s := by
  simp only [beginD2h, wp_bind, wp_get, wp_raiseIf, wp_lift]
  refine ⟨fun _ => .refl s, fun hi => ?_⟩
  obtain ⟨c, hc, ho⟩ := isIndexed_iff.mp (by simpa using hi)
  rw [deref_of_indexed hc ho, h.residency.valid _ c hc]
  refine ⟨fun _ => .refl s, fun hr => ⟨fun _ => .refl s, fun hh => ⟨fun _ => .refl s, fun ht =>
    ⟨fun _ => .refl s, fun _ => ?_⟩⟩⟩⟩
  have hvalid := (validate_iff _).mp (h.residency.valid _ c hc)
  have hd : c.residency.devicePresent = true := hvalid.1.resolve_right hh
  have hhost : c.residency.hostPresent = false := by simpa using hh
  have hcommit := commitResidency_keep (b := b) h
    (r := fun r => { r with transfer := some .d2h }) (fun _ => rfl) fun c' hc' ho' => by
      rw [hc] at hc'
      cases hc'
      exact ⟨(validate_iff _).mpr ⟨Or.inl hd, fun _ => ⟨hd, hhost⟩, by simp⟩, Or.inl, Or.inl,
        Or.inl hd, id⟩
  rw [deref_of_indexed hc ho] at hcommit
  refine wp_mono hcommit (fun _ s' hs' => ⟨hs', c, hc, ho, ?_, hhost, ?_⟩) fun _ _ he => he
  · simpa using hr
  · simpa using ht

theorem finishD2h_spec (h : WellFormed s) (b : PrefixCacheBlock ι π) :
    wp (finishD2h b)
      (fun _ s' => Recast s b (fun r => { r with hostPresent := true, transfer := none }) s' ∧
        (s.deref b).residency.transfer = some .d2h)
      (fun _ s' => Unchanged s s') s := by
  simp only [finishD2h, wp_bind, wp_get, wp_raiseIf]
  refine ⟨fun _ => .refl s, fun ht => ⟨fun _ => .refl s, fun hp => ?_⟩⟩
  have ht : (s.deref b).residency.transfer = some .d2h := by simpa using ht
  refine wp_mono (commitResidency_keep h
    (r := fun r => { r with hostPresent := true, transfer := none }) (fun _ => rfl)
    fun c hc ho => ?_) (fun _ s' hs' => ⟨hs', ht⟩) fun _ _ he => he
  rw [deref_of_indexed hc ho] at ht hp
  obtain ⟨hd, -⟩ := ((validate_iff _).mp (h.residency.valid _ c hc)).2.1 ht
  exact ⟨(validate_iff _).mpr ⟨Or.inl hd, by simp, by simp⟩, Or.inl,
    fun _ => Or.inr fun p pb hbp hpb => parent_test hp hbp hpb, Or.inl hd, fun _ => rfl⟩

theorem abortD2h_spec (h : WellFormed s) (b : PrefixCacheBlock ι π) :
    wp (abortD2h b)
      (fun _ s' => Recast s b (fun r => { r with transfer := none }) s' ∧
        (s.deref b).residency.transfer = some .d2h)
      (fun _ s' => Unchanged s s') s := by
  simp only [abortD2h, wp_bind, wp_get, wp_raiseIf]
  refine ⟨fun _ => .refl s, fun ht => ?_⟩
  have ht : (s.deref b).residency.transfer = some .d2h := by simpa using ht
  refine wp_mono (commitResidency_keep h (r := fun r => { r with transfer := none })
    (fun _ => rfl) fun c hc ho => ?_) (fun _ s' hs' => ⟨hs', ht⟩) fun _ _ he => he
  rw [deref_of_indexed hc ho] at ht
  obtain ⟨hd, -⟩ := ((validate_iff _).mp (h.residency.valid _ c hc)).2.1 ht
  exact ⟨(validate_iff _).mpr ⟨Or.inl hd, by simp, by simp⟩, Or.inl, Or.inl, Or.inl hd, id⟩

theorem beginH2d_spec (h : WellFormed s) (b : PrefixCacheBlock ι π) :
    wp (beginH2d b)
      (fun _ s' => Recast s b (fun r => { r with devicePresent := true, transfer := some .h2d }) s' ∧
        ∃ c, s.blocks.get? b.stableBlockId = some c ∧ c.objectId = b.objectId ∧
          c.residency.devicePresent = false ∧ c.residency.hostPresent = true ∧
          c.residency.transfer = none)
      (fun _ s' => Unchanged s s') s := by
  simp only [beginH2d, wp_bind, wp_get, wp_raiseIf, wp_lift]
  refine ⟨fun _ => .refl s, fun hi => ?_⟩
  obtain ⟨c, hc, ho⟩ := isIndexed_iff.mp (by simpa using hi)
  rw [deref_of_indexed hc ho, h.residency.valid _ c hc]
  refine ⟨fun _ => .refl s, fun hd => ⟨fun _ => .refl s, fun hh => ⟨fun _ => .refl s, fun ht =>
    ⟨fun _ => .refl s, fun hp => ?_⟩⟩⟩⟩
  have hhost : c.residency.hostPresent = true := by simpa using hh
  have hcommit := commitResidency_move (b := b) h
    (r := fun r => { r with devicePresent := true, transfer := some .h2d }) fun c' hc' ho' => by
      rw [hc] at hc'
      cases hc'
      exact ⟨(validate_iff _).mpr ⟨Or.inl rfl, by simp, fun _ => ⟨rfl, hhost⟩⟩,
        fun _ => Or.inr fun p pb hbp hpb => parent_test hp hbp hpb, Or.inl, Or.inl rfl, id⟩
  rw [deref_of_indexed hc ho] at hcommit
  rw [← wp_bind]
  refine wp_mono hcommit (fun _ s' hs' => ⟨hs', c, hc, ho, ?_, hhost, ?_⟩) fun _ _ he => he
  · simpa using hd
  · simpa using ht

theorem finishH2d_spec (h : WellFormed s) (b : PrefixCacheBlock ι π) :
    wp (finishH2d b)
      (fun _ s' => Recast s b (fun r => { r with transfer := none }) s' ∧
        (s.deref b).residency.transfer = some .h2d)
      (fun _ s' => Unchanged s s') s := by
  simp only [finishH2d, wp_bind, wp_get, wp_raiseIf]
  refine ⟨fun _ => .refl s, fun ht => ?_⟩
  have ht : (s.deref b).residency.transfer = some .h2d := by simpa using ht
  refine wp_mono (commitResidency_keep h (r := fun r => { r with transfer := none })
    (fun _ => rfl) fun c hc ho => ?_) (fun _ s' hs' => ⟨hs', ht⟩) fun _ _ he => he
  rw [deref_of_indexed hc ho] at ht
  obtain ⟨hd, -⟩ := ((validate_iff _).mp (h.residency.valid _ c hc)).2.2 ht
  exact ⟨(validate_iff _).mpr ⟨Or.inl hd, by simp, by simp⟩, Or.inl, Or.inl, Or.inl hd, id⟩

theorem abortH2d_spec (h : WellFormed s) (b : PrefixCacheBlock ι π) :
    wp (abortH2d b)
      (fun _ s' => Recast s b (fun r => { r with devicePresent := false, transfer := none }) s' ∧
        (s.deref b).residency.transfer = some .h2d)
      (fun _ s' => Unchanged s s') s := by
  simp only [abortH2d, wp_bind, wp_get, wp_raiseIf, wp_lift]
  refine ⟨fun _ => .refl s, fun ht => ?_⟩
  have ht : (s.deref b).residency.transfer = some .h2d := by simpa using ht
  cases hn : s.deviceChildCount b.stableBlockId with
  | error e => exact .refl s
  | ok n =>
    refine ⟨fun _ => .refl s, fun h0 => ?_⟩
    rw [← wp_bind]
    refine wp_mono (commitResidency_move h
      (r := fun r => { r with devicePresent := false, transfer := none }) fun c hc ho => ?_)
      (fun _ s' hs' => ⟨hs', ht⟩) fun _ _ he => he
    rw [deref_of_indexed hc ho] at ht
    obtain ⟨-, hh⟩ := ((validate_iff _).mp (h.residency.valid _ c hc)).2.2 ht
    obtain ⟨n', hn', hleaf, -⟩ := deviceChildCount_spec h (Dict.mem_keySet.mpr ⟨c, hc⟩)
    rw [hn] at hn'
    cases hn'
    exact ⟨(validate_iff _).mpr ⟨Or.inr hh, by simp, by simp⟩, by simp, Or.inl,
      Or.inr (hleaf.mp (by simpa using h0)), id⟩

end

section

variable {s : RadixPrefixIndex ι π} {blocks : Dict ι (PrefixCacheBlock ι π)} {id : ι}
  {old : PrefixCacheBlock ι π}

theorem TracksExcept.erase {F : Finset ι} {counts : Dict ι Int} (h : Tracks blocks F counts)
    (hF : id ∈ F) : Tracks (blocks.erase id) (F.erase id) (counts.erase id) := by
  have hk : (blocks.erase id).keySet = blocks.keySet.erase id := keySet_erase _ _
  have hch : ∀ b, blockedChildren (blocks.erase id) (F.erase id) b = blockedChildren blocks F b := by
    intro b
    ext c
    simp only [blockedChildren, mem_keptChildren, hk, parentMap_erase, mem_erase]
    by_cases hc : c = id
    · subst hc; simp [hF]
    · simp [hc]
  refine ⟨fun b hb => ?_, fun b n hb => ?_, fun b hb => ?_, fun b hb _ => ?_⟩
  · rw [hk, mem_erase]
    obtain ⟨h1, h2⟩ := mem_erase.mp hb
    exact ⟨h1, h.sub b h2⟩
  · rw [get?_erase] at hb
    split at hb
    · cases hb
    · next hne =>
      rw [hk, mem_erase]
      exact ⟨hne, h.keys b n hb⟩
  · rw [hk] at hb
    obtain ⟨h1, h2⟩ := mem_erase.mp hb
    rw [hch, get?_erase_ne _ h1]
    exact h.count b h2
  · rw [hk] at hb
    obtain ⟨h1, h2⟩ := mem_erase.mp hb
    rw [hch, mem_erase, h.eqn b h2 (notMem_empty b), LocallyFree, LocallyFree,
      get?_erase_ne _ h1]
    exact and_iff_right h1

theorem ResidencyInv.erase (h : ResidencyInv blocks) (id : ι) : ResidencyInv (blocks.erase id) := by
  have hget : ∀ {x b}, (blocks.erase id).get? x = some b → blocks.get? x = some b := by
    intro x b hx
    rw [get?_erase] at hx
    split at hx
    · cases hx
    · exact hx
  exact ⟨fun x b hb => h.valid x b (hget hb),
    fun x b p pb hb hp hpb => h.device x b p pb (hget hb) hp (hget hpb),
    fun x b p pb hb hp hpb => h.host x b p pb (hget hb) hp (hget hpb)⟩

theorem WellFormed.leaf_mem (h : WellFormed s) (hold : s.blocks.get? id = some old)
    (hb : old.locallyBlocked = false) (hno : ∀ c, parentMap s.blocks c ≠ some (some id))
    {F : Finset ι} (hF : s.freeableIds = some F) : id ∈ F := by
  rw [(h.tracks F hF).eqn id (Dict.mem_keySet.mpr ⟨old, hold⟩) (notMem_empty id),
    locallyFree_iff hold, card_eq_zero, eq_empty_iff_forall_notMem]
  exact ⟨hb, fun c hc => hno c (mem_keptChildren.mp hc).2.1⟩

theorem WellFormed.remove (h : WellFormed s) (hold : s.blocks.get? id = some old)
    (hb : old.locallyBlocked = false) (hno : ∀ c, parentMap s.blocks c ≠ some (some id))
    {t : RadixTreeBackend ι} {m : RoutingMembership ι}
    (ht : t.Represents (s.blocks.keySet.erase id) (update (parentMap s.blocks) id none))
    (hm : m.Holds (s.blocks.keySet.erase id)) (e : IndexEpochs) (j : Option (Finset ι)) :
    WellFormed { s with
      backend := t
      blocks := s.blocks.erase id
      freeableIds := s.freeableIds.map (·.erase id)
      blockedFreeableChildren := match s.freeableIds with
        | none => s.blockedFreeableChildren
        | some _ => s.blockedFreeableChildren.erase id
      routingMembership := m
      epochs := e
      removedBlockIdsForCapacity := j } := by
  have hk : (s.blocks.erase id).keySet = s.blocks.keySet.erase id := keySet_erase _ _
  refine ⟨?_, fun x b hx => ?_, ?_, ?_, fun F hF => ?_, h.residency.erase id⟩
  · rw [hk, parentMap_erase]
    exact h.forest.erase hno
  · rw [get?_erase] at hx
    split at hx
    · cases hx
    · exact h.ids x b hx
  · rw [hk, parentMap_erase]
    exact ht
  · rw [hk]
    exact hm
  · cases hF' : s.freeableIds with
    | none => rw [hF'] at hF; simp at hF
    | some F' =>
      rw [hF'] at hF
      simp only [Option.map_some, Option.some.injEq] at hF
      subst hF
      exact TracksExcept.erase (h.tracks F' hF') (h.leaf_mem hold hb hno hF')

omit [LinearOrder ι] in
theorem locallyBlocked_eq_false {b : PrefixCacheBlock ι π} : b.locallyBlocked = false ↔
    b.refCount = 0 ∧ 0 ≤ b.evictionPriority ∧ b.residency.transfer = none := by
  simp [PrefixCacheBlock.locallyBlocked, and_assoc]

theorem childCount_spec (h : WellFormed s) (hid : id ∈ s.blocks.keySet) :
    ∃ n, s.childCount id = .ok n ∧ (n = 0 ↔ ∀ c, parentMap s.blocks c ≠ some (some id)) := by
  obtain ⟨cs, -, hcount, -, hmem⟩ := h.tree.childBlockIds_spec h.forest hid
  refine ⟨cs.length, hcount, ?_⟩
  rw [length_eq_zero_iff, eq_nil_iff_forall_not_mem]
  exact forall_congr' fun c => not_congr (hmem c)

/-- What `_remove_block_from_index` needs. -/
def Removable (s : RadixPrefixIndex ι π) (id : ι) (b : PrefixCacheBlock ι π) : Prop :=
  s.blocks.get? id = some b ∧ b.locallyBlocked = false ∧
    ∀ c, parentMap s.blocks c ≠ some (some id)

theorem removeBlockFromIndex_spec (h : WellFormed s) (id : ι) :
    wp (removeBlockFromIndex id)
      (fun b s' => Removable s id b ∧ Step s s' ∧ s'.blocks = s.blocks.erase id)
      (fun _ s' => s' = s ∧ ∀ b, ¬ Removable s id b) s := by
  simp only [removeBlockFromIndex, wp_bind, wp_get]
  cases hold : s.blocks.get? id with
  | none => exact ⟨rfl, fun b hb => by rw [hb.1] at hold; cases hold⟩
  | some old =>
    have hid : id ∈ s.blocks.keySet := Dict.mem_keySet.mpr ⟨old, hold⟩
    obtain ⟨n, hn, hleaf⟩ := childCount_spec h hid
    have hno : ∀ {b}, Removable s id b → old.locallyBlocked = false ∧ n = 0 := by
      rintro b ⟨hb, h1, h2⟩
      rw [hold] at hb
      cases hb
      exact ⟨h1, hleaf.mpr h2⟩
    simp only [wp_raiseIf, wp_lift, wp_bind, hn]
    refine ⟨fun h1 => ⟨trivial, fun b hb => ?_⟩, fun h1 => ⟨fun h2 => ⟨trivial, fun b hb => ?_⟩,
      fun h2 => ⟨fun h3 => ⟨trivial, fun b hb => ?_⟩, fun h3 => ⟨fun h4 => ⟨trivial, fun b hb => ?_⟩,
      fun h4 => ?_⟩⟩⟩⟩
    · exact h1 (locallyBlocked_eq_false.mp (hno hb).1).1
    · have := (locallyBlocked_eq_false.mp (hno hb).1).2.1
      omega
    · rw [(locallyBlocked_eq_false.mp (hno hb).1).2.2] at h3
      cases h3
    · exact h4 (hno hb).2
    · have hblk : old.locallyBlocked = false := by
        rw [locallyBlocked_eq_false]
        exact ⟨by simpa using h1, by omega, by simpa using h3⟩
      have hleaf' := hleaf.mp (by simpa using h4)
      obtain ⟨t', htrun, ht'⟩ := h.tree.removeBlock h.forest hid hleaf'
      obtain ⟨m', hmrun, hm'⟩ := h.routing.remove hid
      have hrem : Removable s id old := ⟨hold, hblk, hleaf'⟩
      have hwf := h.remove hold hblk hleaf' ht' hm' s.epochs.markRemoved
        (journalRemoval s.removedBlockIdsForCapacity id)
      have hoid : old.stableBlockId = id := h.ids id old hold
      rw [wp_zoom, wp_of_ok htrun]
      simp only [wp_modify]
      cases hF : s.freeableIds with
      | none =>
        simp only [wp_pure, wp_bind, wp_get, wp_lift, hmrun, markRemoved, wp_modify]
        rw [hF] at hwf
        refine ⟨hrem, ⟨?_, .remove (by rw [hoid]; exact hold) hblk (by rw [hoid]; exact hleaf')
          (by rw [hoid]) rfl (by rw [hoid]) (fun v => by cases v <;> rfl)⟩, trivial⟩
        simpa [hF] using hwf
      | some F =>
        have hcount := (h.tracks F hF).count id hid
        have hmem := h.leaf_mem hold hblk hleaf' hF
        simp only [wp_bind, wp_modify, wp_lift, entry_of_get hcount, if_pos hmem, wp_pure, wp_get,
          hmrun, markRemoved]
        rw [hF] at hwf
        refine ⟨hrem, ⟨?_, .remove (by rw [hoid]; exact hold) hblk (by rw [hoid]; exact hleaf')
          (by rw [hoid]) rfl (by rw [hoid]) (fun v => by cases v <;> rfl)⟩, trivial⟩
        exact hwf

end

section

variable {s : RadixPrefixIndex ι π}

/-- What a capacity query returns: its cache when that is from the current capacity
epoch, and otherwise the view recomputed from the blocks. -/
def QueryResult (v : View) (s : RadixPrefixIndex ι π) (F : Finset ι) : Prop :=
  ((s.cache v).epoch = s.epochs.capacity ∧ F = (s.cache v).ids) ∨
    ∀ id, id ∈ F ↔ v.Contains s.blocks id

theorem evictableBlockIds_spec (h : WellFormed s) :
    wp evictableBlockIds (fun F s' => QueryResult .evictable s F ∧ Unchanged s s')
      (fun _ _ => False) s := by
  simp only [evictableBlockIds, wp_bind, wp_get, wp_ite]
  split
  · next hc => exact ⟨Or.inl ⟨hc, rfl⟩, .refl s⟩
  · simp only [wp_modify, wp_pure]
    have hmem : ∀ id, id ∈ s.backend.leafBlockIds.filter
        (fun id => blockWith s.blocks (fun b => !b.locallyBlocked) id) ↔
          View.evictable.Contains s.blocks id := by
      intro id
      rw [Finset.mem_filter, h.tree.leaf, View.Contains]
      constructor
      · rintro ⟨⟨hid, hno⟩, hb⟩
        obtain ⟨b, hget⟩ := Dict.mem_keySet.mp hid
        exact ⟨⟨b, hget, by simpa [blockWith, hget] using hb⟩, hno⟩
      · rintro ⟨⟨b, hget, hb⟩, hno⟩
        exact ⟨⟨Dict.mem_keySet.mpr ⟨b, hget⟩, hno⟩, by simp [blockWith, hget, hb]⟩
    refine ⟨Or.inr hmem, .single ⟨{ h with },
      .view rfl rfl rfl fun v => ?_⟩, rfl⟩
    cases v with
    | evictable => exact Or.inr ⟨rfl, hmem⟩
    | _ => exact Or.inl rfl

theorem freeableBlockIds_spec (h : WellFormed s) :
    wp freeableBlockIds (fun F s' => QueryResult .freeable s F ∧ Unchanged s s')
      (fun _ _ => False) s := by
  simp only [freeableBlockIds, wp_bind, wp_get, wp_ite]
  split
  · next hc => exact ⟨Or.inl ⟨hc, rfl⟩, .refl s⟩
  · cases hF : s.freeableIds with
    | some F =>
      simp only [wp_bind, wp_modify, wp_pure]
      have hmem : ∀ id, id ∈ F ↔ View.freeable.Contains s.blocks id := fun id =>
        (h.tracks F hF).mem_iff h.forest
      refine ⟨Or.inr hmem, .single ⟨{ h with },
        .view rfl rfl rfl fun v => ?_⟩, rfl⟩
      cases v with
      | freeable => exact Or.inr ⟨rfl, hmem⟩
      | _ => exact Or.inl rfl
    | none =>
      obtain ⟨F, counts, hrun, ht⟩ := freeableScan_spec h.forest
      simp only [wp_bind, wp_lift, hrun, wp_modify, wp_pure]
      have hmem : ∀ id, id ∈ F ↔ View.freeable.Contains s.blocks id := fun id =>
        ht.mem_iff h.forest
      refine ⟨Or.inr hmem, .single ⟨{ h with tracks := fun F' hF' => ?_ }, .view rfl rfl rfl fun v => ?_⟩, rfl⟩
      · cases hF'
        exact ht
      · cases v with
        | freeable => exact Or.inr ⟨rfl, hmem⟩
        | _ => exact Or.inl rfl

end

section

variable {s : RadixPrefixIndex ι π} {blocks : Dict ι (PrefixCacheBlock ι π)} {id : ι}
  {b : PrefixCacheBlock ι π}

theorem ResidencyInv.add (h : ResidencyInv blocks) (hf : Forest blocks.keySet (parentMap blocks))
    (hnew : blocks.get? id = none) (hadm : Admissible blocks b) :
    ResidencyInv (blocks.set id b) := by
  have hid : id ∉ blocks.keySet := by simp [hnew]
  -- A parent of an indexed block is indexed, so it is not the new block.
  have hpar : ∀ {x c p}, (blocks.set id b).get? x = some c → c.parentBlockId = some p → p ≠ id := by
    rintro x c p hx hp rfl
    by_cases hxi : x = p
    · subst hxi
      rw [get?_set_self] at hx
      cases hx
      obtain ⟨pb, hpb, -⟩ := hadm.2 x hp
      rw [hnew] at hpb
      cases hpb
    · rw [get?_set_ne _ _ hxi] at hx
      exact hid (hf.closed x p ((parentMap_of_get hx).trans (by rw [hp])))
  refine ⟨fun x c hx => ?_, fun x c p pb hx hp hpb hd => ?_, fun x c p pb hx hp hpb hh => ?_⟩
  · by_cases hxi : x = id
    · subst hxi
      rw [get?_set_self] at hx
      cases hx
      exact hadm.1
    · rw [get?_set_ne _ _ hxi] at hx
      exact h.valid x c hx
  · rw [get?_set_ne _ _ (hpar hx hp)] at hpb
    by_cases hxi : x = id
    · subst hxi
      rw [get?_set_self] at hx
      cases hx
      obtain ⟨pb', hpb', hdev, -⟩ := hadm.2 p hp
      rw [hpb] at hpb'
      cases hpb'
      exact hdev hd
    · rw [get?_set_ne _ _ hxi] at hx
      exact h.device x c p pb hx hp hpb hd
  · rw [get?_set_ne _ _ (hpar hx hp)] at hpb
    by_cases hxi : x = id
    · subst hxi
      rw [get?_set_self] at hx
      cases hx
      obtain ⟨pb', hpb', -, hhost⟩ := hadm.2 p hp
      rw [hpb] at hpb'
      cases hpb'
      exact hhost hh
    · rw [get?_set_ne _ _ hxi] at hx
      exact h.host x c p pb hx hp hpb hh

theorem TracksExcept.add_child {F : Finset ι} {counts : Dict ι Int} (h : Tracks blocks F counts)
    (hf : Forest blocks.keySet (parentMap blocks)) (hnew : blocks.get? id = none)
    (hpar : ∀ p, b.parentBlockId = some p → p ∈ blocks.keySet) {X : Finset ι}
    {counts' : Dict ι Int} (hX : ∀ x, x ∈ X ↔ x = id ∨ b.parentBlockId = some x)
    (hcounts : ∀ x, counts'.get? x = if x = id then some 0
      else if b.parentBlockId = some x then some (((blockedChildren blocks F x).card : Int) + 1)
      else counts.get? x) :
    TracksExcept (blocks.set id b) X F counts' := by
  have hid : id ∉ blocks.keySet := by simp [hnew]
  have hk : (blocks.set id b).keySet = insert id blocks.keySet := Dict.keySet_set _ _ _
  have hidF : id ∉ F := fun hF => hid (h.sub id hF)
  have hpne : ∀ {p}, b.parentBlockId = some p → p ≠ id := fun hp e => hid (e ▸ hpar _ hp)
  have hself : blockedChildren (blocks.set id b) F id = ∅ := by
    rw [eq_empty_iff_forall_notMem]
    intro c hc
    have hc' := (mem_keptChildren.mp hc).2.1
    rw [parentMap_set] at hc'
    by_cases hci : c = id
    · subst hci
      rw [update_self] at hc'
      exact hpne (Option.some.inj hc') rfl
    · rw [update_of_ne hci] at hc'
      exact hid (hf.closed c id hc')
  have hother : ∀ {x}, b.parentBlockId ≠ some x →
      blockedChildren (blocks.set id b) F x = blockedChildren blocks F x := by
    intro x hx
    ext c
    simp only [blockedChildren, mem_keptChildren, hk, parentMap_set, Finset.mem_insert]
    by_cases hci : c = id
    · subst hci; simp [hx, hnew]
    · simp [hci]
  have hparent : ∀ {x}, b.parentBlockId = some x →
      (blockedChildren (blocks.set id b) F x).card = (blockedChildren blocks F x).card + 1 := by
    intro x hx
    have hni : id ∉ blockedChildren blocks F x := fun hc => hid (mem_keptChildren.mp hc).1
    rw [← card_insert_of_notMem hni]
    congr 1
    ext c
    simp only [blockedChildren, mem_keptChildren, hk, parentMap_set, Finset.mem_insert]
    by_cases hci : c = id
    · subst hci; simp [hx, hidF]
    · simp [hci]
  refine ⟨fun x hx => ?_, fun x n hx => ?_, fun x hx => ?_, fun x hx hxX => ?_⟩
  · rw [hk]
    exact Finset.mem_insert_of_mem (h.sub x hx)
  · rw [hk, Finset.mem_insert]
    rw [hcounts] at hx
    by_cases hxi : x = id
    · exact Or.inl hxi
    · rw [if_neg hxi] at hx
      by_cases hxp : b.parentBlockId = some x
      · exact Or.inr (hpar x hxp)
      · rw [if_neg hxp] at hx
        exact Or.inr (h.keys x n hx)
  · rw [hcounts]
    by_cases hxi : x = id
    · subst hxi; simp [hself]
    · rw [if_neg hxi]
      have hxS : x ∈ blocks.keySet := by
        rw [hk, Finset.mem_insert] at hx
        exact hx.resolve_left hxi
      by_cases hxp : b.parentBlockId = some x
      · rw [if_pos hxp, hparent hxp]
        rfl
      · rw [if_neg hxp, hother hxp]
        exact h.count x hxS
  · rw [hX, not_or] at hxX
    have hxS : x ∈ blocks.keySet := by
      rw [hk, Finset.mem_insert] at hx
      exact hx.resolve_left hxX.1
    rw [hother hxX.2, h.eqn x hxS (notMem_empty x), LocallyFree, LocallyFree,
      get?_set_ne _ _ hxX.1]

theorem refreshFreeablePath_none (s : RadixPrefixIndex ι π) :
    refreshFreeablePath none s = (.ok (), s) := by
  unfold refreshFreeablePath
  split
  · rfl
  · next F hF =>
    simp only [refreshLoop, pure_run]
    rw [← hF]

theorem insertFreeable_spec (hf : Forest blocks.keySet (parentMap blocks))
    (hnew : blocks.get? b.stableBlockId = none)
    (hpar : ∀ p, b.parentBlockId = some p → p ∈ blocks.keySet)
    (hblocks : s.blocks = blocks.set b.stableBlockId b)
    (hf' : Forest s.blocks.keySet (parentMap s.blocks))
    (ht : ∀ F, s.freeableIds = some F → Tracks blocks F s.blockedFreeableChildren) :
    ∃ F counts, insertFreeable b s =
        (.ok (), { s with freeableIds := F, blockedFreeableChildren := counts }) ∧
      ∀ F', F = some F' → Tracks s.blocks F' counts := by
  cases hF : s.freeableIds with
  | none =>
    refine ⟨none, s.blockedFreeableChildren, ?_, by simp⟩
    simp only [insertFreeable, bind_run, get_run, hF, Option.isNone_none, if_true, pure_run]
    rw [← hF]
  | some F =>
    have ht := ht F hF
    have hget : s.blocks.get? b.stableBlockId = some b := by rw [hblocks]; simp
    have hid : b.stableBlockId ∈ s.blocks.keySet := Dict.mem_keySet.mpr ⟨b, hget⟩
    obtain ⟨l, hl⟩ := hf'.exists_rootPath _ hid
    have hlen : l.length ≤ s.blocks.size + 1 := by
      have := hf'.rootPath_length_le hl
      rw [card_keySet] at this
      omega
    have hne : ∀ {p}, b.parentBlockId = some p → p ≠ b.stableBlockId := by
      rintro p hp rfl
      have := hpar _ hp
      simp [hnew] at this
    cases hp : b.parentBlockId with
    | none =>
      obtain ⟨F', counts', hrun, ht'⟩ := refresh_spec (s := { s with
        blockedFreeableChildren := s.blockedFreeableChildren.set b.stableBlockId 0 }) hf' hid
        fun F' hF' => by
          change s.freeableIds = some F' at hF'
          rw [hF] at hF'
          cases hF'
          rw [hblocks]
          refine ht.add_child hf hnew hpar (by simp [hp]) fun x => ?_
          simp [get?_set, hp]
      refine ⟨F', counts', ?_, ht'⟩
      simp only [insertFreeable, bind_run, get_run, hF, Option.isNone_some, modify_run, lift_run, hp,
        countEdge, Bool.false_eq_true, if_false]
      simp only [← hF, hrun, refreshFreeablePath_none]
    | some p =>
      have hpS := hpar p hp
      have hcount := ht.count p hpS
      have hadd : countEdge (some p) (s.blockedFreeableChildren.set b.stableBlockId 0) =
          .ok ((s.blockedFreeableChildren.set b.stableBlockId 0).set p
            (((blockedChildren blocks F p).card : Int) + 1)) := by
        have hg : (s.blockedFreeableChildren.set b.stableBlockId 0).get? p =
            some ((blockedChildren blocks F p).card : Int) := by
          rw [get?_set_ne _ _ (hne hp)]; exact hcount
        simp only [countEdge, addCount, entry_of_get hg]
        rfl
      have hpair : TracksExcept s.blocks {b.stableBlockId, p} F
          ((s.blockedFreeableChildren.set b.stableBlockId 0).set p
            (((blockedChildren blocks F p).card : Int) + 1)) := by
        rw [hblocks]
        refine ht.add_child hf hnew hpar (by simp [hp, eq_comm]) fun x => ?_
        simp only [get?_set, hp, Option.some.injEq]
        by_cases hx : x = b.stableBlockId
        · subst hx
          simp [Ne.symm (hne hp)]
        · by_cases hxp : x = p
          · subst hxp; simp [hx]
          · simp [hx, hxp, Ne.symm hxp]
      obtain ⟨F₁, counts₁, hrun₁, ht₁⟩ := refreshLoop_pair hf' hl hlen hget hp hpair
      obtain ⟨F', counts', hrun, ht'⟩ := refresh_spec (s := { s with
        freeableIds := some F₁, blockedFreeableChildren := counts₁ }) hf'
        (by rw [hblocks, Dict.keySet_set]; exact Finset.mem_insert_of_mem hpS)
        fun F' hF' => by
          cases hF'
          exact ht₁
      refine ⟨F', counts', ?_, ht'⟩
      have hrun₂ : refreshFreeablePath (some b.stableBlockId) { s with
          blockedFreeableChildren := (s.blockedFreeableChildren.set b.stableBlockId 0).set p
            (((blockedChildren blocks F p).card : Int) + 1) } =
          (.ok (), { s with freeableIds := some F₁, blockedFreeableChildren := counts₁ }) := by
        simp only [refreshFreeablePath, hF, hrun₁]
      simp only [insertFreeable, bind_run, get_run, hF, Option.isNone_some, modify_run, lift_run, hp,
        hadd, Bool.false_eq_true, if_false]
      simp only [← hF, hrun₂, hrun]

variable (cfg : PrefixIndexConfig ι)

def Full (s : RadixPrefixIndex ι π) : Prop :=
  ∃ m, cfg.maxBlocks = some m ∧ m ≤ s.blocks.size

omit [LinearOrder ι] in
theorem tick_run : (tick : IndexM ι π Nat) s = (.ok (s.clock + 1), { s with clock := s.clock + 1 }) :=
  rfl

theorem WellFormed.insert (h : WellFormed s) (hnew : s.blocks.get? b.stableBlockId = none)
    (hadm : Admissible s.blocks b) {t : RadixTreeBackend ι} {m : RoutingMembership ι}
    {F : Option (Finset ι)} {counts : Dict ι Int}
    (ht : t.Represents (insert b.stableBlockId s.blocks.keySet)
      (update (parentMap s.blocks) b.stableBlockId (some b.parentBlockId)))
    (hm : m.Holds (insert b.stableBlockId s.blocks.keySet))
    (hF : ∀ F', F = some F' → Tracks (s.blocks.set b.stableBlockId b) F' counts)
    (clock committed : Nat) (e : IndexEpochs) :
    WellFormed { s with
      backend := t
      blocks := s.blocks.set b.stableBlockId b
      clock := clock
      epochs := e
      freeableIds := F
      blockedFreeableChildren := counts
      committedBlocks := committed
      routingMembership := m } := by
  have hk : (s.blocks.set b.stableBlockId b).keySet = Insert.insert b.stableBlockId s.blocks.keySet :=
    Dict.keySet_set _ _ _
  have hid : b.stableBlockId ∉ s.blocks.keySet := by simp [hnew]
  refine ⟨?_, fun x c hx => ?_, ?_, ?_, hF, h.residency.add h.forest hnew hadm⟩
  · rw [hk, parentMap_set]
    refine h.forest.insert hid fun p hp => ?_
    obtain ⟨pb, hpb, -⟩ := hadm.2 p hp
    exact Dict.mem_keySet.mpr ⟨pb, hpb⟩
  · by_cases hxi : x = b.stableBlockId
    · subst hxi
      rw [get?_set_self] at hx
      cases hx
      rfl
    · rw [get?_set_ne _ _ hxi] at hx
      exact h.ids x c hx
  · rw [hk, parentMap_set]
    exact ht
  · rw [hk]
    exact hm

theorem checkInsertParent_spec (hvalid : b.residency.validate = .ok ()) :
    wp (checkInsertParent b) (fun _ s' => s' = s ∧ Admissible s.blocks b)
      (fun _ s' => s' = s ∧ ¬ Admissible s.blocks b) s := by
  simp only [checkInsertParent, wp_bind, wp_get]
  cases hp : b.parentBlockId with
  | none => exact ⟨rfl, hvalid, by simp [hp]⟩
  | some p =>
    cases hpb : s.blocks.get? p with
    | none =>
      simp only [hpb, wp_raise]
      refine ⟨trivial, fun hadm => ?_⟩
      obtain ⟨pb, hpb', -⟩ := hadm.2 p hp
      rw [hpb] at hpb'
      cases hpb'
    | some pb =>
      have hadm : Admissible s.blocks b →
          (b.residency.devicePresent = true → pb.residency.devicePresent = true) ∧
          (b.residency.hostPresent = true → pb.residency.hostPresent = true) := by
        rintro ⟨-, hadm⟩
        obtain ⟨pb', hpb', h1⟩ := hadm p hp
        rw [hpb] at hpb'
        cases hpb'
        exact h1
      simp only [hpb, wp_bind, wp_raiseIf]
      refine ⟨fun hd => ⟨trivial, fun h => ?_⟩, fun hd => ⟨fun hh => ⟨trivial, fun h => ?_⟩,
        fun hh => ⟨trivial, hvalid, fun p' hp' => ?_⟩⟩⟩
      · have := (hadm h).1 hd.1
        rw [hd.2] at this
        cases this
      · have := (hadm h).2 hh.1
        rw [hh.2] at this
        cases this
      · rw [hp] at hp'
        cases hp'
        exact ⟨pb, hpb, fun h1 => by simpa [h1] using hd, fun h1 => by simpa [h1] using hh⟩

theorem storeNewBlock_spec (h : WellFormed s) (hnew : s.blocks.get? b.stableBlockId = none)
    (hadm : Admissible s.blocks b) :
    ∃ s', storeNewBlock b s = (.ok { b with lastAccess := s.clock + 1 }, s') ∧
      InsertStep s { b with lastAccess := s.clock + 1 } s' := by
  set b' : PrefixCacheBlock ι π := { b with lastAccess := s.clock + 1 } with hb'
  have hadm' : Admissible s.blocks b' := hadm
  have hid : b.stableBlockId ∉ s.blocks.keySet := by simp [hnew]
  have hpar : ∀ p, b.parentBlockId = some p → p ∈ s.blocks.keySet := fun p hp => by
    obtain ⟨pb, hpb, -⟩ := hadm.2 p hp
    exact Dict.mem_keySet.mpr ⟨pb, hpb⟩
  obtain ⟨t', htrun, ht'⟩ := h.tree.insertChild h.forest hid hpar
  obtain ⟨m', hmrun, hm'⟩ := h.routing.insert hid
  have hf' : Forest (s.blocks.set b.stableBlockId b').keySet
      (parentMap (s.blocks.set b.stableBlockId b')) := by
    rw [Dict.keySet_set, parentMap_set]
    exact h.forest.insert hid hpar
  obtain ⟨F, counts, hrun, ht⟩ := insertFreeable_spec (b := b') (s := { s with
    clock := s.clock + 1, blocks := s.blocks.set b.stableBlockId b', backend := t' })
    h.forest hnew hpar rfl hf' h.tracks
  -- The parent is read after the insertion, where it is still the old block.
  have hpb : parentBlocked (s.blocks.set b.stableBlockId b') b' = parentBlocked s.blocks b' := by
    unfold parentBlocked
    cases hp : b'.parentBlockId with
    | none => rfl
    | some p =>
      have hne : p ≠ b.stableBlockId := fun e => hid (e ▸ hpar p hp)
      simp only [Option.all_some, get?_set_ne _ _ hne]
  refine ⟨_, ?_, h.insert (b := b') hnew hadm' ht' hm' ht (s.clock + 1) (s.committedBlocks + 1)
    (s.epochs.markInserted !(b'.locallyBlocked && parentBlocked s.blocks b')), hnew, hadm', rfl, rfl,
    ⟨fun v => by cases v <;> rfl, rfl⟩⟩
  simp only [storeNewBlock, bind_run, tick_run, modify_run, zoom, htrun, ← hb']
  rw [hrun]
  simp only [get_run, lift_run, pure_run]
  rw [show b'.stableBlockId = b.stableBlockId from rfl, hmrun]
  simp only [hpb]

theorem insertBlock_spec (h : WellFormed s) (b : PrefixCacheBlock ι π) :
    wp (insertBlock cfg b)
      (fun r s' =>
        (∃ old n, s.blocks.get? b.stableBlockId = some old ∧ r = { old with lastAccess := n } ∧
          Steps s s' ∧ s'.blocks = s.blocks.set b.stableBlockId r) ∨
        (∃ n, r = { b with lastAccess := n } ∧ InsertStep s r s'))
      (fun _ s' => Unchanged s s' ∧ (b.residency.validate = .ok () →
        s.blocks.get? b.stableBlockId = none ∧ (Full cfg s ∨ ¬ Admissible s.blocks b))) s := by
  simp only [insertBlock, wp_bind, wp_get, wp_lift]
  cases hold : s.blocks.get? b.stableBlockId with
  | some old =>
    -- The existing block answers; a stale object with an invalid residency is refused.
    have hderef : (s.deref b).stableBlockId = b.stableBlockId := by
      simp only [deref, hold]
      split
      · exact h.ids _ old hold
      · rfl
    cases hv : (s.deref b).residency.validate with
    | error e =>
      refine ⟨.refl s, fun hb => ?_⟩
      simp only [deref, hold] at hv
      split at hv
      · rw [h.residency.valid _ old hold] at hv; cases hv
      · rw [hb] at hv; cases hv
    | ok _ =>
      simp only [hderef, hold, wp_bind, wp_of_ok tick_run, wp_modify, wp_pure]
      have hid : SameIdentity old { old with lastAccess := s.clock + 1 } := ⟨rfl, rfl, rfl, rfl, rfl⟩
      rw [(h.withClock (s.clock + 1)).assign_eq hold hid]
      exact Or.inl ⟨old, s.clock + 1, rfl, rfl,
        .single (Step.quiet_set h hold hid ⟨⟨.rfl, .rfl, rfl⟩, rfl⟩ _ _), rfl⟩
  | none =>
    have hderef : s.deref b = b := by simp [deref, hold]
    rw [hderef]
    cases hv : b.residency.validate with
    | error e => exact ⟨.refl s, fun hb => by cases hb⟩
    | ok _ =>
      simp only [hold, wp_ite]
      split
      · next hfull =>
        have hfull : Full cfg s := by
          simpa [Full, Option.any_eq_true] using hfull
        simp only [wp_bind, wp_raise]
        refine wp_mono (evictableBlockIds_spec h) ?_ fun _ _ he => he.elim
        rintro F s' ⟨-, hs'⟩
        exact ⟨hs', fun _ => ⟨trivial, Or.inl hfull⟩⟩
      · simp only [wp_bind]
        refine wp_mono (checkInsertParent_spec hv) ?_ ?_
        · rintro - s' ⟨rfl, hadm⟩
          obtain ⟨s'', hrun, hstep⟩ := storeNewBlock_spec h hold hadm
          rw [wp_of_ok hrun]
          exact Or.inr ⟨_, rfl, hstep⟩
        · rintro e s' ⟨rfl, hno⟩
          exact ⟨.refl s', fun _ => ⟨trivial, Or.inr hno⟩⟩

theorem insertBlock_new (h : WellFormed s) {b : PrefixCacheBlock ι π}
    (hnew : s.blocks.get? b.stableBlockId = none) (hv : b.residency.validate = .ok ())
    (hroom : ¬ Full cfg s) :
    wp (insertBlock cfg b)
      (fun r s' => ∃ n, r = { b with lastAccess := n } ∧ InsertStep s r s')
      (fun _ s' => s' = s ∧ ¬ Admissible s.blocks b) s := by
  have hderef : s.deref b = b := by simp [deref, hnew]
  have hnot : cfg.maxBlocks.any (· ≤ s.blocks.size) = false := by
    by_contra hany
    exact hroom (by simpa [Full, Option.any_eq_true] using hany)
  simp only [insertBlock, wp_bind, wp_get, wp_lift, hderef, hv, hnew, hnot, wp_ite]
  refine wp_mono (checkInsertParent_spec hv) ?_ fun _ _ he => he
  rintro - s' ⟨rfl, hadm⟩
  obtain ⟨s'', hrun, hstep⟩ := storeNewBlock_spec h hnew hadm
  rw [wp_of_ok hrun]
  exact ⟨_, rfl, hstep⟩

theorem insertBlock_unlimited {cfg cfg' : PrefixIndexConfig ι} (b : PrefixCacheBlock ι π)
    (hroom : ¬ Full cfg s) (hroom' : ¬ Full cfg' s) : insertBlock cfg b s = insertBlock cfg' b s := by
  have hnot : ∀ c : PrefixIndexConfig ι, ¬ Full c s →
      c.maxBlocks.any (· ≤ s.blocks.size) = false := by
    intro c hc
    by_contra hany
    exact hc (by simpa [Full, Option.any_eq_true] using hany)
  unfold insertBlock
  simp only [PyM.bind_run, PyM.get_run, hnot cfg hroom, hnot cfg' hroom']

end

end SparseEngine.RadixPrefixIndex
