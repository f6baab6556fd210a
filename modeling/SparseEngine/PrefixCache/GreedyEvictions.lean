import SparseEngine.PrefixCache.Reclaim

/-! `evict_until_weight`, `evict_host_until_weight` and `demote_device_until_weight` fill a heap
once and push a parent when its last child goes. -/

namespace SparseEngine.RadixPrefixIndex

open PyM

variable {ι π : Type} [LinearOrder ι]

theorem evictionPolicy_deterministic
    (can : RadixPrefixIndex ι π → PrefixCacheBlock ι π → Except PyError Bool)
    (weight : PrefixCacheBlock ι π → Int) : (evictionPolicy can weight).Deterministic where
  key := fun _ _ _ ha hb h => candidateOf_inj ha.1 hb.1 h
  take := fun _ _ _ _ h₁ h₂ => congrArg Prod.snd (h₁.symm.trans h₂)

theorem demotionPolicy_deterministic (weight : PrefixCacheBlock ι π → Int) :
    (demotionPolicy (ι := ι) weight).Deterministic where
  key := fun _ _ _ ha hb h => candidateOf_inj ha.1 hb.1 h
  take := fun _ _ _ _ h₁ h₂ => congrArg Prod.snd (h₁.symm.trans h₂)

section

variable {s s' : RadixPrefixIndex ι π} {bs : List (PrefixCacheBlock ι π)}

theorem snoc_split {α : Type} {l pre post : List α} {x b : α} (h : l ++ [x] = pre ++ b :: post) :
    (post = [] ∧ l = pre ∧ x = b) ∨ ∃ post', l = pre ++ b :: post' := by
  rcases List.eq_nil_or_concat post with rfl | ⟨post', last, rfl⟩
  · obtain ⟨h1, h2⟩ := List.append_inj' h rfl
    exact Or.inl ⟨rfl, h1, by simpa using h2⟩
  · rw [List.concat_eq_append, ← List.cons_append, ← List.append_assoc] at h
    exact Or.inr ⟨post', (List.append_inj' h rfl).1⟩

theorem Removals.same (h : Removals s s' bs) {id : ι} (hid : ∀ b ∈ bs, b.stableBlockId ≠ id) :
    s'.blocks.get? id = s.blocks.get? id := by
  induction h with
  | nil => rfl
  | snoc _ _ _ hblocks ih =>
    rw [hblocks, Dict.get?_erase_ne _ (hid _ (by simp)).symm]
    exact ih fun b hb => hid b (List.mem_append_left _ hb)

theorem Removals.gone (h : Removals s s' bs) : ∀ b ∈ bs,
    s.blocks.get? b.stableBlockId = some b ∧ s'.blocks.get? b.stableBlockId = none := by
  induction h with
  | nil => simp
  | @snoc t _ cs c hrun hrem _ hblocks ih =>
    have hne : ∀ b ∈ cs, b.stableBlockId ≠ c.stableBlockId := fun b hb e => by
      have hget := hrem.1
      rw [← e, (ih b hb).2] at hget
      cases hget
    rintro b hb
    rcases List.mem_append.mp hb with hb | hb
    · exact ⟨(ih b hb).1, by rw [hblocks, Dict.get?_erase_ne _ (hne b hb), (ih b hb).2]⟩
    · rw [List.mem_singleton.mp hb]
      exact ⟨by rw [← hrun.same hne]; exact hrem.1, by rw [hblocks, Dict.get?_erase_self]⟩

theorem Removals.nodup (h : Removals s s' bs) : (bs.map (·.stableBlockId)).Nodup := by
  induction h with
  | nil => exact List.nodup_nil
  | snoc hrun hrem _ _ ih =>
    rw [List.map_append, List.map_singleton]
    refine List.nodup_append.mpr ⟨ih, by simp, fun x hx y hy => ?_⟩
    obtain ⟨b, hb, rfl⟩ := List.mem_map.mp hx
    rw [List.mem_singleton.mp hy]
    intro e
    have := (hrun.gone b hb).2
    rw [e, hrem.1] at this
    cases this

theorem Removals.size (h : Removals s s' bs) : s'.blocks.size + bs.length = s.blocks.size := by
  induction h with
  | nil => rfl
  | snoc _ hrem _ hblocks ih =>
    have := Dict.size_erase hrem.1
    rw [hblocks, List.length_append, List.length_singleton]
    omega

theorem Removals.childrenFirst (h : Removals s s' bs) {pre post : List (PrefixCacheBlock ι π)}
    {b : PrefixCacheBlock ι π} (hbs : bs = pre ++ b :: post) {c : ι}
    (hc : parentMap s.blocks c = some (some b.stableBlockId)) : ∃ a ∈ pre, a.stableBlockId = c := by
  induction h generalizing post with
  | nil => simp at hbs
  | snoc hrun hrem _ _ ih =>
    rcases snoc_split hbs with ⟨-, rfl, rfl⟩ | ⟨post', rfl⟩
    · by_contra hno
      push Not at hno
      refine hrem.2.2 c ?_
      rw [← hc, parentMap, parentMap, hrun.same hno]
    · exact ih rfl

theorem Demotions.same (h : Demotions s s' bs) {id : ι} (hid : ∀ b ∈ bs, b.stableBlockId ≠ id) :
    s'.blocks.get? id = s.blocks.get? id := by
  induction h with
  | nil => rfl
  | snoc _ _ _ _ _ hblocks ih =>
    rw [hblocks, Dict.get?_set_ne _ _ (hid _ (by simp)).symm]
    exact ih fun b hb => hid b (List.mem_append_left _ hb)

theorem Demotions.gone (h : Demotions s s' bs) : ∀ b ∈ bs,
    s.blocks.get? b.stableBlockId = some b ∧ DemotableNow b ∧
      s'.blocks.get? b.stableBlockId = some (demoted b) := by
  induction h with
  | nil => simp
  | @snoc t _ cs c hrun hget hnow _ _ hblocks ih =>
    have hne : ∀ b ∈ cs, b.stableBlockId ≠ c.stableBlockId := fun b hb e => by
      have h2 := (ih b hb).2.2
      rw [e, hget] at h2
      have h3 := hnow.2.1
      rw [Option.some.inj h2] at h3
      simp [demoted] at h3
    rintro b hb
    rcases List.mem_append.mp hb with hb | hb
    · obtain ⟨h1, h2, h3⟩ := ih b hb
      exact ⟨h1, h2, by rw [hblocks, Dict.get?_set_ne _ _ (hne b hb), h3]⟩
    · rw [List.mem_singleton.mp hb]
      exact ⟨by rw [← hrun.same hne]; exact hget, hnow, by rw [hblocks, Dict.get?_set_self]⟩

theorem Demotions.childrenFirst (h : Demotions s s' bs) {pre post : List (PrefixCacheBlock ι π)}
    {b cb : PrefixCacheBlock ι π} (hbs : bs = pre ++ b :: post) {c : ι}
    (hc : s.blocks.get? c = some cb) (hp : cb.parentBlockId = some b.stableBlockId)
    (hd : cb.residency.devicePresent = true) : ∃ a ∈ pre, a.stableBlockId = c := by
  induction h generalizing post with
  | nil => simp at hbs
  | snoc hrun _ _ hleaf _ _ ih =>
    rcases snoc_split hbs with ⟨-, rfl, rfl⟩ | ⟨post', rfl⟩
    · by_contra hno
      push Not at hno
      have := hleaf c cb (by rw [hrun.same hno, hc]) hp
      rw [hd] at this
      cases this
    · exact ih rfl

def HostFreeable (s : RadixPrefixIndex ι π) (id : ι) : Prop :=
  Freeable s id ∧ ∃ b, s.blocks.get? id = some b ∧ b.residency.devicePresent = false ∧
    b.residency.hostPresent = true

theorem not_hostFreeable_of_no_leaf (h : WellFormed s)
    (hno : ∀ id b, s.blocks.get? id = some b → HostEvictable b → ¬ Leaf s id) (id : ι) :
    ¬ HostFreeable s id := by
  have key : ∀ x ∈ s.blocks.keySet, ∀ b, s.blocks.get? x = some b →
      b.residency.devicePresent = false →
      ¬ Clear (parentMap s.blocks) (LocallyFree s.blocks) x := by
    refine h.forest.child_induction fun x _ ih b hb hdev hclear => ?_
    obtain ⟨b', hb', hfree⟩ := hclear.self
    rw [hb] at hb'
    cases hb'
    have hhost : b.residency.hostPresent = true := by
      have := (validate_iff _).mp (h.residency.valid x b hb)
      simp [hdev] at this
      exact this.1
    refine hno x b hb ⟨hfree, hdev, hhost⟩ fun c hc => ?_
    obtain ⟨cb, hcb, hcp⟩ := parentMap_eq.mp hc
    refine ih c hc cb hcb ?_ (hclear.child hc)
    by_contra hcd
    have := h.residency.device c cb x b hcb hcp hb (by simpa using hcd)
    rw [hdev] at this
    cases this
  rintro ⟨hfree, b, hb, hdev, -⟩
  exact key id hfree.1 b hb hdev hfree.2

theorem hostFreeable_taken (h : WellFormed s) (hrem : Removals s s' bs)
    (hP : ∀ b ∈ bs, HostEvictable b)
    (hno : ∀ id b, s'.blocks.get? id = some b → HostEvictable b → ¬ Leaf s' id) (id : ι) :
    (∃ b ∈ bs, b.stableBlockId = id) ↔ HostFreeable s id := by
  constructor
  · rintro ⟨b, hb, rfl⟩
    exact ⟨(freeable_removals h hrem _).mpr (Or.inr ⟨b, hb, rfl⟩), b, (hrem.gone b hb).1,
      (hP b hb).2⟩
  · rintro ⟨hfree, b, hb, hdev⟩
    by_contra hid
    push Not at hid
    have hfree' := ((freeable_removals h hrem id).mp hfree).resolve_right (by simpa using hid)
    exact not_hostFreeable_of_no_leaf (hrem.steps.wf h) hno id
      ⟨hfree', b, by rw [hrem.same hid, hb], hdev⟩

theorem demotable_taken (hdem : Demotions s s' bs)
    (hno : ∀ id b, s'.blocks.get? id = some b → DemotableNow b → ¬ DeviceLeaf s' id) (id : ι) :
    (∃ b ∈ bs, b.stableBlockId = id) ↔ Demotable false s.blocks id := by
  constructor
  · rintro ⟨b, hb, rfl⟩
    clear hno
    induction hdem generalizing b with
    | nil => simp at hb
    | @snoc t _ cs c hrun hget hnow hleaf _ _ ih =>
      rcases List.mem_append.mp hb with hb | hb
      · exact ih b hb
      · rw [List.mem_singleton.mp hb]
        have hnot : ∀ a ∈ cs, a.stableBlockId ≠ c.stableBlockId := fun a ha e => by
          have h2 := (hrun.gone a ha).2.2
          rw [e, hget] at h2
          have h3 := hnow.2.1
          rw [Option.some.inj h2] at h3
          simp [demoted] at h3
        refine .demote (by rw [← hrun.same hnot]; exact hget) ?_ fun x xb hx hxp hxd => ?_
        · obtain ⟨h1, h2, h3⟩ := locallyBlocked_eq_false.mp hnow.1
          simp [PrefixCacheBlock.locallyReclaimable, h1, h2, h3, hnow.2.1, hnow.2.2]
        · by_contra hxno
          have hxcs : ∀ a ∈ cs, a.stableBlockId ≠ x := fun a ha e => hxno (e ▸ ih a ha)
          have := hleaf x xb (by rw [hrun.same hxcs, hx]) hxp
          rw [hxd] at this
          cases this
  · intro hid
    induction hid with
    | @demote x b hb hloc _ ih =>
      by_contra hno'
      push Not at hno'
      have hb' : s'.blocks.get? x = some b := by rw [hdem.same hno', hb]
      have hnow : DemotableNow b := by
        simp [PrefixCacheBlock.locallyReclaimable] at hloc
        obtain ⟨⟨⟨h1, h2⟩, h3⟩, h4, h5⟩ := hloc
        exact ⟨locallyBlocked_eq_false.mpr ⟨h1, h2, h5⟩, h3, h4⟩
      refine hno x b hb' hnow fun c cb hc hcp => ?_
      by_contra hcd
      have hcd : cb.residency.devicePresent = true := by simpa using hcd
      by_cases hcs : ∀ a ∈ bs, a.stableBlockId ≠ c
      · obtain ⟨a, ha, hac⟩ := ih c cb (by rw [← hdem.same hcs, hc]) hcp hcd
        exact hcs a ha hac
      · push Not at hcs
        obtain ⟨a, ha, rfl⟩ := hcs
        rw [(hdem.gone a ha).2.2] at hc
        cases hc
        simp [demoted] at hcd

end

/-- The call is a run of the greedy policy, and the only one. -/
structure GreedyOutcome (s : RadixPrefixIndex ι π) (needed : Int)
    (call : IndexM ι π (List (PrefixCacheBlock ι π)))
    (shown : PrefixCacheBlock ι π → PrefixCacheBlock ι π)
    (p : GreedyPolicy (RadixPrefixIndex ι π) (PrefixCacheBlock ι π) (EvictionCandidate ι))
    (child : ι → ι → Prop) (all : ι → Prop) : Prop where
  returns : ∃ bs s', call s = (.ok (bs.map shown), s') ∧ GreedyRun p needed 0 s bs s'
  only : ∀ bs s', GreedyRun p needed 0 s bs s' → call s = (.ok (bs.map shown), s')
  childrenFirst : ∀ bs s', GreedyRun p needed 0 s bs s' → ∀ pre b post, bs = pre ++ b :: post →
    ∀ c, child c b.stableBlockId → ∃ a ∈ pre, a.stableBlockId = c
  all_of_short : ∀ bs s', GreedyRun p needed 0 s bs s' → (bs.map p.weight).sum < needed →
    ∀ id, (∃ b ∈ bs, b.stableBlockId = id) ↔ all id

theorem GreedyOutcome.of_run {s : RadixPrefixIndex ι π} {needed : Int}
    {call : IndexM ι π (List (PrefixCacheBlock ι π))}
    {shown : PrefixCacheBlock ι π → PrefixCacheBlock ι π}
    {p : GreedyPolicy (RadixPrefixIndex ι π) (PrefixCacheBlock ι π) (EvictionCandidate ι)}
    {child : ι → ι → Prop} {all : ι → Prop} (hp : p.Deterministic)
    {bs : List (PrefixCacheBlock ι π)} {s' : RadixPrefixIndex ι π}
    (hcall : call s = (.ok (bs.map shown), s')) (hrun : GreedyRun p needed 0 s bs s')
    (hfirst : ∀ pre b post, bs = pre ++ b :: post → ∀ c, child c b.stableBlockId →
      ∃ a ∈ pre, a.stableBlockId = c)
    (hall : (bs.map p.weight).sum < needed → ∀ id, (∃ b ∈ bs, b.stableBlockId = id) ↔ all id) :
    GreedyOutcome s needed call shown p child all where
  returns := ⟨bs, s', hcall, hrun⟩
  only := fun _ _ h => by
    obtain ⟨rfl, rfl⟩ := hrun.unique hp h
    exact hcall
  childrenFirst := fun _ _ h => by
    obtain ⟨rfl, rfl⟩ := hrun.unique hp h
    exact hfirst
  all_of_short := fun _ _ h => by
    obtain ⟨rfl, rfl⟩ := hrun.unique hp h
    exact hall

section

variable {s : RadixPrefixIndex ι π} {needed : Int} {weight : PrefixCacheBlock ι π → Int}

theorem evictUntilWeight_follows (h : WellFormed s) (hw : ∀ b, 0 ≤ weight b) :
    GreedyOutcome s needed (evictUntilWeight needed weight) id (evictionPolicy canEvict weight)
      (fun c x => parentMap s.blocks c = some (some x)) (Freeable s) := by
  obtain ⟨bs, s', hcall, hres, hrun⟩ := exists_of_wp <| wp_mono
    (evictLeavesUntilWeight_greedy "Prefix cache eviction weight must be non-negative"
      canSpec_canEvict h) (fun _ _ hs => hs)
    fun _ _ ⟨_, _, _, b, _, hneg⟩ => absurd hneg (not_lt.mpr (hw b))
  refine .of_run (evictionPolicy_deterministic _ _) (by rw [List.map_id]; exact hcall) hrun
    (fun pre b post hbs c hc => hres.removals.childrenFirst hbs hc) fun hshort id => ?_
  have hno := hres.enough.resolve_left (not_le.mpr hshort)
  rw [freeable_removals h hres.removals]
  exact (or_iff_right (not_freeable_of_no_leaf (hres.removals.steps.wf h) hno id)).symm

theorem evictHostUntilWeight_follows (h : WellFormed s) (hw : ∀ b, 0 ≤ weight b) :
    GreedyOutcome s needed (evictHostUntilWeight needed weight) id
      (evictionPolicy canEvictHost weight)
      (fun c x => parentMap s.blocks c = some (some x)) (HostFreeable s) := by
  obtain ⟨bs, s', hcall, hres, hrun⟩ := exists_of_wp <| wp_mono
    (evictLeavesUntilWeight_greedy "Prefix cache host eviction weight must be non-negative"
      canSpec_canEvictHost h) (fun _ _ hs => hs)
    fun _ _ ⟨_, _, _, b, _, hneg⟩ => absurd hneg (not_lt.mpr (hw b))
  refine .of_run (evictionPolicy_deterministic _ _) (by rw [List.map_id]; exact hcall) hrun
    (fun pre b post hbs c hc => hres.removals.childrenFirst hbs hc) fun hshort id => ?_
  exact hostFreeable_taken h hres.removals (fun b hb => (hres.evictable b hb).1)
    (hres.enough.resolve_left (not_le.mpr hshort)) id

theorem demoteDeviceUntilWeight_follows (h : WellFormed s) (hw : ∀ b, 0 ≤ weight b) :
    GreedyOutcome s needed (demoteDeviceUntilWeight needed weight) demoted (demotionPolicy weight)
      (fun c x => ∃ cb, s.blocks.get? c = some cb ∧ cb.parentBlockId = some x ∧
        cb.residency.devicePresent = true) (Demotable false s.blocks) := by
  obtain ⟨_, s', hcall, bs, rfl, hres, hrun⟩ := exists_of_wp <| wp_mono
    (demoteDeviceUntilWeight_greedy h needed weight) (fun _ _ hs => hs)
    fun _ _ ⟨_, _, _, b, _, hneg⟩ => absurd hneg (not_lt.mpr (hw b))
  exact .of_run (demotionPolicy_deterministic _) hcall hrun
    (fun pre b post hbs c ⟨cb, hc, hp, hd⟩ => hres.demotions.childrenFirst hbs hc hp hd)
    fun hshort => demotable_taken hres.demotions (hres.enough.resolve_left (not_le.mpr hshort))

end

/-- In every reachable index and for weights that are not negative, the three heap loops are the
greedy policy on the current state. -/
theorem greedy_evictions {cfg : PrefixIndexConfig ι} {s : RadixPrefixIndex ι π}
    (h : Reachable cfg s) (needed : Int) {weight : PrefixCacheBlock ι π → Int}
    (hw : ∀ b, 0 ≤ weight b) :
    ∃ F D, (freeableBlockIds s).1 = .ok F ∧ (deviceFreeableBlockIds s).1 = .ok D ∧
      GreedyOutcome s needed (evictUntilWeight needed weight) id (evictionPolicy canEvict weight)
        (fun c x => parentMap s.blocks c = some (some x)) (· ∈ F) ∧
      GreedyOutcome s needed (evictHostUntilWeight needed weight) id
        (evictionPolicy canEvictHost weight) (fun c x => parentMap s.blocks c = some (some x))
        (fun id => id ∈ F ∧ ∃ b, s.blocks.get? id = some b ∧ b.residency.devicePresent = false ∧
          b.residency.hostPresent = true) ∧
      GreedyOutcome s needed (demoteDeviceUntilWeight needed weight) demoted (demotionPolicy weight)
        (fun c x => ∃ cb, s.blocks.get? c = some cb ∧ cb.parentBlockId = some x ∧
          cb.residency.devicePresent = true) (· ∈ D) := by
  obtain ⟨F, hF, hFmem⟩ := query_eq (h.fresh (v := .freeable) (by simp)) (freeableBlockIds_spec h.wf)
  obtain ⟨D, hD, -, hDmem⟩ := reachable_deviceFreeable h
  have hFeq : (· ∈ F) = Freeable s := funext fun id => propext (hFmem id)
  have hDeq : (· ∈ D) = Demotable false s.blocks := funext fun id => propext (hDmem id)
  refine ⟨F, D, hF, hD, ?_, ?_, ?_⟩
  · rw [hFeq]
    exact evictUntilWeight_follows h.wf hw
  · have hHost : (fun id => id ∈ F ∧ ∃ b, s.blocks.get? id = some b ∧
        b.residency.devicePresent = false ∧ b.residency.hostPresent = true) = HostFreeable s :=
      funext fun id => propext (and_congr_left fun _ => hFmem id)
    rw [hHost]
    exact evictHostUntilWeight_follows h.wf hw
  · rw [hDeq]
    exact demoteDeviceUntilWeight_follows h.wf hw

/-- The demo chain with the reference on its child given back. -/
theorem greedy_evictions_demo : ∃ s : RadixPrefixIndex Nat Unit,
    s = runAll demoConfig [.insertBlock demoRoot, .insertBlock demoChild,
      .releaseBlockRef demoChild] ∧ s.blocks.size = 2 ∧
    GreedyOutcome s 2 (evictUntilWeight 2 fun _ => 1) id (evictionPolicy canEvict fun _ => 1)
      (fun c x => parentMap s.blocks c = some (some x)) (· ∈ ({0, 1} : Finset Nat)) := by
  refine ⟨_, rfl, by decide, ?_⟩
  obtain ⟨F, D, hF, -, hevict, -⟩ := greedy_evictions
    (reachable_runAll demoConfig [.insertBlock demoRoot, .insertBlock demoChild,
      .releaseBlockRef demoChild]) 2 (fun _ => Int.one_nonneg)
  have hFval : F = {0, 1} := by
    refine Except.ok.inj (hF.symm.trans ?_)
    decide
  exact hFval ▸ hevict

end SparseEngine.RadixPrefixIndex
