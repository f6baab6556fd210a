import SparseEngine.PrefixCache.Runs

/-! `Freeable s id` is what `freeable_block_ids` computes. -/

namespace SparseEngine.RadixPrefixIndex

open PyM

variable {ι π : Type} [LinearOrder ι] {s s' : RadixPrefixIndex ι π} {id : ι}
  {b : PrefixCacheBlock ι π} {bs : List (PrefixCacheBlock ι π)}

/-- Nothing in the subtree of `id` is blocked. -/
abbrev Freeable (s : RadixPrefixIndex ι π) (id : ι) : Prop := View.freeable.Contains s.blocks id

theorem freeable_iff_of_fixpoint (h : WellFormed s) {F : ι → Prop}
    (hF : ∀ id ∈ s.blocks.keySet, F id ↔ LocallyFree s.blocks id ∧
      ∀ c, parentMap s.blocks c = some (some id) → F c)
    (hid : id ∈ s.blocks.keySet) : F id ↔ Freeable s id := by
  rw [clear_iff_of_fixpoint h.forest hF id hid]
  exact (and_iff_right hid).symm

theorem freeable_remove (h : WellFormed s) (hrem : Removable s b.stableBlockId b)
    (hs' : s'.blocks = s.blocks.erase b.stableBlockId) (id : ι) :
    Freeable s id ↔ Freeable s' id ∨ b.stableBlockId = id := by
  have hne : ∀ {x}, x ≠ b.stableBlockId → s'.blocks.get? x = s.blocks.get? x := fun hx => by
    rw [hs', Dict.get?_erase_ne _ hx]
  have hmem : ∀ {x}, x ≠ b.stableBlockId → (x ∈ s'.blocks.keySet ↔ x ∈ s.blocks.keySet) :=
    fun hx => by rw [Dict.mem_keySet, Dict.mem_keySet, hne hx]
  have hpar : ∀ x, parentMap s'.blocks x =
      if x = b.stableBlockId then none else parentMap s.blocks x := fun x => by
    rw [hs', parentMap_erase]
    simp [Function.update_apply]
  by_cases hid : id ∈ s.blocks.keySet
  · refine (freeable_iff_of_fixpoint h (F := fun x => Freeable s' x ∨ b.stableBlockId = x)
      (fun x hx => ?_) hid).symm
    by_cases hxb : x = b.stableBlockId
    · subst hxb
      refine ⟨fun _ => ⟨⟨b, hrem.1, hrem.2.1⟩, fun c hc => absurd hc (hrem.2.2 c)⟩,
        fun _ => Or.inr rfl⟩
    · have hbx : b.stableBlockId ≠ x := fun he => hxb he.symm
      have hfree : LocallyFree s'.blocks x ↔ LocallyFree s.blocks x := by
        rw [LocallyFree, LocallyFree, hne hxb]
      rw [or_iff_left hbx, Freeable, View.Contains, and_iff_right ((hmem hxb).mpr hx), clear_step,
        hfree]
      refine and_congr_right fun _ => forall_congr' fun c => ?_
      rw [hpar]
      by_cases hcb : c = b.stableBlockId
      · subst hcb
        simp
      · rw [if_neg hcb]
        refine forall_congr' fun hc => ?_
        have hck : c ∈ s'.blocks.keySet := (hmem hcb).mpr (h.forest.mem_of_parent hc)
        rw [or_iff_left fun he => hcb he.symm, Freeable, View.Contains, and_iff_right hck]
  · have hidb : b.stableBlockId ≠ id := fun he =>
      hid (he ▸ Dict.mem_keySet.mpr ⟨b, hrem.1⟩)
    have hid' : id ∉ s'.blocks.keySet := fun hk => hid ((hmem fun he => hidb he.symm).mp hk)
    exact ⟨fun hf => absurd hf.1 hid, fun hf => hf.elim (fun hf => absurd hf.1 hid')
      fun he => absurd he hidb⟩

theorem freeable_removals (h : WellFormed s) (hrem : Removals s s' bs) (id : ι) :
    Freeable s id ↔ Freeable s' id ∨ ∃ b ∈ bs, b.stableBlockId = id := by
  induction hrem with
  | nil => simp
  | snoc hrun hrem hstep hblocks ih =>
    rw [ih, freeable_remove (hrun.steps.wf h) hrem hblocks]
    simp only [List.mem_append, List.mem_singleton, or_and_right, exists_or, exists_eq_left]
    exact or_assoc.trans (or_congr_right or_comm)

theorem not_freeable_of_no_leaf (h : WellFormed s)
    (hno : ∀ id b, s.blocks.get? id = some b → b.locallyBlocked = false → ¬ Leaf s id) (id : ι) :
    ¬ Freeable s id := by
  have key : ∀ x ∈ s.blocks.keySet, ¬ Clear (parentMap s.blocks) (LocallyFree s.blocks) x := by
    refine h.forest.child_induction fun x _ ih hclear => ?_
    obtain ⟨b, hb, hfree⟩ := hclear.self
    refine hno x b hb hfree fun c hc => ih c hc (hclear.child hc)
  exact fun hf => key id hf.1 hf.2

end SparseEngine.RadixPrefixIndex
