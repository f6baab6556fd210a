import SparseEngine.PrefixCache.Mutators
import SparseEngine.Lib.Greedy

/-! The mutators that work on many blocks, in terms of the single steps of `Mutators`. -/

namespace SparseEngine.RadixPrefixIndex

open PyM List Function Finset Dict

variable {ι π : Type} [LinearOrder ι]

section

variable {blocks : Dict ι (PrefixCacheBlock ι π)} {heap : List (EvictionCandidate ι)}
  {queued : Finset ι} {id : ι}

/-- `id` is waiting in the heap. -/
def Waiting (heap : List (EvictionCandidate ι)) (id : ι) : Prop := ∃ c ∈ heap, candidateId c = id

omit [LinearOrder ι] in
@[simp] theorem candidateId_candidateOf (b : PrefixCacheBlock ι π) :
    candidateId (candidateOf b) = b.stableBlockId := rfl

theorem candidateOf_inj {blocks : Dict ι (PrefixCacheBlock ι π)} {a b : PrefixCacheBlock ι π}
    (ha : blocks.get? a.stableBlockId = some a) (hb : blocks.get? b.stableBlockId = some b)
    (h : candidateOf a = candidateOf b) : a = b := by
  have hid : a.stableBlockId = b.stableBlockId := by
    simpa using congrArg candidateId h
  rw [hid, hb] at ha
  exact (Option.some.inj ha).symm

/-- The keys of the blocks in `B`. -/
def Keys (B : PrefixCacheBlock ι π → Prop) (k : EvictionCandidate ι) : Prop :=
  ∃ b, B b ∧ candidateOf b = k

variable {can : PrefixCacheBlock ι π → Except PyError Bool}

theorem queueIf_queue {old new : PrefixCacheBlock ι π → Prop}
    (hids : ∀ id b, blocks.get? id = some b → b.stableBlockId = id)
    (hcan : ∀ id b, blocks.get? id = some b → ∃ v, can b = .ok v)
    (hheap : Queue (Keys old) heap) (hq : ∀ x ∈ queued, Waiting heap x) (target : Option ι)
    (hnot : ∀ b, old b → target ≠ some b.stableBlockId)
    (hnew : ∀ b, new b ↔ old b ∨ (target = some b.stableBlockId ∧
      blocks.get? b.stableBlockId = some b ∧ can b = .ok true)) :
    ∃ heap' queued', queueIf can blocks heapPush target heap queued = .ok (heap', queued') ∧
      Queue (Keys new) heap' ∧ ∀ x ∈ queued', Waiting heap' x := by
  -- When nothing is pushed, nothing became a candidate.
  have hsame : (∀ b, target = some b.stableBlockId → blocks.get? b.stableBlockId = some b →
      can b ≠ .ok true) → Queue (Keys new) heap := fun hno => by
    refine hheap.congr fun k => exists_congr fun b => and_congr_left fun _ => ?_
    rw [hnew]
    exact (or_iff_left fun hb => hno b hb.1 hb.2.1 hb.2.2).symm
  cases target with
  | none => exact ⟨heap, queued, rfl, hsame fun b hb => by simp at hb, hq⟩
  | some id =>
    have hid : id ∉ queued := fun hid => by
      obtain ⟨c, hc, rfl⟩ := hq id hid
      obtain ⟨b, hb, rfl⟩ := (hheap.mem c).mp hc
      exact hnot b hb (by simp)
    cases hb : blocks.get? id with
    | none =>
      refine ⟨heap, queued, by simp [queueIf, hid, hb], hsame fun b hbid hget => ?_, hq⟩
      rw [← Option.some.inj hbid, hb] at hget
      cases hget
    | some b =>
      obtain ⟨v, hv⟩ := hcan id b hb
      obtain rfl : b.stableBlockId = id := hids id b hb
      cases v with
      | false =>
        refine ⟨heap, queued, by
          simp [queueIf, hid, hb, hv, bind, Except.bind, pure, Except.pure],
          hsame fun b' hbid hget hc => ?_, hq⟩
        rw [← Option.some.inj hbid, hb] at hget
        cases hget
        rw [hv] at hc
        cases hc
      | true =>
        have hfresh : ¬ Keys old (candidateOf b) := by
          rintro ⟨b', hb', hkey⟩
          refine hnot b' hb' (congrArg some ?_)
          simpa using (congrArg candidateId hkey).symm
        refine ⟨heapPush heap (candidateOf b), insert b.stableBlockId queued, by
          simp [queueIf, hid, hb, hv, bind, Except.bind, pure, Except.pure],
          (hheap.push hfresh).congr fun k => ?_, fun x hx => ?_⟩
        · constructor
          · rintro (rfl | ⟨b', hb', rfl⟩)
            · exact ⟨b, (hnew b).mpr (Or.inr ⟨rfl, hb, hv⟩), rfl⟩
            · exact ⟨b', (hnew b').mpr (Or.inl hb'), rfl⟩
          · rintro ⟨b', hb', rfl⟩
            rcases (hnew b').mp hb' with hb' | ⟨hbid, hget, -⟩
            · exact Or.inr ⟨b', hb', rfl⟩
            · rw [← Option.some.inj hbid, hb] at hget
              cases hget
              exact Or.inl rfl
        · rcases Finset.mem_insert.mp hx with rfl | hx
          · exact ⟨candidateOf b, (mem_orderedInsert _).mpr (Or.inl rfl), rfl⟩
          · obtain ⟨c, hc, hcx⟩ := hq x hx
            exact ⟨c, (mem_orderedInsert _).mpr (Or.inr hc), hcx⟩

theorem queueAll_keys (hids : ∀ id b, blocks.get? id = some b → b.stableBlockId = id)
    (hcan : ∀ id b, blocks.get? id = some b → ∃ v, can b = .ok v) (targets : List ι)
    (heap : List (EvictionCandidate ι)) (queued : Finset ι) (hnd : targets.Nodup)
    (hheap : heap.Nodup) (hq : ∀ x, x ∈ queued ↔ Waiting heap x)
    (hnew : ∀ x ∈ targets, x ∉ queued) :
    ∃ heap' queued', targets.foldlM
        (fun hq blockId => queueIf can blocks (fun heap c => heap ++ [c]) (some blockId) hq.1 hq.2)
        (heap, queued) = .ok (heap', queued') ∧ heap'.Nodup ∧
      (∀ c, c ∈ heap' ↔ c ∈ heap ∨ ∃ x b, x ∈ targets ∧ blocks.get? x = some b ∧
        can b = .ok true ∧ candidateOf b = c) ∧ ∀ x ∈ queued', Waiting heap' x := by
  induction targets generalizing heap queued with
  | nil => exact ⟨heap, queued, rfl, hheap, by simp, fun x hx => (hq x).mp hx⟩
  | cons t targets ih =>
    have ht : t ∉ queued := hnew t mem_cons_self
    rw [nodup_cons] at hnd
    -- What the pass does after this target, when the target is not pushed.
    have hskip : (∀ b, blocks.get? t = some b → can b ≠ .ok true) →
        queueIf can blocks (fun heap c => heap ++ [c]) (some t) heap queued = .ok (heap, queued) →
        ∃ heap' queued', (t :: targets).foldlM (fun hq blockId =>
          queueIf can blocks (fun heap c => heap ++ [c]) (some blockId) hq.1 hq.2)
          (heap, queued) = .ok (heap', queued') ∧ heap'.Nodup ∧
        (∀ c, c ∈ heap' ↔ c ∈ heap ∨ ∃ x b, x ∈ t :: targets ∧ blocks.get? x = some b ∧
          can b = .ok true ∧ candidateOf b = c) ∧ ∀ x ∈ queued', Waiting heap' x := by
      intro hno hrun₁
      obtain ⟨heap', queued', hrun, hnd', hmem, hq'⟩ := ih heap queued hnd.2 hheap hq
        fun x hx => hnew x (mem_cons_of_mem t hx)
      refine ⟨heap', queued', by rw [foldlM_cons, hrun₁]; exact hrun, hnd', fun c => ?_, hq'⟩
      rw [hmem]
      refine or_congr_right (exists_congr fun x => exists_congr fun b => ?_)
      constructor
      · exact fun h => ⟨mem_cons_of_mem t h.1, h.2⟩
      · rintro ⟨hx, hb, hc⟩
        rcases mem_cons.mp hx with rfl | hx
        · exact absurd hc.1 (hno b hb)
        · exact ⟨hx, hb, hc⟩
    cases hb : blocks.get? t with
    | none => exact hskip (fun b hb' => by rw [hb] at hb'; cases hb') (by simp [queueIf, ht, hb])
    | some b =>
      obtain ⟨v, hv⟩ := hcan t b hb
      obtain rfl : b.stableBlockId = t := hids t b hb
      cases v with
      | false =>
        refine hskip (fun b' hb' hc => ?_)
          (by simp [queueIf, ht, hb, hv, bind, Except.bind, pure, Except.pure])
        rw [hb] at hb'
        cases hb'
        rw [hv] at hc
        cases hc
      | true =>
        have hfresh : candidateOf b ∉ heap := fun hm => ht ((hq _).mpr ⟨_, hm, rfl⟩)
        obtain ⟨heap', queued', hrun, hnd', hmem, hq'⟩ := ih (heap ++ [candidateOf b])
          (insert b.stableBlockId queued) hnd.2
          (List.nodup_append.mpr ⟨hheap, by simp, fun c hc d hd => by
            rw [List.mem_singleton.mp hd]
            rintro rfl
            exact hfresh hc⟩)
          (fun x => by
            rw [Finset.mem_insert, hq]
            constructor
            · rintro (rfl | ⟨c, hc, hcx⟩)
              · exact ⟨candidateOf b, by simp, rfl⟩
              · exact ⟨c, mem_append_left _ hc, hcx⟩
            · rintro ⟨c, hc, rfl⟩
              rcases List.mem_append.mp hc with hc | hc
              · exact Or.inr ⟨c, hc, rfl⟩
              · rw [List.mem_singleton.mp hc]
                exact Or.inl rfl)
          (fun x hx => by
            rw [Finset.mem_insert, not_or]
            refine ⟨fun e => hnd.1 (e ▸ hx), hnew x (mem_cons_of_mem _ hx)⟩)
        refine ⟨heap', queued', ?_, hnd', fun c => ?_, hq'⟩
        · rw [foldlM_cons]
          simp only [queueIf, ht, hb, hv, bind, Except.bind, pure, Except.pure, if_false, if_true]
          exact hrun
        · rw [hmem, List.mem_append, List.mem_singleton, or_assoc]
          refine or_congr_right ?_
          constructor
          · rintro (rfl | ⟨x, b', hx, hb'⟩)
            · exact ⟨_, b, mem_cons_self, hb, hv, rfl⟩
            · exact ⟨x, b', mem_cons_of_mem _ hx, hb'⟩
          · rintro ⟨x, b', hx, hget, hc⟩
            rcases mem_cons.mp hx with rfl | hx
            · rw [hb] at hget
              cases hget
              exact Or.inl hc.2.symm
            · exact Or.inr ⟨x, b', hx, hget, hc⟩

theorem waiting_erase {b : PrefixCacheBlock ι π} (hq : ∀ x ∈ queued, Waiting (candidateOf b :: heap) x) :
    ∀ x ∈ queued.erase b.stableBlockId, Waiting heap x := by
  intro x hx
  obtain ⟨d, hd, hdx⟩ := hq x (Finset.mem_erase.mp hx).2
  rcases mem_cons.mp hd with rfl | hd
  · exact absurd hdx.symm (Finset.mem_erase.mp hx).1
  · exact ⟨d, hd, hdx⟩

theorem queue_rest {E : PrefixCacheBlock ι π → Prop} {b : PrefixCacheBlock ι π}
    (hE : ∀ x, E x → blocks.get? x.stableBlockId = some x)
    (hb : blocks.get? b.stableBlockId = some b) (hheap : Queue (Keys E) (candidateOf b :: heap)) :
    Queue (Keys fun x => E x ∧ x ≠ b) heap := by
  refine hheap.tail.congr fun k => ⟨?_, ?_⟩
  · rintro ⟨⟨x, hx, rfl⟩, hne⟩
    exact ⟨x, ⟨hx, fun e => hne (congrArg candidateOf e)⟩, rfl⟩
  · rintro ⟨x, ⟨hx, hne⟩, rfl⟩
    exact ⟨⟨x, hx, rfl⟩, fun e => hne (candidateOf_inj (hE x hx) hb e)⟩

theorem waiting_heapify {x : ι} : Waiting (heapify heap) x ↔ Waiting heap x := by
  simp only [Waiting, heapify, mem_insertionSort]

end

def canDemoteDevice (s : RadixPrefixIndex ι π) (block : PrefixCacheBlock ι π) :
    Except PyError Bool := do
  if block.refCount ≠ 0 ∨ block.evictionPriority < 0 ∨ block.residency.devicePresent = false ∨
      block.residency.hostPresent = false ∨ block.residency.transfer.isSome then
    return false
  else
    let children ← s.deviceChildCount block.stableBlockId
    return children = 0

/-- Remove the indexed blocks that pass `can`. -/
def evictionPolicy (can : RadixPrefixIndex ι π → PrefixCacheBlock ι π → Except PyError Bool)
    (weight : PrefixCacheBlock ι π → Int) :
    GreedyPolicy (RadixPrefixIndex ι π) (PrefixCacheBlock ι π) (EvictionCandidate ι) where
  Eligible := fun s b => s.blocks.get? b.stableBlockId = some b ∧ can s b = .ok true
  key := candidateOf
  weight := weight
  Take := fun s b s' => removeBlockFromIndex b.stableBlockId s = (.ok b, s')

/-- Demote the indexed blocks that pass `can_demote_device`. -/
def demotionPolicy (weight : PrefixCacheBlock ι π → Int) :
    GreedyPolicy (RadixPrefixIndex ι π) (PrefixCacheBlock ι π) (EvictionCandidate ι) where
  Eligible := fun s b => s.blocks.get? b.stableBlockId = some b ∧ canDemoteDevice s b = .ok true
  key := candidateOf
  weight := weight
  Take := fun s b s' => demoteDevice b s = (.ok (), s')

/-- `bs` were removed one after the other. -/
inductive Removals (s₀ : RadixPrefixIndex ι π) :
    RadixPrefixIndex ι π → List (PrefixCacheBlock ι π) → Prop
  | nil : Removals s₀ s₀ []
  | snoc {s s' : RadixPrefixIndex ι π} {bs : List (PrefixCacheBlock ι π)}
      {b : PrefixCacheBlock ι π} : Removals s₀ s bs → Removable s b.stableBlockId b → Step s s' →
      s'.blocks = s.blocks.erase b.stableBlockId → Removals s₀ s' (bs ++ [b])

theorem Removals.steps {s₀ s : RadixPrefixIndex ι π} {bs : List (PrefixCacheBlock ι π)}
    (h : Removals s₀ s bs) : Steps s₀ s := by
  induction h with
  | nil => exact .refl
  | snoc _ _ hstep _ ih => exact ih.tail hstep

/-- Nothing is below `id`. -/
def Leaf (s : RadixPrefixIndex ι π) (id : ι) : Prop := ∀ c, parentMap s.blocks c ≠ some (some id)

/-- An eviction test. -/
structure CanSpec (can : RadixPrefixIndex ι π → PrefixCacheBlock ι π → Except PyError Bool)
    (P : PrefixCacheBlock ι π → Prop) : Prop where
  free : ∀ b, P b → b.locallyBlocked = false
  run : ∀ s, WellFormed s → ∀ id b, s.blocks.get? id = some b →
    ∃ v, can s b = .ok v ∧ (v = true ↔ P b ∧ Leaf s id)

theorem canSpec_canEvict :
    CanSpec (canEvict (ι := ι) (π := π)) fun b => b.locallyBlocked = false where
  free := fun _ h => h
  run := fun s h id b hb => by
    obtain ⟨n, hn, hleaf⟩ := childCount_spec h (Dict.mem_keySet.mpr ⟨b, hb⟩)
    have hid := h.ids id b hb
    unfold canEvict
    cases hblk : b.locallyBlocked with
    | true => exact ⟨false, rfl, by simp⟩
    | false =>
      refine ⟨decide (n = 0), by simp [hid, hn, bind, Except.bind, pure, Except.pure], ?_⟩
      rw [decide_eq_true_eq, hleaf, Leaf]
      simp

/-- The local condition of `can_evict_host`. -/
def HostEvictable (b : PrefixCacheBlock ι π) : Prop :=
  b.locallyBlocked = false ∧ b.residency.devicePresent = false ∧ b.residency.hostPresent = true

theorem canSpec_canEvictHost :
    CanSpec (canEvictHost (ι := ι) (π := π)) HostEvictable where
  free := fun _ h => h.1
  run := fun s h id b hb => by
    obtain ⟨n, hn, hleaf⟩ := childCount_spec h (Dict.mem_keySet.mpr ⟨b, hb⟩)
    have hid := h.ids id b hb
    unfold canEvictHost
    split
    · next hno =>
      refine ⟨false, rfl, ?_⟩
      simp only [HostEvictable, locallyBlocked_eq_false, Bool.false_eq_true, false_iff]
      rintro ⟨⟨⟨h1, h2, h3⟩, h4, h5⟩, -⟩
      simp [h1, h3, h4, h5] at hno
      omega
    · next hno =>
      refine ⟨decide (n = 0), by simp [hid, hn, bind, Except.bind, pure, Except.pure], ?_⟩
      rw [decide_eq_true_eq, hleaf, Leaf, iff_and_self]
      intro _
      simp only [not_or, not_not, Bool.not_eq_true, Bool.not_eq_false, not_lt] at hno
      obtain ⟨h1, h2, h3, h4, h5⟩ := hno
      exact ⟨locallyBlocked_eq_false.mpr ⟨h1, h2, by simpa using h5⟩, h3, h4⟩

/-- The victims satisfy `P`, and they are enough or no other leaf does. -/
structure EvictResult (P : PrefixCacheBlock ι π → Prop) (weight : PrefixCacheBlock ι π → Int)
    (needed : Int) (s : RadixPrefixIndex ι π) (bs : List (PrefixCacheBlock ι π))
    (s' : RadixPrefixIndex ι π) : Prop where
  removals : Removals s s' bs
  evictable : ∀ b ∈ bs, P b ∧ 0 ≤ weight b
  enough : needed ≤ (bs.map weight).sum ∨
    ∀ id b, s'.blocks.get? id = some b → P b → ¬ Leaf s' id

section

variable {can : RadixPrefixIndex ι π → PrefixCacheBlock ι π → Except PyError Bool}
  {P : PrefixCacheBlock ι π → Prop} {message : String} {needed : Int}
  {weight : PrefixCacheBlock ι π → Int} {s₀ : RadixPrefixIndex ι π}

theorem leaf_of_removed {s s' : RadixPrefixIndex ι π} {id x : ι} {b : PrefixCacheBlock ι π}
    (hb : s.blocks.get? id = some b) (hs' : s'.blocks = s.blocks.erase id) (hx : Leaf s' x) :
    Leaf s x ∨ b.parentBlockId = some x := by
  by_cases hp : b.parentBlockId = some x
  · exact Or.inr hp
  · refine Or.inl fun c hc => ?_
    by_cases hci : c = id
    · subst hci
      rw [parentMap_of_get hb] at hc
      exact hp (Option.some.inj hc)
    · refine hx c ?_
      rw [hs', parentMap_erase, update_of_ne hci]
      exact hc

section

variable {s s' : RadixPrefixIndex ι π}

theorem eligible_iff (hcan : CanSpec can P) (h : WellFormed s) {b : PrefixCacheBlock ι π} :
    (evictionPolicy can weight).Eligible s b ↔
      s.blocks.get? b.stableBlockId = some b ∧ P b ∧ Leaf s b.stableBlockId := by
  refine and_congr_right fun hb => ?_
  obtain ⟨v, hv, hvP⟩ := hcan.run s h _ b hb
  rw [hv, ← hvP]
  exact ⟨fun he => Except.ok.inj he, fun he => congrArg Except.ok he⟩

theorem eligible_removed (hcan : CanSpec can P) (h : WellFormed s) (h' : WellFormed s')
    {b : PrefixCacheBlock ι π} (hb : s.blocks.get? b.stableBlockId = some b)
    (hs' : s'.blocks = s.blocks.erase b.stableBlockId) (x : PrefixCacheBlock ι π) :
    (evictionPolicy can weight).Eligible s' x ↔
      ((evictionPolicy can weight).Eligible s x ∧ x ≠ b) ∨
      (b.parentBlockId = some x.stableBlockId ∧ s'.blocks.get? x.stableBlockId = some x ∧
        can s' x = .ok true) := by
  constructor
  · intro hx
    have hx' := (eligible_iff hcan h').mp hx
    have hne : x.stableBlockId ≠ b.stableBlockId := fun e => by
      rw [hs', e, get?_erase_self] at hx'
      cases hx'.1
    have hget : s.blocks.get? x.stableBlockId = some x := by
      rw [← hx'.1, hs', get?_erase_ne _ hne]
    rcases leaf_of_removed hb hs' hx'.2.2 with hl | hl
    · exact Or.inl ⟨(eligible_iff hcan h).mpr ⟨hget, hx'.2.1, hl⟩, fun e => hne (e ▸ rfl)⟩
    · exact Or.inr ⟨hl, hx⟩
  · rintro (⟨hx, hxb⟩ | ⟨-, hx⟩)
    · obtain ⟨hget, hP, hleaf⟩ := (eligible_iff hcan h).mp hx
      have hne : x.stableBlockId ≠ b.stableBlockId := fun e => by
        rw [e, hb] at hget
        exact hxb (Option.some.inj hget).symm
      refine (eligible_iff hcan h').mpr ⟨?_, hP, fun c hc => hleaf c ?_⟩
      · rw [hs', get?_erase_ne _ hne, hget]
      · rw [hs', parentMap_erase] at hc
        by_cases hcb : c = b.stableBlockId
        · subst hcb
          simp at hc
        · rwa [update_of_ne hcb] at hc
    · exact hx

end

/-- The loop takes the least eligible block as long as it needs more, and every block it takes is an
unblocked leaf. -/
theorem evictLoop_greedy (hcan : CanSpec can P) (fuel : Nat) :
    ∀ (s : RadixPrefixIndex ι π) (heap : List (EvictionCandidate ι)) (queued : Finset ι)
      (evicted : List (PrefixCacheBlock ι π)) (total : Int), WellFormed s → Removals s₀ s evicted →
      (∀ b ∈ evicted, P b ∧ 0 ≤ weight b) → total = (evicted.map weight).sum →
      Queue (Keys ((evictionPolicy can weight).Eligible s)) heap →
      (∀ x ∈ queued, Waiting heap x) → s.blocks.size < fuel →
      wp (evictLoop can message needed weight fuel heap queued evicted total)
        (fun r s' => EvictResult P weight needed s₀ r s' ∧
          ∃ bs, r = evicted ++ bs ∧ GreedyRun (evictionPolicy can weight) needed total s bs s')
        (fun e s' => e = .valueError message ∧ (∃ bs, Removals s₀ s' bs) ∧
          ∃ id b, s'.blocks.get? id = some b ∧ weight b < 0) s := by
  induction fuel with
  | zero => intro s _ _ _ _ _ _ _ _ _ _ hfuel; omega
  | succ fuel ih =>
    intro s heap queued evicted total h hrem hev htotal hheap hq hfuel
    by_cases hdone : needed ≤ total
    · simp only [evictLoop, if_pos hdone]
      exact ⟨⟨hrem, hev, Or.inl (htotal ▸ hdone)⟩, [], by simp, .enough hdone⟩
    cases heap with
    | nil =>
      simp only [evictLoop, if_neg hdone]
      refine ⟨⟨hrem, hev, Or.inr fun id b hb hP hleaf => ?_⟩, [], by simp,
        .exhausted (not_le.mp hdone) fun b hb => hheap.none_of_nil _ ⟨b, hb, rfl⟩⟩
      obtain rfl := h.ids id b hb
      exact hheap.none_of_nil _ ⟨b, (eligible_iff hcan h).mpr ⟨hb, hP, hleaf⟩, rfl⟩
    | cons c heap =>
      -- The head is the least eligible block, so the loop takes it.
      obtain ⟨b, hb, rfl⟩ := hheap.head_mem
      have hbest : (evictionPolicy can weight).Best s b :=
        ⟨hb, fun x hx => hheap.head_le ⟨x, hx, rfl⟩⟩
      obtain ⟨hget, hP, hleaf⟩ := (eligible_iff hcan h).mp hb
      obtain ⟨r, s₁, hrun₁, hr, hstep, hblocks⟩ := exists_of_wp <|
        wp_mono (removeBlockFromIndex_spec h b.stableBlockId) (fun _ _ hr => hr)
          fun _ _ he => he.2 b ⟨hget, hcan.free b hP, hleaf⟩
      obtain rfl : b = r := Option.some.inj (hget.symm.trans hr.1)
      have h₁ : WellFormed s₁ := hstep.wf
      obtain ⟨heap', queued', hqueue, hheap', hq'⟩ := queueIf_queue h₁.ids
        (fun id x hx => by
          obtain ⟨v, hv, -⟩ := hcan.run s₁ h₁ id x hx
          exact ⟨v, hv⟩)
        (queue_rest (fun x hx => hx.1) hget hheap) (waiting_erase hq) b.parentBlockId
        (fun x hx hp => ((eligible_iff hcan h).mp hx.1).2.2 b.stableBlockId
          ((parentMap_of_get hget).trans (by rw [hp])))
        (eligible_removed hcan h h₁ hget hblocks)
      have hsize := size_erase hget
      rw [← hblocks] at hsize
      simp only [evictLoop, if_neg hdone, candidateId_candidateOf, wp_bind, wp_get, hget, wp_lift,
        hb.2, if_true, wp_raiseIf]
      refine ⟨fun hneg => ⟨trivial, ⟨evicted, hrem⟩, _, b, hget, hneg⟩, fun hneg => ?_⟩
      rw [wp_of_ok hrun₁]
      simp only [hqueue]
      refine wp_mono (ih s₁ heap' queued' (evicted ++ [b]) (total + weight b) h₁
        (hrem.snoc hr hstep hblocks) (fun x hx => ?_) (by simp [htotal]) hheap' hq' (by omega))
        ?_ fun _ _ he => he
      · rcases List.mem_append.mp hx with hx | hx
        · exact hev x hx
        · rw [List.mem_singleton.mp hx]
          exact ⟨hP, not_lt.mp hneg⟩
      · rintro _ s' ⟨hres, bs, rfl, hgreedy⟩
        exact ⟨hres, b :: bs, List.append_assoc _ _ _, .take (not_le.mp hdone) hbest hrun₁ hgreedy⟩

variable (message) in
theorem evictLeavesUntilWeight_greedy (hcan : CanSpec can P) {s : RadixPrefixIndex ι π}
    (h : WellFormed s) :
    wp (evictLeavesUntilWeight can message needed weight)
      (fun bs s' => EvictResult P weight needed s bs s' ∧
        GreedyRun (evictionPolicy can weight) needed 0 s bs s')
      (fun e s' => e = .valueError message ∧ (∃ bs, Removals s s' bs) ∧
        ∃ id b, s'.blocks.get? id = some b ∧ weight b < 0) s := by
  rw [evictLeavesUntilWeight, wp_ite]
  split
  · next hneed => exact ⟨⟨.nil, by simp, Or.inl (by simpa using hneed)⟩, .enough hneed⟩
  · have hcan' : ∀ id b, s.blocks.get? id = some b → ∃ v, can s b = .ok v := by
      intro id b hb
      obtain ⟨v, hv, -⟩ := hcan.run s h id b hb
      exact ⟨v, hv⟩
    obtain ⟨heap, queued, hrun, hnd, hmem, hq⟩ := queueAll_keys h.ids hcan'
      (s.backend.leafBlockIds.sort (· ≤ ·)) [] ∅ (sort_nodup _ _) nodup_nil
      (fun x => by simp [Waiting]) (by simp)
    have hheap : Queue (Keys ((evictionPolicy can weight).Eligible s)) (heapify heap) := by
      refine .build hnd fun k => ?_
      rw [hmem]
      constructor
      · rintro (hk | ⟨x, b, -, hb, hc, rfl⟩)
        · simp at hk
        · exact ⟨b, ⟨(h.ids x b hb).symm ▸ hb, hc⟩, rfl⟩
      · rintro ⟨b, hb, rfl⟩
        have hleaf := ((eligible_iff hcan h).mp hb).2.2
        refine Or.inr ⟨b.stableBlockId, b, ?_, hb.1, hb.2, rfl⟩
        rw [mem_sort, h.tree.leaf]
        exact ⟨Dict.mem_keySet.mpr ⟨b, hb.1⟩, hleaf⟩
    simp only [wp_bind, wp_get, wp_lift, hrun]
    refine wp_mono (evictLoop_greedy hcan (2 * s.blocks.size + 1) s (heapify heap) queued [] 0 h .nil
      (by simp) rfl hheap (fun x hx => waiting_heapify.mpr (hq x hx)) (by omega)) ?_ fun _ _ he => he
    rintro _ s' ⟨hres, bs, rfl, hgreedy⟩
    exact ⟨hres, hgreedy⟩

end

theorem evictUntilWeight_spec {s : RadixPrefixIndex ι π} (h : WellFormed s) (needed : Int)
    (weight : PrefixCacheBlock ι π → Int) :
    wp (evictUntilWeight needed weight)
      (fun bs s' => EvictResult (fun b => b.locallyBlocked = false) weight needed s bs s')
      (fun _ s' => (∃ bs, Removals s s' bs) ∧ ∃ id b, s'.blocks.get? id = some b ∧ weight b < 0) s :=
  wp_mono (evictLeavesUntilWeight_greedy _ canSpec_canEvict h) (fun _ _ hs => hs.1) fun _ _ he => he.2

theorem evictHostUntilWeight_spec {s : RadixPrefixIndex ι π} (h : WellFormed s) (needed : Int)
    (weight : PrefixCacheBlock ι π → Int) :
    wp (evictHostUntilWeight needed weight)
      (fun bs s' => EvictResult HostEvictable weight needed s bs s')
      (fun _ s' => (∃ bs, Removals s s' bs) ∧ ∃ id b, s'.blocks.get? id = some b ∧ weight b < 0) s :=
  wp_mono (evictLeavesUntilWeight_greedy _ canSpec_canEvictHost h) (fun _ _ hs => hs.1) fun _ _ he =>
    he.2

/-- The local condition of `demotable`. -/
def DemotableNow (b : PrefixCacheBlock ι π) : Prop :=
  b.locallyBlocked = false ∧ b.residency.devicePresent = true ∧ b.residency.hostPresent = true

/-- No device-resident block is below `id`. -/
def DeviceLeaf (s : RadixPrefixIndex ι π) (id : ι) : Prop :=
  ∀ c cb, s.blocks.get? c = some cb → cb.parentBlockId = some id →
    cb.residency.devicePresent = false

/-- `bs` were demoted one after the other. -/
inductive Demotions (s₀ : RadixPrefixIndex ι π) :
    RadixPrefixIndex ι π → List (PrefixCacheBlock ι π) → Prop
  | nil : Demotions s₀ s₀ []
  | snoc {s s' : RadixPrefixIndex ι π} {bs : List (PrefixCacheBlock ι π)}
      {b : PrefixCacheBlock ι π} : Demotions s₀ s bs → s.blocks.get? b.stableBlockId = some b →
      DemotableNow b → DeviceLeaf s b.stableBlockId → Step s s' →
      s'.blocks = s.blocks.set b.stableBlockId (demoted b) → Demotions s₀ s' (bs ++ [b])

theorem Demotions.steps {s₀ s : RadixPrefixIndex ι π} {bs : List (PrefixCacheBlock ι π)}
    (h : Demotions s₀ s bs) : Steps s₀ s := by
  induction h with
  | nil => exact .refl
  | snoc _ _ _ _ hstep _ ih => exact ih.tail hstep

section

variable {s s₀ : RadixPrefixIndex ι π} {b : PrefixCacheBlock ι π} {id : ι}

/-- The device-resident children of `id`. -/
def deviceChildren (blocks : Dict ι (PrefixCacheBlock ι π)) (id : ι) : Finset ι :=
  blocks.keySet.filter fun c => blockWith blocks (fun child => child.residency.devicePresent) c = true ∧
    parentMap blocks c = some (some id)

theorem mem_deviceChildren {blocks : Dict ι (PrefixCacheBlock ι π)} {c : ι} :
    c ∈ deviceChildren blocks id ↔ ∃ cb, blocks.get? c = some cb ∧ cb.parentBlockId = some id ∧
      cb.residency.devicePresent = true := by
  simp only [deviceChildren, Finset.mem_filter, Dict.mem_keySet]
  constructor
  · rintro ⟨⟨cb, hc⟩, hd, hp⟩
    exact ⟨cb, hc, by simpa [parentMap, hc] using hp, by simpa [blockWith, hc] using hd⟩
  · rintro ⟨cb, hc, hp, hd⟩
    exact ⟨⟨cb, hc⟩, by simp [blockWith, hc, hd], by simp [parentMap, hc, hp]⟩

theorem deviceLeaf_iff : DeviceLeaf s id ↔ (deviceChildren s.blocks id).card = 0 := by
  rw [Finset.card_eq_zero, Finset.eq_empty_iff_forall_notMem]
  simp only [mem_deviceChildren, not_exists, not_and, Bool.not_eq_true, DeviceLeaf]

def DeviceCounts (s : RadixPrefixIndex ι π) (counts : Dict ι Int) : Prop :=
  ∀ id b, s.blocks.get? id = some b → b.residency.devicePresent = true →
    counts.get? id = some ((deviceChildren s.blocks id).card : Int)

theorem deviceIds_mem {blocks : Dict ι (PrefixCacheBlock ι π)} {x : ι} :
    x ∈ (blocks.entries.filter fun e => e.2.residency.devicePresent).map Prod.fst ↔
      ∃ b, blocks.get? x = some b ∧ b.residency.devicePresent = true := by
  simp only [List.mem_map, List.mem_filter]
  constructor
  · rintro ⟨⟨x', b⟩, ⟨he, hd⟩, rfl⟩
    exact ⟨b, Dict.mem_entries.mp he, hd⟩
  · rintro ⟨b, hb, hd⟩
    exact ⟨(x, b), ⟨Dict.mem_entries.mpr hb, hd⟩, rfl⟩

theorem countDeviceChildren_spec (h : WellFormed s) :
    ∃ counts, countDeviceChildren s.blocks = .ok counts ∧ DeviceCounts s counts ∧
      ∀ x, x ∈ counts.keySet ↔ ∃ b, s.blocks.get? x = some b ∧ b.residency.devicePresent = true := by
  set ids := (s.blocks.entries.filter fun e => e.2.residency.devicePresent).map Prod.fst with hids
  set zeros := ids.foldl (fun d blockId => d.set blockId 0) (empty : Dict ι Int) with hzeros
  obtain ⟨hzk, hz0⟩ := zeros_spec ids (empty : Dict ι Int)
  have hzk : ∀ x, x ∈ zeros.keySet ↔ ∃ b, s.blocks.get? x = some b ∧
      b.residency.devicePresent = true := by
    intro x
    rw [hzeros, hzk, ← deviceIds_mem]
    simp [keySet, Dict.keys, empty, hids]
  have hz0 : ∀ b, countAt zeros b = 0 := hz0 (by simp [countAt])
  set parentOf : ι → Option ι := fun x => (s.blocks.get? x).bind (·.parentBlockId) with hparentOf
  have hparents : ∀ x ∈ ids, ∀ p, parentOf x = some p → p ∈ zeros.keySet := by
    intro x hx p hp
    obtain ⟨b, hb, hd⟩ := deviceIds_mem.mp hx
    have hbp : b.parentBlockId = some p := by simpa [hparentOf, hb] using hp
    obtain ⟨pb, hpb⟩ := Dict.mem_keySet.mp
      (h.forest.closed x p ((parentMap_of_get hb).trans (by rw [hbp])))
    exact (hzk p).mpr ⟨pb, hpb, h.residency.device x b p pb hb hbp hpb hd⟩
  obtain ⟨counts, hrun, hck, hcount⟩ := countEdges_spec parentOf ids hparents
  -- The loop reads the block of every id; these are all indexed.
  have hfold : ∀ (l : List ι) (d : Dict ι Int), (∀ x ∈ l, x ∈ ids) →
      l.foldlM (fun d blockId => do
        let block ← entry s.blocks blockId
        countEdge block.parentBlockId d) d = l.foldlM (fun d x => countEdge (parentOf x) d) d := by
    intro l
    induction l with
    | nil => intro d _; rfl
    | cons x l ih =>
      intro d hl
      obtain ⟨b, hb, -⟩ := deviceIds_mem.mp (hl x mem_cons_self)
      simp only [foldlM_cons, entry_of_get hb]
      have hpx : parentOf x = b.parentBlockId := by simp [hparentOf, hb]
      rw [hpx]
      refine congrArg _ (funext fun d' => ih d' fun y hy => hl y (mem_cons_of_mem _ hy))
  refine ⟨counts, ?_, fun id b hb hd => ?_, fun x => by rw [hck]; exact hzk x⟩
  · simp only [countDeviceChildren, ← hids, ← hzeros]
    rw [hfold ids zeros fun _ hx => hx]
    exact hrun
  · have hk : id ∈ counts.keySet := hck ▸ (hzk id).mpr ⟨b, hb, hd⟩
    rw [get?_eq_countAt hk, hcount, hz0, zero_add, deviceChildren,
      ← card_children_eq _ (fun child => child.residency.devicePresent) id, hids, List.filter_map,
      length_map]
    congr 3
    refine filter_congr fun e he => ?_
    have hget := Dict.mem_entries.mp (List.mem_filter.mp he).1
    simp [hparentOf, hget]

theorem demotable_spec (hids : ∀ id b, s.blocks.get? id = some b → b.stableBlockId = id)
    {counts : Dict ι Int} (hc : DeviceCounts s counts) (hb : s.blocks.get? id = some b) :
    ∃ v, demotable counts b = .ok v ∧ (v = true ↔ DemotableNow b ∧ DeviceLeaf s id) := by
  unfold demotable
  split
  · next hnow =>
    have hnow' : DemotableNow b := by
      obtain ⟨h1, h2, h3, h4, h5⟩ := hnow
      exact ⟨locallyBlocked_eq_false.mpr ⟨h1, h2, by simpa using h5⟩, h3, h4⟩
    have hget := hc id b hb hnow'.2.1
    refine ⟨decide (((deviceChildren s.blocks id).card : Int) = 0), ?_, ?_⟩
    · rw [hids id b hb, entry_of_get hget]
      rfl
    · rw [decide_eq_true_eq, Int.natCast_eq_zero, ← deviceLeaf_iff]
      exact ⟨fun h1 => ⟨hnow', h1⟩, fun h1 => h1.2⟩
  · next hnow =>
    refine ⟨false, rfl, ?_⟩
    simp only [Bool.false_eq_true, false_iff]
    rintro ⟨⟨h1, h2, h3⟩, -⟩
    obtain ⟨h4, h5, h6⟩ := locallyBlocked_eq_false.mp h1
    exact hnow ⟨h4, h5, h2, h3, by simp [h6]⟩

theorem demoteDevice_spec (h : WellFormed s) (hb : s.blocks.get? b.stableBlockId = some b)
    (hnow : DemotableNow b) (hleaf : DeviceLeaf s b.stableBlockId) :
    ∃ s', demoteDevice b s = (.ok (), s') ∧ Step s s' ∧
      s'.blocks = s.blocks.set b.stableBlockId (demoted b) := by
  have hid : SameIdentity b (demoted b) := ⟨rfl, rfl, rfl, rfl, rfl⟩
  obtain ⟨hfree, hd, hh⟩ := hnow
  have hvalid : (demoted b).residency.validate = .ok () := by
    have := (locallyBlocked_eq_false.mp hfree).2.2
    rw [validate_iff]
    simp [demoted, hh, this]
  have hres : ResidencyChange s.blocks b.stableBlockId b (demoted b) :=
    ⟨hvalid, by simp [demoted], fun h1 => Or.inl h1, Or.inr hleaf, fun h1 => h1⟩
  refine ⟨{ s with
    blocks := s.blocks.set b.stableBlockId (demoted b)
    epochs := s.epochs.markPayload.markCapacityMutated }, ?_, ⟨?_, .update ?_ (Nat.lt_succ_self _)
      (Nat.le_succ _) rfl ⟨fun v => by cases v <;> rfl, rfl⟩⟩, rfl⟩
  · simp only [demoteDevice, markPayload, markCapacityMutated, bind_run, modify_run, lift_run,
      h.assign_eq hb hid, hvalid]
  · exact (h.set_same hb hid hres rfl).withEpochs _
  · exact Updated.set hb hid (Or.inr (Nat.lt_succ_self _)) fun _ => Or.inl ⟨rfl, rfl⟩

theorem deviceChildren_demoted {s' : RadixPrefixIndex ι π}
    (hs' : s'.blocks = s.blocks.set b.stableBlockId (demoted b)) (x : ι) :
    deviceChildren s'.blocks x = (deviceChildren s.blocks x).erase b.stableBlockId := by
  ext c
  rw [Finset.mem_erase, mem_deviceChildren, mem_deviceChildren, hs']
  by_cases hc : c = b.stableBlockId
  · subst hc; simp [demoted]
  · simp [hc, Dict.get?_set_ne _ _ hc]

theorem DeviceCounts.demoted {s' : RadixPrefixIndex ι π} {counts counts' : Dict ι Int}
    (hc : DeviceCounts s counts) (hb : s.blocks.get? b.stableBlockId = some b)
    (hd : b.residency.devicePresent = true)
    (hs' : s'.blocks = s.blocks.set b.stableBlockId (demoted b))
    (hcounts : ∀ x n, counts.get? x = some n → counts'.get? x =
      some (if b.parentBlockId = some x then n - 1 else n)) : DeviceCounts s' counts' := by
  intro x xb hx hxd
  have hne : x ≠ b.stableBlockId := by
    rintro rfl
    rw [hs', get?_set_self] at hx
    cases hx
    simp [RadixPrefixIndex.demoted] at hxd
  rw [hs', Dict.get?_set_ne _ _ hne] at hx
  rw [hcounts x _ (hc x xb hx hxd), deviceChildren_demoted hs']
  split
  · next hp =>
    have hmem : b.stableBlockId ∈ deviceChildren s.blocks x :=
      mem_deviceChildren.mpr ⟨b, hb, hp, hd⟩
    have := card_erase_add_one hmem
    congr 1
    omega
  · next hp =>
    rw [erase_eq_of_notMem]
    intro hmem
    obtain ⟨cb, hcb, hcp, -⟩ := mem_deviceChildren.mp hmem
    rw [hb] at hcb
    cases hcb
    exact hp hcp

theorem deviceLeaf_of_demoted {s' : RadixPrefixIndex ι π} {x : ι}
    (hb : s.blocks.get? b.stableBlockId = some b)
    (hs' : s'.blocks = s.blocks.set b.stableBlockId (demoted b)) (hx : DeviceLeaf s' x) :
    DeviceLeaf s x ∨ b.parentBlockId = some x := by
  by_cases hp : b.parentBlockId = some x
  · exact Or.inr hp
  · refine Or.inl fun c cb hc hcp => ?_
    by_cases hci : c = b.stableBlockId
    · subst hci
      rw [hb] at hc
      cases hc
      exact absurd hcp hp
    · exact hx c cb (by rw [hs', Dict.get?_set_ne _ _ hci]; exact hc) hcp

def deviceSize (s : RadixPrefixIndex ι π) : Nat :=
  (s.blocks.keySet.filter fun x =>
    blockWith s.blocks (fun b => b.residency.devicePresent) x = true).card

theorem deviceSize_demoted {s' : RadixPrefixIndex ι π}
    (hb : s.blocks.get? b.stableBlockId = some b) (hd : b.residency.devicePresent = true)
    (hs' : s'.blocks = s.blocks.set b.stableBlockId (demoted b)) :
    s'.deviceSize + 1 = s.deviceSize := by
  unfold deviceSize
  rw [hs', keySet_set_old hb, ← card_erase_add_one (s := s.blocks.keySet.filter fun x =>
    blockWith s.blocks (fun b => b.residency.devicePresent) x = true) (a := b.stableBlockId)]
  · congr 2
    ext x
    rw [Finset.mem_filter, Finset.mem_erase, Finset.mem_filter]
    by_cases hx : x = b.stableBlockId
    · subst hx; simp [blockWith, demoted]
    · simp [hx, blockWith, Dict.get?_set_ne _ _ hx]
  · rw [Finset.mem_filter]
    exact ⟨Dict.mem_keySet.mpr ⟨b, hb⟩, by simp [blockWith, hb, hd]⟩

theorem parentCount_demoted {s₁ : RadixPrefixIndex ι π} {counts : Dict ι Int} {p : ι}
    (hcounts : DeviceCounts s counts) (h : WellFormed s)
    (hb : s.blocks.get? b.stableBlockId = some b) (hd : b.residency.devicePresent = true)
    (hblocks : s₁.blocks = s.blocks.set b.stableBlockId (demoted b))
    (hp : b.parentBlockId = some p) :
    ∃ m : Int, addCount counts p (-1) = .ok (counts.set p m) ∧
      entry (counts.set p m) p = .ok m ∧ DeviceCounts s₁ (counts.set p m) := by
  obtain ⟨pb, hpb⟩ := Dict.mem_keySet.mp
    (h.forest.closed _ p ((parentMap_of_get hb).trans (by rw [hp])))
  have hpc := hcounts p pb hpb (h.residency.device _ b p pb hb hp hpb hd)
  refine ⟨((deviceChildren s.blocks p).card : Int) + -1, ?_,
    entry_of_get (get?_set_self _ _ _), hcounts.demoted hb hd hblocks fun x n hx => ?_⟩
  · simp only [addCount, entry_of_get hpc]
    rfl
  · by_cases hxp : x = p
    · subst hxp
      rw [hpc] at hx
      cases hx
      simp [hp, Int.sub_eq_add_neg]
    · simp [Dict.get?_set_ne _ _ hxp, hx, hp, Ne.symm hxp]

/-- The demoted blocks are enough, or no device leaf is left to demote. -/
structure DemoteResult (weight : PrefixCacheBlock ι π → Int) (needed : Int)
    (s : RadixPrefixIndex ι π) (bs : List (PrefixCacheBlock ι π)) (s' : RadixPrefixIndex ι π) :
    Prop where
  demotions : Demotions s s' bs
  weights : ∀ b ∈ bs, 0 ≤ weight b
  enough : needed ≤ (bs.map weight).sum ∨
    ∀ id b, s'.blocks.get? id = some b → DemotableNow b → ¬ DeviceLeaf s' id

section

variable {weight : PrefixCacheBlock ι π → Int} {s' : RadixPrefixIndex ι π}

theorem canDemoteDevice_spec (h : WellFormed s) {b : PrefixCacheBlock ι π}
    (hb : s.blocks.get? b.stableBlockId = some b) :
    ∃ v, canDemoteDevice s b = .ok v ∧ (v = true ↔ DemotableNow b ∧ DeviceLeaf s b.stableBlockId) := by
  obtain ⟨n, hn, hleaf, -⟩ := deviceChildCount_spec h (Dict.mem_keySet.mpr ⟨b, hb⟩)
  unfold canDemoteDevice
  split
  · next hno =>
    refine ⟨false, rfl, ?_⟩
    simp only [Bool.false_eq_true, false_iff]
    rintro ⟨⟨h1, h2, h3⟩, -⟩
    obtain ⟨h4, h5, h6⟩ := locallyBlocked_eq_false.mp h1
    simp [h2, h3, h4, h6] at hno
    omega
  · next hno =>
    refine ⟨decide (n = 0), by simp [hn, bind, Except.bind, pure, Except.pure], ?_⟩
    rw [decide_eq_true_eq, hleaf, DeviceLeaf, iff_and_self]
    intro _
    simp only [not_or, not_not, Bool.not_eq_false, not_lt] at hno
    obtain ⟨h1, h2, h3, h4, h5⟩ := hno
    exact ⟨locallyBlocked_eq_false.mpr ⟨h1, h2, by simpa using h5⟩, h3, h4⟩

theorem demotionEligible_iff (h : WellFormed s) {b : PrefixCacheBlock ι π} :
    (demotionPolicy weight).Eligible s b ↔
      s.blocks.get? b.stableBlockId = some b ∧ DemotableNow b ∧ DeviceLeaf s b.stableBlockId := by
  refine and_congr_right fun hb => ?_
  obtain ⟨v, hv, hvP⟩ := canDemoteDevice_spec h hb
  rw [hv, ← hvP]
  exact ⟨fun he => Except.ok.inj he, fun he => congrArg Except.ok he⟩

theorem eligible_demoted (weight : PrefixCacheBlock ι π → Int) (h : WellFormed s) (h' : WellFormed s') {b : PrefixCacheBlock ι π}
    (hb : s.blocks.get? b.stableBlockId = some b)
    (hs' : s'.blocks = s.blocks.set b.stableBlockId (demoted b)) (x : PrefixCacheBlock ι π) :
    (demotionPolicy weight).Eligible s' x ↔
      ((demotionPolicy weight).Eligible s x ∧ x ≠ b) ∨
      (b.parentBlockId = some x.stableBlockId ∧ (demotionPolicy weight).Eligible s' x) := by
  constructor
  · intro hx
    have hx' := (demotionEligible_iff h').mp hx
    have hne : x.stableBlockId ≠ b.stableBlockId := fun e => by
      rw [hs', e, get?_set_self] at hx'
      cases hx'.1
      simpa [demoted] using hx'.2.1.2.1
    have hget : s.blocks.get? x.stableBlockId = some x := by
      rw [← hx'.1, hs', Dict.get?_set_ne _ _ hne]
    rcases deviceLeaf_of_demoted hb hs' hx'.2.2 with hl | hl
    · exact Or.inl ⟨(demotionEligible_iff h).mpr ⟨hget, hx'.2.1, hl⟩, fun e => hne (e ▸ rfl)⟩
    · exact Or.inr ⟨hl, hx⟩
  · rintro (⟨hx, hxb⟩ | ⟨-, hx⟩)
    · obtain ⟨hget, hnow, hleaf⟩ := (demotionEligible_iff h).mp hx
      have hne : x.stableBlockId ≠ b.stableBlockId := fun e => by
        rw [e, hb] at hget
        exact hxb (Option.some.inj hget).symm
      refine (demotionEligible_iff h').mpr ⟨?_, hnow, fun c cb hc hcp => ?_⟩
      · rw [hs', Dict.get?_set_ne _ _ hne, hget]
      · rw [hs', get?_set] at hc
        split at hc
        · cases hc
          rfl
        · exact hleaf c cb hc hcp
    · exact hx

end

theorem demoteLoop_greedy {needed : Int} {weight : PrefixCacheBlock ι π → Int} (fuel : Nat) :
    ∀ (s : RadixPrefixIndex ι π) (heap : List (EvictionCandidate ι)) (queued : Finset ι)
      (counts : Dict ι Int) (done : List (PrefixCacheBlock ι π)) (total : Int), WellFormed s →
      Demotions s₀ s done → (∀ b ∈ done, 0 ≤ weight b) → total = (done.map weight).sum →
      DeviceCounts s counts → Queue (Keys ((demotionPolicy weight).Eligible s)) heap →
      (∀ x ∈ queued, Waiting heap x) → s.deviceSize < fuel →
      wp (demoteLoop needed weight fuel heap queued counts (done.map demoted) total)
        (fun r s' => ∃ bs, r = (done ++ bs).map demoted ∧
          DemoteResult weight needed s₀ (done ++ bs) s' ∧
          GreedyRun (demotionPolicy weight) needed total s bs s')
        (fun e s' => e = .valueError "Prefix cache demotion weight must be non-negative" ∧
          (∃ bs, Demotions s₀ s' bs) ∧ ∃ id b, s'.blocks.get? id = some b ∧ weight b < 0) s := by
  induction fuel with
  | zero => intro s _ _ _ _ _ _ _ _ _ _ _ _ hfuel; omega
  | succ fuel ih =>
    intro s heap queued counts done total h hdem hw htotal hcounts hheap hq hfuel
    by_cases hdone : needed ≤ total
    · simp only [demoteLoop, if_pos hdone]
      refine ⟨[], by simp, ?_, .enough hdone⟩
      rw [append_nil]
      exact ⟨hdem, hw, Or.inl (htotal ▸ hdone)⟩
    cases heap with
    | nil =>
      simp only [demoteLoop, if_neg hdone]
      refine ⟨[], by simp, ?_, .exhausted (not_le.mp hdone) fun b hb =>
        hheap.none_of_nil _ ⟨b, hb, rfl⟩⟩
      rw [append_nil]
      refine ⟨hdem, hw, Or.inr fun id b hb hnow hleaf => ?_⟩
      obtain rfl := h.ids id b hb
      exact hheap.none_of_nil _ ⟨b, (demotionEligible_iff h).mpr ⟨hb, hnow, hleaf⟩, rfl⟩
    | cons c heap =>
      obtain ⟨b, hb, rfl⟩ := hheap.head_mem
      have hbest : (demotionPolicy weight).Best s b :=
        ⟨hb, fun x hx => hheap.head_le ⟨x, hx, rfl⟩⟩
      obtain ⟨hget, hnow, hleaf⟩ := (demotionEligible_iff h).mp hb
      obtain ⟨s₁, hrun₁, hstep, hblocks⟩ := demoteDevice_spec h hget hnow hleaf
      have h₁ : WellFormed s₁ := hstep.wf
      have hget₁ : s₁.blocks.get? b.stableBlockId = some (demoted b) := by
        rw [hblocks, get?_set_self]
      have hderef : s₁.deref b = demoted b := deref_of_indexed hget₁ rfl
      have hq₁ := waiting_erase hq
      have hrest := queue_rest (fun x hx => hx.1) hget hheap
      have hnew := eligible_demoted weight h h₁ hget hblocks
      have hsize := deviceSize_demoted hget hnow.2.1 hblocks
      obtain ⟨v, hv, hvP⟩ := demotable_spec h.ids hcounts hget
      have hv1 : v = true := hvP.mpr ⟨hnow, hleaf⟩
      subst hv1
      simp only [demoteLoop, if_neg hdone, candidateId_candidateOf, wp_bind, wp_get, hget, wp_lift,
        hv, if_true, wp_raiseIf]
      refine ⟨fun hneg => ⟨trivial, ⟨done, hdem⟩, _, b, hget, hneg⟩, fun hneg => ?_⟩
      rw [wp_of_ok hrun₁]
      simp only [hderef, ← map_singleton (f := demoted), ← map_append]
      -- It suffices to reach the next turn with a heap of the eligible keys.
      have hnext := fun heap' queued' counts' hcounts' hheap' hq' =>
        wp_mono (ih s₁ heap' queued' counts' (done ++ [b]) (total + weight b) h₁
          (hdem.snoc hget hnow hleaf hstep hblocks)
          (fun x hx => (List.mem_append.mp hx).elim (hw x) fun hx =>
            List.mem_singleton.mp hx ▸ not_lt.mp hneg)
          (by simp [htotal]) hcounts' hheap' hq' (by omega))
          (fun r s' hex => show ∃ bs, r = (done ++ bs).map demoted ∧
              DemoteResult weight needed s₀ (done ++ bs) s' ∧
              GreedyRun (demotionPolicy weight) needed total s bs s' from by
            obtain ⟨bs, hr, hres, hgreedy⟩ := hex
            exact ⟨b :: bs, by rw [hr, List.append_assoc, singleton_append],
              by rwa [List.append_assoc, singleton_append] at hres,
              .take (not_le.mp hdone) hbest hrun₁ hgreedy⟩) fun _ _ he => he
      cases hp : b.parentBlockId with
      | none =>
        refine hnext heap (queued.erase b.stableBlockId) counts
          (hcounts.demoted hget hnow.2.1 hblocks fun x n hx => by simp [hp, hx])
          (hrest.congr fun k => exists_congr fun x => and_congr_left fun _ => ?_) hq₁
        rw [hnew, hp]
        simp
      | some p =>
        obtain ⟨m, hadd, hentry, hcounts₁⟩ := parentCount_demoted hcounts h hget hnow.2.1 hblocks hp
        simp only [wp_bind, wp_lift, hadd, hentry, wp_ite]
        split
        · -- The last device child went: the parent is examined.
          have hcan₁ : ∀ id x, s₁.blocks.get? id = some x →
              ∃ v, demotable (counts.set p m) x = .ok v := fun id x hx => by
            obtain ⟨v, hv, -⟩ := demotable_spec h₁.ids hcounts₁ hx
            exact ⟨v, hv⟩
          have hsplit : ∀ x, (demotionPolicy weight).Eligible s₁ x ↔
              ((demotionPolicy weight).Eligible s x ∧ x ≠ b) ∨ (some p = some x.stableBlockId ∧
                s₁.blocks.get? x.stableBlockId = some x ∧
                  demotable (counts.set p m) x = .ok true) := fun x => by
            rw [hnew, hp]
            refine or_congr_right (and_congr_right fun _ => and_congr_right fun hx => ?_)
            obtain ⟨v, hv, hvP⟩ := demotable_spec h₁.ids hcounts₁ hx
            obtain ⟨v', hv', hvP'⟩ := canDemoteDevice_spec h₁ hx
            have hvv : v' = v := Bool.eq_iff_iff.mpr (hvP'.trans hvP.symm)
            rw [hv, hv', hvv]
          obtain ⟨heap', queued', hqueue, hheap', hq'⟩ := queueIf_queue h₁.ids hcan₁ hrest hq₁
            (some p)
            (fun x hx hpx => by
              have hleafx := ((demotionEligible_iff h).mp hx.1).2.2 b.stableBlockId b hget
                (hp.trans hpx)
              rw [hnow.2.1] at hleafx
              cases hleafx)
            hsplit
          simp only [hqueue]
          exact hnext heap' queued' (counts.set p m) hcounts₁ hheap' hq'
        · next hzero =>
          -- The parent keeps a device child, so it is not eligible.
          refine hnext heap (queued.erase b.stableBlockId) (counts.set p m) hcounts₁
            (hrest.congr fun k => exists_congr fun x => and_congr_left fun _ => ?_) hq₁
          rw [hnew, hp]
          refine (or_iff_left ?_).symm
          rintro ⟨hpx, hx⟩
          obtain ⟨hgetx, hnowx, hleafx⟩ := (demotionEligible_iff h₁).mp hx
          have hcx := hcounts₁ _ x hgetx hnowx.2.1
          rw [← Option.some.inj hpx, get?_set_self, Option.some.inj hpx,
            deviceLeaf_iff.mp hleafx] at hcx
          exact hzero (by simpa using hcx)

theorem demoteDeviceUntilWeight_greedy (h : WellFormed s) (needed : Int)
    (weight : PrefixCacheBlock ι π → Int) :
    wp (demoteDeviceUntilWeight needed weight)
      (fun r s' => ∃ bs, r = bs.map demoted ∧ DemoteResult weight needed s bs s' ∧
        GreedyRun (demotionPolicy weight) needed 0 s bs s')
      (fun e s' => e = .valueError "Prefix cache demotion weight must be non-negative" ∧
        (∃ bs, Demotions s s' bs) ∧ ∃ id b, s'.blocks.get? id = some b ∧ weight b < 0) s := by
  rw [demoteDeviceUntilWeight, wp_ite]
  split
  · next hneed =>
    exact ⟨[], rfl, ⟨.nil, by simp, Or.inl (by simpa using hneed)⟩, .enough hneed⟩
  · obtain ⟨counts, hcrun, hcounts, hkeys⟩ := countDeviceChildren_spec h
    have hcan : ∀ id b, s.blocks.get? id = some b → ∃ v, demotable counts b = .ok v := by
      intro id b hb
      obtain ⟨v, hv, -⟩ := demotable_spec h.ids hcounts hb
      exact ⟨v, hv⟩
    set leaves := (counts.entries.filter fun e => e.2 = 0).map Prod.fst with hleaves
    obtain ⟨heap, queued, hrun, hnd, hmem, hq⟩ := queueAll_keys h.ids hcan leaves [] ∅
      (nodup_reverse.mp (nodup_zeroIds counts)) nodup_nil (fun x => by simp [Waiting])
      (by simp)
    have hheap : Queue (Keys ((demotionPolicy weight).Eligible s)) (heapify heap) := by
      refine .build hnd fun k => ?_
      rw [hmem]
      constructor
      · rintro (hk | ⟨x, b, -, hb, hc, rfl⟩)
        · simp at hk
        · have hx := h.ids x b hb
          subst hx
          obtain ⟨v, hv, hvP⟩ := demotable_spec h.ids hcounts hb
          rw [hv] at hc
          obtain ⟨hnow, hleaf⟩ := hvP.mp (Except.ok.inj hc)
          exact ⟨b, (demotionEligible_iff h).mpr ⟨hb, hnow, hleaf⟩, rfl⟩
      · rintro ⟨b, hb, rfl⟩
        obtain ⟨hget, hnow, hleaf⟩ := (demotionEligible_iff h).mp hb
        obtain ⟨v, hv, hvP⟩ := demotable_spec h.ids hcounts hget
        have hv1 : v = true := hvP.mpr ⟨hnow, hleaf⟩
        subst hv1
        refine Or.inr ⟨b.stableBlockId, b, ?_, hget, hv, rfl⟩
        have hcount := hcounts _ b hget hnow.2.1
        rw [deviceLeaf_iff.mp hleaf] at hcount
        have := mem_zeroIds.mpr (by simpa using hcount)
        simpa [hleaves] using this
    have hdev : s.deviceSize ≤ s.blocks.size := by
      rw [← card_keySet]
      exact card_filter_le _ _
    simp only [wp_bind, wp_get, wp_lift, hcrun, ← hleaves, hrun]
    exact demoteLoop_greedy (2 * s.blocks.size + 1) s (heapify heap) queued counts [] 0 h .nil
      (by simp) rfl hcounts hheap (fun x hx => waiting_heapify.mpr (hq x hx)) (by omega)

theorem demoteDeviceUntilWeight_spec (h : WellFormed s) (needed : Int)
    (weight : PrefixCacheBlock ι π → Int) :
    wp (demoteDeviceUntilWeight needed weight)
      (fun r s' => ∃ bs, r = bs.map demoted ∧ DemoteResult weight needed s bs s')
      (fun e s' => e = .valueError "Prefix cache demotion weight must be non-negative" ∧
        (∃ bs, Demotions s s' bs) ∧ ∃ id b, s'.blocks.get? id = some b ∧ weight b < 0) s :=
  wp_mono (demoteDeviceUntilWeight_greedy h needed weight)
    (fun _ _ ⟨bs, hr, hres, _⟩ => ⟨bs, hr, hres⟩) fun _ _ he => he

end

section

variable {s : RadixPrefixIndex ι π} {b : PrefixCacheBlock ι π}

def Touched (old new : PrefixCacheBlock ι π) : Prop := ∃ t, new = { old with lastAccess := t }

theorem touchChain_spec (h : WellFormed s) (bs : List (PrefixCacheBlock ι π)) :
    wp (touchChain bs) (fun _ s' => Steps s s' ∧ Updated Touched s.blocks s'.blocks)
      (fun _ _ => False) s := by
  have htrefl : ∀ b : PrefixCacheBlock ι π, Touched b b := fun b => ⟨b.lastAccess, rfl⟩
  simp only [touchChain, wp_bind, wp_of_ok tick_run]
  refine forEach_inv (I := fun _ s' => Steps s s' ∧ Updated Touched s.blocks s'.blocks)
    (fun b _ s₁ hI => ?_) bs _ ⟨.single (Step.quiet_clock h _), .refl htrefl⟩
  obtain ⟨hsteps, hupd⟩ := hI
  have h₁ : WellFormed s₁ := hsteps.wf h
  rw [wp_modify]
  by_cases hi : s₁.isIndexed b = true
  · obtain ⟨c, hc, ho⟩ := isIndexed_iff.mp hi
    have hid : SameIdentity c { c with lastAccess := s.clock + 1 } := ⟨rfl, rfl, rfl, rfl, rfl⟩
    rw [deref_of_indexed hc ho, h₁.assign_eq hc hid]
    refine ⟨hsteps.tail (Step.quiet_set h₁ hc hid ⟨⟨.rfl, .rfl, rfl⟩, rfl⟩ s₁.clock
      s₁.epochs.mutation), hupd.trans (Updated.set hc hid ⟨_, rfl⟩ htrefl) ?_⟩
    rintro a b c ⟨t, rfl⟩ ⟨t', rfl⟩
    exact ⟨t', rfl⟩
  · have hi : s₁.isIndexed b = false := by simpa using hi
    have hass : s₁.assign { s₁.deref b with lastAccess := s.clock + 1 } = s₁ := by
      rw [deref_of_not_indexed hi]
      exact assign_of_not_indexed hi
    rw [hass]
    exact ⟨hsteps, hupd⟩

theorem rollbackInsertedLeaf_removes (h : WellFormed s) (b : PrefixCacheBlock ι π) :
    wp (rollbackInsertedLeaf b)
      (fun _ s' => ∃ c s₁, c.objectId = b.objectId ∧ Removable s b.stableBlockId c ∧ Step s s₁ ∧
        s₁.blocks = s.blocks.erase b.stableBlockId ∧
        s' = { s₁ with committedBlocks := s₁.committedBlocks - 1 })
      (fun _ s' => s' = s) s := by
  simp only [rollbackInsertedLeaf, wp_bind, wp_get, wp_raiseIf, wp_lift]
  refine ⟨fun _ => trivial, fun hi => ⟨fun _ => trivial, fun _ => ?_⟩⟩
  obtain ⟨c, hc, ho⟩ := isIndexed_iff.mp (by simpa using hi)
  obtain ⟨n, hn, -⟩ := childCount_spec h (Dict.mem_keySet.mpr ⟨c, hc⟩)
  simp only [hn]
  refine ⟨fun _ => trivial, fun _ => ⟨fun _ => trivial, fun _ => ?_⟩⟩
  refine wp_mono (removeBlockFromIndex_spec h b.stableBlockId) ?_ fun _ _ he => he.1
  rintro r s₁ ⟨hr, hstep, hblocks⟩
  have hrc : r = c := by
    have := hr.1
    rw [hc] at this
    exact (Option.some.inj this).symm
  subst hrc
  exact ⟨r, s₁, ho, hr, hstep, hblocks, rfl⟩

theorem WellFormed.committedBlocks {s : RadixPrefixIndex ι π} (h : WellFormed s)
    (n : Nat) : WellFormed { s with committedBlocks := n } :=
  { h with }

theorem rollbackInsertedLeaf_spec (h : WellFormed s) (b : PrefixCacheBlock ι π) :
    wp (rollbackInsertedLeaf b)
      (fun _ s' => ∃ c, c.objectId = b.objectId ∧ Removable s b.stableBlockId c ∧ Steps s s' ∧
        s'.blocks = s.blocks.erase b.stableBlockId)
      (fun _ s' => s' = s) s := by
  refine wp_mono (rollbackInsertedLeaf_removes h b) ?_ fun _ _ he => he
  rintro - s' ⟨c, s₁, ho, hr, hstep, hblocks, rfl⟩
  refine ⟨c, ho, hr, .tail (.single hstep) ⟨hstep.wf.committedBlocks _, ?_⟩, hblocks⟩
  exact .quiet (.refl SameViews.refl) rfl le_rfl rfl ⟨fun v => by cases v <;> rfl, rfl⟩

theorem markPayloadCompacted_spec (h : WellFormed s) (bs : List (PrefixCacheBlock ι π)) :
    wp (markPayloadCompacted bs) (fun _ s' => Unchanged s s') (fun _ s' => s' = s) s := by
  rw [markPayloadCompacted, wp_ite]
  split
  · exact .refl s
  · rw [wp_bind]
    refine wp_mono (forEach_inv (I := fun _ s' => s' = s) (E := fun _ s' => s' = s)
      (fun b _ s₁ hs₁ => ?_) bs s rfl) ?_ fun _ _ he => he
    · subst hs₁
      simp only [validateIndexedBlock, wp_bind, wp_get, wp_raiseIf]
      exact ⟨fun _ => trivial, fun _ => trivial⟩
    · rintro - s₁ rfl
      rw [wp_modify]
      exact ⟨.single (Step.bump h (Nat.lt_succ_self _) (Nat.le_succ _) rfl), rfl⟩

theorem ensureInsertCapacity_spec (cfg : PrefixIndexConfig ι) (h : WellFormed s) (needed : Int) :
    wp (ensureInsertCapacity cfg needed) (fun bs s' => Removals s s' bs)
      (fun _ s' => ∃ bs s₁, Removals s s₁ bs ∧ Unchanged s₁ s') s := by
  unfold ensureInsertCapacity
  cases cfg.maxBlocks with
  | none => exact .nil
  | some m =>
    simp only [wp_bind, wp_raiseIf, wp_get, wp_ite]
    refine ⟨fun _ => ⟨[], s, .nil, .refl s⟩, fun _ => ?_⟩
    split
    · exact .nil
    · refine wp_mono (evictUntilWeight_spec h _ _) ?_ ?_
      · intro bs s₁ hev
        split
        · exact hev.removals
        · simp only [wp_raise]
          refine wp_mono (evictableBlockIds_spec (hev.removals.steps.wf h)) ?_ fun _ _ he => he.elim
          rintro - s₂ ⟨-, hs₂⟩
          exact ⟨bs, s₁, hev.removals, hs₂⟩
      · rintro e s₁ ⟨⟨bs, hrem⟩, -⟩
        exact ⟨bs, s₁, hrem, .refl s₁⟩

theorem deleteLoop_removals : ∀ (planned deleted bs : List (PrefixCacheBlock ι π))
    (s₁ : RadixPrefixIndex ι π), WellFormed s₁ → Removals s s₁ bs →
    wp (deleteLoop planned deleted) (fun _ s' => ∃ bs, Removals s s' bs)
      (fun _ s' => ∃ bs, Removals s s' bs) s₁ := by
  intro planned
  induction planned with
  | nil => exact fun _ bs s₁ _ hrem => ⟨bs, hrem⟩
  | cons b planned ih =>
    intro deleted bs s₁ h₁ hrem
    simp only [deleteLoop, wp_bind, wp_get, wp_raiseIf]
    refine ⟨fun _ => ⟨bs, hrem⟩, fun _ => ?_⟩
    refine wp_mono (removeBlockFromIndex_spec h₁ b.stableBlockId) ?_ ?_
    · rintro r s₂ ⟨hr, hstep, hblocks⟩
      have hid := h₁.ids _ r hr.1
      exact ih _ (bs ++ [r]) s₂ hstep.wf (hrem.snoc (hid ▸ hr) hstep (hid ▸ hblocks))
    · rintro e s₂ ⟨rfl, -⟩
      exact ⟨bs, hrem⟩

theorem safeDeleteSubtree_spec (cfg : PrefixIndexConfig ι) (h : WellFormed s)
    (tokenIds : List Int) :
    wp (safeDeleteSubtree cfg tokenIds) (fun _ s' => ∃ bs, Removals s s' bs)
      (fun _ s' => ∃ bs, Removals s s' bs) s := by
  simp only [safeDeleteSubtree, wp_bind, wp_get, wp_lift]
  cases s.previewDeleteSubtree cfg tokenIds with
  | error e => exact ⟨[], .nil⟩
  | ok plan =>
    simp only [wp_pure]
    exact deleteLoop_removals plan.deletedBlocks [] [] s h .nil

def Repriced (old new : PrefixCacheBlock ι π) : Prop := ∃ p, new = { old with evictionPriority := p }

theorem setPriorityLoop_spec (priority : Int) : ∀ (ids : List ι) (s₁ : RadixPrefixIndex ι π)
    (n : Nat) (changed crossed : Bool), WellFormed s₁ → Updated Repriced s.blocks s₁.blocks →
    (crossed = false → Updated SameViews s.blocks s₁.blocks) → Framed s s₁ → s₁.epochs = s.epochs →
    (changed = false → s₁ = s) →
    wp (setPriorityLoop priority ids n changed crossed)
      (fun r s' => WellFormed s' ∧ Updated Repriced s.blocks s'.blocks ∧
        (r.2.2 = false → Updated SameViews s.blocks s'.blocks) ∧ Framed s s' ∧
        s'.epochs = s.epochs ∧ (r.2.1 = false → s' = s)) (fun _ _ => False) s₁ := by
  intro ids
  induction ids with
  | nil =>
    intro s₁ n changed crossed h₁ hupd hviews hfr hep hch
    exact ⟨h₁, hupd, hviews, hfr, hep, hch⟩
  | cons id ids ih =>
    intro s₁ n changed crossed h₁ hupd hviews hfr hep hch
    simp only [setPriorityLoop, wp_bind, wp_get]
    cases hb : s₁.blocks.get? id with
    | none => exact ih s₁ n changed crossed h₁ hupd hviews hfr hep hch
    | some c =>
      simp only [wp_ite]
      split
      · exact ih s₁ _ changed crossed h₁ hupd hviews hfr hep hch
      · have hid : SameIdentity c { c with evictionPriority := priority } := ⟨rfl, rfl, rfl, rfl, rfl⟩
        have hrep : ∀ a b c : PrefixCacheBlock ι π, Repriced a b → Repriced b c → Repriced a c := by
          rintro a b c ⟨p, rfl⟩ ⟨q, rfl⟩
          exact ⟨q, rfl⟩
        have hset : Updated Repriced s₁.blocks
            (s₁.blocks.set id { c with evictionPriority := priority }) :=
          Updated.set hb hid ⟨priority, rfl⟩ fun b => ⟨b.evictionPriority, rfl⟩
        simp only [wp_bind, wp_modify, h₁.assign_eq hb hid]
        split
        · next hcross =>
          obtain ⟨F, counts, hrun, hwf⟩ := h₁.set_refresh hb hid (.same h₁.residency hb rfl)
          rw [wp_bind, wp_of_ok hrun]
          refine ih _ _ _ _ hwf (hupd.trans hset hrep) (fun hno => ?_)
            ⟨fun v => by rw [← hfr.cache v]; cases v <;> rfl, hfr.journal⟩ hep (by simp)
          simp [hcross] at hno
        · next hcross =>
          have hsame : SameViews c { c with evictionPriority := priority } := by
            refine ⟨⟨.rfl, ?_, rfl⟩, rfl⟩
            rw [Bool.not_eq_true, bne_eq_false_iff_eq, decide_eq_decide] at hcross
            exact hcross.symm
          have hblk : ({ c with evictionPriority := priority } : PrefixCacheBlock ι π).locallyBlocked
              = c.locallyBlocked := by
            unfold PrefixCacheBlock.locallyBlocked
            rw [decide_eq_decide.mpr hsame.priority]
          refine ih _ _ _ _ (h₁.set_same hb hid (.same h₁.residency hb rfl) hblk)
            (hupd.trans hset hrep) (fun hno => ?_)
            ⟨fun v => by rw [← hfr.cache v]; cases v <;> rfl, hfr.journal⟩ hep (by simp)
          have hno' : crossed = false := by simp at hno; exact hno.1
          refine (hviews hno').trans (Updated.set hb hid hsame SameViews.refl) ?_
          rintro a b c ⟨⟨h1, h2, h3⟩, h4⟩ ⟨⟨h5, h6, h7⟩, h8⟩
          exact ⟨⟨h5.trans h1, h6.trans h2, h7.trans h3⟩, h8.trans h4⟩

theorem setSubtreeEvictionPriority_spec (cfg : PrefixIndexConfig ι) (h : WellFormed s)
    (tokenIds : List Int) (priority : Int) :
    wp (setSubtreeEvictionPriority cfg tokenIds priority)
      (fun _ s' => Steps s s' ∧ Updated Repriced s.blocks s'.blocks)
      (fun _ s' => s' = s) s := by
  have hrefl : Updated Repriced s.blocks s.blocks := .refl fun b => ⟨b.evictionPriority, rfl⟩
  simp only [setSubtreeEvictionPriority, wp_bind, wp_get, wp_ite]
  split
  · exact ⟨.refl, hrefl⟩
  · simp only [wp_lift]
    cases s.backend.lookup (blockIdsForTokens cfg tokenIds) (blockIdsForTokens cfg tokenIds).length with
    | error e => trivial
    | ok result =>
      simp only
      cases result.lastBlockId with
      | none => exact ⟨.refl, hrefl⟩
      | some last =>
        simp only [wp_ite]
        split
        · exact ⟨.refl, hrefl⟩
        · simp only [wp_bind, wp_lift]
          cases s.backend.subtreeBlockIds last with
          | error e => trivial
          | ok ids =>
            simp only
            refine wp_mono (setPriorityLoop_spec (s := s) priority ids s 0 false false h hrefl
              (fun _ => .refl SameViews.refl) (.refl s) rfl (fun _ => rfl)) ?_ fun _ _ he => he.elim
            rintro ⟨n, changed, crossed⟩ s₁ ⟨h₁, hupd, hviews, hfr, hep, hch⟩
            simp only at hviews hch ⊢
            have hfr' : ∀ e : IndexEpochs, Framed s { s₁ with epochs := e } := fun e =>
              ⟨fun v => by rw [← hfr.cache v]; cases v <;> rfl, hfr.journal⟩
            split
            · refine ⟨.single ⟨h₁.withEpochs _, .update (hupd.mono ?_) ?_ ?_ ?_ (hfr' _)⟩, hupd⟩
              · rintro a b ⟨p, rfl⟩
                exact Or.inl ⟨rfl, rfl⟩
              · rw [← hep]
                exact Nat.lt_succ_self _
              · exact hep ▸ le_rfl
              · exact hep ▸ rfl
            · next hcross =>
              split
              · exact ⟨.single ⟨h₁.withEpochs _, .quiet (hviews (by simpa using hcross))
                  (hep ▸ rfl) (hep ▸ le_rfl) (hep ▸ rfl) (hfr' _)⟩, hupd⟩
              · next hno =>
                have hs : s₁ = s := hch (by simpa using hno)
                subst hs
                exact ⟨.refl, hupd⟩

end

end SparseEngine.RadixPrefixIndex
