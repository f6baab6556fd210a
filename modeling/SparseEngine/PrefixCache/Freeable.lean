import SparseEngine.PrefixCache.Index

/-! The index keeps the set of blocks that repeated leaf eviction can remove. -/

namespace SparseEngine.RadixPrefixIndex

open List Function Finset Dict

variable {ι π : Type} [LinearOrder ι]

/-- `id` is indexed and nothing local blocks its eviction. -/
def LocallyFree (blocks : Dict ι (PrefixCacheBlock ι π)) (id : ι) : Prop :=
  ∃ b, blocks.get? id = some b ∧ b.locallyBlocked = false

/-- The blocks below `id` that are outside `F`. -/
def blockedChildren (blocks : Dict ι (PrefixCacheBlock ι π)) (F : Finset ι) (id : ι) : Finset ι :=
  keptChildren blocks.keySet (parentMap blocks) F id

/-- The counters are exact, and `F` satisfies the one-step equation outside `X`. -/
structure TracksExcept (blocks : Dict ι (PrefixCacheBlock ι π)) (X F : Finset ι)
    (counts : Dict ι Int) : Prop where
  sub : ∀ b ∈ F, b ∈ blocks.keySet
  keys : ∀ b n, counts.get? b = some n → b ∈ blocks.keySet
  count : ∀ b ∈ blocks.keySet, counts.get? b = some ((blockedChildren blocks F b).card : Int)
  eqn : ∀ b ∈ blocks.keySet, b ∉ X →
    (b ∈ F ↔ LocallyFree blocks b ∧ (blockedChildren blocks F b).card = 0)

/-- `F` is the freeable set and `counts` its counters. -/
abbrev Tracks (blocks : Dict ι (PrefixCacheBlock ι π)) (F : Finset ι) (counts : Dict ι Int) : Prop :=
  TracksExcept blocks ∅ F counts

theorem parentMap_eq {blocks : Dict ι (PrefixCacheBlock ι π)} {id : ι} {q : Option ι} :
    parentMap blocks id = some q ↔ ∃ b, blocks.get? id = some b ∧ b.parentBlockId = q := by
  simp [parentMap]

theorem parentMap_of_get {blocks : Dict ι (PrefixCacheBlock ι π)} {id : ι}
    {b : PrefixCacheBlock ι π} (h : blocks.get? id = some b) :
    parentMap blocks id = some b.parentBlockId := by
  simp [parentMap, h]

namespace TracksExcept

variable {blocks : Dict ι (PrefixCacheBlock ι π)} {X F : Finset ι} {counts : Dict ι Int} {x p : ι}

theorem mono {Y : Finset ι} (h : TracksExcept blocks X F counts) (hXY : X ⊆ Y) :
    TracksExcept blocks Y F counts where
  __ := h
  eqn := fun b hb hbY => h.eqn b hb fun hbX => hbY (hXY hbX)

theorem erase_of_eqn (h : TracksExcept blocks X F counts)
    (hx : x ∈ F ↔ LocallyFree blocks x ∧ (blockedChildren blocks F x).card = 0) :
    TracksExcept blocks (X.erase x) F counts where
  __ := h
  eqn := fun b hb hbX => by
    by_cases hbx : b = x
    · rw [hbx]; exact hx
    · exact h.eqn b hb fun hbX' => hbX (Finset.mem_erase.mpr ⟨hbx, hbX'⟩)

theorem mem_iff (h : Tracks blocks F counts) (hf : Forest blocks.keySet (parentMap blocks))
    {b : ι} : b ∈ F ↔ b ∈ blocks.keySet ∧ Clear (parentMap blocks) (LocallyFree blocks) b := by
  have key : ∀ b ∈ blocks.keySet, b ∈ F ↔ Clear (parentMap blocks) (LocallyFree blocks) b := by
    refine clear_iff_of_fixpoint hf fun b hb => ?_
    rw [h.eqn b hb (notMem_empty b), card_eq_zero,
      eq_empty_iff_forall_notMem]
    refine and_congr_right fun _ => ?_
    simp only [blockedChildren, mem_keptChildren]
    constructor
    · intro hno c hc
      by_contra hcF
      exact hno c ⟨hf.mem_of_parent hc, hc, hcF⟩
    · rintro hall c ⟨-, hc, hcF⟩
      exact hcF (hall c hc)
  constructor
  · exact fun hb => ⟨h.sub b hb, (key b (h.sub b hb)).mp hb⟩
  · rintro ⟨hb, hc⟩
    exact (key b hb).mpr hc

theorem blockedChildren_flip {F' : Finset ι} (hF' : F' = insert x F ∨ F' = F.erase x) {b : ι}
    (hb : parentMap blocks x ≠ some (some b)) :
    blockedChildren blocks F' b = blockedChildren blocks F b := by
  rcases hF' with rfl | rfl
  · exact keptChildren_insert_of_ne hb
  · exact keptChildren_erase_of_ne hb

theorem flip_root (h : TracksExcept blocks X F counts) (hx : x ∈ blocks.keySet)
    {F' : Finset ι} (hF' : F' = insert x F ∨ F' = F.erase x)
    (hroot : parentMap blocks x = some none)
    (heq : x ∈ F' ↔ LocallyFree blocks x ∧ (blockedChildren blocks F x).card = 0) :
    TracksExcept blocks (X.erase x) F' counts := by
  have hkept : ∀ b, blockedChildren blocks F' b = blockedChildren blocks F b := fun b =>
    blockedChildren_flip hF' (by rw [hroot]; simp)
  have hmem : ∀ {b}, b ≠ x → (b ∈ F' ↔ b ∈ F) := by
    intro b hbx
    rcases hF' with rfl | rfl <;> simp [hbx]
  refine ⟨fun b hb => ?_, h.keys, fun b hb => ?_, fun b hb hbX => ?_⟩
  · by_cases hbx : b = x
    · rw [hbx]; exact hx
    · exact h.sub b ((hmem hbx).mp hb)
  · rw [hkept]
    exact h.count b hb
  · rw [hkept]
    by_cases hbx : b = x
    · subst hbx; exact heq
    · rw [hmem hbx]
      exact h.eqn b hb fun hbX' => hbX (Finset.mem_erase.mpr ⟨hbx, hbX'⟩)

theorem flip_child (hf : Forest blocks.keySet (parentMap blocks))
    (h : TracksExcept blocks X F counts) (hx : x ∈ blocks.keySet) {F' : Finset ι} {δ : Int}
    (hF' : F' = insert x F ∧ x ∉ F ∧ δ = -1 ∨ F' = F.erase x ∧ x ∈ F ∧ δ = 1)
    (hp : parentMap blocks x = some (some p))
    (heq : x ∈ F' ↔ LocallyFree blocks x ∧ (blockedChildren blocks F x).card = 0) :
    TracksExcept blocks (insert p (X.erase x)) F'
      (counts.set p (((blockedChildren blocks F p).card : Int) + δ)) := by
  have hflip : F' = insert x F ∨ F' = F.erase x := hF'.imp And.left And.left
  have hpx : p ≠ x := by
    rintro rfl
    exact hf.not_below_parent hp .refl
  have hpS : p ∈ blocks.keySet := hf.closed x p hp
  have hkept : ∀ {b}, b ≠ p → blockedChildren blocks F' b = blockedChildren blocks F b := by
    intro b hbp
    refine blockedChildren_flip hflip ?_
    rw [hp]
    simpa [eq_comm] using hbp
  have hmem : ∀ {b}, b ≠ x → (b ∈ F' ↔ b ∈ F) := by
    intro b hbx
    rcases hflip with rfl | rfl <;> simp [hbx]
  refine ⟨fun b hb => ?_, fun b n hb => ?_, fun b hb => ?_, fun b hb hbX => ?_⟩
  · by_cases hbx : b = x
    · rw [hbx]; exact hx
    · exact h.sub b ((hmem hbx).mp hb)
  · by_cases hbp : b = p
    · rw [hbp]; exact hpS
    · rw [get?_set_ne _ _ hbp] at hb
      exact h.keys b n hb
  · by_cases hbp : b = p
    · subst hbp
      rw [get?_set_self]
      rcases hF' with ⟨rfl, hxF, rfl⟩ | ⟨rfl, hxF, rfl⟩
      · have := card_keptChildren_insert hx hp hxF
        simp only [blockedChildren]
        congr 1
        omega
      · have := card_keptChildren_erase hx hp hxF
        simp only [blockedChildren]
        congr 1
        omega
    · rw [get?_set_ne _ _ hbp, hkept hbp]
      exact h.count b hb
  · rw [Finset.mem_insert, not_or] at hbX
    rw [hkept hbX.1]
    by_cases hbx : b = x
    · subst hbx; exact heq
    · rw [hmem hbx]
      exact h.eqn b hb fun hbX' => hbX.2 (Finset.mem_erase.mpr ⟨hbx, hbX'⟩)

end TracksExcept

section

variable {blocks : Dict ι (PrefixCacheBlock ι π)} {X F : Finset ι} {counts : Dict ι Int} {x p : ι}
  {b : PrefixCacheBlock ι π} {fuel : Nat}

theorem entry_of_get {V : Type} {d : Dict ι V} {k : ι} {v : V} (h : d.get? k = some v) :
    entry d k = .ok v := by
  simp [entry, h]

theorem locallyFree_iff (hb : blocks.get? x = some b) :
    LocallyFree blocks x ↔ b.locallyBlocked = false := by
  simp [LocallyFree, hb]

theorem refreshLoop_step (hf : Forest blocks.keySet (parentMap blocks))
    (h : TracksExcept blocks X F counts) (hb : blocks.get? x = some b) :
    (refreshLoop blocks (fuel + 1) (some x) (F, counts) = (.ok (), (F, counts)) ∧
      TracksExcept blocks (X.erase x) F counts) ∨
    (b.parentBlockId = none ∧ ∃ F',
      refreshLoop blocks (fuel + 1) (some x) (F, counts) = (.ok (), (F', counts)) ∧
      TracksExcept blocks (X.erase x) F' counts) ∨
    (∃ p F' counts', b.parentBlockId = some p ∧
      refreshLoop blocks (fuel + 1) (some x) (F, counts) =
        refreshLoop blocks fuel (some p) (F', counts') ∧
      TracksExcept blocks (insert p (X.erase x)) F' counts') := by
  have hx : x ∈ blocks.keySet := Dict.mem_keySet.mpr ⟨b, hb⟩
  have hpar := parentMap_of_get hb
  obtain ⟨n, hcount, hn⟩ : ∃ n, counts.get? x = some n ∧ n = (blockedChildren blocks F x).card :=
    ⟨_, h.count x hx, rfl⟩
  -- The loop's test is the right-hand side of the equation at `x`.
  obtain ⟨test, htest⟩ : ∃ test : Bool, test = (decide (n = 0) && !b.locallyBlocked) := ⟨_, rfl⟩
  have heq : test = true ↔ LocallyFree blocks x ∧ (blockedChildren blocks F x).card = 0 := by
    rw [htest, locallyFree_iff hb, hn]
    simp [and_comm]
  by_cases hsame : test = decide (x ∈ F)
  · refine Or.inl ⟨?_, h.erase_of_eqn ?_⟩
    · simp only [refreshLoop, PyM.bind_run, PyM.lift_run, PyM.get_run, entry_of_get hb,
        entry_of_get hcount, ← htest, if_pos hsame, PyM.pure_run]
    · rw [← heq, hsame, decide_eq_true_eq]
  · have hflip : test = true ∧ x ∉ F ∨ test = false ∧ x ∈ F := by
      cases test <;> simp_all
    have hmem : x ∈ (if test = true then insert x F else F.erase x) ↔
        LocallyFree blocks x ∧ (blockedChildren blocks F x).card = 0 := by
      rw [← heq]
      cases test <;> simp
    refine Or.inr ?_
    cases hp : b.parentBlockId with
    | none =>
      refine Or.inl ⟨rfl, if test = true then insert x F else F.erase x, ?_, ?_⟩
      · simp only [refreshLoop, PyM.bind_run, PyM.lift_run, PyM.get_run, entry_of_get hb,
          entry_of_get hcount, ← htest, if_neg hsame, PyM.modify_run, hp, PyM.pure_run]
      · refine h.flip_root hx ?_ (hpar.trans (by rw [hp])) hmem
        cases test <;> simp
    | some p =>
      have hpx : parentMap blocks x = some (some p) := hpar.trans (by rw [hp])
      have hpcount := h.count p (hf.closed x p hpx)
      refine Or.inr ⟨p, if test = true then insert x F else F.erase x, _, rfl, ?_,
        TracksExcept.flip_child hf h hx (δ := if test = true then -1 else 1) ?_ hpx hmem⟩
      · simp only [refreshLoop, PyM.bind_run, PyM.lift_run, PyM.get_run, entry_of_get hb,
          entry_of_get hcount, ← htest, if_neg hsame, PyM.modify_run, hp, entry_of_get hpcount]
      · rcases hflip with ⟨rfl, hxF⟩ | ⟨rfl, hxF⟩
        · exact Or.inl ⟨rfl, hxF, rfl⟩
        · exact Or.inr ⟨rfl, hxF, rfl⟩

theorem refreshLoop_spec (hf : Forest blocks.keySet (parentMap blocks)) {l : List ι}
    (hl : RootPath (parentMap blocks) x l) (hfuel : l.length ≤ fuel)
    (h : TracksExcept blocks {x} F counts) :
    ∃ F' counts', refreshLoop blocks fuel (some x) (F, counts) = (.ok (), (F', counts')) ∧
      Tracks blocks F' counts' := by
  induction hl generalizing fuel F counts with
  | @root x hr =>
    obtain ⟨fuel, rfl⟩ := Nat.exists_eq_succ_of_ne_zero (Nat.ne_zero_of_lt hfuel)
    obtain ⟨b, hb, hbp⟩ := parentMap_eq.mp hr
    have hX : ({x} : Finset ι).erase x = ∅ := by simp
    rcases refreshLoop_step hf h hb with ⟨hrun, ht⟩ | ⟨-, F', hrun, ht⟩ | ⟨p, _, _, hp, -, -⟩
    · exact ⟨F, counts, hrun, by rwa [hX] at ht⟩
    · exact ⟨F', counts, hrun, by rwa [hX] at ht⟩
    · rw [hbp] at hp
      cases hp
  | @child x p l hc hpath ih =>
    obtain ⟨fuel, rfl⟩ : ∃ n, fuel = n + 1 := ⟨fuel - 1, by simp at hfuel; omega⟩
    obtain ⟨b, hb, hbp⟩ := parentMap_eq.mp hc
    have hX : ({x} : Finset ι).erase x = ∅ := by simp
    rcases refreshLoop_step hf h hb with ⟨hrun, ht⟩ | ⟨hp, -⟩ | ⟨p', F', counts', hp, hrun, ht⟩
    · exact ⟨F, counts, hrun, by rwa [hX] at ht⟩
    · rw [hbp] at hp
      cases hp
    · rw [hbp] at hp
      cases hp
      rw [hX] at ht
      obtain ⟨F'', counts'', hrun', ht'⟩ := ih (by simpa using hfuel) ht
      exact ⟨F'', counts'', hrun.trans hrun', ht'⟩

theorem refreshLoop_pair (hf : Forest blocks.keySet (parentMap blocks)) {l : List ι}
    (hl : RootPath (parentMap blocks) x l) (hfuel : l.length ≤ fuel)
    (hb : blocks.get? x = some b) (hp : b.parentBlockId = some p)
    (h : TracksExcept blocks {x, p} F counts) :
    ∃ F' counts', refreshLoop blocks fuel (some x) (F, counts) = (.ok (), (F', counts')) ∧
      TracksExcept blocks {p} F' counts' := by
  have hpar : parentMap blocks x = some (some p) := (parentMap_of_get hb).trans (by rw [hp])
  have hpx : p ≠ x := by
    rintro rfl
    exact hf.not_below_parent hpar .refl
  have hX : ({x, p} : Finset ι).erase x = {p} := by
    ext y
    simp only [Finset.mem_erase, Finset.mem_insert, Finset.mem_singleton]
    constructor
    · rintro ⟨h1, rfl | h1⟩
      · exact absurd rfl h1
      · exact h1
    · rintro rfl
      exact ⟨hpx, Or.inr rfl⟩
  cases hl with
  | root hr => rw [hpar] at hr; cases hr
  | @child _ p' l hc hpath =>
    rw [hpar] at hc
    cases hc
    obtain ⟨fuel, rfl⟩ : ∃ n, fuel = n + 1 := ⟨fuel - 1, by simp at hfuel; omega⟩
    rcases refreshLoop_step hf h hb with ⟨hrun, ht⟩ | ⟨hp', -⟩ | ⟨p', F', counts', hp', hrun, ht⟩
    · exact ⟨F, counts, hrun, by rwa [hX] at ht⟩
    · rw [hp] at hp'
      cases hp'
    · rw [hp] at hp'
      cases hp'
      rw [hX, insert_eq_of_mem (mem_singleton_self p)] at ht
      obtain ⟨F'', counts'', hrun', ht'⟩ := refreshLoop_spec hf hpath (by simpa using hfuel) ht
      exact ⟨F'', counts'', hrun.trans hrun', ht'.mono (by simp)⟩

end

section

def countAt (counts : Dict ι Int) (b : ι) : Int := (counts.get? b).getD 0

theorem get?_eq_countAt {counts : Dict ι Int} {b : ι} (h : b ∈ counts.keySet) :
    counts.get? b = some (countAt counts b) := by
  obtain ⟨n, hn⟩ := Dict.mem_keySet.mp h
  simp [countAt, hn]

theorem countAt_set (counts : Dict ι Int) (p : ι) (n : Int) :
    countAt (counts.set p n) = update (countAt counts) p n := by
  funext b
  by_cases hb : b = p
  · subst hb; simp [countAt]
  · simp [countAt, hb, get?_set_ne _ _ hb]

theorem addCount_eq {counts : Dict ι Int} {p : ι} {δ : Int} (h : p ∈ counts.keySet) :
    addCount counts p δ = .ok (counts.set p (countAt counts p + δ)) := by
  simp only [addCount, entry_of_get (get?_eq_countAt h)]
  rfl

theorem keySet_set_of_mem {V : Type} {d : Dict ι V} {p : ι} {v : V} (h : p ∈ d.keySet) :
    (d.set p v).keySet = d.keySet := by
  rw [keySet_set, insert_eq_of_mem h]

theorem zeros_spec (ids : List ι) (d : Dict ι Int) :
    (ids.foldl (fun d blockId => d.set blockId 0) d).keySet = ids.toFinset ∪ d.keySet ∧
      ((∀ b, countAt d b = 0) → ∀ b, countAt (ids.foldl (fun d blockId => d.set blockId 0) d) b = 0) := by
  induction ids generalizing d with
  | nil => simp
  | cons a ids ih =>
    obtain ⟨hk, hz⟩ := ih (d.set a 0)
    refine ⟨?_, fun h0 => ?_⟩
    · rw [foldl_cons, hk, keySet_set]
      ext b
      simp only [Finset.mem_union, List.mem_toFinset, Finset.mem_insert, List.mem_cons]
      tauto
    · refine hz fun b => ?_
      rw [countAt_set]
      by_cases hb : b = a
      · subst hb; simp
      · simp [hb, h0]

theorem countEdges_spec {α : Type} (parentOf : α → Option ι) (xs : List α) {counts : Dict ι Int}
    (hp : ∀ x ∈ xs, ∀ p, parentOf x = some p → p ∈ counts.keySet) :
    ∃ counts', xs.foldlM (fun counts x => countEdge (parentOf x) counts) counts = .ok counts' ∧
      counts'.keySet = counts.keySet ∧
      ∀ b, countAt counts' b = countAt counts b + (xs.filter fun x => parentOf x = some b).length := by
  induction xs generalizing counts with
  | nil => exact ⟨counts, rfl, rfl, by simp⟩
  | cons x xs ih =>
    cases hx : parentOf x with
    | none =>
      obtain ⟨counts', hrun, hkeys, hcount⟩ := ih fun y hy => hp y (mem_cons_of_mem _ hy)
      refine ⟨counts', ?_, hkeys, fun b => ?_⟩
      · rw [foldlM_cons]
        simp only [hx, countEdge]
        exact hrun
      · rw [hcount]
        simp [hx]
    | some p =>
      have hpk := hp x mem_cons_self p hx
      have hkey : (counts.set p (countAt counts p + 1)).keySet = counts.keySet :=
        keySet_set_of_mem hpk
      have hstep : ∀ y ∈ xs, ∀ q, parentOf y = some q →
          q ∈ (counts.set p (countAt counts p + 1)).keySet := fun y hy q hq => by
        rw [hkey]; exact hp y (mem_cons_of_mem _ hy) q hq
      obtain ⟨counts', hrun, hkeys, hcount⟩ := ih hstep
      refine ⟨counts', ?_, hkeys.trans hkey, fun b => ?_⟩
      · rw [foldlM_cons]
        simp only [hx, countEdge, addCount_eq hpk]
        exact hrun
      · rw [hcount, countAt_set]
        by_cases hb : b = p
        · subst hb; simp [hx]; omega
        · simp [hb, hx, Ne.symm hb]

variable {blocks : Dict ι (PrefixCacheBlock ι π)}

variable (blocks) in
theorem card_children_eq (p : PrefixCacheBlock ι π → Bool) (b : ι) :
    ((blocks.entries.filter fun e => p e.2).filter fun e => e.2.parentBlockId = some b).length =
      (blocks.keySet.filter fun c =>
        blockWith blocks p c = true ∧ parentMap blocks c = some (some b)).card := by
  have hnd : (((blocks.entries.filter fun e => p e.2).filter
      fun e => e.2.parentBlockId = some b).map Prod.fst).Nodup := by
    refine Nodup.sublist ?_ blocks.nodup
    exact (filter_sublist.trans filter_sublist).map _
  rw [← List.length_map (f := Prod.fst), ← toFinset_card_of_nodup hnd]
  congr 1
  ext c
  simp only [List.mem_toFinset, List.mem_map, List.mem_filter, Finset.mem_filter, Dict.mem_keySet]
  constructor
  · rintro ⟨⟨c', blk⟩, ⟨⟨he, hp⟩, hb⟩, rfl⟩
    have hg := Dict.mem_entries.mp he
    exact ⟨⟨blk, hg⟩, by simpa [blockWith, hg] using hp, by simpa [parentMap, hg] using hb⟩
  · rintro ⟨⟨blk, hg⟩, hp, hb⟩
    refine ⟨(c, blk), ⟨⟨Dict.mem_entries.mpr hg, ?_⟩, ?_⟩, rfl⟩
    · simpa [blockWith, hg] using hp
    · simpa [parentMap, hg] using hb

theorem mem_zeroIds {counts : Dict ι Int} {b : ι} :
    b ∈ ((counts.entries.filter fun e => e.2 = 0).map Prod.fst).reverse ↔
      counts.get? b = some 0 := by
  simp only [List.mem_reverse, List.mem_map, List.mem_filter, decide_eq_true_eq]
  constructor
  · rintro ⟨⟨c, n⟩, ⟨he, rfl⟩, rfl⟩
    exact Dict.mem_entries.mp he
  · intro h
    exact ⟨(b, 0), ⟨Dict.mem_entries.mpr h, rfl⟩, rfl⟩

omit [LinearOrder ι] in
theorem nodup_zeroIds (counts : Dict ι Int) :
    ((counts.entries.filter fun e => e.2 = 0).map Prod.fst).reverse.Nodup := by
  rw [nodup_reverse]
  exact Nodup.sublist (filter_sublist.map _) counts.nodup

theorem freeableLoop_spec (hf : Forest blocks.keySet (parentMap blocks)) {fuel : Nat}
    {pending : List ι} {F : Finset ι} {counts : Dict ι Int} (hkeys : counts.keySet = blocks.keySet)
    (h : Peel blocks.keySet (parentMap blocks) (LocallyFree blocks) F (countAt counts) pending)
    (hfuel : Peel.measure blocks.keySet (countAt counts) pending < fuel) :
    ∃ F' counts', freeableLoop blocks fuel pending F counts = .ok (F', counts') ∧
      counts'.keySet = blocks.keySet ∧
      Peel blocks.keySet (parentMap blocks) (LocallyFree blocks) F' (countAt counts') [] := by
  induction fuel generalizing pending F counts with
  | zero => omega
  | succ fuel ih =>
    cases pending with
    | nil => exact ⟨F, counts, rfl, hkeys, h⟩
    | cons x pending =>
      obtain ⟨hxS, -⟩ := h.pop_ready
      obtain ⟨b, hb⟩ := Dict.mem_keySet.mp hxS
      have hpar := parentMap_of_get hb
      simp only [freeableLoop, entry_of_get hb]
      by_cases hblk : b.locallyBlocked = true
      · have hno : ¬ LocallyFree blocks x := by rw [locallyFree_iff hb, hblk]; simp
        obtain ⟨F', counts', hrun, hk, hp⟩ := ih hkeys (h.pop_blocked hno)
          (by have := Peel.measure_pop blocks.keySet (countAt counts) x pending; omega)
        refine ⟨F', counts', ?_, hk, hp⟩
        simpa [bind, Except.bind, hblk] using hrun
      · have hfree : LocallyFree blocks x := by rw [locallyFree_iff hb]; simpa using hblk
        cases hbp : b.parentBlockId with
        | none =>
          have hroot : ∀ y ∈ blocks.keySet, parentMap blocks x ≠ some (some y) := by
            intro y _
            rw [hpar, hbp]
            simp
          obtain ⟨F', counts', hrun, hk, hp⟩ := ih hkeys (h.pop_root hfree hroot)
            (by have := Peel.measure_pop blocks.keySet (countAt counts) x pending; omega)
          refine ⟨F', counts', ?_, hk, hp⟩
          simpa [bind, Except.bind, hblk, hbp] using hrun
        | some p =>
          have hpx : parentMap blocks x = some (some p) := hpar.trans (by rw [hbp])
          have hpS := hf.closed x p hpx
          have hne : p ≠ x := by
            rintro rfl
            exact hf.not_below_parent hpx .refl
          have hpk : p ∈ counts.keySet := hkeys ▸ hpS
          have hstep := h.pop_child hfree hpx hpS hne
          have hmeas := h.measure_pop_child hpx hpS
          have hget : (counts.set p (countAt counts p + -1)).get? p =
              some (countAt counts p + -1) := get?_set_self _ _ _
          have hfn : update (countAt counts) p (countAt counts p - 1) =
              countAt (counts.set p (countAt counts p + -1)) := by
            rw [countAt_set]
            rfl
          rw [hfn] at hstep hmeas
          obtain ⟨F', counts', hrun, hk, hp⟩ := ih
            ((keySet_set_of_mem hpk).trans hkeys) hstep (by omega)
          refine ⟨F', counts', ?_, hk, hp⟩
          simpa [bind, Except.bind, hblk, hbp, addCount_eq hpk, entry_of_get hget, Int.sub_eq_add_neg]
            using hrun

theorem freeableScan_spec (hf : Forest blocks.keySet (parentMap blocks)) :
    ∃ F counts, freeableScan blocks = .ok (F, counts) ∧ Tracks blocks F counts := by
  set zeros := blocks.keys.foldl (fun d blockId => d.set blockId 0) (empty : Dict ι Int)
    with hzeros
  obtain ⟨hzk, hz0⟩ := zeros_spec blocks.keys (empty : Dict ι Int)
  have hzk : zeros.keySet = blocks.keySet := by
    rw [hzeros, hzk]
    ext b
    simp [keySet, Dict.keys, empty]
  have hz0 : ∀ b, countAt zeros b = 0 := hz0 (by simp [countAt])
  have hparents : ∀ b ∈ blocks.values, ∀ p, b.parentBlockId = some p → p ∈ zeros.keySet := by
    intro b hb p hp
    obtain ⟨k, hk⟩ := mem_values.mp hb
    rw [hzk]
    exact hf.closed k p ((parentMap_of_get hk).trans (by rw [hp]))
  obtain ⟨counts, hcrun, hck, hcount⟩ :=
    countEdges_spec PrefixCacheBlock.parentBlockId blocks.values hparents
  have hck : counts.keySet = blocks.keySet := hck.trans hzk
  -- Before anything is taken away, every child is kept.
  have hkept : ∀ b, countAt counts b =
      (keptChildren blocks.keySet (parentMap blocks) ∅ b).card := by
    intro b
    have hcard := card_children_eq blocks (fun _ => true) b
    have hkept : (keptChildren blocks.keySet (parentMap blocks) ∅ b) =
        blocks.keySet.filter fun c =>
          blockWith blocks (fun _ => true) c = true ∧ parentMap blocks c = some (some b) := by
      refine filter_congr fun c hc => ?_
      obtain ⟨blk, hblk⟩ := Dict.mem_keySet.mp hc
      simp [blockWith, hblk]
    rw [hcount, hz0, Dict.values, List.filter_map, List.length_map, zero_add, hkept, ← hcard,
      List.filter_true]
    rfl
  have hget : ∀ b ∈ blocks.keySet, counts.get? b = some (countAt counts b) := fun b hb =>
    get?_eq_countAt (hck ▸ hb)
  have hpeel : Peel blocks.keySet (parentMap blocks) (LocallyFree blocks) ∅ (countAt counts)
      ((counts.entries.filter fun e => e.2 = 0).map Prod.fst).reverse := by
    refine ⟨by simp, fun b _ => hkept b, by simp, fun b hb => ?_, nodup_zeroIds counts, fun b hb h0 => ?_⟩
    · have hb0 := mem_zeroIds.mp hb
      refine ⟨hck ▸ Dict.mem_keySet.mpr ⟨0, hb0⟩, notMem_empty b, ?_⟩
      simp [countAt, hb0]
    · exact Or.inr (Or.inl (mem_zeroIds.mpr (by rw [hget b hb, h0])))
  have hmeasure : Peel.measure blocks.keySet (countAt counts)
      ((counts.entries.filter fun e => e.2 = 0).map Prod.fst).reverse < 2 * blocks.size + 1 := by
    have h1 : (blocks.keySet.filter fun b => countAt counts b ≠ 0).card ≤ blocks.size := by
      rw [← card_keySet]
      exact card_filter_le _ _
    have h2 : ((counts.entries.filter fun e => e.2 = 0).map Prod.fst).reverse.length ≤ blocks.size := by
      rw [← card_keySet, ← hck, card_keySet]
      simpa [size] using length_filter_le _ _
    unfold Peel.measure
    omega
  obtain ⟨F, counts', hrun, hk', hp⟩ := freeableLoop_spec hf hck hpeel hmeasure
  refine ⟨F, counts', ?_, hp.sub, fun b n hb => ?_, fun b hb => ?_, fun b hb _ => ?_⟩
  · simp only [freeableScan, ← hzeros, countChildren]
    rw [hcrun]
    exact hrun
  · exact hk' ▸ Dict.mem_keySet.mpr ⟨n, hb⟩
  · rw [get?_eq_countAt (hk'.symm ▸ hb), hp.count b hb]
    rfl
  · have hc := hp.count b hb
    constructor
    · intro hbF
      obtain ⟨h1, h2⟩ := hp.free b hbF
      exact ⟨h1, by rw [hc] at h2; exact_mod_cast h2⟩
    · rintro ⟨h1, h2⟩
      have h0 : countAt counts' b = 0 := by rw [hc]; exact_mod_cast h2
      rcases hp.done b hb h0 with h3 | h3 | h3
      · exact h3
      · simp at h3
      · exact absurd h1 h3

end

end SparseEngine.RadixPrefixIndex
