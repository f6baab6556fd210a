import Mathlib.Tactic

/-! `Top w U E` says that `E` holds the elements of `U` of largest weights. -/

namespace SparseEngine

open List Finset

section

variable {ι κ R : Type} [DecidableEq ι] [DecidableEq κ] [AddCommGroup R] [LinearOrder R]
  [IsOrderedAddMonoid R] {w : ι → R} {U E A : Finset ι}

omit [DecidableEq ι] in
theorem sum_le_sum_of_card_eq {B C : Finset ι} (hcard : B.card = C.card)
    (h : ∀ b ∈ B, ∀ c ∈ C, w b ≤ w c) : ∑ b ∈ B, w b ≤ ∑ c ∈ C, w c := by
  rcases C.eq_empty_or_nonempty with rfl | hC
  · rw [card_empty, card_eq_zero] at hcard
    rw [hcard]
  · obtain ⟨m, hm, hmin⟩ := C.exists_min_image w hC
    calc ∑ b ∈ B, w b ≤ B.card • w m := sum_le_card_nsmul _ _ _ fun b hb => h b hb m hm
      _ = C.card • w m := by rw [hcard]
      _ ≤ ∑ c ∈ C, w c := card_nsmul_le_sum _ _ _ hmin

/-- `E` holds the elements of `U` of largest weights. -/
structure Top (w : ι → R) (U E : Finset ι) : Prop where
  sub : E ⊆ U
  above : ∀ x ∈ E, ∀ y ∈ U, y ∉ E → w y ≤ w x

/-- The exchange: elements of `A` outside `E` make room for those of `E` outside `A`. -/
theorem Top.extend (h : Top w U E) (hA : A ⊆ U) (hcard : E.card ≤ A.card) :
    ∃ A', E ⊆ A' ∧ A' ⊆ U ∧ A'.card = A.card ∧ ∑ a ∈ A, w a ≤ ∑ a ∈ A', w a := by
  have hroom : (E \ A).card ≤ (A \ E).card := by
    have hE := card_sdiff_add_card_inter E A
    have hA' := card_sdiff_add_card_inter A E
    rw [inter_comm] at hA'
    omega
  obtain ⟨B, hB, hBcard⟩ := exists_subset_card_eq hroom
  have hBA : B ⊆ A := hB.trans sdiff_subset
  have hdisjoint : Disjoint (A \ B) (E \ A) :=
    disjoint_left.mpr fun x hx hx' =>
      (mem_sdiff.mp hx').2 (mem_sdiff.mp hx).1
  refine ⟨A \ B ∪ E \ A, fun x hx => ?_, fun x hx => ?_, ?_, ?_⟩
  · rw [mem_union, mem_sdiff, mem_sdiff]
    by_cases hxA : x ∈ A
    · exact .inl ⟨hxA, fun hxB => (mem_sdiff.mp (hB hxB)).2 hx⟩
    · exact .inr ⟨hx, hxA⟩
  · rcases mem_union.mp hx with hx | hx
    · exact hA (mem_sdiff.mp hx).1
    · exact h.sub (mem_sdiff.mp hx).1
  · rw [card_union_of_disjoint hdisjoint, ← hBcard]
    exact card_sdiff_add_card_eq_card hBA
  · rw [sum_union hdisjoint, ← sum_sdiff hBA]
    refine add_le_add_right (sum_le_sum_of_card_eq hBcard fun b hb c hc => ?_) _
    obtain ⟨hbA, hbE⟩ := mem_sdiff.mp (hB hb)
    exact h.above c (mem_sdiff.mp hc).1 b (hA hbA) hbE

theorem Top.sum_le (h : Top w U E) (hA : A ⊆ U) (hcard : A.card = E.card) :
    ∑ a ∈ A, w a ≤ ∑ a ∈ E, w a := by
  obtain ⟨A', hE, -, hcard', hle⟩ := h.extend hA hcard.ge
  rwa [← eq_of_subset_of_card_le hE (hcard'.trans hcard).le] at hle

/-- The elements of a group. -/
def inGroup (group : ι → κ) (S : Finset ι) (k : κ) : Finset ι := S.filter fun x => group x = k

omit [DecidableEq ι] in
theorem mem_inGroup {group : ι → κ} {S : Finset ι} {k : κ} {x : ι} :
    x ∈ inGroup group S k ↔ x ∈ S ∧ group x = k :=
  mem_filter

/-- A set that holds enough of every group can be changed into one that contains the tops of
all of them. -/
theorem exchange_groups {group : ι → κ} (htop : ∀ k, Top w (inGroup group U k) (inGroup group E k))
    (hA : A ⊆ U) (hcard : ∀ k, (inGroup group E k).card ≤ (inGroup group A k).card) :
    ∃ A', E ⊆ A' ∧ A' ⊆ U ∧ A'.card = A.card ∧ ∑ a ∈ A, w a ≤ ∑ a ∈ A', w a := by
  have hsub : ∀ k, inGroup group A k ⊆ inGroup group U k := fun k =>
    filter_subset_filter _ hA
  choose f hEf hfU hfcard hfsum using fun k => (htop k).extend (hsub k) (hcard k)
  have hgroup : ∀ k, ∀ x ∈ f k, group x = k := fun k x hx => (mem_inGroup.mp (hfU k hx)).2
  obtain ⟨K, hK⟩ : ∃ K, K = (A ∪ E).image group := ⟨_, rfl⟩
  have hdisjoint : (K : Set κ).PairwiseDisjoint f := by
    intro k _ k' _ hne
    refine disjoint_left.mpr fun x hx hx' => hne ?_
    rw [← hgroup k x hx, hgroup k' x hx']
  have hmaps : ∀ x ∈ A, group x ∈ K := fun x hx =>
    hK ▸ mem_image_of_mem group (mem_union_left E hx)
  refine ⟨K.biUnion f, fun x hx => ?_, fun x hx => ?_, ?_, ?_⟩
  · refine mem_biUnion.mpr ⟨group x, ?_, hEf _ (mem_inGroup.mpr ⟨hx, rfl⟩)⟩
    exact hK ▸ mem_image_of_mem group (mem_union_right A hx)
  · obtain ⟨k, -, hk⟩ := mem_biUnion.mp hx
    exact (mem_inGroup.mp (hfU k hk)).1
  · rw [card_biUnion hdisjoint, card_eq_sum_card_fiberwise hmaps]
    exact sum_congr rfl fun k _ => hfcard k
  · rw [sum_biUnion hdisjoint, ← sum_fiberwise_of_maps_to hmaps]
    exact sum_le_sum fun k _ => hfsum k

/-- What is forced (`F`), the top of every group (`E`) and the top of the rest (`G`) weigh as much
as any selection of that size with what is forced and as much of every group. -/
theorem two_phase (group : ι → κ) {V F G T : Finset ι}
    (hE : ∀ k, Top w (inGroup group (V \ F) k) (inGroup group E k)) (hG : Top w (V \ (F ∪ E)) G)
    (hTV : T ⊆ V) (hFT : F ⊆ T)
    (hfloor : ∀ k, (inGroup group (F ∪ E) k).card ≤ (inGroup group T k).card)
    (hcard : T.card = (F ∪ E ∪ G).card) : ∑ a ∈ T, w a ≤ ∑ a ∈ F ∪ E ∪ G, w a := by
  have hEV : E ⊆ V \ F := fun x hx =>
    (mem_inGroup.mp ((hE (group x)).sub (mem_inGroup.mpr ⟨hx, rfl⟩))).1
  have hFE : Disjoint F E := disjoint_left.mpr fun x hx hx' =>
    (mem_sdiff.mp (hEV hx')).2 hx
  have hFEG : Disjoint (F ∪ E) G := disjoint_left.mpr fun x hx hx' =>
    (mem_sdiff.mp (hG.sub hx')).2 hx
  have hrest : ∀ k, (inGroup group E k).card ≤ (inGroup group (T \ F) k).card := by
    intro k
    have hle := hfloor k
    simp only [inGroup, filter_union] at hle
    rw [card_union_of_disjoint (disjoint_filter_filter hFE)] at hle
    have hT := card_sdiff_add_card_eq_card
      (filter_subset_filter (fun x => group x = k) hFT)
    have hfilter : T.filter (fun x => group x = k) \ F.filter (fun x => group x = k) =
        (T \ F).filter fun x => group x = k := by grind
    rw [hfilter] at hT
    simp only [inGroup]
    omega
  obtain ⟨A, hEA, hAV, hAcard, hAsum⟩ :=
    exchange_groups hE (sdiff_subset_sdiff hTV (Finset.Subset.refl F)) hrest
  have hAE := card_sdiff_add_card_eq_card hEA
  have hTF := card_sdiff_add_card_eq_card hFT
  rw [card_union_of_disjoint hFEG, card_union_of_disjoint hFE] at hcard
  have hlast : ∑ a ∈ A \ E, w a ≤ ∑ a ∈ G, w a := by
    refine hG.sum_le (fun x hx => ?_) (by omega)
    obtain ⟨hxA, hxE⟩ := mem_sdiff.mp hx
    obtain ⟨hxV, hxF⟩ := mem_sdiff.mp (hAV hxA)
    exact mem_sdiff.mpr ⟨hxV, by simp [hxF, hxE]⟩
  rw [sum_union hFEG, sum_union hFE, ← sum_sdiff hFT]
  rw [← sum_sdiff hEA] at hAsum
  calc ∑ a ∈ T \ F, w a + ∑ a ∈ F, w a
      ≤ (∑ a ∈ A \ E, w a + ∑ a ∈ E, w a) + ∑ a ∈ F, w a := add_le_add_left hAsum _
    _ ≤ (∑ a ∈ G, w a + ∑ a ∈ E, w a) + ∑ a ∈ F, w a :=
      add_le_add_left (add_le_add_left hlast _) _
    _ = ∑ a ∈ F, w a + ∑ a ∈ E, w a + ∑ a ∈ G, w a := by abel

end

variable {ι R : Type} [LinearOrder R] {key : ι → WithBot R}

theorem take_ne_bot : ∀ {l : List ι} {k : Nat}, l.Pairwise (fun a b => key b ≤ key a) →
    k ≤ (l.filter fun a => key a ≠ ⊥).length → ∀ a ∈ l.take k, key a ≠ ⊥
  | [], _, _, _ => by simp
  | _ :: _, 0, _, _ => by simp
  | x :: l, k + 1, hsorted, hk => by
    obtain ⟨hx, hl⟩ := pairwise_cons.mp hsorted
    have hne : key x ≠ ⊥ := by
      intro hbot
      -- nothing after `x` could be chosen either
      have hall : (x :: l).filter (fun a => key a ≠ ⊥) = [] := by
        refine filter_eq_nil_iff.mpr fun a ha => ?_
        rcases mem_cons.mp ha with rfl | ha
        · simp [hbot]
        · simp [le_bot_iff.mp (hbot ▸ hx a ha)]
      rw [hall] at hk
      exact absurd hk (Nat.not_succ_le_zero k)
    have hk' : k ≤ (l.filter fun a => key a ≠ ⊥).length := by
      rw [List.filter_cons_of_pos (by simpa using hne), List.length_cons] at hk
      omega
    intro a ha
    rw [List.take_succ_cons] at ha
    rcases mem_cons.mp ha with rfl | ha
    · exact hne
    · exact take_ne_bot hl hk' a ha

theorem take_above {l : List ι} {k : Nat} (hsorted : l.Pairwise fun a b => key b ≤ key a) :
    ∀ a ∈ l.take k, ∀ b ∈ l, b ∉ l.take k → key b ≤ key a := by
  intro a ha b hb hnot
  rw [← take_append_drop k l] at hsorted hb
  refine (pairwise_append.mp hsorted).2.2 a ha b ?_
  exact (mem_append.mp hb).resolve_left hnot

end SparseEngine
