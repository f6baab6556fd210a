import SparseEngine.PrefixCache.Runs

/-! What a user of the index relies on while others work on it. -/

namespace SparseEngine.RadixPrefixIndex

open PyM

variable {ι π : Type} [LinearOrder ι]

/-- The blocks of `s'` are blocks of `s` with their reference counts moved by `Δ`. -/
structure Drift (Δ : ι → Int) (s s' : RadixPrefixIndex ι π) : Prop where
  wf : WellFormed s'
  fresh : ∀ v, Fresh v s → Fresh v s'
  nonneg : ∀ id n, s'.blocks.get? id = some n → 0 ≤ n.refCount
  back : ∀ id n, s'.blocks.get? id = some n → ∃ o, s.blocks.get? id = some o ∧ SameIdentity o n ∧
    n.refCount = o.refCount + Δ id
  kept : ∀ id o, s.blocks.get? id = some o → 0 < o.refCount → 0 < o.refCount + Δ id →
    ∃ n, s'.blocks.get? id = some n ∧
      (o.residency.devicePresent = true → n.residency.devicePresent = true)

def RefsNonneg (s : RadixPrefixIndex ι π) : Prop :=
  ∀ id b, s.blocks.get? id = some b → 0 ≤ b.refCount

variable {s s' s'' : RadixPrefixIndex ι π} {Δ Δ' : ι → Int} {id : ι}
  {old new : PrefixCacheBlock ι π}

theorem Drift.kept_same (h : Drift Δ s s') (ho : s.blocks.get? id = some old)
    (hr : 0 < old.refCount) (hr' : 0 < old.refCount + Δ id) :
    ∃ n, s'.blocks.get? id = some n ∧ SameIdentity old n ∧ n.refCount = old.refCount + Δ id ∧
      (old.residency.devicePresent = true → n.residency.devicePresent = true) := by
  obtain ⟨n, hn, hd⟩ := h.kept id old ho hr hr'
  obtain ⟨o, ho', hid, href⟩ := h.back id n hn
  rw [ho] at ho'
  cases ho'
  exact ⟨n, hn, hid, href, hd⟩

theorem Drift.trans (h : Drift Δ s s') (h' : Drift Δ' s' s'')
    (hsign : (∀ id, 0 ≤ Δ id) ∨ ∀ id, Δ' id ≤ 0) : Drift (fun id => Δ id + Δ' id) s s'' where
  __ := h'
  fresh := fun v hv => h'.fresh v (h.fresh v hv)
  back := fun id n hn => by
    obtain ⟨m, hm, hid', href'⟩ := h'.back id n hn
    obtain ⟨o, ho, hid, href⟩ := h.back id m hm
    exact ⟨o, ho, hid.trans hid', by rw [href', href]; ring⟩
  kept := fun id o ho hpos hpos' => by
    have hmid : 0 < o.refCount + Δ id := by
      rcases hsign with hs | hs
      · have := hs id; omega
      · have := hs id; omega
    obtain ⟨m, hm, hid, href, hd⟩ := h.kept_same ho hpos hmid
    obtain ⟨n, hn, hd'⟩ := h'.kept id m hm (by omega) (by omega)
    exact ⟨n, hn, fun hdev => hd' (hd hdev)⟩

theorem Drift.congr (h : Drift Δ s s') (hΔ : ∀ id, Δ id = Δ' id) : Drift Δ' s s' :=
  (funext hΔ : Δ = Δ') ▸ h

theorem Drift.of_eq (hwf : WellFormed s) (hnn : RefsNonneg s) : Drift 0 s s where
  wf := hwf
  fresh := fun _ h => h
  nonneg := hnn
  back := fun id n hn => ⟨n, hn, .refl n, by simp⟩
  kept := fun id o ho _ _ => ⟨o, ho, fun h => h⟩

theorem Drift.trans_zero (h : Drift 0 s s') (h' : Drift 0 s' s'') : Drift 0 s s'' :=
  (h.trans h' (Or.inl fun _ => le_rfl)).congr fun _ => by simp

theorem Drift.of_set (hwf : WellFormed s') (hfresh : ∀ v, Fresh v s → Fresh v s')
    (hs' : s'.blocks = s.blocks.set id new) (hold : s.blocks.get? id = some old)
    (hid : SameIdentity old new) {δ : Int} (href : new.refCount = old.refCount + δ)
    (hnn : RefsNonneg s) (hnew : 0 ≤ new.refCount)
    (hdev : 0 < old.refCount → old.residency.devicePresent = true →
      new.residency.devicePresent = true) : Drift (Pi.single id δ) s s' where
  wf := hwf
  fresh := hfresh
  nonneg := fun x n hn => by
    rw [hs', Dict.get?_set] at hn
    split at hn
    · cases hn; exact hnew
    · exact hnn x n hn
  back := fun x n hn => by
    rw [hs', Dict.get?_set] at hn
    split at hn
    · next hx =>
      subst hx
      cases hn
      exact ⟨old, hold, hid, by simp [href]⟩
    · next hx => exact ⟨n, hn, .refl n, by simp [hx]⟩
  kept := fun x o ho hpos _ => by
    rw [hs', Dict.get?_set]
    split
    · next hx =>
      subst hx
      rw [hold] at ho
      cases ho
      exact ⟨new, rfl, hdev hpos⟩
    · exact ⟨o, ho, fun h => h⟩

theorem Drift.of_erase (hwf : WellFormed s') (hfresh : ∀ v, Fresh v s → Fresh v s')
    (hs' : s'.blocks = s.blocks.erase id) (hold : s.blocks.get? id = some old)
    (href : old.refCount = 0) (hnn : RefsNonneg s) : Drift 0 s s' where
  wf := hwf
  fresh := hfresh
  nonneg := fun x n hn => by
    rw [hs', Dict.get?_erase] at hn
    split at hn
    · cases hn
    · exact hnn x n hn
  back := fun x n hn => by
    rw [hs', Dict.get?_erase] at hn
    split at hn
    · cases hn
    · exact ⟨n, hn, .refl n, by simp⟩
  kept := fun x o ho hpos _ => by
    rw [hs', Dict.get?_erase]
    split
    · next hx =>
      subst hx
      rw [hold] at ho
      cases ho
      omega
    · exact ⟨o, ho, fun h => h⟩

theorem Removals.drift {bs : List (PrefixCacheBlock ι π)} (h : Removals s s' bs)
    (hwf : WellFormed s) (hnn : RefsNonneg s) : Drift 0 s s' := by
  induction h with
  | nil => exact .of_eq hwf hnn
  | snoc _ hrem hstep hblocks ih =>
    refine ih.trans_zero ?_
    exact .of_erase hstep.wf (fun v => hstep.fresh) hblocks hrem.1
      (locallyBlocked_eq_false.mp hrem.2.1).1 ih.nonneg

theorem Demotions.drift {bs : List (PrefixCacheBlock ι π)} (h : Demotions s s' bs)
    (hwf : WellFormed s) (hnn : RefsNonneg s) : Drift 0 s s' := by
  induction h with
  | nil => exact .of_eq hwf hnn
  | snoc _ hget hnow _ hstep hblocks ih =>
    have href := (locallyBlocked_eq_false.mp hnow.1).1
    refine ih.trans_zero ((Drift.of_set (δ := 0) hstep.wf (fun v => hstep.fresh) hblocks hget
      ⟨rfl, rfl, rfl, rfl, rfl⟩ (by simp [demoted]) ih.nonneg (by simpa [demoted] using ih.nonneg _ _ hget)
      (fun hpos => by omega)).congr fun id => by simp)

end SparseEngine.RadixPrefixIndex
