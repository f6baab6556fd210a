import SparseEngine.HeadSlots.Debts

/-! An admission evicts idle chains until their slots and rows cover what is missing. -/

namespace SparseEngine.HeadSlotCacheManager

open HeadSlotAllocator PyM Shares List Dict

variable {m m' : HeadSlotCacheManager} {sid : Int} {l : Nat} {r : HeadRequest} {p : ChainPromise}

theorem SeqOk.gone (hr : m.requests.get? sid = none) (hp : m.chains.get? sid = none)
    (hrow : m.allocator.seqRows.contains sid = false) : SeqOk m sid where
  request := fun r h => by rw [hr] at h; cases h
  owes := fun _ r h => by rw [hr] at h; cases h
  plain := fun _ => hp
  idle := fun p h => by rw [hp] at h; cases h
  active := fun p h => by rw [hp] at h; cases h
  owned := fun h => by rw [hrow] at h; cases h

structure Evicted (m m' : HeadSlotCacheManager) (sids : List Int) : Prop where
  shape : SameShape m.allocator m'.allocator
  chained : m'.chained = m.chained
  others : ∀ x ∉ sids, Untouched m m' x

theorem evict_spec (hi : Inv m.allocator) (sid : Int) : Evicted m (m.evict sid) [sid] ∧
    Inv (m.evict sid).allocator ∧ (m.evict sid).allocator.seqRows.contains sid = false ∧
    (m.evict sid).allocator.freeRows.length =
      m.allocator.freeRows.length + (if m.allocator.seqRows.contains sid then 1 else 0) ∧
    ∀ l < m.allocator.layers, (m.evict sid).allocator.freeCounts l =
      m.allocator.freeCounts l + m.allocator.residency sid l := by
  obtain ⟨s', hrun, hi', hshape, hrows, hfree, hcounts, hothers⟩ := freeSeq_residency hi sid
  have hs' : (m.evict sid).allocator = s' := by rw [evict, hrun]
  rw [hs']
  refine ⟨⟨hs' ▸ hshape, rfl, fun x hx => ?_⟩, hi', ?_, hfree, hcounts⟩
  · rw [List.mem_singleton] at hx
    refine ⟨Dict.get?_erase_ne _ hx, Dict.get?_erase_ne _ hx, ?_, ?_⟩
    · rw [hs', Dict.contains, hrows, Dict.get?_erase_ne _ hx]
      rfl
    · rw [hs']
      exact hothers x hx
  · rw [contains_eq_false, hrows, get?_erase_self]

theorem rowless_le (hrequests : ∀ x r, m'.requests.get? x = some r → m.requests.get? x = some r ∧
    m'.allocator.seqRows.contains x = m.allocator.seqRows.contains x) : m'.rowless ≤ m.rowless := by
  refine sumBy_mono fun x r hr => ?_
  obtain ⟨hold, hrow⟩ := hrequests x r hr
  exact ⟨r, hold, by rw [hrow]⟩

theorem owed_le (hrequests : ∀ x r, m'.requests.get? x = some r → m.requests.get? x = some r) :
    m'.owed ≤ m.owed :=
  sumBy_mono fun x r hr => ⟨r, hrequests x r hr, le_rfl⟩

theorem Kept.evict (hk : Kept m) (sid : Int) : Kept (m.evict sid) := by
  obtain ⟨he, hi, hrow, hrows, hcounts⟩ := evict_spec hk.inv sid
  have hold : ∀ x r, (m.evict sid).requests.get? x = some r → x ≠ sid := by
    rintro x r hr rfl
    rw [HeadSlotCacheManager.evict, get?_erase_self] at hr
    cases hr
  have hother : ∀ x ≠ sid, Untouched m (m.evict sid) x := fun x hx =>
    he.others x (by simpa using hx)
  refine ⟨hi, fun l hl => ?_, ?_, fun x => ?_⟩
  · rw [he.shape.layers] at hl
    calc (m.evict sid).owed * (m.evict sid).allocator.heads
        ≤ m.owed * m.allocator.heads := by
          rw [he.shape.heads]
          exact Nat.mul_le_mul_right _ (owed_le fun x r hr => (hother x (hold x r hr)).request ▸ hr)
      _ ≤ m.allocator.freeCounts l := hk.room l hl
      _ ≤ (m.evict sid).allocator.freeCounts l := by
          rw [hcounts l hl]
          exact Nat.le_add_right _ _
  · calc (m.evict sid).rowless ≤ m.rowless := rowless_le fun x r hr =>
          ⟨(hother x (hold x r hr)).request ▸ hr, (hother x (hold x r hr)).same.row⟩
      _ ≤ m.allocator.freeRows.length := hk.rows
      _ ≤ (m.evict sid).allocator.freeRows.length := by
          rw [hrows]
          exact Nat.le_add_right _ _
  · by_cases hx : x = sid
    · rw [hx]
      exact .gone (get?_erase_self _ _) (get?_erase_self _ _) hrow
    · exact (hk.seqs x).frame he.shape he.chained (hother x hx)

def IsIdle (m : HeadSlotCacheManager) (v : Int) : Prop :=
  m.requests.get? v = none ∧ ∃ p, m.chains.get? v = some p ∧ IdleOk m.allocator v p

theorem IsIdle.frame {v : Int} (hshape : SameShape m.allocator m'.allocator) (hu : Untouched m m' v)
    (h : IsIdle m v) : IsIdle m' v := by
  obtain ⟨hr, p, hp, hok⟩ := h
  exact ⟨hu.request.trans hr, p, hu.chain.trans hp, hok.frame hshape hu.same⟩

theorem evictAll : ∀ (victims : List Int) (m : HeadSlotCacheManager), Kept m → victims.Nodup →
    (∀ v ∈ victims, IsIdle m v) →
    Kept (victims.foldl evict m) ∧ Evicted m (victims.foldl evict m) victims ∧
      (victims.foldl evict m).requests = m.requests ∧
      (victims.foldl evict m).allocator.freeRows.length =
        m.allocator.freeRows.length + victims.length ∧
      ∀ l < m.allocator.layers, (victims.foldl evict m).allocator.freeCounts l =
        m.allocator.freeCounts l + (victims.map fun v => m.allocator.residency v l).sum
  | [], m, hk, _, _ => ⟨hk, ⟨.refl _, rfl, fun _ _ => ⟨rfl, rfl, rfl, fun _ _ => rfl⟩⟩, rfl, rfl,
      fun _ _ => rfl⟩
  | v :: victims, m, hk, hnd, hidle => by
    rw [List.nodup_cons] at hnd
    rw [List.forall_mem_cons] at hidle
    obtain ⟨he, -, -, hrows, hcounts⟩ := evict_spec hk.inv v
    have hother : ∀ x ≠ v, Untouched m (m.evict v) x := fun x hx => he.others x (by simpa using hx)
    have hne : ∀ x ∈ victims, x ≠ v := fun x hx hxv => hnd.1 (hxv ▸ hx)
    obtain ⟨hk', he', hrequests', hrows', hcounts'⟩ := evictAll victims (m.evict v) (hk.evict v) hnd.2
      fun x hx => (hidle.2 x hx).frame he.shape (hother x (hne x hx))
    obtain ⟨hnone, p, -, hok⟩ := hidle.1
    rw [foldl_cons]
    refine ⟨hk', ⟨he.shape.trans he'.shape, he'.chained.trans he.chained, fun x hx => ?_⟩, ?_, ?_,
      fun l hl => ?_⟩
    · rw [mem_cons, not_or] at hx
      have h₁ := hother x hx.1
      have h₂ := he'.others x hx.2
      exact ⟨h₂.request.trans h₁.request, h₂.chain.trans h₁.chain, h₂.same.row.trans h₁.same.row,
        fun l h => (h₂.same.held l h).trans (h₁.same.held l h)⟩
    · rw [hrequests']
      exact erase_eq_self hnone
    · rw [hrows', hrows, hok.row, if_pos rfl, length_cons]
      omega
    · rw [hcounts' l (he.shape.layers ▸ hl), hcounts l hl, List.map_cons, sum_cons, Nat.add_assoc]
      congr 3
      exact map_congr_left fun x hx => (hother x (hne x hx)).same.residency he.shape l

theorem pickVictims_spec : ∀ (candidates : List Int) (slots : Nat → Nat) (rows : Nat)
    (victims : List Int), (∀ v ∈ candidates, IsIdle m v) →
    m.pickVictims candidates slots rows = .ok victims →
    victims.Sublist candidates ∧ rows ≤ victims.length ∧
      ∀ l < m.allocator.layers, slots l ≤ (victims.map fun v => m.allocator.residency v l).sum
  | candidates, slots, rows, victims, hidle, h => by
    unfold pickVictims at h
    split at h
    · next hdone =>
      cases h
      refine ⟨List.nil_sublist _, hdone.1.le, fun l hl => ?_⟩
      exact (of_decide_eq_true (List.all_eq_true.mp hdone.2 l (List.mem_range.mpr hl))).le
    · cases candidates with
      | nil => cases h
      | cons v rest =>
        rw [List.forall_mem_cons] at hidle
        obtain ⟨⟨-, p, hp, hok⟩, hrest⟩ := hidle
        simp only [hp] at h
        cases hpick : m.pickVictims rest (fun l => slots l - p.allocatedCapacity.getD l 0)
            (rows - p.residentRows) with
        | error e => rw [hpick] at h; cases h
        | ok others =>
          rw [hpick] at h
          cases h
          obtain ⟨hsub, hrows, hslots⟩ := pickVictims_spec rest _ _ others hrest hpick
          rw [hok.residentRows] at hrows
          refine ⟨hsub.cons_cons v, by rw [length_cons]; omega, fun l hl => ?_⟩
          have := hslots l hl
          rw [hok.capacity l hl] at this
          rw [List.map_cons, sum_cons]
          omega

variable {s : HeadSlotAllocator}

theorem headLength_zero (hrow : s.seqRows.contains sid = false) (l h : Nat) :
    s.headLength sid l h = 0 := headLength_unknown (contains_eq_false.mp hrow) l h

theorem residency_zero (hrow : s.seqRows.contains sid = false) (l : Nat) :
    s.residency sid l = 0 := by
  simp only [HeadSlotAllocator.residency, headLength_zero hrow, Finset.sum_const_zero]

theorem SeqOk.rowless (h : SeqOk m sid) (hr : m.requests.get? sid = none)
    (hp : m.chains.get? sid = none) : m.allocator.seqRows.contains sid = false := by
  rw [Bool.eq_false_iff]
  intro hrow
  rcases h.owned hrow with ⟨r, h⟩ | ⟨p, h⟩
  · rw [hr] at h
    cases h
  · rw [hp] at h
    cases h

variable {candidates : List Int}

theorem Candidates.idle (hk : Kept m) (h : m.Candidates sid candidates) :
    ∀ v ∈ candidates, IsIdle m v := by
  intro v hv
  obtain ⟨-, p, hp, ha, -⟩ := h.2 v hv
  obtain ⟨hnone, hok⟩ := (hk.seqs v).idle p hp ha
  exact ⟨hnone, p, hp, hok⟩

variable {victims : List Int}

theorem Kept.applyAdmission (hk : Kept m) (hc : m.chained = true) {rows : Nat}
    (hcandidates : m.Candidates sid candidates)
    (hv : m.pickVictims candidates (m.slotDeficit r.remaining) (m.rowDeficit rows) = .ok victims)
    (hnone : m.requests.get? sid = none)
    (hrows : (if m.allocator.seqRows.contains sid then 0 else 1) ≤ rows) (hwindow : r.window = 0)
    (hok : RequestOk m.allocator sid r) (howes : Owes m.allocator sid r p) :
    Kept (m.applyAdmission victims sid r p) := by
  have hidle := hcandidates.idle hk
  obtain ⟨hsub, hrow, hslots⟩ := pickVictims_spec _ _ _ _ hidle hv
  obtain ⟨hk₁, he, hrequests, hfree, hcounts⟩ := evictAll victims m hk (hsub.nodup hcandidates.1)
    fun v hv => hidle v (hsub.subset hv)
  have hsid : sid ∉ victims := fun h => (hcandidates.2 sid (hsub.subset h)).1 rfl
  have hu := he.others sid hsid
  have hshape := he.shape
  rw [HeadSlotCacheManager.applyAdmission]
  set m₁ := victims.foldl HeadSlotCacheManager.evict m with hm₁
  have hnone₁ : m₁.requests.get? sid = none := hrequests ▸ hnone
  have howed : m₁.owed = m.owed := by rw [owed, owed, hrequests]
  have hrowless : m₁.rowless ≤ m.rowless := by
    refine rowless_le fun x r hr => ?_
    rw [hrequests] at hr
    refine ⟨hr, (he.others x fun hx => ?_).same.row⟩
    rw [(hidle x (hsub.subset hx)).1] at hr
    cases hr
  refine ⟨hk₁.inv, fun l hl => ?_, ?_, fun x => ?_⟩
  · rw [hshape.layers] at hl
    have hsum : (sumBy (fun _ r => HeadRequest.remaining r + r.window) (m₁.requests.set sid r)) =
        m.owed + r.remaining := by
      rw [sumBy_set_new _ _ hnone₁, hwindow, ← howed]
      rfl
    have hcovered := hslots l hl
    rw [slotDeficit, outstanding_add_windowSlots hk.seqs hc hl] at hcovered
    have := hcounts l hl
    change sumBy _ _ * m₁.allocator.heads ≤ m₁.allocator.freeCounts l
    rw [hsum, hshape.heads, Nat.add_mul]
    omega
  · change sumBy (fun sid _ => if m₁.allocator.seqRows.contains sid then 0 else 1)
      (m₁.requests.set sid r) ≤ _
    rw [sumBy_set_new _ _ hnone₁, hu.same.row]
    have hle := rowless_le_outstandingRows hk.seqs hc
    rw [rowDeficit] at hrow
    change m₁.rowless + _ ≤ m₁.allocator.freeRows.length
    omega
  · by_cases hx : x = sid
    · subst hx
      refine ⟨fun r' hr => ?_, fun _ r' hr => ⟨p, get?_set_self _ _ _, ?_⟩, fun hc' => ?_,
        fun p' hp ha => ?_, fun _ _ _ => ⟨r, get?_set_self _ _ _⟩,
        fun _ => .inl ⟨r, get?_set_self _ _ _⟩⟩
      · rw [get?_set_self] at hr
        cases hr
        exact hok.frame hshape hu.same
      · rw [get?_set_self] at hr
        cases hr
        exact howes.frame hshape hu.same
      · rw [he.chained, hc] at hc'
        cases hc'
      · rw [get?_set_self] at hp
        cases hp
        rw [howes.active] at ha
        cases ha
    · exact SeqOk.frame (m := m₁) (.refl _) rfl
        ⟨get?_set_ne _ _ hx, get?_set_ne _ _ hx, rfl, fun _ _ => rfl⟩ (hk₁.seqs x)

theorem getD_replicate (n a l : Nat) (hl : l < n) : (replicate n a).getD l 0 = a := by
  rw [getD_eq_getElem?_getD, getElem?_replicate_of_lt hl, Option.getD_some]

theorem Kept.created (hk : Kept m) (hc : m.chained = true) {prompt maxTokens : Nat}
    (hr : m.requests.get? sid = none) (hp : m.chains.get? sid = none) (hprompt : 0 < prompt)
    (hlimit : prompt + maxTokens ≤ m.allocator.width) (hcandidates : m.Candidates sid candidates)
    (hv : m.pickVictims candidates (m.slotDeficit prompt) (m.rowDeficit 1) = .ok victims) :
    Kept (m.applyAdmission victims sid ⟨prompt, maxTokens, 0, 0⟩
      (m.reserving ⟨true, 0, [], 1, [], 0⟩ prompt 1)) := by
  have hrow := (hk.seqs sid).rowless hr hp
  refine hk.applyAdmission hc hcandidates hv hr (by split <;> simp) rfl
    ⟨hprompt, hlimit, ?_, fun l _ h _ => ?_, fun h => absurd h (lt_irrefl 0)⟩
    ⟨rfl, fun h => absurd h hprompt.ne', fun _ => ⟨prompt, le_rfl, fun l hl =>
      ⟨getD_replicate _ _ _ hl, ?_⟩⟩, fun _ => le_rfl, fun _ _ => rfl⟩
  · simp only [HeadRequest.remaining]
    omega
  · rw [headLength_zero hrow]
  · rw [residency_zero hrow]
    simp [HeadRequest.remaining, reserving]

theorem Kept.resumed (hk : Kept m) (hc : m.chained = true) {prompt maxTokens : Nat}
    (hp : m.chains.get? sid = some p) (ha : p.active = false)
    (hprompt : p.processedTokenCount ≤ prompt) (hlimit : prompt + maxTokens ≤ m.allocator.width)
    (hcandidates : m.Candidates sid candidates)
    (hv : m.pickVictims candidates (m.slotDeficit (prompt - p.processedTokenCount))
      (m.rowDeficit (if p.residentRows = 0 then 1 else 0)) = .ok victims) :
    Kept (m.applyAdmission victims sid ⟨prompt, maxTokens, p.processedTokenCount, 0⟩
      (m.reserving p (prompt - p.processedTokenCount) (if p.residentRows = 0 then 1 else 0))) := by
  obtain ⟨hr, hok⟩ := (hk.seqs sid).idle p hp ha
  have hpos := hok.processed
  refine hk.applyAdmission hc hcandidates hv hr (by rw [hok.row]; simp) rfl
    ⟨lt_of_lt_of_le hpos hprompt, hlimit, ?_, hok.held, fun _ => hok.row⟩
    ⟨rfl, fun h l => ?_, fun _ => ⟨prompt - p.processedTokenCount, le_rfl, fun l hl =>
      ⟨getD_replicate _ _ _ hl, ?_⟩⟩, fun h => ?_, fun h => ?_⟩
  · simp only [HeadRequest.remaining]
    omega
  · have hzero : prompt - p.processedTokenCount = 0 := h
    simp only [reserving, hzero, Nat.zero_mul]
    rcases Nat.lt_or_ge l m.allocator.layers with hl | hl
    · exact getD_replicate _ _ _ hl
    · rw [getD_eq_getElem?_getD, getElem?_eq_none (by simpa using hl), Option.getD_none]
  · rw [← hok.capacity l hl]
    simp [HeadRequest.remaining, reserving]
  · rw [hok.row] at h
    cases h
  · rw [hok.row] at h
    cases h

theorem foldl_set_new (f : Int → HeadRequest → Nat) : ∀ (news : List (Int × Nat × Nat))
    (d : Dict Int HeadRequest), (news.map Prod.fst).Nodup → (∀ new ∈ news, d.get? new.1 = none) →
    (∀ x ∉ news.map Prod.fst, (news.foldl (fun d new => d.set new.1 ⟨new.2.1, new.2.2, 0, 0⟩) d).get? x =
      d.get? x) ∧
    (∀ new ∈ news, (news.foldl (fun d new => d.set new.1 ⟨new.2.1, new.2.2, 0, 0⟩) d).get? new.1 =
      some ⟨new.2.1, new.2.2, 0, 0⟩) ∧
    (news.foldl (fun d new => d.set new.1 ⟨new.2.1, new.2.2, 0, 0⟩) d).sumBy f =
      d.sumBy f + (news.map fun new => f new.1 ⟨new.2.1, new.2.2, 0, 0⟩).sum
  | [], d, _, _ => ⟨fun _ _ => rfl, by simp, rfl⟩
  | new :: news, d, hnd, hnone => by
    rw [List.map_cons, List.nodup_cons] at hnd
    rw [List.forall_mem_cons] at hnone
    have hne : ∀ x ∈ news, x.1 ≠ new.1 := fun x hx he => hnd.1 (he ▸ List.mem_map_of_mem hx)
    obtain ⟨hothers, hnews, hsum⟩ := foldl_set_new f news (d.set new.1 ⟨new.2.1, new.2.2, 0, 0⟩) hnd.2
      fun x hx => (get?_set_ne _ _ (hne x hx)).trans (hnone.2 x hx)
    rw [foldl_cons]
    refine ⟨fun x hx => ?_, List.forall_mem_cons.mpr ⟨?_, hnews⟩, ?_⟩
    · rw [List.map_cons, mem_cons, not_or] at hx
      rw [hothers x hx.2, get?_set_ne _ _ hx.1]
    · rw [hothers new.1 hnd.1, get?_set_self]
    · rw [hsum, sumBy_set_new _ _ hnone.1, List.map_cons, sum_cons, Nat.add_assoc]

theorem rows_le (hi : Inv s) : s.rows ≤ s.freeRows.length + s.seqRows.size := by
  have hsub : Finset.range s.rows ⊆ s.freeRows.toFinset ∪ s.seqRows.values.toFinset := by
    intro row hrow
    rw [Finset.mem_union, List.mem_toFinset, List.mem_toFinset]
    by_contra hno
    rw [not_or] at hno
    refine hno.1 ((hi.owner row (Finset.mem_range.mp hrow)).mpr fun sid hsid => hno.2 ?_)
    exact Dict.mem_values.mpr ⟨sid, hsid⟩
  calc s.rows = (Finset.range s.rows).card := (Finset.card_range _).symm
    _ ≤ _ := Finset.card_le_card hsub
    _ ≤ s.freeRows.toFinset.card + s.seqRows.values.toFinset.card := Finset.card_union_le _ _
    _ ≤ s.freeRows.length + s.seqRows.values.length :=
      Nat.add_le_add (toFinset_card_le _) (toFinset_card_le _)
    _ = s.freeRows.length + s.seqRows.size := by rw [values, length_map]; rfl

theorem seqRows_size_le (hk : Kept m) (hc : m.chained = false) :
    m.allocator.seqRows.size ≤ m.requests.size := by
  rw [← card_keySet, ← card_keySet]
  refine Finset.card_le_card fun x hx => ?_
  rw [mem_keySet] at hx ⊢
  rcases (hk.seqs x).owned (contains_iff.mpr hx) with h | ⟨p, hp⟩
  · exact h
  · rw [(hk.seqs x).plain hc] at hp
    cases hp

theorem reservedPrefill_add_windowSlots (hc : m.chained = false)
    (hbegun : ∀ sid r, m.requests.get? sid = some r → 0 < r.done) :
    m.reservedPrefillSlots * m.allocator.heads + m.windowSlots = m.owed * m.allocator.heads := by
  rw [reservedPrefillSlots, hc, if_neg (by simp), windowSlots, ← Nat.add_mul, owed, sumBy_add]
  congr 2
  refine sumBy_congr fun sid r hr => ?_
  have := hbegun sid r hr
  split
  · rfl
  · simp only [HeadRequest.remaining]
    omega

theorem Kept.admitPrompts (hk : Kept m) (hc : m.chained = false) {news : List (Int × Nat × Nat)}
    (hnd : (news.map Prod.fst).Nodup)
    (hnews : ∀ new ∈ news, m.requests.get? new.1 = none ∧ 0 < new.2.1 ∧
      new.2.1 + new.2.2 ≤ m.allocator.width)
    (hbegun : ∀ sid r, m.requests.get? sid = some r → 0 < r.done)
    (hbudget : ∀ l < m.allocator.layers,
      (news.map fun new => new.2.1).sum * m.allocator.heads ≤ m.promptBudget l)
    (hsize : m.requests.size + news.length ≤ m.allocator.rows) : Kept (m.admitPrompts news) := by
  have hspec := fun f => foldl_set_new f news m.requests hnd fun new h => (hnews new h).1
  obtain ⟨hothers, hadded, -⟩ := hspec fun _ _ => 0
  refine ⟨hk.inv, fun l hl => ?_, ?_, fun x => ?_⟩
  · have hsum : (m.admitPrompts news).owed = m.owed + (news.map fun new => new.2.1).sum :=
      (hspec fun _ r => r.remaining + r.window).2.2
    have hle := hbudget l hl
    have hroom := hk.room l hl
    have heq := reservedPrefill_add_windowSlots hc hbegun
    rw [promptBudget, prefillBudget] at hle
    change (m.admitPrompts news).owed * m.allocator.heads ≤ m.allocator.freeCounts l
    rw [hsum, Nat.add_mul]
    omega
  · have hsum : (m.admitPrompts news).rowless = m.rowless +
        (news.map fun new => if m.allocator.seqRows.contains new.1 then 0 else 1).sum :=
      (hspec fun sid _ => if m.allocator.seqRows.contains sid then 0 else 1).2.2
    have hzero : m.rowless = 0 := by
      have : m.rowless = m.requests.sumBy fun _ _ => 0 := sumBy_congr fun sid r hr => by
        rw [((hk.seqs sid).request r hr).row (hbegun sid r hr), if_pos rfl]
      rw [this]
      simp [sumBy]
    have hle : (news.map fun new => if m.allocator.seqRows.contains new.1 then 0 else 1).sum ≤
        news.length := by
      refine le_trans (sum_le_card_nsmul _ 1 fun n hn => ?_) (by simp)
      obtain ⟨new, -, rfl⟩ := mem_map.mp hn
      split <;> simp
    have hrows := rows_le hk.inv
    have hsizes := seqRows_size_le hk hc
    change (m.admitPrompts news).rowless ≤ m.allocator.freeRows.length
    omega
  · by_cases hx : x ∈ news.map Prod.fst
    · obtain ⟨new, hnew, rfl⟩ := mem_map.mp hx
      obtain ⟨hnone, hprompt, hlimit⟩ := hnews new hnew
      have hchain := (hk.seqs new.1).plain hc
      have hrow := (hk.seqs new.1).rowless hnone hchain
      refine ⟨fun r hr => ?_, fun hc' => ?_, fun _ => hchain, fun p hp => ?_, fun p hp => ?_,
        fun h => ?_⟩
      · obtain rfl := Option.some.inj ((hadded new hnew).symm.trans hr)
        refine ⟨hprompt, hlimit, ?_, fun l _ h _ => ?_, fun h => absurd h (lt_irrefl 0)⟩
        · change 0 + (new.2.1 - 0) + 0 ≤ m.allocator.width
          omega
        · exact (headLength_zero hrow l h).le
      · exact absurd (hc.symm.trans hc') (by simp)
      · exact absurd (hchain.symm.trans hp) (by simp)
      · exact absurd (hchain.symm.trans hp) (by simp)
      · exact absurd (hrow.symm.trans h) (by simp)
    · exact SeqOk.frame (m := m) (.refl _) rfl ⟨hothers x hx, rfl, rfl, fun _ _ => rfl⟩ (hk.seqs x)

end SparseEngine.HeadSlotCacheManager
