import SparseEngine.HeadSlots.Promises

/-!
# What the requests are owed
-/

namespace SparseEngine.HeadSlotCacheManager

open HeadSlotAllocator PyM Shares List Dict

variable {m m' : HeadSlotCacheManager} {sid : Int} {l : Nat} {r : HeadRequest} {p : ChainPromise}
  {batch : List (Int × Nat × Nat)}

def owed (m : HeadSlotCacheManager) : Nat := m.requests.sumBy fun _ r => r.remaining + r.window

def rowless (m : HeadSlotCacheManager) : Nat :=
  m.requests.sumBy fun sid _ => if m.allocator.seqRows.contains sid then 0 else 1

/-- A request holds no more than it computed, and what is left fits in its row. -/
structure RequestOk (s : HeadSlotAllocator) (sid : Int) (r : HeadRequest) : Prop where
  prompt : 0 < r.numPromptTokens
  limit : r.numPromptTokens + r.maxTokens ≤ s.width
  fits : r.done + r.remaining + r.window ≤ s.width
  held : ∀ l < s.layers, ∀ h < s.heads, s.headLength sid l h ≤ r.done
  row : 0 < r.done → s.seqRows.contains sid = true

/-- The promise of a running request covers what its prompt still needs. -/
structure Owes (s : HeadSlotAllocator) (sid : Int) (r : HeadRequest) (p : ChainPromise) : Prop where
  active : p.active = true
  settled : r.remaining = 0 → ∀ l, p.reservedSlotsByLayer.getD l 0 = 0
  running : 0 < r.remaining → ∃ suffixTokens, r.remaining ≤ suffixTokens ∧ ∀ l < s.layers,
    p.reservedSlotsByLayer.getD l 0 = suffixTokens * s.heads ∧
    s.residency sid l = p.allocatedCapacity.getD l 0 + (suffixTokens - r.remaining) * s.heads
  row : s.seqRows.contains sid = false → 1 ≤ p.reservedRows
  blank : s.seqRows.contains sid = false → ∀ l, p.allocatedCapacity.getD l 0 = 0

/-- A finished chain keeps its row and its capacity. -/
structure IdleOk (s : HeadSlotAllocator) (sid : Int) (p : ChainPromise) : Prop where
  row : s.seqRows.contains sid = true
  residentRows : p.residentRows = 1
  capacity : ∀ l < s.layers, p.allocatedCapacity.getD l 0 = s.residency sid l
  held : ∀ l < s.layers, ∀ h < s.heads, s.headLength sid l h ≤ p.processedTokenCount
  processed : 0 < p.processedTokenCount

structure SeqOk (m : HeadSlotCacheManager) (sid : Int) : Prop where
  request : ∀ r, m.requests.get? sid = some r → RequestOk m.allocator sid r
  owes : m.chained = true → ∀ r, m.requests.get? sid = some r →
    ∃ p, m.chains.get? sid = some p ∧ Owes m.allocator sid r p
  plain : m.chained = false → m.chains.get? sid = none
  idle : ∀ p, m.chains.get? sid = some p → p.active = false →
    m.requests.get? sid = none ∧ IdleOk m.allocator sid p
  active : ∀ p, m.chains.get? sid = some p → p.active = true → ∃ r, m.requests.get? sid = some r
  owned : m.allocator.seqRows.contains sid = true →
    (∃ r, m.requests.get? sid = some r) ∨ ∃ p, m.chains.get? sid = some p

/-- The free slots and rows cover everything that was promised. -/
structure Kept (m : HeadSlotCacheManager) : Prop where
  inv : Inv m.allocator
  room : ∀ l < m.allocator.layers, m.owed * m.allocator.heads ≤ m.allocator.freeCounts l
  rows : m.rowless ≤ m.allocator.freeRows.length
  seqs : ∀ sid, SeqOk m sid

structure SameHeld (s s' : HeadSlotAllocator) (sid : Int) : Prop where
  row : s'.seqRows.contains sid = s.seqRows.contains sid
  held : ∀ l h, s'.headLength sid l h = s.headLength sid l h

structure Untouched (m m' : HeadSlotCacheManager) (sid : Int) : Prop where
  request : m'.requests.get? sid = m.requests.get? sid
  chain : m'.chains.get? sid = m.chains.get? sid
  same : SameHeld m.allocator m'.allocator sid

section

variable {s s' : HeadSlotAllocator}

theorem SameHeld.residency (hshape : SameShape s s') (hs : SameHeld s s' sid) (l : Nat) :
    s'.residency sid l = s.residency sid l :=
  residency_congr hshape.heads fun k _ => hs.held l k

theorem RequestOk.frame (hshape : SameShape s s') (hs : SameHeld s s' sid) (h : RequestOk s sid r) :
    RequestOk s' sid r :=
  ⟨h.prompt, hshape.width ▸ h.limit, hshape.width ▸ h.fits,
    fun l hl k hk => hs.held l k ▸ h.held l (hshape.layers ▸ hl) k (hshape.heads ▸ hk),
    fun hd => hs.row ▸ h.row hd⟩

theorem Owes.frame (hshape : SameShape s s') (hs : SameHeld s s' sid) (h : Owes s sid r p) :
    Owes s' sid r p := by
  refine ⟨h.active, h.settled, fun hr => ?_, fun hrow => h.row (hs.row ▸ hrow),
    fun hrow => h.blank (hs.row ▸ hrow)⟩
  obtain ⟨suffixTokens, hle, hall⟩ := h.running hr
  refine ⟨suffixTokens, hle, fun l hl => ?_⟩
  rw [hs.residency hshape, hshape.heads]
  exact hall l (hshape.layers ▸ hl)

theorem IdleOk.frame (hshape : SameShape s s') (hs : SameHeld s s' sid) (h : IdleOk s sid p) :
    IdleOk s' sid p :=
  ⟨hs.row ▸ h.row, h.residentRows,
    fun l hl => (h.capacity l (hshape.layers ▸ hl)).trans (hs.residency hshape l).symm,
    fun l hl k hk => hs.held l k ▸ h.held l (hshape.layers ▸ hl) k (hshape.heads ▸ hk), h.processed⟩

end

theorem SeqOk.frame (hshape : SameShape m.allocator m'.allocator) (hchained : m'.chained = m.chained)
    (hu : Untouched m m' sid) (h : SeqOk m sid) : SeqOk m' sid where
  request := fun r hr => (h.request r (hu.request ▸ hr)).frame hshape hu.same
  owes := fun hc r hr => by
    obtain ⟨p, hp, ho⟩ := h.owes (hchained ▸ hc) r (hu.request ▸ hr)
    exact ⟨p, hu.chain.trans hp, ho.frame hshape hu.same⟩
  plain := fun hc => hu.chain.trans (h.plain (hchained ▸ hc))
  idle := fun p hp ha => by
    obtain ⟨hnone, hidle⟩ := h.idle p (hu.chain ▸ hp) ha
    exact ⟨hu.request.trans hnone, hidle.frame hshape hu.same⟩
  active := fun p hp ha => by
    obtain ⟨r, hr⟩ := h.active p (hu.chain ▸ hp) ha
    exact ⟨r, hu.request.trans hr⟩
  owned := fun hrow => by
    rw [hu.request, hu.chain]
    exact h.owned (hu.same.row ▸ hrow)

theorem Owes.current (h : Owes m.allocator sid r p) (l : Nat) :
    m.current sid p l = m.allocator.residency sid l := by
  unfold HeadSlotCacheManager.current
  cases hrow : m.allocator.seqRows.contains sid with
  | true => rfl
  | false =>
    have hnone := contains_eq_false.mp hrow
    simp only [Bool.false_eq_true, if_false, h.blank hrow, HeadSlotAllocator.residency,
      headLength_unknown hnone, Finset.sum_const_zero]

theorem Owes.unrealized (h : Owes m.allocator sid r p) (hl : l < m.allocator.layers) :
    m.unrealized sid p l = r.remaining * m.allocator.heads := by
  rw [HeadSlotCacheManager.unrealized, h.current]
  rcases Nat.eq_zero_or_pos r.remaining with hr | hr
  · rw [h.settled hr, hr, Nat.zero_sub, Nat.zero_mul]
  · obtain ⟨suffixTokens, hle, hall⟩ := h.running hr
    obtain ⟨hreserved, hcurrent⟩ := hall l hl
    rw [hreserved, hcurrent, Nat.add_sub_cancel_left, ← Nat.sub_mul, Nat.sub_sub_self hle]

theorem outstandingSlots_eq (h : ∀ sid, SeqOk m sid) (hc : m.chained = true) (exclude : List Int)
    (hl : l < m.allocator.layers) : m.outstandingSlots exclude l =
      m.requests.sumBy fun sid r => if sid ∈ exclude then 0 else r.remaining * m.allocator.heads := by
  refine sumBy_congr_at fun sid => ?_
  cases hr : m.requests.get? sid with
  | none =>
    rw [weightAt_of_not_mem (d := m.requests) (by simp [hr])]
    cases hp : m.chains.get? sid with
    | none => exact weightAt_of_not_mem (by simp [hp])
    | some p =>
      rw [weightAt_of_get hp, if_neg]
      rintro ⟨ha, -⟩
      obtain ⟨r, hr'⟩ := (h sid).active p hp ha
      rw [hr] at hr'
      cases hr'
  | some r =>
    obtain ⟨p, hp, ho⟩ := (h sid).owes hc r hr
    rw [weightAt_of_get hp, weightAt_of_get hr]
    by_cases hex : sid ∈ exclude
    · rw [if_neg (fun hn => hn.2 hex), if_pos hex]
    · rw [if_pos ⟨ho.active, hex⟩, if_neg hex, ho.unrealized hl]

theorem rowless_le_outstandingRows (h : ∀ sid, SeqOk m sid) (hc : m.chained = true) :
    m.rowless ≤ m.outstandingRows := by
  refine sumBy_mono fun sid r hr => ?_
  obtain ⟨p, hp, ho⟩ := (h sid).owes hc r hr
  refine ⟨p, hp, ?_⟩
  rw [ho.active, if_pos rfl]
  cases hrow : m.allocator.seqRows.contains sid with
  | true => exact Nat.zero_le _
  | false =>
    have := ho.row hrow
    simpa using this

theorem outstanding_add_windowSlots (h : ∀ sid, SeqOk m sid) (hc : m.chained = true)
    (hl : l < m.allocator.layers) :
    m.outstandingSlots [] l + m.windowSlots = m.owed * m.allocator.heads := by
  rw [outstandingSlots_eq h hc [] hl, windowSlots, owed, sumBy_add, Nat.add_mul]
  simp only [not_mem_nil, if_false]
  rw [sumBy_mul fun _ r => HeadRequest.remaining r]

theorem le_appendCapacity {s : HeadSlotAllocator} (hi : Inv s) (reserved : Nat → Nat) {n : Nat}
    (hroom : ∀ l < s.layers, n * s.heads + reserved l ≤ s.freeCounts l) (hfor : RoomFor s sid n) :
    ∃ cap, s.appendCapacity sid ((range s.layers).map fun l => (reserved l : Int)) = .ok cap ∧
      (n : Int) ≤ cap := by
  obtain ⟨hheads, -, hlayers⟩ := hi.positive
  have hne : range s.layers ≠ [] := by
    rw [ne_eq, range_eq_nil]
    omega
  have hbyLayer : (range s.layers).mapM
      (s.layerCapacity ((range s.layers).map fun l => (reserved l : Int))) =
      .ok ((range s.layers).map fun l => ((s.freeCounts l : Int) - reserved l) / s.heads) := by
    refine mapM_ok fun l hl => ?_
    rw [layerCapacity, if_neg (by simpa using hne), getElem?_map, getElem?_range
      (mem_range.mp hl), Option.map_some]
  obtain ⟨available, havailable⟩ := @exists_min? ((range s.layers).map fun l =>
    ((s.freeCounts l : Int) - reserved l) / s.heads) (by simpa using hne)
  have hle : (n : Int) ≤ available := by
    rw [le_of_min? havailable, forall_mem_map]
    intro l hl
    rw [Int.le_ediv_iff_mul_le (by exact_mod_cast hheads)]
    have := hroom l (mem_range.mp hl)
    zify at this
    linarith
  unfold appendCapacity
  rw [hbyLayer]
  simp only [bind, Except.bind, havailable]
  unfold RoomFor at hfor
  cases hget : s.seqRows.get? sid with
  | none =>
    simp only [hget] at hfor
    refine ⟨_, rfl, ?_⟩
    rw [if_neg hfor.1]
    exact le_max_of_le_right (le_min hle (by exact_mod_cast hfor.2))
  | some row =>
    simp only [hget] at hfor
    have hmem : ((0, 0) : Nat × Nat) ∈ s.layerHeads := mem_layerHeads.mpr ⟨hlayers, hheads⟩
    obtain ⟨left, hleft⟩ := @exists_min? (s.layerHeads.map fun lh =>
      (s.width : Int) - s.lengths lh.1 row lh.2)
      (ne_nil_of_mem (mem_map_of_mem hmem))
    refine ⟨_, by simp only [hleft]; rfl, le_max_of_le_right (le_min hle ?_)⟩
    rw [le_of_min? hleft, forall_mem_map]
    intro lh hlh
    obtain ⟨hl, hh⟩ := mem_layerHeads.mp hlh
    have := hfor lh.1 hl lh.2 hh
    omega

theorem tokens_le (hg : m.GrantedBatch batch) : tokens batch +
    (m.requests.sumBy fun sid r => if sid ∈ batch.map Prod.fst then 0 else r.remaining + r.window) ≤
    m.owed := by
  have hsplit : m.owed = (m.requests.sumBy fun sid r =>
      if sid ∈ batch.map Prod.fst then r.remaining + r.window else 0) +
      m.requests.sumBy fun sid r =>
        if sid ∈ batch.map Prod.fst then 0 else r.remaining + r.window := by
    rw [← sumBy_add, owed]
    refine sumBy_congr fun sid r _ => ?_
    split <;> simp
  rw [hsplit]
  refine Nat.add_le_add_right (le_trans ?_ (sum_weightAt_le _ m.requests hg.1)) _
  rw [tokens, map_map]
  refine sum_le_sum fun b hb => ?_
  obtain ⟨r, hr, -, -, hn⟩ := hg.2 b hb
  rw [Function.comp_apply, weightAt_of_get hr, if_pos (mem_map_of_mem hb)]
  omega

theorem outstanding_le (h : ∀ sid, SeqOk m sid) (exclude : List Int) (hl : l < m.allocator.layers) :
    m.outstanding exclude l ≤ (m.requests.sumBy fun sid r =>
      if sid ∈ exclude then 0 else r.remaining + r.window) * m.allocator.heads := by
  unfold outstanding
  split
  · next hc =>
    rw [outstandingSlots_eq h hc exclude hl, ← sumBy_mul]
    refine sumBy_mono fun sid r hr => ⟨r, hr, ?_⟩
    split
    · exact Nat.zero_le _
    · exact Nat.mul_le_mul_right _ (Nat.le_add_right _ _)
  · exact Nat.zero_le _

theorem Kept.batch_room (hk : Kept m) (hg : m.GrantedBatch batch) (hl : l < m.allocator.layers) :
    tokens batch * m.allocator.heads + m.outstanding (batch.map Prod.fst) l ≤
      m.allocator.freeCounts l :=
  calc tokens batch * m.allocator.heads + m.outstanding (batch.map Prod.fst) l
      ≤ tokens batch * m.allocator.heads + (m.requests.sumBy fun sid r =>
          if sid ∈ batch.map Prod.fst then 0 else r.remaining + r.window) * m.allocator.heads :=
        Nat.add_le_add_left (outstanding_le hk.seqs _ hl) _
    _ ≤ m.owed * m.allocator.heads := by
        rw [← Nat.add_mul]
        exact Nat.mul_le_mul_right _ (tokens_le hg)
    _ ≤ m.allocator.freeCounts l := hk.room l hl

theorem Kept.checkBatch (hk : Kept m) (hg : m.GrantedBatch batch) : m.checkBatch batch = .ok () := by
  rw [HeadSlotCacheManager.checkBatch, if_neg]
  rw [any_eq_true]
  rintro ⟨l, hl, hlt⟩
  exact absurd (hk.batch_room hg (mem_range.mp hl)) (not_le.mpr (of_decide_eq_true hlt))

theorem Kept.freeRows_ne (hk : Kept m) (hr : m.requests.get? sid = some r)
    (hrow : m.allocator.seqRows.get? sid = none) : m.allocator.freeRows ≠ [] := by
  have hle := le_sumBy (fun sid (_ : HeadRequest) =>
    if m.allocator.seqRows.contains sid then 0 else 1) m.requests sid
  rw [weightAt_of_get hr, contains_eq_false.mpr hrow] at hle
  have hrows := hk.rows
  rw [rowless] at hrows
  rintro hnil
  rw [hnil] at hrows
  simp only [Bool.false_eq_true, if_false, length_nil] at hle hrows
  omega

theorem Kept.roomFor (hk : Kept m) (hr : m.requests.get? sid = some r) {n : Nat}
    (hn : r.Granted n) : RoomFor m.allocator sid n := by
  have hok := (hk.seqs sid).request r hr
  have hfits := hok.fits
  obtain ⟨-, hn⟩ := hn
  unfold RoomFor
  cases hrow : m.allocator.seqRows.get? sid with
  | none => exact ⟨hk.freeRows_ne hr hrow, by omega⟩
  | some row =>
    intro l hl h hh
    have := hok.held l hl h hh
    rw [headLength_row hrow] at this
    omega

theorem Kept.prefillStepFreeSlotsFor (hk : Kept m) (hr : m.requests.get? sid = some r) {n : Nat}
    (hn : r.Granted n) : ∃ free, m.prefillStepFreeSlotsFor sid = .ok free ∧ (n : Int) ≤ free := by
  refine le_appendCapacity hk.inv (m.outstanding [sid]) (fun l hl => ?_) (hk.roomFor hr hn)
  have hg : m.GrantedBatch [(sid, r.done, n)] :=
    ⟨nodup_singleton _, fun b hb => by
      rw [mem_singleton.mp hb]
      exact ⟨r, hr, rfl, hn⟩⟩
  have := hk.batch_room hg hl
  simpa [tokens] using this

theorem Kept.checkRequests (hk : Kept m) : ∀ {batch : List (Int × Nat × Nat)},
    (∀ b ∈ batch, ∃ r, m.requests.get? b.1 = some r ∧ b.2.1 = r.done ∧ r.Granted b.2.2) →
    m.checkRequests batch = .ok ()
  | [], _ => rfl
  | b :: batch, h => by
    obtain ⟨r, hr, -, hn⟩ := h b mem_cons_self
    obtain ⟨free, hfree, hle⟩ := hk.prefillStepFreeSlotsFor hr hn
    rw [HeadSlotCacheManager.checkRequests, hfree]
    change (if free < (b.2.2 : Int) then _ else _) = _
    rw [if_neg (not_lt.mpr hle)]
    exact Kept.checkRequests hk fun b' hb' => h b' (mem_cons_of_mem _ hb')

theorem checkRows_ne {s : HeadSlotAllocator} {message : String} : ∀ (positions : List (List Int))
    (rows : List Nat), (∀ e ∈ positions.zip rows, ∀ l < s.layers, ∀ h < s.heads,
      s.lengths l e.2 h + e.1.length ≤ s.width) →
    s.checkRows positions rows ≠ .error (.runtimeError message)
  | [], _, _ => by simp [checkRows]
  | _ :: _, [], _ => by simp [checkRows]
  | pos :: positions, row :: rows, hfit => by
    rw [zip_cons_cons, forall_mem_cons] at hfit
    rw [checkRows, if_neg]
    · split
      · simp
      · exact checkRows_ne positions rows hfit.2
    · rw [any_eq_true]
      rintro ⟨lh, hlh, hlt⟩
      obtain ⟨hl, hh⟩ := mem_layerHeads.mp hlh
      exact absurd (hfit.1 lh.1 hl lh.2 hh) (not_le.mpr (of_decide_eq_true hlt))

theorem mem_zip_assignRows {s : HeadSlotAllocator} {P : List Int → Nat → Prop} :
    ∀ (requests : List (Int × List Int)) (next : List Nat),
    (∀ e ∈ requests, ∀ row, s.seqRows.get? e.1 = some row → P e.2 row) →
    (∀ e ∈ requests, s.seqRows.get? e.1 = none → ∀ row ∈ next, P e.2 row) →
    ∀ e ∈ (requests.map Prod.snd).zip (assignRows s.seqRows (requests.map Prod.fst) next), P e.1 e.2
  | [], _, _, _ => by simp
  | (sid, pos) :: requests, next, hknown, hnew => by
    rw [forall_mem_cons] at hknown hnew
    rw [map_cons, map_cons]
    cases hget : s.seqRows.get? sid with
    | some row =>
      rw [assignRows_known hget, zip_cons_cons, forall_mem_cons]
      exact ⟨hknown.1 row hget, mem_zip_assignRows requests next hknown.2 hnew.2⟩
    | none =>
      cases next with
      | nil =>
        rw [assignRows_short hget, zip_nil_right]
        simp
      | cons row next =>
        rw [assignRows_new hget, zip_cons_cons, forall_mem_cons]
        exact ⟨hnew.1 hget row mem_cons_self, mem_zip_assignRows requests next hknown.2
          fun e he hnone r hr => hnew.2 e he hnone r (mem_cons_of_mem _ hr)⟩

theorem countP_le_rowless (hg : m.GrantedBatch batch) :
    (batch.map Prod.fst).countP (fun sid => !m.allocator.seqRows.contains sid) ≤
      m.requests.sumBy fun sid _ => if sid ∈ batch.map Prod.fst then
        (if m.allocator.seqRows.contains sid then 0 else 1) else 0 := by
  refine le_trans (countP_le_sum fun sid hsid => ?_) (sum_weightAt_le _ m.requests hg.1)
  obtain ⟨b, hb, rfl⟩ := mem_map.mp hsid
  obtain ⟨r, hr, -⟩ := hg.2 b hb
  rw [weightAt_of_get hr, if_pos hsid]
  cases m.allocator.seqRows.contains b.1 <;> simp

theorem Kept.enough (hk : Kept m) (hg : m.GrantedBatch batch) :
    (batch.map Prod.fst).countP (fun sid => !m.allocator.seqRows.contains sid) ≤
      m.allocator.freeRows.length := by
  refine le_trans (countP_le_rowless hg) (le_trans (sumBy_mono fun sid r hr => ⟨r, hr, ?_⟩) hk.rows)
  split
  · exact le_rfl
  · exact Nat.zero_le _

theorem Kept.planAppend (hk : Kept m) (hg : m.GrantedBatch batch) (message : String) :
    m.allocator.planAppend (requestsOf batch) ≠ .error (.runtimeError message) := by
  have hlen : ∀ b : Int × Nat × Nat, (positionsFrom b.2.1 b.2.2).length = b.2.2 := fun b => by
    rw [positionsFrom, List.length_map, List.length_range]
  unfold HeadSlotAllocator.planAppend
  simp only
  split
  · simp
  · split
    · simp
    · rw [if_neg]
      · have hrows : m.allocator.checkRows ((requestsOf batch).map Prod.snd)
            (assignRows m.allocator.seqRows ((requestsOf batch).map Prod.fst)
              m.allocator.freeRows.reverse) ≠ .error (.runtimeError message) := by
          refine checkRows_ne _ _ (mem_zip_assignRows (P := fun pos row => ∀ l < m.allocator.layers,
            ∀ h < m.allocator.heads, m.allocator.lengths l row h + pos.length ≤ m.allocator.width)
            _ _ ?_ ?_)
          · intro e he row hrow
            obtain ⟨b, hb, rfl⟩ := mem_map.mp he
            obtain ⟨r, hr, -, hn⟩ := hg.2 b hb
            have hroom := hk.roomFor hr hn
            rw [hlen]
            simpa only [RoomFor, hrow] using hroom
          · intro e he hnone row hrow l hl h hh
            obtain ⟨b, hb, rfl⟩ := mem_map.mp he
            obtain ⟨r, hr, -, hn⟩ := hg.2 b hb
            have hroom := hk.roomFor hr hn
            simp only [RoomFor, hnone] at hroom
            rw [hlen, hk.inv.idle row (mem_reverse.mp hrow), Nat.zero_add]
            exact hroom.2
        intro h
        revert h hrows
        generalize m.allocator.checkRows _ _ = result
        rintro hrows h
        cases result with
        | error e =>
          simp only [Except.error.injEq] at h
          exact hrows (congrArg Except.error h)
        | ok u => simp at h
      · rw [map_requestsOf.1, not_or, not_lt]
        refine ⟨hk.enough hg, ?_⟩
        rw [any_eq_true]
        rintro ⟨l, hl, hlt⟩
        have hroom := hk.batch_room hg (mem_range.mp hl)
        have hneeded : m.allocator.slotsNeeded ((requestsOf batch).map Prod.snd) =
            tokens batch * m.allocator.heads := by
          rw [map_requestsOf.2, slotsNeeded, map_map, Nat.mul_comm, tokens]
          congr 2
          exact map_congr_left fun b _ => hlen b
        have := of_decide_eq_true hlt
        omega

end SparseEngine.HeadSlotCacheManager
