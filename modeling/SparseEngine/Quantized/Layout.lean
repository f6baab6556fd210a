import SparseEngine.Quantized.Manager

/-! The layout of a manager: the pages of live sequences and the free list are all pages. -/

namespace SparseEngine.QuantizedCacheManager

open PyM QuantizedPagePool List Function Dict Shares Prod

variable {τ : Type} {m m' m'' : QuantizedCacheManager τ} {numPages : Nat} {sid : Int}
  {count row : Nat}

/-- Rows and pages belong to one sequence each, and the tables follow the pool. -/
structure Layout (numPages : Nat) (m : QuantizedCacheManager τ) : Prop where
  pool : PoolInv numPages m.pool
  keys : ∀ sid, m.seqIdToRow.get? sid = none ↔ m.pool.pages.get? sid = none
  unique : ∀ sid sid' row, m.seqIdToRow.get? sid = some row → m.seqIdToRow.get? sid' = some row →
    sid = sid'
  freeRows_nodup : m.freeRows.Nodup
  owned : ∀ sid row, m.seqIdToRow.get? sid = some row → row ∉ m.freeRows
  lens : ∀ sid row, m.seqIdToRow.get? sid = some row →
    m.rowSeqLens row = m.pool.length sid ∧ m.rowLogicalLens row = m.pool.length sid
  slot : ∀ sid row, m.seqIdToRow.get? sid = some row → ∀ i < m.pool.length sid, m.slots row i =
    (share m.pool.pages sid).getD (i / m.pool.pageSize) 0 * m.pool.pageSize +
      i % m.pool.pageSize

theorem Layout.withBatch (h : Layout numPages m) (slots : List Nat) (reqLens : List (Nat × Nat))
    (active : Bool) (plan : List WriteEntry) : Layout numPages { m with
      slotMapping := slots, reqLens := reqLens, prefillActive := active, writePlan := plan } :=
  { h with }

theorem Layout.withStore (h : Layout numPages m) (raw : Nat → Nat → τ) (packed : Nat → List τ) :
    Layout numPages { m with raw := raw, packed := packed } :=
  { h with }

theorem Layout.length_of_unknown (h : Layout numPages m) (hsid : m.seqIdToRow.get? sid = none) :
    m.pool.length sid = 0 := by
  rw [QuantizedPagePool.length, (h.pool.keys sid).mp ((h.keys sid).mp hsid), Option.getD_none]

theorem Layout.row_of_length (h : Layout numPages m) (hlen : 0 < m.pool.length sid) :
    ∃ row, m.seqIdToRow.get? sid = some row := by
  cases hget : m.seqIdToRow.get? sid with
  | none => rw [h.length_of_unknown hget] at hlen; exact absurd hlen (Nat.lt_irrefl 0)
  | some row => exact ⟨row, rfl⟩

theorem Layout.slot_injective (h : Layout numPages m) {sid' : Int} {row' i i' : Nat}
    (hrow : m.seqIdToRow.get? sid = some row) (hrow' : m.seqIdToRow.get? sid' = some row')
    (hi : i < m.pool.length sid) (hi' : i' < m.pool.length sid')
    (heq : m.slots row i = m.slots row' i') : sid = sid' ∧ i = i' := by
  have hpos := h.pool.positive
  rw [h.slot sid row hrow i hi, h.slot sid' row' hrow' i' hi'] at heq
  have hmod : i % m.pool.pageSize = i' % m.pool.pageSize := by
    have := congrArg (· % m.pool.pageSize) heq
    simpa [Nat.add_mod, Nat.mul_mod_left] using this
  have hpage : (share m.pool.pages sid).getD (i / m.pool.pageSize) 0 =
      (share m.pool.pages sid').getD (i' / m.pool.pageSize) 0 := by
    rw [hmod] at heq
    exact Nat.eq_of_mul_eq_mul_right hpos (Nat.add_right_cancel heq)
  have hq : i / m.pool.pageSize < (share m.pool.pages sid).length := by
    rw [h.pool.size]
    exact div_lt_pagesFor hpos hi
  have hq' : i' / m.pool.pageSize < (share m.pool.pages sid').length := by
    rw [h.pool.size]
    exact div_lt_pagesFor hpos hi'
  rw [getD_eq_getElem?_getD, getD_eq_getElem?_getD, getElem?_eq_getElem hq,
    getElem?_eq_getElem hq', Option.getD_some, Option.getD_some] at hpage
  have hsid : sid = sid' := by
    by_contra hne
    refine disjoint_share h.pool.nodup (Ne.symm hne) (getElem_mem hq) ?_
    rw [hpage]
    exact getElem_mem hq'
  subst hsid
  have hdiv := (nodup_share h.pool.nodup sid).getElem_inj_iff.mp hpage
  refine ⟨rfl, ?_⟩
  rw [← Nat.div_add_mod i m.pool.pageSize, ← Nat.div_add_mod i' m.pool.pageSize, hdiv, hmod]

structure Grown (m m' : QuantizedCacheManager τ) (requests : List (Int × Nat)) : Prop where
  lengths : ∀ r ∈ requests, m'.pool.length r.1 = m.pool.length r.1 + r.2
  others : ∀ sid ∉ requests.map fst, m'.pool.length sid = m.pool.length sid ∧
    m'.seqIdToRow.get? sid = m.seqIdToRow.get? sid
  pages : ∀ sid, ∃ added, share m'.pool.pages sid = share m.pool.pages sid ++ added
  rows : ∀ sid row, m.seqIdToRow.get? sid = some row → m'.seqIdToRow.get? sid = some row
  known : ∀ r ∈ requests, ∃ row, m'.seqIdToRow.get? r.1 = some row
  pageSize : m'.pool.pageSize = m.pool.pageSize
  raw : m'.raw = m.raw
  packed : m'.packed = m.packed

theorem Grown.refl (m : QuantizedCacheManager τ) : Grown m m [] where
  lengths := by simp
  others := fun _ _ => ⟨rfl, rfl⟩
  pages := fun _ => ⟨[], (append_nil _).symm⟩
  rows := fun _ _ h => h
  known := by simp
  pageSize := rfl
  raw := rfl
  packed := rfl

theorem Grown.cons {rest : List (Int × Nat)} (h : Grown m m' [(sid, count)]) (h' : Grown m' m'' rest)
    (hsid : sid ∉ rest.map fst) : Grown m m'' ((sid, count) :: rest) where
  lengths := by
    have hne : ∀ r ∈ rest, r.1 ∉ [(sid, count)].map fst := fun r hr he => by
      obtain rfl : r.1 = sid := by simpa using he
      exact hsid (mem_map_of_mem hr)
    refine forall_mem_cons.mpr ⟨?_, fun r hr => ?_⟩
    · rw [(h'.others sid hsid).1]
      exact h.lengths (sid, count) (by simp)
    · rw [h'.lengths r hr, (h.others r.1 (hne r hr)).1]
  others := fun x hx => by
    rw [map_cons, mem_cons, not_or] at hx
    obtain ⟨h1, h2⟩ := h'.others x hx.2
    obtain ⟨h3, h4⟩ := h.others x (by simpa using hx.1)
    exact ⟨h1.trans h3, h2.trans h4⟩
  pages := fun x => by
    obtain ⟨added, hadded⟩ := h.pages x
    obtain ⟨added', hadded'⟩ := h'.pages x
    exact ⟨added ++ added', by rw [hadded', hadded, append_assoc]⟩
  rows := fun x row hx => h'.rows x row (h.rows x row hx)
  known := forall_mem_cons.mpr ⟨by
    obtain ⟨row, hrow⟩ := h.known (sid, count) (by simp)
    exact ⟨row, h'.rows sid row hrow⟩, h'.known⟩
  pageSize := h'.pageSize.trans h.pageSize
  raw := h'.raw.trans h.raw
  packed := h'.packed.trans h.packed

/-- The row that the next allocation of `sid` uses. -/
def NextRow (m : QuantizedCacheManager τ) (sid : Int) (row : Nat) : Prop :=
  m.seqIdToRow.get? sid = some row ∨ m.seqIdToRow.get? sid = none ∧ m.freeRows.head? = some row

/-- The rows after `_get_free_row`. -/
def withRow (m : QuantizedCacheManager τ) (sid : Int) (row : Nat) : QuantizedCacheManager τ :=
  { m with
    seqIdToRow := m.seqIdToRow.set sid row
    freeRows := if m.seqIdToRow.contains sid then m.freeRows else m.freeRows.tail }

theorem getFreeRow_run (h : NextRow m sid row) : getFreeRow sid m = (.ok row, m.withRow sid row) := by
  rcases h with h | ⟨h, hhead⟩
  · have hc : m.seqIdToRow.contains sid = true := contains_iff.mpr ⟨row, h⟩
    simp only [getFreeRow, bind_run, get_run, h, pure_run, withRow, set_eq_self h, hc, if_true]
  · have hc : m.seqIdToRow.contains sid = false := contains_eq_false.mpr h
    cases hfree : m.freeRows with
    | nil => simp [hfree] at hhead
    | cons r free =>
      obtain rfl : r = row := by simpa [hfree] using hhead
      simp only [getFreeRow, bind_run, get_run, h, hfree, modify_run, pure_run, withRow, hc,
        Bool.false_eq_true, if_false, tail_cons]

/-- The state after `_allocate`. -/
def allocated (m : QuantizedCacheManager τ) (sid : Int) (count row : Nat) :
    QuantizedCacheManager τ :=
  let start := m.pool.length sid
  let m' := { m.withRow sid row with pool := m.pool.appended sid count }
  { m' with
    slots := fun r i =>
      if r = row ∧ start ≤ i ∧ i < start + count then
        (share m'.pool.pages sid).getD (i / m.pool.pageSize) 0 * m.pool.pageSize +
          i % m.pool.pageSize
      else m.slots r i
    rowSeqLens := fun r => if r = row then start + count else m.rowSeqLens r
    rowLogicalLens := fun r => if r = row then start + count else m.rowLogicalLens r }

theorem allocated_slots (r i : Nat) : (m.allocated sid count row).slots r i =
    if r = row ∧ m.pool.length sid ≤ i ∧ i < m.pool.length sid + count then
      (share (m.pool.appended sid count).pages sid).getD (i / m.pool.pageSize) 0 *
        m.pool.pageSize + i % m.pool.pageSize
    else m.slots r i := rfl

theorem planSlots_getD {pages : List Nat} {pageSize start stop bound i : Nat} (hi : start ≤ i)
    (hi' : i < stop) (hbound : i / pageSize < bound) :
    (planSlots pageSize ⟨start, stop, (pages.take bound).drop (start / pageSize)⟩).getD (i - start) 0 =
      pages.getD (i / pageSize) 0 * pageSize + i % pageSize := by
  have hrange : i - start < stop - start := by omega
  have hpos : start + (i - start) = i := by omega
  have hdiv : start / pageSize + (i / pageSize - start / pageSize) = i / pageSize := by
    have := Nat.div_le_div_right (c := pageSize) hi
    omega
  have hpage : ((pages.take bound).drop (start / pageSize)).getD (i / pageSize - start / pageSize) 0 =
      pages.getD (i / pageSize) 0 := by
    rw [getD_eq_getElem?_getD, getD_eq_getElem?_getD, getElem?_drop, hdiv,
      getElem?_take, if_pos hbound]
  simp only [planSlots, getD_eq_getElem?_getD, getElem?_map, getElem?_range hrange,
    Option.map_some, Option.getD_some, hpos] at hpage ⊢
  rw [hpage]

theorem allocate_run {n : Nat} (h : Layout numPages m) (hrow : NextRow m sid row)
    (hcost : m.pool.appendCost sid count = .ok n) (hfree : n ≤ m.pool.free.length) :
    ∃ slots, allocate sid count m = (.ok slots, m.allocated sid count row) ∧ slots.length = count := by
  have hrows : ¬ (m.seqIdToRow.contains sid = false ∧ m.freeRows = []) := by
    rintro ⟨hc, hnil⟩
    rcases hrow with hrow | ⟨-, hhead⟩
    · rw [contains_eq_false.mp hc] at hrow
      cases hrow
    · simp [hnil] at hhead
  obtain ⟨pages, hpages, happend⟩ : ∃ pages : List Nat,
      (0 < count → pages = ((share (m.pool.appended sid count).pages sid).take
        (m.pool.pagesFor (m.pool.length sid + count))).drop (m.pool.length sid / m.pool.pageSize)) ∧
      append sid count m.pool = (.ok ⟨m.pool.length sid, m.pool.length sid + count, pages⟩,
        m.pool.appended sid count) := by
    rcases append_spec (p := m.pool) sid count with ⟨e, he⟩ | ⟨_, -, -, -, hrun⟩
    · simp only [append, bind_run, get_run, lift_run, hcost, raiseIf, if_neg (not_lt.mpr hfree),
        modify_run, pure_run, Prod.mk.injEq, reduceCtorEq, false_and] at he
    · rw [Int.toNat_natCast] at hrun
      exact ⟨_, fun hcount => if_neg (by omega), hrun⟩
  have hrow' : NextRow { m with pool := m.pool.appended sid count } sid row := hrow
  have hrun : ∀ plan, append sid count m.pool = (.ok plan, m.pool.appended sid count) →
      allocate sid count m = (.ok (planSlots m.pool.pageSize plan),
        { withRow { m with pool := m.pool.appended sid count } sid row with
          slots := fun r i => if r = row ∧ plan.start ≤ i ∧ i < plan.stop then
            (planSlots m.pool.pageSize plan).getD (i - plan.start) 0 else m.slots r i
          rowSeqLens := fun r => if r = row then plan.stop else m.rowSeqLens r
          rowLogicalLens := fun r => if r = row then plan.stop else m.rowLogicalLens r }) := by
    intro plan hplan
    simp only [allocate, bind_run, get_run, raiseIf, if_neg hrows, zoom, hplan, getFreeRow_run hrow',
      modify_run, pure_run]
    rfl
  have hslots : ∀ r i, (if r = row ∧ m.pool.length sid ≤ i ∧ i < m.pool.length sid + count then
        (planSlots m.pool.pageSize ⟨m.pool.length sid, m.pool.length sid + count, pages⟩).getD
          (i - m.pool.length sid) 0
      else m.slots r i) = (m.allocated sid count row).slots r i := by
    intro r i
    rw [allocated_slots]
    split
    · next hi =>
      rw [hpages (by omega)]
      exact planSlots_getD hi.2.1 hi.2.2 (div_lt_pagesFor h.pool.positive hi.2.2)
    · rfl
  refine ⟨planSlots m.pool.pageSize ⟨m.pool.length sid, m.pool.length sid + count, pages⟩,
    (hrun _ happend).trans ?_, ?_⟩
  · simp only [hslots]
    rfl
  · rw [planSlots, length_map, length_range, Nat.add_sub_cancel_left]

theorem NextRow.ne (hrow : NextRow m sid row) (h : Layout numPages m) {x : Int} {row' : Nat}
    (hx : x ≠ sid) (hget : m.seqIdToRow.get? x = some row') : row' ≠ row := by
  rintro rfl
  rcases hrow with hrow | ⟨-, hhead⟩
  · exact hx (h.unique _ _ _ hget hrow)
  · exact h.owned _ _ hget (mem_of_mem_head? hhead)

theorem Layout.allocated {n : Nat} (h : Layout numPages m) (hrow : NextRow m sid row)
    (hcost : m.pool.appendCost sid count = .ok n) (hfree : n ≤ m.pool.free.length) :
    Layout numPages (m.allocated sid count row) := by
  have hget : ∀ x, (m.allocated sid count row).seqIdToRow.get? x =
      if x = sid then some row else m.seqIdToRow.get? x := fun x => get?_set _ _ _ _
  have hpages : ∀ x, (m.allocated sid count row).pool.pages.get? x =
      if x = sid then some (share (m.pool.appended sid count).pages sid)
      else m.pool.pages.get? x := fun x => by
    have hshare : share (m.pool.appended sid count).pages sid = _ := share_set_self
    rw [hshare]
    exact get?_set _ _ _ _
  have hrows : (m.allocated sid count row).freeRows =
      if m.seqIdToRow.contains sid then m.freeRows else m.freeRows.tail := rfl
  have hsub : (m.allocated sid count row).freeRows.Sublist m.freeRows := by
    rw [hrows]
    split
    · exact Sublist.refl _
    · exact tail_sublist _
  refine ⟨h.pool.appended hcost hfree, fun x => ?_, fun x y r hx hy => ?_, ?_, fun x r hx => ?_,
    fun x r hx => ?_, fun x r hx i hi => ?_⟩
  · rw [hget, hpages]
    split
    · simp
    · exact h.keys x
  · rw [hget] at hx hy
    split at hx <;> split at hy
    · simp_all
    · next hxs hys =>
      obtain rfl := Option.some.inj hx
      exact absurd rfl (hrow.ne h hys hy)
    · next hxs hys =>
      obtain rfl := Option.some.inj hy
      exact absurd rfl (hrow.ne h hxs hx)
    · exact h.unique x y r hx hy
  · exact h.freeRows_nodup.sublist hsub
  · rw [hget] at hx
    split at hx
    · obtain rfl := Option.some.inj hx
      rcases hrow with hrow | ⟨hnone, hhead⟩
      · exact fun hmem => h.owned sid row hrow (hsub.subset hmem)
      · rw [hrows, contains_eq_false.mpr hnone, if_neg Bool.false_ne_true]
        have hnd := h.freeRows_nodup
        rw [← cons_head?_tail hhead, nodup_cons] at hnd
        exact hnd.1
    · exact fun hmem => h.owned x r hx (hsub.subset hmem)
  · rw [hget] at hx
    split at hx
    · next hxs =>
      obtain rfl := Option.some.inj hx
      subst hxs
      have hlen : (m.allocated x count row).pool.length x = m.pool.length x + count := length_appended
      rw [hlen]
      exact ⟨if_pos rfl, if_pos rfl⟩
    · next hxs =>
      have hlen : (m.allocated sid count row).pool.length x = m.pool.length x := length_appended_ne hxs
      have hne : r ≠ row := hrow.ne h hxs hx
      rw [hlen]
      exact ⟨(if_neg hne).trans (h.lens x r hx).1, (if_neg hne).trans (h.lens x r hx).2⟩
  · rw [allocated_slots]
    rw [hget] at hx
    split at hx
    · next hxs =>
      obtain rfl := Option.some.inj hx
      subst hxs
      have hlen : (m.allocated x count row).pool.length x = m.pool.length x + count := length_appended
      rw [hlen] at hi
      by_cases hold : m.pool.length x ≤ i
      · rw [if_pos ⟨rfl, hold, hi⟩]
        rfl
      · -- A position from before the append: its page is in front of the new ones.
        have hold' : i < m.pool.length x := not_le.mp hold
        obtain ⟨row', hrow'⟩ := h.row_of_length (lt_of_le_of_lt (Nat.zero_le i) hold')
        obtain rfl : row' = row := by
          rcases hrow with hrow | ⟨hnone, -⟩
          · exact Option.some.inj (hrow'.symm.trans hrow)
          · rw [hnone] at hrow'
            cases hrow'
        obtain ⟨added, hadded⟩ := @share_appended m.pool x count
        have hpage : i / m.pool.pageSize < (share m.pool.pages x).length := by
          rw [h.pool.size]
          exact div_lt_pagesFor h.pool.positive hold'
        rw [if_neg (fun hcon => hold hcon.2.1), h.slot x row' hrow' i hold']
        change _ = (share (m.pool.appended x count).pages x).getD (i / m.pool.pageSize) 0 *
          m.pool.pageSize + i % m.pool.pageSize
        rw [hadded, getD_eq_getElem?_getD, getD_eq_getElem?_getD,
          getElem?_append_left hpage]
    · next hxs =>
      have hlen : (m.allocated sid count row).pool.length x = m.pool.length x := length_appended_ne hxs
      have hshare : share (m.allocated sid count row).pool.pages x =
          share m.pool.pages x := share_appended_ne hxs
      rw [hlen] at hi
      rw [if_neg (fun hcon => hrow.ne h hxs hx hcon.1), hshare]
      exact h.slot x r hx i hi

theorem grown_allocated (hrow : NextRow m sid row) :
    Grown m (m.allocated sid count row) [(sid, count)] where
  lengths := by
    rintro r hr
    obtain rfl := mem_singleton.mp hr
    exact length_appended
  others := fun x hx => by
    have hx : x ≠ sid := by simpa using hx
    exact ⟨length_appended_ne hx, get?_set_ne _ _ hx⟩
  pages := fun x => by
    by_cases hx : x = sid
    · subst hx
      exact share_appended
    · exact ⟨[], (share_appended_ne hx).trans (append_nil _).symm⟩
  rows := fun x r hx => by
    by_cases hxs : x = sid
    · subst hxs
      rcases hrow with hrow | ⟨hnone, -⟩
      · rw [hx] at hrow
        obtain rfl := Option.some.inj hrow
        exact get?_set_self _ _ _
      · rw [hnone] at hx
        cases hx
    · exact (get?_set_ne _ _ hxs).trans hx
  known := by
    rintro r hr
    obtain rfl := mem_singleton.mp hr
    exact ⟨row, get?_set_self _ _ _⟩
  pageSize := rfl
  raw := rfl
  packed := rfl

def cost (m : QuantizedCacheManager τ) (r : Int × Nat) : Nat :=
  m.pool.pagesFor (m.pool.length r.1 + r.2) - m.pool.pagesFor (m.pool.length r.1)

structure Affordable (m : QuantizedCacheManager τ) (requests : List (Int × Nat)) : Prop where
  nodup : (requests.map fst).Nodup
  fits : ∀ r ∈ requests, m.pool.length r.1 + r.2 ≤ m.pool.maxLength
  pages : (requests.map m.cost).sum ≤ m.pool.free.length
  rows : m.newRows (requests.map fst) ≤ m.freeRows.length

theorem appendCost_of_fits (h : m.pool.length sid + count ≤ m.pool.maxLength) :
    m.pool.appendCost sid count = .ok (m.cost (sid, count)) := by
  rw [appendCost_nat, if_neg (not_lt.mpr h)]
  rfl

theorem neededPages_ok {requests : List (Int × Nat)} {n : Nat}
    (h : m.neededPages (requests.map fun r => (r.1, (r.2 : Int))) = .ok n) :
    (∀ r ∈ requests, m.pool.length r.1 + r.2 ≤ m.pool.maxLength) ∧ n = (requests.map m.cost).sum := by
  induction requests generalizing n with
  | nil =>
    have hn : (0 : Nat) = n := Except.ok.inj h
    simpa using hn.symm
  | cons r rest ih =>
    obtain ⟨sid, count⟩ := r
    by_cases hfit : m.pool.length sid + count ≤ m.pool.maxLength
    · have hcost := appendCost_of_fits hfit
      rw [neededPages, map_cons, mapM_cons] at h
      simp only [hcost] at h
      cases hrest : (rest.map fun r => (r.1, (r.2 : Int))).mapM fun r => m.pool.appendCost r.1 r.2 with
      | error e => simp [hrest, bind, Except.bind] at h
      | ok costs =>
        have hneeded : m.neededPages (rest.map fun r => (r.1, (r.2 : Int))) = .ok costs.sum := by
          rw [neededPages, hrest]
          rfl
        obtain ⟨hfits, hsum⟩ := ih hneeded
        have hn : m.cost (sid, count) + costs.sum = n := by
          simpa [hrest, bind, Except.bind, pure, Except.pure] using h
        refine ⟨forall_mem_cons.mpr ⟨hfit, hfits⟩, ?_⟩
        rw [map_cons, sum_cons, ← hsum, hn]
    · rw [neededPages, map_cons, mapM_cons] at h
      simp only [appendCost_nat, if_pos (not_le.mp hfit)] at h
      cases h

theorem allocate_step {rest : List (Int × Nat)} (h : Layout numPages m)
    (ha : Affordable m ((sid, count) :: rest)) :
    ∃ slots m', allocate sid count m = (.ok slots, m') ∧ slots.length = count ∧
      Layout numPages m' ∧ Affordable m' rest ∧ Grown m m' [(sid, count)] := by
  have hfit : m.pool.length sid + count ≤ m.pool.maxLength := ha.fits (sid, count) (by simp)
  have hcost := appendCost_of_fits hfit
  have hpages := ha.pages
  rw [map_cons, sum_cons] at hpages
  have hfree : m.cost (sid, count) ≤ m.pool.free.length := by omega
  have hnodup := ha.nodup
  rw [map_cons, nodup_cons] at hnodup
  have hrows := ha.rows
  rw [newRows, map_cons, countP_cons] at hrows
  obtain ⟨row, hrow⟩ : ∃ row, NextRow m sid row := by
    cases hget : m.seqIdToRow.get? sid with
    | some row => exact ⟨row, Or.inl hget⟩
    | none =>
      rw [contains_eq_false.mpr hget] at hrows
      cases hrowsList : m.freeRows with
      | nil => simp [hrowsList] at hrows
      | cons row free => exact ⟨row, Or.inr ⟨hget, by rw [hrowsList, head?_cons]⟩⟩
  obtain ⟨slots, hrun, hlength⟩ := allocate_run h hrow hcost hfree
  have hgrown : Grown m (m.allocated sid count row) [(sid, count)] := grown_allocated hrow
  have hother : ∀ r ∈ rest, r.1 ≠ sid := fun r hr he => by
    exact hnodup.1 (mem_map.mpr ⟨r, hr, he⟩)
  have hlen : ∀ r ∈ rest, (m.allocated sid count row).pool.length r.1 = m.pool.length r.1 :=
    fun r hr => length_appended_ne (hother r hr)
  refine ⟨slots, _, hrun, hlength, h.allocated hrow hcost hfree, ⟨hnodup.2, fun r hr => ?_, ?_, ?_⟩,
    hgrown⟩
  · rw [hlen r hr]
    exact ha.fits r (mem_cons_of_mem _ hr)
  · have hcosts : rest.map (m.allocated sid count row).cost = rest.map m.cost :=
      map_congr_left fun r hr => by
        rw [cost, cost, hlen r hr]
        rfl
    have hleft : (m.allocated sid count row).pool.free.length =
        m.pool.free.length - m.cost (sid, count) := by
      change (m.pool.free.take (m.pool.free.length - m.cost (sid, count))).length = _
      rw [length_take]
      omega
    rw [hcosts, hleft]
    omega
  · have hnew : (m.allocated sid count row).newRows (rest.map fst) =
        m.newRows (rest.map fst) := by
      refine countP_congr fun x hx => ?_
      obtain ⟨r, hr, rfl⟩ := mem_map.mp hx
      have hcontains : (m.allocated sid count row).seqIdToRow.contains r.1 =
          m.seqIdToRow.contains r.1 := by
        rw [Dict.contains, Dict.contains, (hgrown.others r.1 (by simpa using hother r hr)).2]
      rw [hcontains]
    rw [hnew, newRows]
    change _ ≤ (if m.seqIdToRow.contains sid then m.freeRows else m.freeRows.tail).length
    split
    · next hc => simpa [hc] using hrows
    · next hc =>
      rw [length_tail]
      simp only [Bool.not_eq_true] at hc
      rw [hc] at hrows
      simp only [Bool.not_false, if_true] at hrows
      omega

theorem allocateLoop_spec {seqIds : List Int} (slots : List Nat) (h : Layout numPages m)
    (ha : Affordable m (seqIds.map fun sid => (sid, 1))) :
    ∃ new m', allocateLoop seqIds slots m = (.ok (slots ++ new), m') ∧ new.length = seqIds.length ∧
      Layout numPages m' ∧ Grown m m' (seqIds.map fun sid => (sid, 1)) := by
  induction seqIds generalizing m slots with
  | nil => exact ⟨[], m, by simp [allocateLoop], rfl, h, Grown.refl m⟩
  | cons sid rest ih =>
    obtain ⟨first, m1, hrun1, hlen1, h1, ha1, hg1⟩ := allocate_step h ha
    obtain ⟨new, m2, hrun2, hlen2, h2, hg2⟩ := ih (slots ++ first) h1 ha1
    have hnodup := ha.nodup
    rw [map_cons, map_cons, nodup_cons] at hnodup
    refine ⟨first ++ new, m2, ?_, ?_, h2, hg1.cons hg2 hnodup.1⟩
    · rw [allocateLoop, bind_run, show (1 : Int) = ((1 : Nat) : Int) from rfl, hrun1]
      simp only [hrun2, append_assoc]
    · rw [length_append, hlen1, hlen2, length_cons, Nat.add_comm]

theorem allocateBatch_spec (h : Layout numPages m) (seqIds : List Int) (size : Int) :
    (∃ e, allocateBatch seqIds size m = (.error e, m)) ∨
    ∃ slots m', allocateBatch seqIds size m = (.ok slots, m') ∧ size = 1 ∧ seqIds.Nodup ∧
      slots.length = seqIds.length ∧ Layout numPages m' ∧
      Grown m m' (seqIds.map fun sid => (sid, 1)) := by
  by_cases hargs : size ≠ 1 ∨ ¬ seqIds.Nodup
  · refine Or.inl
      ⟨.valueError "Quantized decode requires one token per distinct sequence.", ?_⟩
    simp only [allocateBatch, bind_run, raiseIf, if_pos hargs]
  obtain ⟨hsize, hnodup⟩ := not_or.mp hargs
  have hrequests : (seqIds.map fun sid => (sid, (1 : Int))) =
      (seqIds.map fun sid => (sid, 1)).map fun r : Int × Nat => (r.1, (r.2 : Int)) := by
    simp [comp_def]
  have hids : (seqIds.map fun sid => (sid, 1)).map fst = seqIds := by simp [comp_def]
  cases hneeded : m.neededPages (seqIds.map fun sid => (sid, (1 : Int))) with
  | error e =>
    exact Or.inl ⟨e, by simp only [allocateBatch, bind_run, raiseIf, if_neg hargs, get_run,
      lift_run, hneeded]⟩
  | ok n =>
    by_cases hroom : m.pool.free.length < n ∨ m.freeRows.length < m.newRows seqIds
    · refine Or.inl
        ⟨.runtimeError "Insufficient quantized KV pages/rows for decode batch.", ?_⟩
      simp only [allocateBatch, bind_run, raiseIf, if_neg hargs, get_run, lift_run, hneeded,
        if_pos hroom]
    · obtain ⟨hpages, hrows⟩ := not_or.mp hroom
      have hneeded' := hneeded
      rw [hrequests] at hneeded'
      obtain ⟨hfits, hsum⟩ := neededPages_ok hneeded'
      have ha : Affordable m (seqIds.map fun sid => (sid, 1)) :=
        ⟨by rw [hids]; exact not_not.mp hnodup, hfits, by omega, by rw [hids]; omega⟩
      obtain ⟨new, m', hrun, hlen, h', hgrown⟩ := allocateLoop_spec [] h ha
      rw [nil_append] at hrun
      refine Or.inr ⟨new, m', ?_, not_not.mp hsize, not_not.mp hnodup, hlen, h', hgrown⟩
      simp only [allocateBatch, bind_run, raiseIf, if_neg hargs, get_run, lift_run, hneeded,
        if_neg hroom, hrun]

def PrefillChunk.request (chunk : PrefillChunk τ) : Int × Nat := (chunk.seqId, chunk.tokens.length)

structure Continues (m : QuantizedCacheManager τ) (chunks : List (PrefillChunk τ)) : Prop where
  nodup : (chunks.map (·.seqId)).Nodup
  start : ∀ chunk ∈ chunks, chunk.numPrefilledTokens = m.pool.length chunk.seqId

theorem checkRowLength_run (h : Layout numPages m) {chunk : PrefillChunk τ}
    (hstart : chunk.numPrefilledTokens = m.pool.length chunk.seqId) :
    checkRowLength chunk m = (.ok (), m) := by
  cases hget : m.seqIdToRow.get? chunk.seqId with
  | none => simp only [checkRowLength, bind_run, get_run, hget, pure_run]
  | some row =>
    have hlen : ¬ m.rowLogicalLens row ≠ chunk.numPrefilledTokens := by
      rw [not_not, hstart]
      exact (h.lens _ _ hget).2
    simp only [checkRowLength, bind_run, get_run, hget, raiseIf, if_neg hlen]

theorem prefillLoop_spec {chunks : List (PrefillChunk τ)} (slots : List Nat) (h : Layout numPages m)
    (hc : Continues m chunks) (ha : Affordable m (chunks.map PrefillChunk.request)) :
    ∃ new m', prefillLoop chunks slots m = (.ok (slots ++ new), m') ∧
      new.length = (chunks.flatMap (·.tokens)).length ∧ Layout numPages m' ∧
      Grown m m' (chunks.map PrefillChunk.request) := by
  induction chunks generalizing m slots with
  | nil => exact ⟨[], m, by simp [prefillLoop], rfl, h, Grown.refl m⟩
  | cons chunk rest ih =>
    obtain ⟨first, m1, hrun1, hlen1, h1, ha1, hg1⟩ := allocate_step h ha
    have hnodup := ha.nodup
    rw [map_cons, map_cons, nodup_cons] at hnodup
    have hc1 : Continues m1 rest := by
      refine ⟨(nodup_cons.mp hc.nodup).2, fun c hmem => ?_⟩
      have hne : c.seqId ≠ chunk.seqId := fun he =>
        (nodup_cons.mp hc.nodup).1 (mem_map.mpr ⟨c, hmem, he⟩)
      rw [(hg1.others c.seqId (by simpa [PrefillChunk.request] using hne)).1]
      exact hc.start c (mem_cons_of_mem _ hmem)
    obtain ⟨new, m2, hrun2, hlen2, h2, hg2⟩ := ih (slots ++ first) h1 hc1 ha1
    refine ⟨first ++ new, m2, ?_, ?_, h2, hg1.cons hg2 hnodup.1⟩
    · rw [prefillLoop, bind_run, checkRowLength_run h (hc.start chunk (by simp))]
      simp only [bind_run, hrun1, hrun2, append_assoc]
    · rw [length_append, hlen1, hlen2, flatMap_cons, length_append]

theorem freeSeq_spec (h : Layout numPages m) (sid : Int) :
    (m.seqIdToRow.get? sid = none ∧ ∃ e, freeSeq sid m = (.error e, m)) ∨
    ∃ row m', m.seqIdToRow.get? sid = some row ∧ freeSeq sid m = (.ok (), m') ∧
      Layout numPages m' ∧ m'.pool.pages = m.pool.pages.erase sid ∧
      m'.pool.lengths = m.pool.lengths.erase sid ∧ m'.pool.pageSize = m.pool.pageSize ∧
      m'.seqIdToRow = m.seqIdToRow.erase sid ∧ m'.raw = m.raw ∧ m'.packed = m.packed := by
  cases hrow : m.seqIdToRow.get? sid with
  | none =>
    refine Or.inl ⟨rfl, .valueError s!"Unknown quantized cache sequence {sid}.", ?_⟩
    simp only [freeSeq, bind_run, get_run, hrow, raise_run]
  | some row =>
    rcases release_spec h.pool sid with ⟨hnone, -⟩ | ⟨ps, p', hps, hrun, hp', hpages, hlengths, hP, -⟩
    · rw [(h.keys sid).mpr hnone] at hrow
      cases hrow
    refine Or.inr ⟨row, { m with
        pool := p'
        seqIdToRow := m.seqIdToRow.erase sid
        rowSeqLens := fun r => if r = row then 0 else m.rowSeqLens r
        rowLogicalLens := fun r => if r = row then 0 else m.rowLogicalLens r
        slots := fun r i => if r = row then 0 else m.slots r i
        freeRows := m.freeRows ++ [row] }, rfl,
      by simp only [freeSeq, bind_run, get_run, hrow, zoom, hrun, modify_run],
      ?_, hpages, hlengths, hP, rfl, rfl, rfl⟩
    have hne : ∀ x r, (m.seqIdToRow.erase sid).get? x = some r →
        x ≠ sid ∧ m.seqIdToRow.get? x = some r ∧ r ≠ row := by
      intro x r hx
      rw [get?_erase] at hx
      split at hx
      · cases hx
      · next hxs => exact ⟨hxs, hx, by rintro rfl; exact hxs (h.unique _ _ _ hx hrow)⟩
    have hlen : ∀ x ≠ sid, p'.length x = m.pool.length x := fun x hx => by
      rw [QuantizedPagePool.length, QuantizedPagePool.length, hlengths, get?_erase_ne _ hx]
    refine ⟨hp', fun x => ?_, fun x y r hx hy => ?_, ?_, fun x r hx => ?_, fun x r hx => ?_,
      fun x r hx i hi => ?_⟩
    · rw [hpages, get?_erase, get?_erase]
      split
      · simp
      · exact h.keys x
    · exact h.unique x y r (hne x r hx).2.1 (hne y r hy).2.1
    · rw [nodup_append]
      refine ⟨h.freeRows_nodup, nodup_singleton _, fun a ha b hb => ?_⟩
      obtain rfl := mem_singleton.mp hb
      rintro rfl
      exact h.owned sid a hrow ha
    · obtain ⟨-, hx', hr⟩ := hne x r hx
      rw [mem_append, mem_singleton, not_or]
      exact ⟨h.owned x r hx', hr⟩
    · obtain ⟨hxs, hx', hr⟩ := hne x r hx
      rw [hlen x hxs]
      exact ⟨(if_neg hr).trans (h.lens x r hx').1, (if_neg hr).trans (h.lens x r hx').2⟩
    · obtain ⟨hxs, hx', hr⟩ := hne x r hx
      have hshare : share p'.pages x = share m.pool.pages x := by
        rw [hpages, share, share, get?_erase_ne _ hxs]
      rw [hlen x hxs] at hi
      change (if r = row then 0 else m.slots r i) =
        (share p'.pages x).getD (i / p'.pageSize) 0 * p'.pageSize + i % p'.pageSize
      rw [if_neg hr, hshare, hP]
      exact h.slot x r hx' i hi

end SparseEngine.QuantizedCacheManager
