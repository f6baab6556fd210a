import SparseEngine.Quantized.Layout
import SparseEngine.Lib.Blocks

/-! `Contents` says what is stored for each sequence. -/

namespace SparseEngine.QuantizedCacheManager

open PyM QuantizedPagePool Blocks List Shares

variable {τ : Type} {m m' : QuantizedCacheManager τ} {numPages : Nat} {sid : Int} {row : Nat}
  {hist : Int → List τ} {enc : Int → List (PageWrite τ)}

def encoded (pageSize : Nat) (pages : List Nat) (tokens : List τ) : List (PageWrite τ) :=
  (range (tokens.length / pageSize)).map fun j => (pages.getD j 0, block pageSize tokens j)

def completed (pageSize : Nat) (pages : List Nat) (old new : List τ) : List (PageWrite τ) :=
  (range ((old ++ new).length / pageSize - old.length / pageSize)).map fun q =>
    (pages.getD (old.length / pageSize + q) 0, block pageSize (old ++ new) (old.length / pageSize + q))

variable {pageSize n : Nat} {pages : List Nat}

theorem encoded_append {old new : List τ} :
    encoded pageSize pages (old ++ new) =
      encoded pageSize pages old ++ completed pageSize pages old new := by
  have hsplit : (old ++ new).length / pageSize =
      old.length / pageSize + ((old ++ new).length / pageSize - old.length / pageSize) :=
    (Nat.add_sub_cancel' div_le_div_append).symm
  rw [encoded, hsplit, range_add, map_append, map_map, encoded, completed]
  congr 1
  refine map_congr_left fun j hj => ?_
  rw [block_append (mem_range.mp hj)]

theorem encoded_pages {added : List Nat} {tokens : List τ}
    (h : tokens.length / pageSize ≤ pages.length) :
    encoded pageSize (pages ++ added) tokens = encoded pageSize pages tokens := by
  refine map_congr_left fun j hj => ?_
  have hj := (mem_range.mp hj).trans_le h
  rw [getD_eq_getElem?_getD, getElem?_append_left hj, getD_eq_getElem?_getD]

theorem encoded_map_fst {tokens : List τ} (h : tokens.length / pageSize ≤ pages.length) :
    (encoded pageSize pages tokens).map Prod.fst = pages.take (tokens.length / pageSize) := by
  rw [encoded, map_map]
  refine ext_getElem (by simp [h]) fun i hi hi' => ?_
  simp only [length_map, length_range] at hi
  simp [getElem?_eq_getElem (hi.trans_le h)]

theorem pageWrites_eq (hpos : 0 < pageSize) {old new : List τ}
    (h : (old ++ new).length / pageSize ≤ pages.length) :
    pageWrites pageSize ((rest pageSize old ++ new).take
        ((rest pageSize old ++ new).length / pageSize * pageSize))
      ((pages.take ((old ++ new).length / pageSize)).drop (old.length / pageSize)) =
      completed pageSize pages old new := by
  have hlen : ((pages.take ((old ++ new).length / pageSize)).drop (old.length / pageSize)).length =
      (old ++ new).length / pageSize - old.length / pageSize := by
    rw [length_drop, length_take, Nat.min_eq_left h]
  rw [pageWrites, completed, length_rest_append_div hpos]
  refine ext_getElem (by simp only [length_map, length_zipIdx, hlen, length_range])
    fun q hq hq' => ?_
  simp only [length_map, length_range] at hq'
  have hpage : old.length / pageSize + q < pages.length := by omega
  have hblock := @block_take _ pageSize _ _ (rest pageSize old ++ new) hq'
  rw [block_rest_append, block] at hblock
  simp [-length_append, hblock, getElem?_eq_getElem hpage]

theorem applyWrites_of_notMem {writes : List (PageWrite τ)} {page : Nat}
    (h : page ∉ writes.map Prod.fst) (packed : Nat → List τ) :
    applyWrites packed writes page = packed page := by
  induction writes generalizing packed with
  | nil => rfl
  | cons w rest ih =>
    rw [map_cons, mem_cons, not_or] at h
    have hrest := ih h.2 fun page => if page = w.1 then w.2 else packed page
    rw [if_neg h.1] at hrest
    exact hrest

theorem applyWrites_of_mem {writes : List (PageWrite τ)} (hnd : (writes.map Prod.fst).Nodup)
    (packed : Nat → List τ) : ∀ w ∈ writes, applyWrites packed writes w.1 = w.2 := by
  induction writes generalizing packed with
  | nil => simp
  | cons first rest ih =>
    rw [map_cons, nodup_cons] at hnd
    refine forall_mem_cons.mpr ⟨?_, fun w hw => ih hnd.2 _ w hw⟩
    have hfirst := applyWrites_of_notMem hnd.1 fun page => if page = first.1 then first.2 else packed page
    rw [if_pos rfl] at hfirst
    exact hfirst

/-- What is recorded for `sid`, extended. -/
def record {α : Type} (f : Int → List α) (sid : Int) (new : List α) : Int → List α :=
  fun x => if x = sid then f x ++ new else f x

theorem record_self {α : Type} {f : Int → List α} {new : List α} : record f sid new sid = f sid ++ new :=
  if_pos rfl

theorem record_ne {α : Type} {f : Int → List α} {new : List α} {x : Int} (h : x ≠ sid) :
    record f sid new x = f x := if_neg h

/-- `hist` are the stored tokens of each sequence, `enc` the page writes made for it. -/
structure Contents (m : QuantizedCacheManager τ) (hist : Int → List τ)
    (enc : Int → List (PageWrite τ)) : Prop where
  fits : ∀ sid, (hist sid).length ≤ m.pool.length sid
  encodes : ∀ sid, enc sid = encoded m.pool.pageSize (share m.pool.pages sid) (hist sid)
  packed : ∀ sid, ∀ w ∈ enc sid, m.packed w.1 = w.2
  tail : ∀ sid row, m.seqIdToRow.get? sid = some row →
    (range ((hist sid).length % m.pool.pageSize)).map (m.raw row) = rest m.pool.pageSize (hist sid)

theorem Contents.withBatch (h : Contents m hist enc) (slots : List Nat) (reqLens : List (Nat × Nat))
    (active : Bool) (plan : List WriteEntry) : Contents { m with
      slotMapping := slots, reqLens := reqLens, prefillActive := active, writePlan := plan } hist enc :=
  { h with }

theorem Layout.pages_suffice (h : Layout numPages m) (hn : n ≤ m.pool.length sid) :
    n / m.pool.pageSize ≤ (share m.pool.pages sid).length := by
  rw [h.pool.size]
  have hpos := h.pool.positive
  exact Nat.div_le_div_right (by omega)

theorem Contents.map_fst (h : Layout numPages m) (hc : Contents m hist enc) (sid : Int) :
    (enc sid).map Prod.fst = (share m.pool.pages sid).take ((hist sid).length / m.pool.pageSize) := by
  rw [hc.encodes, encoded_map_fst (h.pages_suffice (hc.fits sid))]

theorem Contents.grown {requests : List (Int × Nat)} (hc : Contents m hist enc) (h : Layout numPages m)
    (hg : Grown m m' requests) : Contents m' hist enc where
  fits := fun sid => by
    refine (hc.fits sid).trans ?_
    by_cases hsid : sid ∈ requests.map Prod.fst
    · obtain ⟨r, hr, rfl⟩ := mem_map.mp hsid
      rw [hg.lengths r hr]
      exact Nat.le_add_right _ _
    · exact (hg.others sid hsid).1.ge
  encodes := fun sid => by
    obtain ⟨added, hadded⟩ := hg.pages sid
    rw [hg.pageSize, hadded, encoded_pages (h.pages_suffice (hc.fits sid)), hc.encodes]
  packed := fun sid => by
    rw [hg.packed]
    exact hc.packed sid
  tail := fun sid row hrow => by
    rw [hg.raw, hg.pageSize]
    cases hget : m.seqIdToRow.get? sid with
    | some row' =>
      obtain rfl : row' = row := Option.some.inj ((hg.rows sid row' hget).symm.trans hrow)
      exact hc.tail sid row' hget
    | none =>
      have hnil : hist sid = [] := by
        have := hc.fits sid
        rw [h.length_of_unknown hget] at this
        exact length_eq_zero_iff.mp (Nat.le_zero.mp this)
      simp [hnil, rest]

theorem Contents.stored {new : List τ} {raw : Nat → Nat → τ} (hc : Contents m hist enc)
    (h : Layout numPages m) (hrow : m.seqIdToRow.get? sid = some row)
    (hfit : (hist sid ++ new).length ≤ m.pool.length sid) (hraw : ∀ r ≠ row, raw r = m.raw r)
    (htail : (range ((hist sid ++ new).length % m.pool.pageSize)).map (raw row) =
      rest m.pool.pageSize (hist sid ++ new)) :
    Contents
      { m with
        raw := raw
        packed := applyWrites m.packed
          (completed m.pool.pageSize (share m.pool.pages sid) (hist sid) new) }
      (record hist sid new)
      (record enc sid (completed m.pool.pageSize (share m.pool.pages sid) (hist sid) new)) := by
  have hencoded := @encoded_append _ m.pool.pageSize (share m.pool.pages sid) (hist sid) new
  have hfst := encoded_map_fst (h.pages_suffice hfit)
  rw [hencoded, map_append] at hfst
  have hnd := (nodup_share h.pool.nodup sid).sublist (take_sublist
    ((hist sid ++ new).length / m.pool.pageSize) _)
  rw [← hfst, nodup_append] at hnd
  have hown : ∀ page ∈ (completed m.pool.pageSize (share m.pool.pages sid) (hist sid) new).map
      Prod.fst, page ∈ share m.pool.pages sid := fun page hpage =>
    mem_of_mem_take (hfst ▸ mem_append_right _ hpage)
  have hkept : ∀ x, ∀ w ∈ enc x, w.1 ∉ (completed m.pool.pageSize (share m.pool.pages sid)
      (hist sid) new).map Prod.fst := by
    intro x w hw hmem
    have hpage : w.1 ∈ (enc x).map Prod.fst := mem_map_of_mem hw
    by_cases hx : x = sid
    · subst hx
      rw [hc.encodes] at hpage
      exact hnd.2.2 w.1 hpage w.1 hmem rfl
    · rw [hc.map_fst h] at hpage
      exact disjoint_share h.pool.nodup (Ne.symm hx) (mem_of_mem_take hpage) (hown _ hmem)
  refine ⟨fun x => ?_, fun x => ?_, fun x w hw => ?_, fun x r hx => ?_⟩
  · by_cases hx : x = sid
    · subst hx
      rw [record_self]
      exact hfit
    · rw [record_ne hx]
      exact hc.fits x
  · by_cases hx : x = sid
    · subst hx
      rw [record_self, record_self, hencoded, hc.encodes]
    · rw [record_ne hx, record_ne hx]
      exact hc.encodes x
  · have hold : w ∈ enc x → applyWrites m.packed (completed m.pool.pageSize
        (share m.pool.pages sid) (hist sid) new) w.1 = w.2 := fun hw => by
      rw [applyWrites_of_notMem (hkept x w hw), hc.packed x w hw]
    by_cases hx : x = sid
    · subst hx
      rw [record_self, mem_append] at hw
      rcases hw with hw | hw
      · exact hold hw
      · exact applyWrites_of_mem hnd.2.1 m.packed w hw
    · rw [record_ne hx] at hw
      exact hold hw
  · by_cases hxs : x = sid
    · subst hxs
      obtain rfl : r = row := Option.some.inj (hx.symm.trans hrow)
      rw [record_self]
      exact htail
    · have hr : r ≠ row := by
        rintro rfl
        exact hxs (h.unique x sid r hx hrow)
      rw [record_ne hxs]
      change map (raw r) _ = _
      rw [hraw r hr]
      exact hc.tail x r hx

theorem map_range_getD {α : Type} {xs : List α} (hn : xs.length = n) (f : Nat → α) :
    (range n).map (fun i => (xs[i]?).getD (f i)) = xs := by
  subst hn
  refine ext_getElem (by simp) fun i hi hi' => ?_
  simp [getElem?_eq_getElem hi']

theorem storeEntry_run {k new : List τ} {offset : Nat} (hc : Contents m hist enc)
    (h : Layout numPages m) (hrow : m.seqIdToRow.get? sid = some row)
    (hfit : (hist sid ++ new).length ≤ m.pool.length sid)
    (hk : (k.drop offset).take new.length = new) :
    ∃ raw, storeEntry k ⟨row, (hist sid).length, (hist sid ++ new).length, offset,
        ((share m.pool.pages sid).take ((hist sid ++ new).length / m.pool.pageSize)).drop
          ((hist sid).length / m.pool.pageSize)⟩ m =
        (.ok (completed m.pool.pageSize (share m.pool.pages sid) (hist sid) new),
          { m with
            raw := raw
            packed := applyWrites m.packed
              (completed m.pool.pageSize (share m.pool.pages sid) (hist sid) new) }) ∧
      (∀ r ≠ row, raw r = m.raw r) ∧
      (range ((hist sid ++ new).length % m.pool.pageSize)).map (raw row) =
        rest m.pool.pageSize (hist sid ++ new) := by
  have hpos := h.pool.positive
  have hpages := h.pages_suffice hfit
  have hcurrent : (range ((hist sid).length % m.pool.pageSize)).map (m.raw row) ++
      (k.drop offset).take ((hist sid ++ new).length - (hist sid).length) =
      rest m.pool.pageSize (hist sid) ++ new := by
    rw [hc.tail sid row hrow, length_append, Nat.add_sub_cancel_left, hk]
  have hdiv := @length_rest_append_div _ _ (hist sid) new hpos
  have hids : (((share m.pool.pages sid).take ((hist sid ++ new).length / m.pool.pageSize)).drop
      ((hist sid).length / m.pool.pageSize)).length =
      (rest m.pool.pageSize (hist sid) ++ new).length / m.pool.pageSize := by
    rw [length_drop, length_take, Nat.min_eq_left hpages, hdiv]
  refine ⟨fun r i => if r = row then
      ((rest m.pool.pageSize (hist sid ++ new))[i]?).getD (m.raw r i) else m.raw r i, ?_, ?_, ?_⟩
  · have hrest := @rest_rest_append _ _ (hist sid) new hpos
    rw [rest] at hrest
    simp only [storeEntry, bind_run, get_run, hcurrent, hrest]
    split
    · have hlen : ¬ ((rest m.pool.pageSize (hist sid) ++ new).take
          ((rest m.pool.pageSize (hist sid) ++ new).length / m.pool.pageSize * m.pool.pageSize)).length ≠
          (((share m.pool.pages sid).take ((hist sid ++ new).length / m.pool.pageSize)).drop
            ((hist sid).length / m.pool.pageSize)).length * m.pool.pageSize := by
        rw [not_not, hids, length_take, Nat.min_eq_left (Nat.div_mul_le_self _ _)]
      simp only [encodePages, bind_run, get_run, raiseIf, if_neg hlen, modify_run, pure_run,
        pageWrites_eq hpos hpages]
    · next hzero =>
      have hnone : completed m.pool.pageSize (share m.pool.pages sid) (hist sid) new = [] := by
        have hdiv0 : (rest m.pool.pageSize (hist sid) ++ new).length / m.pool.pageSize = 0 := by
          rcases Nat.eq_zero_or_pos
            ((rest m.pool.pageSize (hist sid) ++ new).length / m.pool.pageSize) with h0 | h0
          · exact h0
          · exact absurd (Nat.mul_pos h0 hpos) hzero
        rw [completed, ← hdiv, hdiv0]
        rfl
      simp only [hnone]
      rfl
  · intro r hr
    funext i
    exact if_neg hr
  · simp only [if_true]
    exact map_range_getD length_rest _

/-- The entries that `_prepare_prefill_write_plan` makes. -/
def planned (pool : QuantizedPagePool) (rows : Dict Int Nat) :
    List (PrefillChunk τ) → Nat → List WriteEntry
  | [], _ => []
  | chunk :: chunks, offset =>
    let stop := pool.length chunk.seqId
    let start := stop - chunk.tokens.length
    ⟨(rows.get? chunk.seqId).getD 0, start, stop, offset,
      ((share pool.pages chunk.seqId).take (stop / pool.pageSize)).drop (start / pool.pageSize)⟩ ::
      planned pool rows chunks (offset + chunk.tokens.length)

theorem writePlanLoop_run {chunks : List (PrefillChunk τ)} (h : Layout numPages m) (offset : Nat)
    (hknown : ∀ c ∈ chunks, ∃ row, m.seqIdToRow.get? c.seqId = some row) :
    m.writePlanLoop chunks offset = .ok (planned m.pool m.seqIdToRow chunks offset) := by
  induction chunks generalizing offset with
  | nil => rfl
  | cons chunk chunks ih =>
    obtain ⟨⟨row, hrow⟩, hrest⟩ := forall_mem_cons.mp hknown
    cases hpages : m.pool.pages.get? chunk.seqId with
    | none => rw [(h.keys _).mpr hpages] at hrow; cases hrow
    | some pages =>
      cases hlen : m.pool.lengths.get? chunk.seqId with
      | none => rw [(h.pool.keys _).mpr hlen] at hpages; cases hpages
      | some stop =>
        have hstop : m.pool.length chunk.seqId = stop := by rw [QuantizedPagePool.length, hlen, Option.getD_some]
        simp only [writePlanLoop, hlen, hrow, hpages, ih _ hrest, planned, hstop,
          share_of_get hpages, Option.getD_some]
        rfl

def recordAll {α : Type} (f : Int → List α) (news : List (Int × List α)) : Int → List α :=
  news.foldl (fun f new => record f new.1 new.2) f

theorem storeLoop_spec {chunks : List (PrefillChunk τ)} (h : Layout numPages m)
    (hc : Contents m hist enc) (hnodup : (chunks.map (·.seqId)).Nodup)
    (hknown : ∀ c ∈ chunks, ∃ row, m.seqIdToRow.get? c.seqId = some row)
    (hlen : ∀ c ∈ chunks, (hist c.seqId).length + c.tokens.length = m.pool.length c.seqId)
    (before : List τ) (writes : List (List (PageWrite τ))) :
    ∃ new raw packed,
      storeLoop (before ++ chunks.flatMap (·.tokens))
        (planned m.pool m.seqIdToRow chunks before.length) writes m =
        (.ok (writes ++ new), { m with raw := raw, packed := packed }) ∧ new.length = chunks.length ∧
      Contents { m with raw := raw, packed := packed }
        (recordAll hist (chunks.map fun c => (c.seqId, c.tokens)))
        (recordAll enc ((chunks.map (·.seqId)).zip new)) := by
  induction chunks generalizing m hist enc before writes with
  | nil => exact ⟨[], m.raw, m.packed, by simp [storeLoop, planned], rfl, hc⟩
  | cons chunk chunks ih =>
    obtain ⟨⟨row, hrow⟩, hknown'⟩ := forall_mem_cons.mp hknown
    obtain ⟨hlen1, hlen'⟩ := forall_mem_cons.mp hlen
    rw [map_cons, nodup_cons] at hnodup
    have hstop : m.pool.length chunk.seqId = (hist chunk.seqId ++ chunk.tokens).length := by
      rw [length_append, hlen1]
    have hstart : (hist chunk.seqId ++ chunk.tokens).length - chunk.tokens.length =
        (hist chunk.seqId).length := by
      rw [length_append, Nat.add_sub_cancel]
    have hk : ((before ++ (chunk :: chunks).flatMap (·.tokens)).drop before.length).take
        chunk.tokens.length = chunk.tokens := by
      rw [drop_left, flatMap_cons, take_left]
    obtain ⟨raw1, hrun1, hraw1, htail1⟩ := storeEntry_run hc h hrow hstop.ge hk
    have hc1 := hc.stored h hrow hstop.ge hraw1 htail1
    have h1 : Layout numPages { m with
        raw := raw1
        packed := applyWrites m.packed (completed m.pool.pageSize
          (share m.pool.pages chunk.seqId) (hist chunk.seqId) chunk.tokens) } :=
      h.withStore _ _
    have hlen2 : ∀ c ∈ chunks, (record hist chunk.seqId chunk.tokens c.seqId).length + c.tokens.length =
        m.pool.length c.seqId := fun c hmem => by
      have hne : c.seqId ≠ chunk.seqId := fun he => hnodup.1 (mem_map.mpr ⟨c, hmem, he⟩)
      rw [record_ne hne]
      exact hlen' c hmem
    obtain ⟨new, raw, packed, hrun, hnew, hc2⟩ := ih h1 hc1 hnodup.2 hknown' hlen2
      (before ++ chunk.tokens) (writes ++ [completed m.pool.pageSize
        (share m.pool.pages chunk.seqId) (hist chunk.seqId) chunk.tokens])
    refine ⟨_ :: new, raw, packed, ?_, by rw [length_cons, hnew, length_cons], hc2⟩
    simp only [planned, hrow, Option.getD_some, hstop, hstart, storeLoop, bind_run, hrun1]
    rw [append_assoc, length_append] at hrun
    rw [flatMap_cons, hrun, append_assoc, singleton_append]
    rfl

theorem succ_div_mod {size : Nat} (hsize : 0 < size) :
    ((n + 1) % size = 0 ∧ (n + 1) / size = n / size + 1 ∧ n % size + 1 = size) ∨
    ((n + 1) % size = n % size + 1 ∧ (n + 1) / size = n / size) := by
  have hn := Nat.div_add_mod n size
  have hlt := Nat.mod_lt n hsize
  by_cases hfull : n % size + 1 = size
  · have hsucc : n + 1 = size * (n / size + 1) := by
      rw [Nat.mul_succ]
      omega
    exact Or.inl ⟨by rw [hsucc, Nat.mul_mod_right], by
      conv_lhs => rw [hsucc, Nat.mul_div_cancel_left _ hsize], hfull⟩
  · have hsucc : n + 1 = size * (n / size) + (n % size + 1) := by omega
    have hlt' : n % size + 1 < size := by omega
    refine Or.inr ⟨?_, ?_⟩
    · conv_lhs => rw [hsucc, Nat.mul_add_mod, Nat.mod_eq_of_lt hlt']
    · conv_lhs => rw [hsucc, Nat.mul_add_div hsize, Nat.div_eq_of_lt hlt', Nat.add_zero]

theorem decodeAppend_run {token : τ} (hc : Contents m hist enc) (h : Layout numPages m)
    (hrow : m.seqIdToRow.get? sid = some row)
    (hlen : (hist sid ++ [token]).length = m.pool.length sid) :
    ∃ raw, decodeAppend token row (m.pool.length sid) m =
        ({ m with
            raw := raw
            packed := applyWrites m.packed
              (completed m.pool.pageSize (share m.pool.pages sid) (hist sid) [token]) },
          completed m.pool.pageSize (share m.pool.pages sid) (hist sid) [token]) ∧
      (∀ r ≠ row, raw r = m.raw r) ∧
      (range ((hist sid ++ [token]).length % m.pool.pageSize)).map (raw row) =
        rest m.pool.pageSize (hist sid ++ [token]) := by
  have hpos := h.pool.positive
  have hstop : m.pool.length sid = (hist sid).length + 1 := by
    rw [← hlen, length_append, length_singleton]
  have hlen' : (hist sid ++ [token]).length = (hist sid).length + 1 := hlen.trans hstop
  have htail := hc.tail sid row hrow
  rcases succ_div_mod (n := (hist sid).length) hpos with ⟨hmod, hdiv, hfull⟩ | ⟨hmod, hdiv⟩
  · -- The token completes a page: the raw row and the token are encoded.
    have hblock : block m.pool.pageSize (hist sid ++ [token]) ((hist sid).length / m.pool.pageSize) =
        (range (m.pool.pageSize - 1)).map (m.raw row) ++ [token] := by
      have hmod' : m.pool.pageSize - 1 = (hist sid).length % m.pool.pageSize := by omega
      rw [block, ← rest_append_eq, hmod', htail, take_of_length_le]
      rw [length_append, length_rest, length_singleton, hfull]
    have hindex : (m.pool.length sid - m.pool.pageSize) / m.pool.pageSize =
        (hist sid).length / m.pool.pageSize := by
      have hsub := Nat.sub_mul_div (m.pool.length sid) m.pool.pageSize 1
      rw [Nat.mul_one] at hsub
      rw [hsub, hstop, hdiv, Nat.add_sub_cancel]
    have hle : m.pool.pageSize ≤ m.pool.length sid := by
      have := Nat.div_add_mod (hist sid).length m.pool.pageSize
      omega
    have hpage : m.slots row (m.pool.length sid - m.pool.pageSize) / m.pool.pageSize =
        (share m.pool.pages sid).getD ((hist sid).length / m.pool.pageSize) 0 := by
      rw [h.slot sid row hrow _ (by omega), Nat.mul_comm, Nat.mul_add_div hpos,
        Nat.div_eq_of_lt (Nat.mod_lt _ hpos), hindex, Nat.add_zero]
    have hcompleted : completed m.pool.pageSize (share m.pool.pages sid) (hist sid) [token] =
        [((share m.pool.pages sid).getD ((hist sid).length / m.pool.pageSize) 0,
          (range (m.pool.pageSize - 1)).map (m.raw row) ++ [token])] := by
      rw [completed, hlen', hdiv, Nat.add_sub_cancel_left, range_one, map_singleton,
        Nat.add_zero, hblock]
    refine ⟨m.raw, ?_, fun _ _ => rfl, ?_⟩
    · rw [decodeAppend, hcompleted, if_pos (by rw [hstop, hmod]), hpage]
    · rw [hlen', hmod, range_zero, map_nil, eq_comm]
      exact length_eq_zero_iff.mp (by rw [length_rest, hlen', hmod])
  · have hcompleted : completed m.pool.pageSize (share m.pool.pages sid) (hist sid) [token] =
        [] := by
      rw [completed, hlen', hdiv, Nat.sub_self, range_zero, map_nil]
    refine ⟨fun r i => if r = row ∧ i = (hist sid).length % m.pool.pageSize then token else m.raw r i,
      ?_, fun r hr => funext fun i => if_neg fun hcon => hr hcon.1, ?_⟩
    · rw [decodeAppend, hcompleted, if_neg (by rw [hstop, hmod]; exact Nat.succ_ne_zero _), hstop,
        Nat.add_sub_cancel]
      rfl
    · have hold : (range ((hist sid).length % m.pool.pageSize)).map (fun i =>
          if row = row ∧ i = (hist sid).length % m.pool.pageSize then token else m.raw row i) =
          rest m.pool.pageSize (hist sid) := by
        rw [← htail]
        refine map_congr_left fun i hi => if_neg fun hcon => ?_
        have := mem_range.mp hi
        omega
      rw [hlen', hmod, range_succ, map_append, hold, map_singleton]
      simp only [and_self, if_true]
      rw [rest_append_eq, rest, hlen', hdiv]

theorem decodeLoop_spec {batch : List (Int × τ)} (h : Layout numPages m) (hc : Contents m hist enc)
    (hnodup : (batch.map Prod.fst).Nodup)
    (hknown : ∀ b ∈ batch, ∃ row, m.seqIdToRow.get? b.1 = some row)
    (hlen : ∀ b ∈ batch, (hist b.1).length + 1 = m.pool.length b.1)
    (writes : List (List (PageWrite τ))) :
    ∃ new raw packed,
      decodeLoop (batch.map fun b => (b.2, (m.seqIdToRow.get? b.1).getD 0, m.pool.length b.1)) writes m =
        ({ m with raw := raw, packed := packed }, writes ++ new) ∧ new.length = batch.length ∧
      Contents { m with raw := raw, packed := packed }
        (recordAll hist (batch.map fun b => (b.1, [b.2])))
        (recordAll enc ((batch.map Prod.fst).zip new)) := by
  induction batch generalizing m hist enc writes with
  | nil => exact ⟨[], m.raw, m.packed, by simp [decodeLoop], rfl, hc⟩
  | cons b batch ih =>
    obtain ⟨sid, token⟩ := b
    obtain ⟨⟨row, hrow⟩, hknown'⟩ := forall_mem_cons.mp hknown
    obtain ⟨hlen1, hlen'⟩ := forall_mem_cons.mp hlen
    rw [map_cons, nodup_cons] at hnodup
    have hstop : (hist sid ++ [token]).length = m.pool.length sid := by
      rw [length_append, length_singleton, hlen1]
    obtain ⟨raw1, hrun1, hraw1, htail1⟩ := decodeAppend_run hc h hrow hstop
    have hc1 := hc.stored h hrow hstop.le hraw1 htail1
    have h1 : Layout numPages { m with
        raw := raw1
        packed := applyWrites m.packed
          (completed m.pool.pageSize (share m.pool.pages sid) (hist sid) [token]) } :=
      h.withStore _ _
    have hlen2 : ∀ b ∈ batch, (record hist sid [token] b.1).length + 1 = m.pool.length b.1 :=
      fun b hmem => by
        have hne : b.1 ≠ sid := fun he => hnodup.1 (mem_map.mpr ⟨b, hmem, he⟩)
        rw [record_ne hne]
        exact hlen' b hmem
    obtain ⟨new, raw, packed, hrun, hnew, hc2⟩ := ih h1 hc1 hnodup.2 hknown' hlen2
      (writes ++ [completed m.pool.pageSize (share m.pool.pages sid) (hist sid) [token]])
    refine ⟨_ :: new, raw, packed, ?_, by rw [length_cons, hnew, length_cons], hc2⟩
    rw [map_cons, decodeLoop, hrow, Option.getD_some, hrun1]
    refine hrun.trans ?_
    rw [append_assoc, singleton_append]
    rfl

end SparseEngine.QuantizedCacheManager
