import SparseEngine.RawKV.Fills

/-! `copy_prefix_to` walks the chunks by their start. -/

namespace SparseEngine.RawKV

open RawKVEntry List Dict Option RawKVOffloadBuffer Prod

variable {α β : Type}

/-- The row at `p` of the first chunk that covers it. -/
def firstCover (l : List (Nat × List β)) (p : Nat) : Option β := l.findSome? fun c => rowAt c.1 c.2 p

theorem firstCover_cons (start : Nat) (rows : List β) (l : List (Nat × List β)) (p : Nat) :
    firstCover ((start, rows) :: l) p = (rowAt start rows p).or (firstCover l p) := by
  rw [firstCover, findSome?_cons]
  cases rowAt start rows p <;> rfl

variable {stop : Nat}

theorem rowAt_take_drop {start cursor p : Nat} {rows : List β} (hstart : start ≤ cursor)
    (hlow : cursor ≤ p) (hhigh : p < stop) :
    ((rows.drop (cursor - start)).take (stop - cursor))[p - cursor]? = rowAt start rows p := by
  rw [getElem?_take_of_lt (by omega), getElem?_drop, rowAt, if_pos (by omega)]
  congr 1
  omega

theorem getElem?_copied {γ : Type} (f : β → γ) {start cursor : Nat} (rows : List β) (out : List γ)
    (hstart : start ≤ cursor) (hstop : stop ≤ start + rows.length) (hcursor : cursor ≤ stop)
    (hout : stop ≤ out.length) :
    (overlay out cursor (((rows.drop (cursor - start)).take (stop - cursor)).map f)).length = out.length ∧
    ∀ p, (overlay out cursor (((rows.drop (cursor - start)).take (stop - cursor)).map f))[p]? =
      if cursor ≤ p ∧ p < stop then (rowAt start rows p).map f else out[p]? := by
  have hlength : (((rows.drop (cursor - start)).take (stop - cursor)).map f).length = stop - cursor := by
    rw [length_map, length_take, length_drop]
    omega
  have hfits : cursor + (((rows.drop (cursor - start)).take (stop - cursor)).map f).length ≤ out.length := by
    omega
  refine ⟨length_overlay hfits, fun p => ?_⟩
  rw [getElem?_overlay hfits, hlength]
  by_cases hp : cursor ≤ p ∧ p < stop
  · rw [if_pos hp, if_pos (by omega), getElem?_map, rowAt_take_drop hstart hp.1 hp.2]
  · rw [if_neg hp, if_neg (by omega)]

/-- What the destinations hold once the loop has copied the positions from `cursor` to `stop`. -/
structure Copied (l : List (Nat × List (α × α))) (cursor stop : Nat) (kOut vOut k v : List α) : Prop where
  kLength : k.length = kOut.length
  vLength : v.length = vOut.length
  k : ∀ p, k[p]? = if cursor ≤ p ∧ p < stop then (firstCover l p).map fst else kOut[p]?
  v : ∀ p, v[p]? = if cursor ≤ p ∧ p < stop then (firstCover l p).map snd else vOut[p]?

theorem copyChunks_covered : ∀ {l : List (Nat × List (α × α))} {cursor : Nat}
    {kOut vOut : List α}, l.Pairwise (fun a b => a.1 < b.1) → cursor < stop →
    stop ≤ kOut.length → stop ≤ vOut.length →
    (∀ p, cursor ≤ p → p < stop → (firstCover l p).isSome) →
    ∃ k v, copyChunks stop l cursor kOut vOut = .ok (stop, k, v) ∧ Copied l cursor stop kOut vOut k v
  | [], cursor, kOut, vOut, _, hcursor, _, _, hall => by
    have := hall cursor (le_refl _) hcursor
    simp [firstCover] at this
  | (chunkStart, chunk) :: rest, cursor, kOut, vOut, hsorted, hcursor, hk, hv, hall => by
    rw [pairwise_cons] at hsorted
    obtain ⟨hfirst, hrest⟩ := hsorted
    have hstart : chunkStart ≤ cursor := by
      -- the first chunk that covers `cursor` does not start after it
      obtain ⟨row, hrow⟩ := isSome_iff_exists.1 (hall cursor (le_refl _) hcursor)
      obtain ⟨c, hc, hcover⟩ := exists_of_findSome?_eq_some hrow
      have hle := (rowAt_isSome.1 (isSome_iff_exists.2 ⟨row, hcover⟩)).1
      rcases mem_cons.1 hc with rfl | hc
      · exact hle
      · have := hfirst c hc
        omega
    simp only [copyChunks]
    rw [if_neg (by omega)]
    by_cases hskip : chunkStart + chunk.length ≤ cursor
    · rw [if_pos hskip]
      have hnone : ∀ p, cursor ≤ p →
          firstCover ((chunkStart, chunk) :: rest) p = firstCover rest p := fun p hp => by
        rw [firstCover_cons, rowAt_eq_none.2 (by omega), none_or]
      obtain ⟨k, v, hrun, hcopied⟩ := copyChunks_covered hrest hcursor hk hv
        (fun p hlow hhigh => by rw [← hnone p hlow]; exact hall p hlow hhigh)
      refine ⟨k, v, hrun, hcopied.kLength, hcopied.vLength, fun p => ?_, fun p => ?_⟩
      · rw [hcopied.k]
        split
        · next hp => rw [hnone p hp.1]
        · rfl
      · rw [hcopied.v]
        split
        · next hp => rw [hnone p hp.1]
        · rfl
    rw [if_neg hskip, max_eq_left hstart]
    set copyEnd := min stop (chunkStart + chunk.length) with hcopyEnd
    rw [if_pos (by omega)]
    obtain ⟨hkLength, hkOut⟩ := getElem?_copied (@fst α α) chunk kOut
      hstart (show copyEnd ≤ _ by omega) (by omega) (by omega)
    obtain ⟨hvLength, hvOut⟩ := getElem?_copied (@snd α α) chunk vOut
      hstart (show copyEnd ≤ _ by omega) (by omega) (by omega)
    have hhere : ∀ p, cursor ≤ p → p < copyEnd →
        firstCover ((chunkStart, chunk) :: rest) p = rowAt chunkStart chunk p := fun p hlow hhigh => by
      obtain ⟨row, hrow⟩ := isSome_iff_exists.1
        (rowAt_isSome.2 (show chunkStart ≤ p ∧ p < chunkStart + chunk.length by omega))
      rw [firstCover_cons, hrow, some_or]
    by_cases hdone : copyEnd ≥ stop
    · rw [if_pos hdone]
      have hall' : copyEnd = stop := by omega
      rw [hall'] at hkLength hvLength hkOut hvOut hhere ⊢
      refine ⟨_, _, rfl, hkLength, hvLength, fun p => ?_, fun p => ?_⟩
      · rw [hkOut]
        split
        · next hp => rw [hhere p hp.1 hp.2]
        · rfl
      · rw [hvOut]
        split
        · next hp => rw [hhere p hp.1 hp.2]
        · rfl
    rw [if_neg hdone]
    have hbeyond : ∀ p, copyEnd ≤ p → p < stop →
        firstCover ((chunkStart, chunk) :: rest) p = firstCover rest p := fun p hlow hhigh => by
      rw [firstCover_cons, rowAt_eq_none.2 (by omega), none_or]
    obtain ⟨k, v, hrun, hcopied⟩ := copyChunks_covered hrest (show copyEnd < stop by omega)
      (hk.trans hkLength.ge) (hv.trans hvLength.ge)
      (fun p hlow hhigh => by rw [← hbeyond p hlow hhigh]; exact hall p (by omega) hhigh)
    refine ⟨k, v, hrun, hcopied.kLength.trans hkLength, hcopied.vLength.trans hvLength,
      fun p => ?_, fun p => ?_⟩
    · rw [hcopied.k, hkOut]
      by_cases hp : copyEnd ≤ p ∧ p < stop
      · rw [if_pos hp, if_pos (by omega), hbeyond p hp.1 hp.2]
      rw [if_neg hp]
      by_cases hp' : cursor ≤ p ∧ p < copyEnd
      · rw [if_pos hp', if_pos (by omega), hhere p hp'.1 hp'.2]
      · rw [if_neg hp', if_neg (by omega)]
    · rw [hcopied.v, hvOut]
      by_cases hp : copyEnd ≤ p ∧ p < stop
      · rw [if_pos hp, if_pos (by omega), hbeyond p hp.1 hp.2]
      rw [if_neg hp]
      by_cases hp' : cursor ≤ p ∧ p < copyEnd
      · rw [if_pos hp', if_pos (by omega), hhere p hp'.1 hp'.2]
      · rw [if_neg hp', if_neg (by omega)]

theorem covered_of_copyChunks : ∀ {l : List (Nat × List (α × α))} {cursor : Nat}
    {kOut vOut k v : List α}, cursor < stop → copyChunks stop l cursor kOut vOut = .ok (stop, k, v) →
    ∀ p, cursor ≤ p → p < stop → (firstCover l p).isSome
  | [], cursor, kOut, vOut, k, v, hcursor, hrun, p, hlow, hhigh => by
    simp only [copyChunks, Except.ok.injEq, Prod.mk.injEq] at hrun
    omega
  | (chunkStart, chunk) :: rest, cursor, kOut, vOut, k, v, hcursor, hrun, p, hlow, hhigh => by
    rw [firstCover_cons, isSome_or, Bool.or_eq_true]
    simp only [copyChunks] at hrun
    by_cases hgap : chunkStart > cursor
    · rw [if_pos hgap] at hrun
      cases hrun
    rw [if_neg hgap] at hrun
    by_cases hskip : chunkStart + chunk.length ≤ cursor
    · rw [if_pos hskip] at hrun
      exact .inr (covered_of_copyChunks hcursor hrun p hlow hhigh)
    rw [if_neg hskip, max_eq_left (by omega), if_pos (by omega)] at hrun
    by_cases hp : p < chunkStart + chunk.length
    · exact .inl (rowAt_isSome.2 (by omega))
    rw [if_neg (by omega)] at hrun
    exact .inr (covered_of_copyChunks (by omega) hrun p (by omega) hhigh)

variable {chunks : Dict Nat (List (α × α))}

theorem mem_sortedChunks {c : Nat × List (α × α)} :
    c ∈ sortedChunks chunks ↔ chunks.get? c.1 = some c.2 := by
  rw [sortedChunks, mem_insertionSort, ← mem_entries]

theorem sortedChunks_sorted (chunks : Dict Nat (List (α × α))) :
    (sortedChunks chunks).Pairwise fun a b => a.1 < b.1 := by
  have hle : (sortedChunks chunks).Pairwise fun a b => a.1 ≤ b.1 := by
    have : Std.Total (fun a b : Nat × List (α × α) => a.1 ≤ b.1) := ⟨fun a b => Nat.le_total _ _⟩
    have : IsTrans (Nat × List (α × α)) (fun a b => a.1 ≤ b.1) := ⟨fun _ _ _ => Nat.le_trans⟩
    exact pairwise_insertionSort _ _
  have hne : (sortedChunks chunks).Pairwise fun a b => a.1 ≠ b.1 := by
    have hnodup : ((sortedChunks chunks).map fst).Nodup :=
      ((perm_insertionSort _ _).map _).nodup_iff.2 chunks.nodup
    exact pairwise_map.1 hnodup
  exact hle.imp₂ (fun _ _ h h' => lt_of_le_of_ne h h') hne

variable {fills : List (Nat × List (α × α))}

theorem firstCover_sortedChunks (hlive : ∀ s, chunks.get? s = liveAt fills s) (p : Nat) :
    firstCover (sortedChunks chunks) p = frontPut fills p := by
  have hmem : ∀ s rows, liveAt fills s = some rows ↔ (s, rows) ∈ sortedChunks chunks := fun s rows => by
    rw [mem_sortedChunks, hlive]
  symm
  cases hfirst : firstCover (sortedChunks chunks) p with
  | none =>
    rw [firstCover, findSome?_eq_none_iff] at hfirst
    refine findSome?_eq_none_iff.2 fun s _ => ?_
    cases hs : liveAt fills s with
    | none => rfl
    | some rows => exact hfirst (s, rows) ((hmem s rows).1 hs)
  | some row =>
    obtain ⟨before, c, after, hsplit, hrow, hbefore⟩ := findSome?_eq_some_iff.1 hfirst
    have hle : c.1 ≤ p := (rowAt_isSome.1 (isSome_iff_exists.2 ⟨row, hrow⟩)).1
    have hsorted := sortedChunks_sorted chunks
    rw [hsplit, pairwise_append, pairwise_cons] at hsorted
    refine findSome?_eq_some_iff.2
      ⟨range c.1, c.1, range' (c.1 + 1) (p - c.1), ?_, ?_, fun s hs => ?_⟩
    · have hp : p + 1 = c.1 + ((p - c.1) + 1) := by omega
      rw [hp, range_eq_range', ← range'_append_1, range'_succ, range_eq_range',
        Nat.zero_add]
    · rw [(hmem c.1 c.2).2 (hsplit ▸ mem_append_right _ mem_cons_self)]
      exact hrow
    · cases hlow : liveAt fills s with
      | none => rfl
      | some rows =>
        have hin := (hmem s rows).1 hlow
        rw [hsplit, mem_append, mem_cons] at hin
        have hlt := mem_range.1 hs
        rcases hin with hin | rfl | hin
        · exact hbefore _ hin
        · exact absurd hlt (lt_irrefl _)
        · have := hsorted.2.1.1 _ hin
          simp only at this
          omega

/-- `copy_prefix_to` of `key` delivers in both modes, for every prefix that was filled, what was put
last at each position. -/
def Delivers (fills : List (Nat × List (α × α))) (chunked contiguous : RawKVOffloadBuffer α)
    (key : RawKVKey) (entry : RawKVEntry α) : Prop :=
  ∀ (stop : Nat) (kOut vOut : RowTensor α), stop ≤ entry.filledUntil →
    kOut.tail = entry.kShapeTail → vOut.tail = entry.vShapeTail →
    stop ≤ kOut.rows.length → stop ≤ vOut.rows.length →
    ∃ k v, chunked.copyPrefixTo key stop kOut vOut = .ok (k, v) ∧
      contiguous.copyPrefixTo key stop kOut vOut = .ok (k, v) ∧
      ∀ p < stop, ∃ row, lastPut fills p = some row ∧ k[p]? = some row.1 ∧ v[p]? = some row.2

variable {entry : RawKVEntry α}

theorem copyPrefixTo_chunks {kOut vOut : RowTensor α} (hstore : entry.store = .chunks chunks)
    (hstop : stop ≤ entry.filledUntil) (hkTail : kOut.tail = entry.kShapeTail)
    (hvTail : vOut.tail = entry.vShapeTail) (hk : stop ≤ kOut.rows.length)
    (hv : stop ≤ vOut.rows.length) (k v : List α) :
    entry.copyPrefixTo stop kOut vOut = .ok (k, v) ↔
      copyChunks stop (sortedChunks chunks) 0 kOut.rows vOut.rows = .ok (stop, k, v) := by
  unfold RawKVEntry.copyPrefixTo
  rw [if_neg (by omega), if_neg (by omega), if_neg (by rw [not_or]; exact ⟨not_not.2 hkTail, not_not.2 hvTail⟩)]
  simp only [hstore, Int.toNat_natCast]
  cases hrun : copyChunks stop (sortedChunks chunks) 0 kOut.rows vOut.rows with
  | error e => simp
  | ok r =>
    obtain ⟨cursor, k', v'⟩ := r
    by_cases hcursor : cursor = stop
    · subst hcursor
      simp
    · simp [hcursor]

theorem copyPrefixTo_tensors {rows : List (α × α)} {kOut vOut : RowTensor α}
    (hstore : entry.store = .tensors rows) (hstop : stop ≤ entry.filledUntil)
    (hkTail : kOut.tail = entry.kShapeTail) (hvTail : vOut.tail = entry.vShapeTail)
    (hk : stop ≤ kOut.rows.length) (hv : stop ≤ vOut.rows.length) :
    entry.copyPrefixTo stop kOut vOut = .ok (overlay kOut.rows 0 ((rows.take stop).map fst),
      overlay vOut.rows 0 ((rows.take stop).map snd)) := by
  unfold RawKVEntry.copyPrefixTo
  rw [if_neg (by omega), if_neg (by omega), if_neg (by rw [not_or]; exact ⟨not_not.2 hkTail, not_not.2 hvTail⟩)]
  simp only [hstore, Int.toNat_natCast]

theorem getElem?_leading {γ : Type} {f : β → γ} {rows : List β} {out : List γ}
    (hrows : stop ≤ rows.length) (hout : stop ≤ out.length) (p : Nat) :
    (overlay out 0 ((rows.take stop).map f))[p]? = if p < stop then rows[p]?.map f else out[p]? := by
  have hlength : ((rows.take stop).map f).length = stop := by
    rw [length_map, length_take]
    omega
  rw [getElem?_overlay (by omega), hlength, Nat.sub_zero, getElem?_map]
  by_cases hp : p < stop
  · rw [if_pos hp, if_pos (by omega), getElem?_take_of_lt hp]
  · rw [if_neg hp, if_neg (by omega)]

theorem copyChunks_zero (hlive : ∀ s, chunks.get? s = liveAt fills s) (kOut vOut : List α)
    (hzero : (∀ s rows, liveAt fills s = some rows → s = 0) ∨ (frontPut fills 0).isSome) :
    copyChunks 0 (sortedChunks chunks) 0 kOut vOut = .ok (0, kOut, vOut) := by
  cases hl : sortedChunks chunks with
  | nil => rfl
  | cons c rest =>
    obtain ⟨s, rows⟩ := c
    have hmem : chunks.get? s = some rows := mem_sortedChunks.1 (hl ▸ mem_cons_self)
    have hsorted := sortedChunks_sorted chunks
    rw [hl, pairwise_cons] at hsorted
    simp only [copyChunks, Nat.zero_max, Nat.zero_min]
    rcases hzero with hzero | hzero
    · have hs : s = 0 := hzero s rows (by rw [← hlive, hmem])
      have hrest : rest = [] := eq_nil_iff_forall_not_mem.2 fun c hc => by
        have hlt := hsorted.1 c hc
        have hget : chunks.get? c.1 = some c.2 := mem_sortedChunks.1 (hl ▸ mem_cons_of_mem _ hc)
        have := hzero c.1 c.2 (by rw [← hlive, hget])
        omega
      subst hs hrest
      rw [if_neg (by omega)]
      split
      · rfl
      · rw [if_neg (by omega), if_pos (le_refl _)]
    · rw [← firstCover_sortedChunks hlive, hl, firstCover_cons, isSome_or, Bool.or_eq_true] at hzero
      have hhere : (rowAt s rows 0).isSome := by
        refine hzero.resolve_right fun hlater => ?_
        obtain ⟨row, hrow⟩ := isSome_iff_exists.1 hlater
        obtain ⟨c, hc, hcover⟩ := exists_of_findSome?_eq_some hrow
        have hle := (rowAt_isSome.1 (isSome_iff_exists.2 ⟨row, hcover⟩)).1
        have := hsorted.1 c hc
        omega
      have hbounds := rowAt_isSome.1 hhere
      rw [if_neg (by omega), if_neg (by omega), if_neg (by omega), if_pos (le_refl _)]

theorem TwinEntry.delivers_iff {chunked contiguous : RawKVOffloadBuffer α} {key : RawKVKey}
    {entry' : RawKVEntry α} (h : TwinEntry fills entry entry')
    (hentry : chunked.entries.get? key = some entry)
    (hentry' : contiguous.entries.get? key = some entry') :
    Delivers fills chunked contiguous key entry ↔
      ∀ p < filledEnd fills, frontPut fills p = lastPut fills p := by
  obtain ⟨chunks, hchunks, hlive⟩ := h.chunks
  obtain ⟨rows, hrows, hlength, hlast⟩ := h.tensors
  have hwithin := h.within
  have hcopy : ∀ (stop : Nat) (kOut vOut : RowTensor α),
      chunked.copyPrefixTo key stop kOut vOut = entry.copyPrefixTo stop kOut vOut := fun stop kOut vOut => by
    simp only [RawKVOffloadBuffer.copyPrefixTo, hentry]
  have hcopy' : ∀ (stop : Nat) (kOut vOut : RowTensor α),
      contiguous.copyPrefixTo key stop kOut vOut = entry'.copyPrefixTo stop kOut vOut :=
    fun stop kOut vOut => by simp only [RawKVOffloadBuffer.copyPrefixTo, hentry']
  constructor
  · intro hdelivers p hp
    have hk : filledEnd fills ≤ (rows.map fst).length := by rw [length_map]; omega
    have hv : filledEnd fills ≤ (rows.map snd).length := by rw [length_map]; omega
    obtain ⟨k, v, hrun, -, hvalues⟩ := hdelivers (filledEnd fills) ⟨entry.kShapeTail, rows.map fst⟩
      ⟨entry.vShapeTail, rows.map snd⟩ h.filled.ge rfl rfl hk hv
    rw [hcopy, copyPrefixTo_chunks hchunks h.filled.ge rfl rfl hk hv] at hrun
    have hpos : 0 < filledEnd fills := by omega
    have hcover := covered_of_copyChunks hpos hrun
    obtain ⟨k', v', hrun', hcopied⟩ := copyChunks_covered (sortedChunks_sorted chunks) hpos hk hv hcover
    rw [hrun'] at hrun
    cases hrun
    obtain ⟨row, hrow, hkp, hvp⟩ := hvalues p hp
    rw [hcopied.k, if_pos ⟨Nat.zero_le _, hp⟩, map_eq_some_iff] at hkp
    rw [hcopied.v, if_pos ⟨Nat.zero_le _, hp⟩, map_eq_some_iff] at hvp
    obtain ⟨shown, hshown, hfst⟩ := hkp
    obtain ⟨shown', hshown', hsnd⟩ := hvp
    rw [hshown] at hshown'
    cases hshown'
    rw [← firstCover_sortedChunks hlive, hshown, hrow, Prod.ext hfst hsnd]
  · intro hfront stop kOut vOut hstop hkTail hvTail hk hv
    rw [h.filled] at hstop
    have hfilled : stop ≤ entry.filledUntil := by rw [h.filled]; exact hstop
    have hfilled' : stop ≤ entry'.filledUntil := by rw [h.filled']; exact hstop
    rw [hcopy, hcopy', copyPrefixTo_tensors hrows hfilled' (hkTail.trans h.kShapeTail.symm)
      (hvTail.trans h.vShapeTail.symm) hk hv]
    have hrow : ∀ p < stop, ∃ row, frontPut fills p = some row ∧ lastPut fills p = some row ∧
        rows[p]? = some row := fun p hp => by
      obtain ⟨row, hrow⟩ := isSome_iff_exists.1 (h.covered p (by omega))
      exact ⟨row, (hfront p (by omega)).trans hrow, hrow, hlast p row hrow⟩
    have hloop : ∃ k v, copyChunks stop (sortedChunks chunks) 0 kOut.rows vOut.rows = .ok (stop, k, v) ∧
        Copied (sortedChunks chunks) 0 stop kOut.rows vOut.rows k v := by
      rcases Nat.eq_zero_or_pos stop with rfl | hpos
      · refine ⟨_, _, copyChunks_zero hlive kOut.rows vOut.rows ?_, rfl, rfl, fun p => ?_, fun p => ?_⟩
        · rcases Nat.eq_zero_or_pos (filledEnd fills) with hnone | hsome
          · refine .inl fun s live hs => ?_
            have := start_le_filledEnd hs
            omega
          · rw [hfront 0 hsome]
            exact .inr (h.covered 0 hsome)
        · rw [if_neg (by omega)]
        · rw [if_neg (by omega)]
      · refine copyChunks_covered (sortedChunks_sorted chunks) hpos hk hv fun p _ hp => ?_
        obtain ⟨row, hrow, -⟩ := hrow p hp
        rw [firstCover_sortedChunks hlive, hrow]
        rfl
    obtain ⟨k, v, hrun, hcopied⟩ := hloop
    refine ⟨k, v, (copyPrefixTo_chunks hchunks hfilled hkTail hvTail hk hv k v).2 hrun, ?_,
      fun p hp => ?_⟩
    · congr 2
      · refine ext_getElem? fun p => ?_
        rw [getElem?_leading (by omega) hk, hcopied.k]
        by_cases hp : p < stop
        · obtain ⟨row, hfrontRow, -, hrowp⟩ := hrow p hp
          rw [if_pos hp, if_pos (by omega), hrowp, firstCover_sortedChunks hlive, hfrontRow]
        · rw [if_neg hp, if_neg (by omega)]
      · refine ext_getElem? fun p => ?_
        rw [getElem?_leading (by omega) hv, hcopied.v]
        by_cases hp : p < stop
        · obtain ⟨row, hfrontRow, -, hrowp⟩ := hrow p hp
          rw [if_pos hp, if_pos (by omega), hrowp, firstCover_sortedChunks hlive, hfrontRow]
        · rw [if_neg hp, if_neg (by omega)]
    · obtain ⟨row, hfrontRow, hlastRow, -⟩ := hrow p hp
      refine ⟨row, hlastRow, ?_, ?_⟩
      · rw [hcopied.k, if_pos ⟨Nat.zero_le _, hp⟩, firstCover_sortedChunks hlive, hfrontRow]
        rfl
      · rw [hcopied.v, if_pos ⟨Nat.zero_le _, hp⟩, firstCover_sortedChunks hlive, hfrontRow]
        rfl

/-- After a run of `ensure_entry` and `put_range` that the chunked mode accepts, the contiguous mode
has accepted it too, and the two deliver the same prefixes of an entry if and only if at each filled
position the chunk with the lowest start that covers it has the row that was put there last. -/
theorem chunked_delivers_iff (blank : Nat → α × α) (cs : List (Call α))
    (chunked : RawKVOffloadBuffer α) (hcalls : (new .chunked).calls blank cs = .ok chunked)
    (key : RawKVKey) (entry : RawKVEntry α) (hentry : chunked.entries.get? key = some entry) :
    ∃ contiguous, (new .contiguous).calls blank cs = .ok contiguous ∧
      (Delivers (fillsOf key cs) chunked contiguous key entry ↔
        ∀ p < filledEnd (fillsOf key cs), frontPut (fillsOf key cs) p = lastPut (fillsOf key cs) p) := by
  obtain ⟨contiguous, hrun, htwin⟩ := Twin.calls cs Twin.new hcalls
  rw [nil_append] at htwin
  have hkey := htwin.entries key
  rw [hentry] at hkey
  cases hentry' : contiguous.entries.get? key with
  | none => rw [hentry'] at hkey; exact hkey.elim
  | some entry' =>
    rw [hentry'] at hkey
    exact ⟨contiguous, hrun, TwinEntry.delivers_iff hkey hentry hentry'⟩

def demoKey : RawKVKey := ⟨0, 0, "full_post_rope"⟩

/-- An entry of four positions. -/
def demoCalls (start : Int) (again : List Nat) : List (Call Nat) :=
  [.ensureEntry demoKey 4 [1] [1],
    .putRange ⟨demoKey, 0, ⟨[1], [0, 1, 2, 3]⟩, ⟨[1], [10, 11, 12, 13]⟩⟩,
    .putRange ⟨demoKey, start, ⟨[1], again⟩, ⟨[1], again⟩⟩]

def demoEntry : RawKVEntry Nat where
  store := .chunks ((empty.set 0 [(0, 10), (1, 11), (2, 12), (3, 13)]).set 1 [(9, 9)])
  filledUntil := 4
  capacity := 4
  kShapeTail := [1]
  vShapeTail := [1]

theorem chunked_delivers_iff_nested :
    ∃ contiguous, (new .contiguous).calls (fun _ => (0, 0)) (demoCalls 1 [9]) =
        .ok contiguous ∧
      ¬Delivers (fillsOf demoKey (demoCalls 1 [9])) ⟨.chunked, empty.set demoKey demoEntry⟩
        contiguous demoKey demoEntry := by
  obtain ⟨contiguous, hrun, hiff⟩ := chunked_delivers_iff (fun _ => (0, 0)) (demoCalls 1 [9])
    ⟨.chunked, empty.set demoKey demoEntry⟩ rfl demoKey demoEntry rfl
  exact ⟨contiguous, hrun, hiff.not.2 fun h => absurd (h 1 (by decide)) (by decide)⟩

/-- `copy_prefix_to` of the whole entry after the calls. -/
def demoCopy (mode : RawKVMode) (cs : List (Call Nat)) :
    Except PyError (List Nat × List Nat) :=
  ((new mode).calls (fun _ => (0, 0)) cs).bind fun b =>
    b.copyPrefixTo demoKey 4 ⟨[1], [7, 7, 7, 7]⟩ ⟨[1], [7, 7, 7, 7]⟩

/-- A range inside an earlier one is not read. -/
theorem chunked_reads_stale_rows :
    demoCopy .chunked (demoCalls 1 [9]) = .ok ([0, 1, 2, 3], [10, 11, 12, 13]) ∧
    demoCopy .contiguous (demoCalls 1 [9]) = .ok ([0, 9, 2, 3], [10, 9, 12, 13]) ∧
    demoCopy .chunked (demoCalls 0 [9]) = .error (.runtimeError
      "RawKVOffloadBuffer chunked copy_prefix_to did not fill requested prefix") ∧
    demoCopy .contiguous (demoCalls 0 [9]) = .ok ([9, 1, 2, 3], [9, 11, 12, 13]) :=
  ⟨rfl, rfl, rfl, rfl⟩

end SparseEngine.RawKV
