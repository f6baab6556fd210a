import SparseEngine.RawKV.Buffer

/-! A fill is one accepted `put_range`: the position it starts at and its rows. -/

namespace SparseEngine

open RawKVOffloadBuffer

theorem length_overlay {α : Type} {out rows : List α} {start : Nat}
    (h : start + rows.length ≤ out.length) : (overlay out start rows).length = out.length := by
  simp only [overlay, List.length_append, List.length_take, List.length_drop]
  omega

theorem getElem?_overlay {α : Type} {out rows : List α} {start : Nat}
    (h : start + rows.length ≤ out.length) (p : Nat) :
    (overlay out start rows)[p]? =
      if start ≤ p ∧ p < start + rows.length then rows[p - start]? else out[p]? := by
  have htake : (out.take start).length = start := by
    rw [List.length_take]
    omega
  rw [overlay, List.append_assoc]
  by_cases hlow : p < start
  · rw [List.getElem?_append_left (by omega), List.getElem?_take_of_lt hlow, if_neg (by omega)]
  rw [List.getElem?_append_right (by omega), htake]
  by_cases hhigh : p < start + rows.length
  · rw [List.getElem?_append_left (by omega), if_pos (by omega)]
  · rw [List.getElem?_append_right (by omega), List.getElem?_drop, if_neg (by omega)]
    congr 1
    omega

namespace RawKV

variable {α β : Type}

/-- The row at position `p` of a range that starts at `start`. -/
def rowAt (start : Nat) (rows : List β) (p : Nat) : Option β :=
  if start ≤ p then rows[p - start]? else none

variable (fills : List (Nat × List β))

/-- The last of `fills` that starts at `s`. -/
def liveAt (s : Nat) : Option (List β) :=
  fills.foldl (fun seen f => if f.1 = s then some f.2 else seen) none

/-- The row at `p` of the last of `fills` that covers `p`. -/
def lastPut (p : Nat) : Option β :=
  fills.foldl (fun seen f => (rowAt f.1 f.2 p).or seen) none

/-- The row at `p` of the fill with the lowest start among those that cover `p` and are the last
of their start. -/
def frontPut (p : Nat) : Option β :=
  (List.range (p + 1)).findSome? fun s => (liveAt fills s).bind fun rows => rowAt s rows p

def filledEnd : Nat :=
  fills.foldl (fun n f => max n (f.1 + f.2.length)) 0

theorem rowAt_isSome {start p : Nat} {rows : List β} :
    (rowAt start rows p).isSome ↔ start ≤ p ∧ p < start + rows.length := by
  unfold rowAt
  split
  · rw [isSome_getElem?]
    omega
  · simp only [Option.isSome_none, Bool.false_eq_true, false_iff]
    omega

theorem rowAt_eq_none {start p : Nat} {rows : List β} :
    rowAt start rows p = none ↔ ¬(start ≤ p ∧ p < start + rows.length) := by
  rw [← rowAt_isSome, Bool.not_eq_true, Option.isSome_eq_false_iff, Option.isNone_iff_eq_none]

variable (f : Nat × List β)

theorem liveAt_append (s : Nat) :
    liveAt (fills ++ [f]) s = if f.1 = s then some f.2 else liveAt fills s := by
  simp only [liveAt, List.foldl_append, List.foldl_cons, List.foldl_nil]

theorem lastPut_append (p : Nat) :
    lastPut (fills ++ [f]) p = (rowAt f.1 f.2 p).or (lastPut fills p) := by
  simp only [lastPut, List.foldl_append, List.foldl_cons, List.foldl_nil]

theorem filledEnd_append :
    filledEnd (fills ++ [f]) = max (filledEnd fills) (f.1 + f.2.length) := by
  simp only [filledEnd, List.foldl_append, List.foldl_cons, List.foldl_nil]

theorem start_le_filledEnd {fills : List (Nat × List β)} {s : Nat} {rows : List β}
    (h : liveAt fills s = some rows) : s + rows.length ≤ filledEnd fills := by
  induction fills using List.reverseRecOn with
  | nil => cases h
  | append_singleton fills f ih =>
    rw [liveAt_append] at h
    rw [filledEnd_append]
    split at h
    · next heq =>
      cases h
      rw [← heq]
      exact le_max_right _ _
    · exact (ih h).trans (le_max_left _ _)

/-- The fills that the calls make of the entry of `key`. -/
def fillsOf (key : RawKVKey) (calls : List (Call α)) :
    List (Nat × List (α × α)) :=
  calls.filterMap fun
    | .ensureEntry .. => none
    | .putRange p => if p.key = key then some (p.start.toNat, p.k.rows.zip p.v.rows) else none

structure TwinEntry (fills : List (Nat × List (α × α))) (chunked contiguous : RawKVEntry α) :
    Prop where
  capacity : contiguous.capacity = chunked.capacity
  kShapeTail : contiguous.kShapeTail = chunked.kShapeTail
  vShapeTail : contiguous.vShapeTail = chunked.vShapeTail
  filled : chunked.filledUntil = filledEnd fills
  filled' : contiguous.filledUntil = filledEnd fills
  within : filledEnd fills ≤ chunked.capacity
  covered : ∀ p < filledEnd fills, (lastPut fills p).isSome
  chunks : ∃ chunks, chunked.store = .chunks chunks ∧ ∀ s, chunks.get? s = liveAt fills s
  tensors : ∃ rows, contiguous.store = .tensors rows ∧ rows.length = chunked.capacity ∧
    ∀ p v, lastPut fills p = some v → rows[p]? = some v

def TwinEntries (fills : List (Nat × List (α × α))) :
    Option (RawKVEntry α) → Option (RawKVEntry α) → Prop
  | some chunked, some contiguous => TwinEntry fills chunked contiguous
  | none, none => fills = []
  | _, _ => False

structure Twin (done : List (Call α)) (chunked contiguous : RawKVOffloadBuffer α) :
    Prop where
  mode : chunked.mode = .chunked
  mode' : contiguous.mode = .contiguous
  entries : ∀ key, TwinEntries (fillsOf key done) (chunked.entries.get? key)
    (contiguous.entries.get? key)

theorem TwinEntry.fresh (blank : Nat → α × α) (n : Nat) (kShapeTail vShapeTail : List Nat) :
    TwinEntry [] (⟨.chunks .empty, 0, n, kShapeTail, vShapeTail⟩ : RawKVEntry α)
      ⟨.tensors ((List.range n).map blank), 0, n, kShapeTail, vShapeTail⟩ := by
  refine ⟨rfl, rfl, rfl, rfl, rfl, Nat.zero_le _, fun p hp => ?_, ⟨_, rfl, fun s => rfl⟩,
    ⟨_, rfl, by simp, fun p v h => ?_⟩⟩
  · exact absurd hp (Nat.not_lt_zero p)
  · simp [lastPut] at h

theorem TwinEntry.putRange {fills : List (Nat × List (α × α))} {chunked contiguous chunked' : RawKVEntry α}
    (h : TwinEntry fills chunked contiguous) {start : Int} {k v : RowTensor α}
    (hput : chunked.putRange start k v = .ok chunked') :
    ∃ contiguous', contiguous.putRange start k v = .ok contiguous' ∧
      TwinEntry (fills ++ [(start.toNat, k.rows.zip v.rows)]) chunked' contiguous' := by
  obtain ⟨chunks, hchunks, hlive⟩ := h.chunks
  obtain ⟨rows, hrows, hlength, hlast⟩ := h.tensors
  simp only [RawKVEntry.putRange, hchunks] at hput
  split_ifs at hput with hshape htail hgap
  cases hput
  rw [not_or, not_or, not_lt, not_lt, not_not] at hshape
  obtain ⟨hstart, hstop, hsame⟩ := hshape
  obtain ⟨s, rfl⟩ := Int.eq_ofNat_of_zero_le hstart
  have hzip : (k.rows.zip v.rows).length = k.rows.length := by
    rw [List.length_zip, hsame, min_self]
  have hend : ((s : Int) + k.rows.length).toNat = s + (k.rows.zip v.rows).length := by
    omega
  have hgap' : s ≤ filledEnd fills := by
    rw [h.filled] at hgap
    omega
  refine ⟨{ contiguous with
    store := .tensors (overlay rows s (k.rows.zip v.rows))
    filledUntil := max contiguous.filledUntil (s + (k.rows.zip v.rows).length) }, ?_, ?_⟩
  · simp only [RawKVEntry.putRange, hrows, h.capacity, h.kShapeTail, h.vShapeTail]
    rw [if_neg (by rw [not_or, not_or, not_lt, not_lt, not_not]; exact ⟨hstart, hstop, hsame⟩),
      if_neg htail, hend]
    rfl
  · simp only [Int.toNat_natCast, hend]
    refine ⟨h.capacity, h.kShapeTail, h.vShapeTail, ?_, ?_, ?_, fun p hp => ?_,
      ⟨_, rfl, fun s' => ?_⟩, ⟨_, rfl, ?_, fun p w hp => ?_⟩⟩
    · simp only [filledEnd_append, h.filled]
    · simp only [filledEnd_append, h.filled']
    · have := h.within
      simp only [filledEnd_append, hzip]
      omega
    · rw [filledEnd_append] at hp
      rw [lastPut_append, Option.isSome_or, Bool.or_eq_true, rowAt_isSome]
      by_cases hold : p < filledEnd fills
      · exact .inr (h.covered p hold)
      · exact .inl (by simp only at hp ⊢; omega)
    · simp only [Dict.get?_set, liveAt_append, hlive, eq_comm]
    · rw [length_overlay (by rw [hlength, hzip]; omega), hlength]
    · rw [getElem?_overlay (by rw [hlength, hzip]; omega)]
      rw [lastPut_append] at hp
      by_cases hin : s ≤ p ∧ p < s + (k.rows.zip v.rows).length
      · rw [if_pos hin]
        have hrow : rowAt s (k.rows.zip v.rows) p = (k.rows.zip v.rows)[p - s]? := if_pos hin.1
        have hsome := rowAt_isSome.2 hin
        rw [hrow] at hp hsome
        obtain ⟨w', hw'⟩ := Option.isSome_iff_exists.1 hsome
        rwa [hw', Option.some_or, ← hw'] at hp
      · rw [if_neg hin]
        rw [rowAt_eq_none.2 hin, Option.none_or] at hp
        exact hlast p w hp

theorem fillsOf_append (key : RawKVKey) (done : List (Call α))
    (c : Call α) : fillsOf key (done ++ [c]) = fillsOf key done ++ fillsOf key [c] := by
  simp only [fillsOf, List.filterMap_append]

theorem Twin.ensureEntry {done : List (Call α)}
    {chunked contiguous chunked' : RawKVOffloadBuffer α} (h : Twin done chunked contiguous)
    {blank : Nat → α × α} {key : RawKVKey} {totalLen : Int} {kShapeTail vShapeTail : List Nat}
    (hcall : chunked.ensureEntry blank key totalLen kShapeTail vShapeTail = .ok chunked') :
    ∃ contiguous', contiguous.ensureEntry blank key totalLen kShapeTail vShapeTail = .ok contiguous' ∧
      Twin (done ++ [.ensureEntry key totalLen kShapeTail vShapeTail]) chunked' contiguous' := by
  have hfills : ∀ k, fillsOf k (done ++ [.ensureEntry key totalLen kShapeTail vShapeTail]) =
      fillsOf k done := fun k => by
    rw [fillsOf_append]
    exact List.append_nil _
  have hkey := h.entries key
  unfold RawKVOffloadBuffer.ensureEntry at hcall ⊢
  by_cases hneg : totalLen < 0
  · rw [if_pos hneg] at hcall
    cases hcall
  rw [if_neg hneg] at hcall ⊢
  cases hc : chunked.entries.get? key with
  | some entry =>
    cases ht : contiguous.entries.get? key with
    | none => rw [hc, ht] at hkey; exact hkey.elim
    | some twin =>
      rw [hc, ht] at hkey
      have htwin : TwinEntry (fillsOf key done) entry twin := hkey
      simp only [hc] at hcall
      simp only [htwin.capacity, htwin.kShapeTail, htwin.vShapeTail]
      split_ifs at hcall with hgrow htails
      cases hcall
      rw [if_neg hgrow, if_neg htails]
      exact ⟨contiguous, rfl, h.mode, h.mode', fun k => (hfills k).symm ▸ h.entries k⟩
  | none =>
    cases ht : contiguous.entries.get? key with
    | some twin => rw [hc, ht] at hkey; exact hkey.elim
    | none =>
      rw [hc, ht] at hkey
      have hnil : fillsOf key done = [] := hkey
      simp only [hc, h.mode] at hcall
      cases hcall
      refine ⟨_, rfl, rfl, h.mode', fun k => ?_⟩
      rw [hfills]
      simp only [Dict.get?_set, h.mode']
      split
      · next heq =>
        subst heq
        rw [hnil]
        exact TwinEntry.fresh blank _ _ _
      · exact h.entries k

theorem Twin.putRange {done : List (Call α)}
    {chunked contiguous chunked' : RawKVOffloadBuffer α} (h : Twin done chunked contiguous)
    {p : PutRange α} (hcall : chunked.putRange p = .ok chunked') :
    ∃ contiguous', contiguous.putRange p = .ok contiguous' ∧
      Twin (done ++ [.putRange p]) chunked' contiguous' := by
  have hkey := h.entries p.key
  unfold RawKVOffloadBuffer.putRange at hcall ⊢
  cases hc : chunked.entries.get? p.key with
  | none => simp only [hc] at hcall; cases hcall
  | some entry =>
    cases ht : contiguous.entries.get? p.key with
    | none => rw [hc, ht] at hkey; exact hkey.elim
    | some twin =>
      rw [hc, ht] at hkey
      have htwin : TwinEntry (fillsOf p.key done) entry twin := hkey
      simp only [hc] at hcall
      cases hput : entry.putRange p.start p.k p.v with
      | error e => simp only [hput] at hcall; cases hcall
      | ok entry' =>
        simp only [hput] at hcall
        cases hcall
        obtain ⟨twin', hput', htwin'⟩ := htwin.putRange hput
        simp only [hput']
        refine ⟨_, rfl, h.mode, h.mode', fun k => ?_⟩
        rw [fillsOf_append]
        simp only [Dict.get?_set]
        by_cases hk : k = p.key
        · subst hk
          have hone : fillsOf p.key [.putRange p] = [(p.start.toNat, p.k.rows.zip p.v.rows)] := by
            simp only [fillsOf, List.filterMap_cons, List.filterMap_nil, if_true]
          rw [hone, if_pos rfl, if_pos rfl]
          exact htwin'
        · rw [if_neg hk, if_neg hk]
          simpa only [fillsOf, List.filterMap_cons, List.filterMap_nil, Ne.symm hk, if_false,
            List.append_nil] using h.entries k

theorem Twin.calls {blank : Nat → α × α} : ∀ (cs : List (Call α))
    {done : List (Call α)} {chunked contiguous chunked' : RawKVOffloadBuffer α},
    Twin done chunked contiguous → chunked.calls blank cs = .ok chunked' →
    ∃ contiguous', contiguous.calls blank cs = .ok contiguous' ∧
      Twin (done ++ cs) chunked' contiguous'
  | [], done, chunked, contiguous, chunked', h, hcalls => by
    cases hcalls
    exact ⟨contiguous, rfl, by rwa [List.append_nil]⟩
  | c :: cs, done, chunked, contiguous, chunked', h, hcalls => by
    simp only [RawKVOffloadBuffer.calls] at hcalls ⊢
    cases hcall : chunked.call blank c with
    | error e => rw [hcall] at hcalls; cases hcalls
    | ok next =>
      rw [hcall] at hcalls
      have hstep : ∃ next', contiguous.call blank c = .ok next' ∧ Twin (done ++ [c]) next next' := by
        cases c with
        | ensureEntry key totalLen kShapeTail vShapeTail => exact h.ensureEntry hcall
        | putRange p => exact h.putRange hcall
      obtain ⟨next', hcall', hnext⟩ := hstep
      obtain ⟨last, hlast, htwin⟩ := Twin.calls cs hnext hcalls
      refine ⟨last, by rw [hcall']; exact hlast, ?_⟩
      rwa [List.append_assoc, List.singleton_append] at htwin

theorem Twin.new : Twin ([] : List (Call α)) (.new .chunked) (.new .contiguous) :=
  ⟨rfl, rfl, fun _ => rfl⟩

end RawKV

end SparseEngine
