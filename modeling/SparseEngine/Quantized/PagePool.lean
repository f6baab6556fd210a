import SparseEngine.Lib.Py
import SparseEngine.Lib.Shares

/-! `QuantizedPagePool` gives whole pages to sequences. -/

namespace SparseEngine

open Shares

structure QuantizedPagePool where
  pageSize : Nat
  maxLength : Nat
  free : List Nat
  pages : Dict Int (List Nat)
  lengths : Dict Int Nat

structure PageAppend where
  start : Nat
  stop : Nat
  pages : List Nat
deriving DecidableEq, Repr

namespace QuantizedPagePool

open PyM

/-- `QuantizedPagePool(num_pages, page_size, max_length)`. -/
def create (numPages pageSize maxLength : Nat) : Except PyError QuantizedPagePool :=
  if numPages = 0 ∨ pageSize = 0 ∨ maxLength = 0 then
    .error (.valueError "Page capacity, size, and maximum length must be positive.")
  else
    .ok ⟨pageSize, maxLength, List.range numPages, .empty, .empty⟩

variable (p : QuantizedPagePool)

/-- The pages that `n` tokens fill or touch. -/
def pagesFor (n : Nat) : Nat := (n + p.pageSize - 1) / p.pageSize

/-- The stored length of a sequence. -/
def length (seqId : Int) : Nat := (p.lengths.get? seqId).getD 0

def appendCost (seqId count : Int) : Except PyError Nat :=
  if count < 0 then
    .error (.valueError "Append token count cannot be negative.")
  else if p.maxLength < p.length seqId + count.toNat then
    .error (.valueError "Append exceeds max_model_len.")
  else
    .ok (p.pagesFor (p.length seqId + count.toNat) - p.pagesFor (p.length seqId))

def append (seqId count : Int) : PyM QuantizedPagePool PageAppend := do
  let p ← get
  let needed ← lift (p.appendCost seqId count)
  raiseIf (p.free.length < needed)
    (.runtimeError s!"Out of quantized KV pages: need {needed}, free {p.free.length}.")
  let start := p.length seqId
  let stop := start + count.toNat
  let pages := share p.pages seqId ++ p.free.drop (p.free.length - needed)
  modify fun p => { p with
    free := p.free.take (p.free.length - needed)
    pages := p.pages.set seqId pages
    lengths := p.lengths.set seqId stop }
  let first := start / p.pageSize
  return ⟨start, stop, if count = 0 then [] else (pages.take (p.pagesFor stop)).drop first⟩

def release (seqId : Int) : PyM QuantizedPagePool Unit := do
  let p ← get
  match p.pages.get? seqId with
  | none => raise (.valueError s!"Unknown quantized cache sequence {seqId}.")
  | some pages =>
    modify fun p => { p with
      free := p.free ++ pages
      pages := p.pages.erase seqId
      lengths := p.lengths.erase seqId }

variable {p : QuantizedPagePool} {p' : QuantizedPagePool} {numPages : Nat} {sid : Int} {count : Nat}

/-- Every page is free or owned once, and a sequence owns what its length needs. -/
structure PoolInv (numPages : Nat) (p : QuantizedPagePool) : Prop where
  positive : 0 < p.pageSize
  partition : (p.free : Multiset Nat) + owned p.pages = (List.range numPages : List Nat)
  keys : ∀ sid, p.pages.get? sid = none ↔ p.lengths.get? sid = none
  size : ∀ sid, (share p.pages sid).length = p.pagesFor (p.length sid)
  bounded : ∀ sid, p.length sid ≤ p.maxLength

theorem pagesFor_mono {m n : Nat} (h : m ≤ n) : p.pagesFor m ≤ p.pagesFor n :=
  Nat.div_le_div_right (by omega)

theorem div_lt_pagesFor (hpos : 0 < p.pageSize) {i n : Nat} (h : i < n) :
    i / p.pageSize < p.pagesFor n := by
  rw [pagesFor, Nat.div_lt_iff_lt_mul hpos]
  have hup : n ≤ (n + p.pageSize - 1) / p.pageSize * p.pageSize := by
    have := Nat.lt_div_mul_add (a := n + p.pageSize - 1) hpos
    omega
  omega

theorem PoolInv.nodup (h : PoolInv numPages p) : (owned p.pages).Nodup := by
  have hall : ((p.free : Multiset Nat) + owned p.pages).Nodup := by
    rw [h.partition]
    exact Multiset.coe_nodup.mpr List.nodup_range
  exact Multiset.nodup_of_le (Multiset.le_add_left _ _) hall

def appended (p : QuantizedPagePool) (sid : Int) (count : Nat) : QuantizedPagePool :=
  let needed := p.pagesFor (p.length sid + count) - p.pagesFor (p.length sid)
  { p with
    free := p.free.take (p.free.length - needed)
    pages := p.pages.set sid (share p.pages sid ++ p.free.drop (p.free.length - needed))
    lengths := p.lengths.set sid (p.length sid + count) }

theorem appendCost_nat : p.appendCost sid count =
    if p.maxLength < p.length sid + count then .error (.valueError "Append exceeds max_model_len.")
    else .ok (p.pagesFor (p.length sid + count) - p.pagesFor (p.length sid)) := by
  rw [appendCost, if_neg (by omega), Int.toNat_natCast]

theorem length_appended : (p.appended sid count).length sid = p.length sid + count := by
  simp only [length, appended, Dict.get?_set_self, Option.getD_some]

theorem length_appended_ne {x : Int} (h : x ≠ sid) : (p.appended sid count).length x = p.length x := by
  simp only [length, appended, Dict.get?_set_ne _ _ h]

theorem share_appended_ne {x : Int} (h : x ≠ sid) :
    share (p.appended sid count).pages x = share p.pages x := share_set_ne h

theorem share_appended : ∃ added, share (p.appended sid count).pages sid =
    share p.pages sid ++ added := ⟨_, share_set_self⟩

theorem PoolInv.appended (h : PoolInv numPages p) {n : Nat} (hcost : p.appendCost sid count = .ok n)
    (hfree : n ≤ p.free.length) : PoolInv numPages (p.appended sid count) := by
  rw [appendCost_nat] at hcost
  split at hcost
  · cases hcost
  · next hmax =>
    have hn : p.pagesFor (p.length sid + count) - p.pagesFor (p.length sid) = n := Except.ok.inj hcost
    have hpages : (p.appended sid count).pages =
        p.pages.set sid (share p.pages sid ++ p.free.drop (p.free.length - n)) := by
      rw [← hn]
      rfl
    have hlist : (p.appended sid count).free = p.free.take (p.free.length - n) := by
      rw [← hn]
      rfl
    refine ⟨h.positive, ?_, fun x => ?_, fun x => ?_, fun x => ?_⟩
    · have howned := owned_set p.pages sid
        (share p.pages sid ++ p.free.drop (p.free.length - n))
      rw [← Multiset.coe_add, ← add_assoc] at howned
      have hswap := add_right_cancel (howned.trans (add_right_comm _ _ _))
      rw [hpages, hlist, hswap, ← h.partition, add_comm (owned p.pages), ← add_assoc,
        Multiset.coe_add, List.take_append_drop]
    · rw [hpages, show (p.appended sid count).lengths = p.lengths.set sid (p.length sid + count) from rfl,
        Dict.get?_set, Dict.get?_set]
      split
      · simp
      · exact h.keys x
    · by_cases hx : x = sid
      · subst hx
        have hle : p.pagesFor (p.length x) ≤ p.pagesFor (p.length x + count) :=
          pagesFor_mono (Nat.le_add_right _ _)
        rw [length_appended, hpages, share_set_self, List.length_append, h.size,
          List.length_drop]
        have hsize : (p.appended x count).pagesFor (p.length x + count) =
            p.pagesFor (p.length x + count) := rfl
        omega
      · rw [share_appended_ne hx, length_appended_ne hx]
        exact h.size x
    · by_cases hx : x = sid
      · subst hx
        rw [length_appended]
        exact not_lt.mp hmax
      · rw [length_appended_ne hx]
        exact h.bounded x

theorem append_spec (seqId count : Int) :
    (∃ e, append seqId count p = (.error e, p)) ∨
    ∃ n, p.appendCost seqId count = .ok n ∧ n ≤ p.free.length ∧ 0 ≤ count ∧
      append seqId count p = (.ok ⟨p.length seqId, p.length seqId + count.toNat,
        if count = 0 then [] else ((share (p.appended seqId count.toNat).pages seqId).take
          (p.pagesFor (p.length seqId + count.toNat))).drop (p.length seqId / p.pageSize)⟩,
        p.appended seqId count.toNat) := by
  cases hcost : p.appendCost seqId count with
  | error e => exact Or.inl ⟨e, by simp only [append, bind_run, get_run, lift_run, hcost]⟩
  | ok n =>
    by_cases hfree : p.free.length < n
    · refine Or.inl ⟨.runtimeError s!"Out of quantized KV pages: need {n}, free {p.free.length}.", ?_⟩
      simp only [append, bind_run, get_run, lift_run, hcost, raiseIf, if_pos hfree]
    · have hcount : 0 ≤ count := by
        by_contra hneg
        rw [appendCost, if_pos (not_le.mp hneg)] at hcost
        cases hcost
      have hn : p.pagesFor (p.length seqId + count.toNat) - p.pagesFor (p.length seqId) = n := by
        have hcost' := hcost
        rw [← Int.toNat_of_nonneg hcount, appendCost_nat] at hcost'
        split at hcost'
        · cases hcost'
        · exact Except.ok.inj hcost'
      refine Or.inr ⟨n, rfl, not_lt.mp hfree, hcount, ?_⟩
      subst hn
      simp only [append, bind_run, get_run, lift_run, hcost, raiseIf, if_neg hfree, modify_run,
        pure_run, appended, share_set_self]

theorem release_spec (h : PoolInv numPages p) (sid : Int) :
    (p.pages.get? sid = none ∧ ∃ e, release sid p = (.error e, p)) ∨
    ∃ ps p', p.pages.get? sid = some ps ∧ release sid p = (.ok (), p') ∧ PoolInv numPages p' ∧
      p'.pages = p.pages.erase sid ∧ p'.lengths = p.lengths.erase sid ∧ p'.pageSize = p.pageSize ∧
      p'.maxLength = p.maxLength := by
  cases hget : p.pages.get? sid with
  | none =>
    refine Or.inl ⟨rfl, .valueError s!"Unknown quantized cache sequence {sid}.", ?_⟩
    simp only [release, bind_run, get_run, hget, raise_run]
  | some ps =>
    refine Or.inr ⟨ps, { p with
      free := p.free ++ ps, pages := p.pages.erase sid, lengths := p.lengths.erase sid }, rfl,
      by simp only [release, bind_run, get_run, hget, modify_run], ?_, rfl, rfl, rfl, rfl⟩
    have hother : ∀ x ≠ sid, share (p.pages.erase sid) x = share p.pages x ∧
        ((p.lengths.erase sid).get? x).getD 0 = p.length x := fun x hx => by
      rw [share, share, Dict.get?_erase_ne _ hx, Dict.get?_erase_ne _ hx]
      exact ⟨rfl, rfl⟩
    refine ⟨h.positive, ?_, fun x => ?_, fun x => ?_, fun x => ?_⟩
    · rw [← h.partition, ← owned_erase hget, ← Multiset.coe_add, add_assoc,
        add_comm (ps : Multiset Nat)]
    · rw [Dict.get?_erase, Dict.get?_erase]
      split
      · simp
      · exact h.keys x
    · by_cases hx : x = sid
      · subst hx
        simp [share, length, pagesFor, Nat.div_eq_of_lt (Nat.sub_lt h.positive Nat.one_pos)]
      · have hsize := h.size x
        rw [(hother x hx).1, hsize]
        exact congrArg _ (hother x hx).2.symm
    · by_cases hx : x = sid
      · subst hx
        simp [length]
      · exact le_of_eq_of_le (hother x hx).2 (h.bounded x)

end QuantizedPagePool

end SparseEngine
