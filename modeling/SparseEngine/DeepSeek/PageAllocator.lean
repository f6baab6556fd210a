import SparseEngine.Lib.Dict
import SparseEngine.Lib.Py

/-! `PhysicalPageAllocator`: one free list and one reference count for each page, shared by every
tensor of a cache family. -/

namespace SparseEngine

open List Function Dict

/-- `PhysicalPageAllocator`. -/
structure PhysicalPageAllocator where
  numPages : Nat
  reservedPages : Nat
  references : Nat → Nat
  free : List Nat
  ownershipEpoch : Nat := 0

namespace PhysicalPageAllocator

open PyM

abbrev AllocM := PyM PhysicalPageAllocator

def create (numPages reservedPages : Nat) : PhysicalPageAllocator where
  numPages := numPages
  reservedPages := reservedPages
  references := fun _ => 0
  free := (range (numPages - reservedPages)).map (reservedPages + ·)

def numFreePages (a : PhysicalPageAllocator) : Nat := a.free.length

def allocatePages (count : Nat) : AllocM (List Nat) := do
  let a ← PyM.get
  raiseIf (a.numFreePages < count) (.memoryError "Physical cache needs more pages than it has")
  let pages := a.free.take count
  PyM.modify fun a =>
    { a with
      free := a.free.drop count
      references := fun page => if page ∈ pages then 1 else a.references page
      ownershipEpoch := if pages = [] then a.ownershipEpoch else a.ownershipEpoch + 1 }
  return pages

/-- The checks of `_counts` for one page. -/
def checkPage (page : Nat) : AllocM Unit := do
  let a ← PyM.get
  raiseIf (¬ (a.reservedPages ≤ page ∧ page < a.numPages))
    (.valueError "Invalid or reserved physical page")
  raiseIf (a.references page = 0) (.valueError "Physical page is not allocated")

/-- `_counts`. A page that occurs again passes the checks again. -/
def counts (pages : List Nat) : AllocM (Dict Nat Nat) := do
  forEach checkPage pages
  return counter pages

def referenceCount (page : Nat) : AllocM Nat := do
  let _ ← counts [page]
  return (← PyM.get).references page

def bumpEpoch (counts : Dict Nat Nat) (a : PhysicalPageAllocator) : PhysicalPageAllocator :=
  { a with ownershipEpoch := if counts.entries = [] then a.ownershipEpoch else a.ownershipEpoch + 1 }

def retainEntry (a : PhysicalPageAllocator) (entry : Nat × Nat) : PhysicalPageAllocator :=
  { a with references := update a.references entry.1 (a.references entry.1 + entry.2) }

def retainPages (pages : List Nat) : AllocM Unit := do
  let counts ← counts pages
  PyM.modify fun a => bumpEpoch counts (counts.entries.foldl retainEntry a)

def releaseEntry (a : PhysicalPageAllocator) (entry : Nat × Nat) : PhysicalPageAllocator :=
  let left := a.references entry.1 - entry.2
  { a with
    references := update a.references entry.1 left
    free := if left = 0 then entry.1 :: a.free else a.free }

def releasePages (pages : List Nat) : AllocM Unit := do
  let counts ← counts pages
  let a ← PyM.get
  raiseIf (counts.entries.any fun entry => decide (a.references entry.1 < entry.2))
    (.valueError "Physical page release exceeds owned references")
  PyM.modify fun a => bumpEpoch counts (counts.entries.foldl releaseEntry a)

/-- Each page has `held page` holders. -/
structure Holds (held : Nat → Nat) (a : PhysicalPageAllocator) : Prop where
  counts : ∀ page, a.references page = held page
  free : ∀ page, page ∈ a.free ↔ a.reservedPages ≤ page ∧ page < a.numPages ∧ held page = 0
  nodup : a.free.Nodup
  inside : ∀ page, held page ≠ 0 → a.reservedPages ≤ page ∧ page < a.numPages

section

variable {held : Nat → Nat} {a : PhysicalPageAllocator} {pages : List Nat}

theorem holds_create (numPages reservedPages : Nat) :
    Holds (fun _ => 0) (create numPages reservedPages) where
  counts := fun _ => rfl
  free := by
    intro page
    simp only [create, mem_map, mem_range, and_true]
    constructor
    · rintro ⟨i, hi, rfl⟩
      omega
    · rintro ⟨hle, hlt⟩
      exact ⟨page - reservedPages, by omega, by omega⟩
  nodup := nodup_range.map fun _ _ h => Nat.add_left_cancel h
  inside := fun _ h => absurd rfl h

theorem Holds.congr {held' : Nat → Nat} (h : Holds held a) (heq : ∀ page, held' page = held page) :
    Holds held' a := by
  have hfun : held' = held := funext heq
  rw [hfun]
  exact h

theorem Holds.checkPage (h : Holds held a) {page : Nat} (hheld : held page ≠ 0) :
    checkPage page a = (.ok (), a) := by
  have hinside := h.inside page hheld
  have hcount : a.references page ≠ 0 := h.counts page ▸ hheld
  simp [PhysicalPageAllocator.checkPage, bind_run, raiseIf, hinside, hcount]

theorem Holds.forEach_checkPage (h : Holds held a) :
    ∀ {pages : List Nat}, (∀ page ∈ pages, held page ≠ 0) →
      forEach PhysicalPageAllocator.checkPage pages a = (.ok (), a)
  | [], _ => rfl
  | page :: pages, hheld => by
    rw [forEach, bind_ok (h.checkPage (hheld page mem_cons_self))]
    exact h.forEach_checkPage fun p hp => hheld p (mem_cons_of_mem page hp)

theorem Holds.run_counts (h : Holds held a) (hheld : ∀ page ∈ pages, held page ≠ 0) :
    PhysicalPageAllocator.counts pages a = (.ok (counter pages), a) := by
  rw [PhysicalPageAllocator.counts, bind_ok (h.forEach_checkPage hheld)]
  rfl

theorem Holds.run_referenceCount (h : Holds held a) {page : Nat} (hheld : held page ≠ 0) :
    referenceCount page a = (.ok (held page), a) := by
  have hpages : ∀ p ∈ [page], held p ≠ 0 := fun p hp => mem_singleton.mp hp ▸ hheld
  rw [referenceCount, bind_ok (h.run_counts hpages), ← h.counts]
  rfl

/-! ### Allocating -/

structure Allocated (held : Nat → Nat) (a : PhysicalPageAllocator) (count : Nat) (pages : List Nat) :
    Prop where
  length : pages.length = count
  nodup : pages.Nodup
  unheld : ∀ page ∈ pages, held page = 0
  inside : ∀ page ∈ pages, a.reservedPages ≤ page ∧ page < a.numPages

theorem Holds.allocatePages (h : Holds held a) (count : Nat) :
    wp (allocatePages count)
      (fun pages a' => Allocated held a count pages ∧ a'.numPages = a.numPages ∧
        a'.reservedPages = a.reservedPages ∧ a'.free = a.free.drop count ∧
        Holds (fun page => held page + pages.count page) a')
      (fun _ a' => a' = a ∧ a.numFreePages < count) a := by
  simp only [PhysicalPageAllocator.allocatePages, wp_bind, wp_get, wp_raiseIf, wp_modify, wp_pure]
  refine ⟨fun hlt => ⟨trivial, hlt⟩, fun hle => ?_⟩
  have hnodup : (a.free.take count ++ a.free.drop count).Nodup := by
    rw [take_append_drop]
    exact h.nodup
  have hfree : ∀ page ∈ a.free.take count,
      a.reservedPages ≤ page ∧ page < a.numPages ∧ held page = 0 :=
    fun page hp => (h.free page).mp (mem_of_mem_take hp)
  have hpages : Allocated held a count (a.free.take count) := by
    refine ⟨?_, (nodup_append.mp hnodup).1, fun p hp => (hfree p hp).2.2,
      fun p hp => ⟨(hfree p hp).1, (hfree p hp).2.1⟩⟩
    rw [length_take, min_eq_left]
    exact not_lt.mp hle
  refine ⟨hpages, trivial, trivial, trivial, ⟨fun page => ?_, fun page => ?_,
    (nodup_append.mp hnodup).2.1, fun page hne => ?_⟩⟩
  · dsimp only
    split
    · next hp => rw [hpages.unheld page hp, count_eq_one_of_mem hpages.nodup hp]
    · next hp => rw [count_eq_zero.mpr hp, h.counts, Nat.add_zero]
  · dsimp only
    have hmem : page ∈ a.free ↔ page ∈ a.free.take count ∨ page ∈ a.free.drop count := by
      rw [← mem_append, take_append_drop]
    constructor
    · intro hp
      obtain ⟨hlo, hhi, hzero⟩ := (h.free page).mp (hmem.mpr (.inr hp))
      have hnot : page ∉ a.free.take count :=
        fun htake => (nodup_append.mp hnodup).2.2 page htake page hp rfl
      exact ⟨hlo, hhi, by rw [hzero, count_eq_zero.mpr hnot]⟩
    · rintro ⟨hlo, hhi, hzero⟩
      obtain ⟨hheld, hcount⟩ := Nat.add_eq_zero_iff.mp hzero
      exact (hmem.mp ((h.free page).mpr ⟨hlo, hhi, hheld⟩)).resolve_left
        (count_eq_zero.mp hcount)
  · by_cases hp : page ∈ a.free.take count
    · exact hpages.inside page hp
    · rw [count_eq_zero.mpr hp] at hne
      exact h.inside page hne

/-! ### Retaining -/

theorem foldl_retainEntry : ∀ (entries : List (Nat × Nat)) (a : PhysicalPageAllocator),
    (entries.map Prod.fst).Nodup →
    entries.foldl retainEntry a =
      { a with references := fun page =>
          a.references page + (lookupEntry page entries).getD 0 }
  | [], _, _ => rfl
  | (page, n) :: entries, a, hnodup => by
    rw [map_cons, nodup_cons] at hnodup
    rw [foldl_cons, foldl_retainEntry entries _ hnodup.2]
    unfold retainEntry
    congr 1
    funext p
    by_cases hp : p = page
    · subst hp
      have hnone : lookupEntry p entries = none := by
        rw [← Option.not_isSome_iff_eq_none, lookupEntry_isSome]
        exact hnodup.1
      simp [lookupEntry, hnone]
    · simp [lookupEntry, hp, Ne.symm hp]

theorem Holds.retainPages (h : Holds held a) (hheld : ∀ page ∈ pages, held page ≠ 0) :
    wp (retainPages pages)
      (fun _ a' => a'.numPages = a.numPages ∧ a'.reservedPages = a.reservedPages ∧
        a'.free = a.free ∧ Holds (fun page => held page + pages.count page) a')
      (fun _ _ => False) a := by
  rw [PhysicalPageAllocator.retainPages, wp_bind, wp_of_ok (h.run_counts hheld), wp_modify,
    foldl_retainEntry _ _ (counter pages).nodup]
  have hcounts : ∀ page, (lookupEntry page (counter pages).entries).getD 0 =
      pages.count page := getD_get?_counter pages
  refine ⟨rfl, rfl, rfl, fun page => ?_, fun page => ?_, h.nodup, fun page hne => ?_⟩
  · show a.references page + _ = _
    rw [h.counts, hcounts]
  · refine (h.free page).trans (and_congr_right fun _ => and_congr_right fun _ => ?_)
    by_cases hp : page ∈ pages
    · have hpos := count_pos_iff.mpr hp
      exact ⟨fun hzero => absurd hzero (hheld page hp), fun hzero => by omega⟩
    · rw [count_eq_zero.mpr hp, Nat.add_zero]
  · by_cases hp : page ∈ pages
    · exact h.inside page (hheld page hp)
    · rw [count_eq_zero.mpr hp] at hne
      exact h.inside page hne

/-! ### Releasing -/

def freed (a : PhysicalPageAllocator) (entries : List (Nat × Nat)) : List Nat :=
  (entries.filter fun entry => decide (a.references entry.1 - entry.2 = 0)).map Prod.fst

theorem foldl_releaseEntry : ∀ (entries : List (Nat × Nat)) (a : PhysicalPageAllocator),
    (entries.map Prod.fst).Nodup →
    entries.foldl releaseEntry a =
      { a with
        references := fun page => a.references page - (lookupEntry page entries).getD 0
        free := (freed a entries).reverse ++ a.free }
  | [], _, _ => rfl
  | (page, n) :: entries, a, hnodup => by
    rw [map_cons, nodup_cons] at hnodup
    rw [foldl_cons, foldl_releaseEntry entries _ hnodup.2]
    have hrest : freed (releaseEntry a (page, n)) entries = freed a entries := by
      unfold freed
      refine congrArg _ (filter_congr fun entry hentry => ?_)
      have hkey : entry.1 ∈ entries.map Prod.fst := mem_map_of_mem hentry
      have hne : entry.1 ≠ page := fun heq => hnodup.1 (heq ▸ hkey)
      have hsame : (releaseEntry a (page, n)).references entry.1 = a.references entry.1 :=
        update_of_ne hne _ _
      rw [hsame]
    have hfreed : freed a ((page, n) :: entries) =
        (if a.references page - n = 0 then [page] else []) ++ freed a entries := by
      unfold freed
      rw [filter_cons]
      by_cases hzero : a.references page - n = 0
      · simp [hzero]
      · simp [hzero]
    rw [hrest, hfreed]
    unfold releaseEntry
    congr 1
    · funext p
      by_cases hp : p = page
      · subst hp
        have hnone : lookupEntry p entries = none := by
          rw [← Option.not_isSome_iff_eq_none, lookupEntry_isSome]
          exact hnodup.1
        simp [lookupEntry, hnone]
      · simp [lookupEntry, hp, Ne.symm hp]
    · by_cases hzero : a.references page - n = 0
      · simp [hzero]
      · simp [hzero]

theorem nodup_freed {entries : List (Nat × Nat)} (h : (entries.map Prod.fst).Nodup) :
    (freed a entries).Nodup := (filter_sublist.map _).nodup h

theorem Holds.mem_freed (h : Holds held a) (hle : ∀ page, pages.count page ≤ held page) {page : Nat} :
    page ∈ freed a (counter pages).entries ↔ page ∈ pages ∧ held page = pages.count page := by
  unfold freed
  rw [mem_map]
  constructor
  · rintro ⟨⟨p, n⟩, hmem, rfl⟩
    rw [mem_filter, decide_eq_true_eq] at hmem
    have hn := mem_entries_counter hmem.1
    have hzero : a.references p - n = 0 := hmem.2
    have hkey : p ∈ (counter pages).keys := mem_map_of_mem (f := Prod.fst) hmem.1
    rw [h.counts, hn] at hzero
    exact ⟨(mem_keys_counter pages p).mp hkey,
      le_antisymm (Nat.sub_eq_zero_iff_le.mp hzero) (hle p)⟩
  · rintro ⟨hp, hcount⟩
    obtain ⟨⟨p, n⟩, hmem, rfl⟩ := mem_map.mp ((mem_keys_counter pages page).mpr hp)
    refine ⟨(p, n), mem_filter.mpr ⟨hmem, ?_⟩, rfl⟩
    rw [decide_eq_true_eq]
    show a.references p - n = 0
    rw [h.counts, mem_entries_counter hmem, hcount, Nat.sub_self]

theorem Holds.releasePages (h : Holds held a) (hle : ∀ page, pages.count page ≤ held page) :
    wp (releasePages pages)
      (fun _ a' => a'.numPages = a.numPages ∧ a'.reservedPages = a.reservedPages ∧
        (∀ page, page ∈ a'.free ↔ page ∈ a.free ∨ page ∈ pages ∧ held page = pages.count page) ∧
        Holds (fun page => held page - pages.count page) a')
      (fun _ _ => False) a := by
  have hheld : ∀ page ∈ pages, held page ≠ 0 := by
    intro page hp hzero
    have hcount := hle page
    rw [hzero, Nat.le_zero] at hcount
    exact count_eq_zero.mp hcount hp
  have hcounts : ∀ page, (lookupEntry page (counter pages).entries).getD 0 =
      pages.count page := getD_get?_counter pages
  have hmem : ∀ page,
      page ∈ (freed a (counter pages).entries).reverse ++ a.free ↔
        page ∈ a.free ∨ page ∈ pages ∧ held page = pages.count page := by
    intro page
    rw [mem_append, mem_reverse, h.mem_freed hle, or_comm]
  rw [PhysicalPageAllocator.releasePages, wp_bind, wp_of_ok (h.run_counts hheld), wp_bind, wp_get,
    wp_bind, wp_raiseIf]
  refine ⟨fun hany => ?_, fun _ => ?_⟩
  · obtain ⟨⟨p, n⟩, hentry, hlt⟩ := any_eq_true.mp hany
    rw [decide_eq_true_eq] at hlt
    have hlt' : a.references p < n := hlt
    rw [h.counts, mem_entries_counter hentry] at hlt'
    exact absurd (hle p) (not_le.mpr hlt')
  · rw [wp_modify, foldl_releaseEntry _ _ (counter pages).nodup]
    refine ⟨rfl, rfl, hmem, fun page => ?_, fun page => ?_, ?_, fun page hne => ?_⟩
    · show a.references page - _ = _
      rw [h.counts, hcounts]
    · refine (hmem page).trans ?_
      rw [h.free page]
      constructor
      · rintro (⟨hlo, hhi, hzero⟩ | ⟨hp, heq⟩)
        · exact ⟨hlo, hhi, by rw [hzero, Nat.zero_sub]⟩
        · obtain ⟨hlo, hhi⟩ := h.inside page (hheld page hp)
          exact ⟨hlo, hhi, by rw [heq, Nat.sub_self]⟩
      · rintro ⟨hlo, hhi, hzero⟩
        have heq := le_antisymm (Nat.sub_eq_zero_iff_le.mp hzero) (hle page)
        by_cases hp : page ∈ pages
        · exact .inr ⟨hp, heq⟩
        · rw [count_eq_zero.mpr hp] at heq
          exact .inl ⟨hlo, hhi, heq⟩
    · refine nodup_append.mpr
        ⟨nodup_reverse.mpr (nodup_freed (counter pages).nodup), h.nodup, ?_⟩
      rintro page hfreed _ hfree rfl
      rw [mem_reverse, h.mem_freed hle] at hfreed
      exact hheld page hfreed.1 ((h.free page).mp hfree).2.2
    · exact h.inside page fun hzero => hne (by rw [hzero, Nat.zero_sub])

end

end PhysicalPageAllocator

end SparseEngine
