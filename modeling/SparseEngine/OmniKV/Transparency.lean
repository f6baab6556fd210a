import SparseEngine.OmniKV.Planning

/-! Runs of decode steps with rows that are invalidated and reused. -/

namespace SparseEngine.OmniKV

open Lanes Function Finset

variable {V : Type}

structure Setup (V : Type) where
  sizes : Sizes
  recent : Bool
  zero : V

/-- The metadata of the group. -/
structure World (V : Type) where
  metadata : Metadata
  pools : Nat → Nat → V
  host : Nat → Nat → V
  filled : Nat → Finset Nat := fun _ => ∅

inductive Event (V : Type)
  /-- A decode step, with the current KV of every layer and request. -/
  | decode (size : Nat) (batch : Nat → Request) (current : Nat → Nat → V)
  /-- The sequence of a row is freed. -/
  | invalidate (owner : Nat)
  /-- A prefill chunk or a promoted prefix writes a slot. -/
  | write (slot : Nat) (values : Nat → V)
  /-- A written slot becomes one of the sequence of a row. -/
  | fill (owner slot : Nat)

variable (setup : Setup V)

/-- What a decode step presents: active requests have a row and a new slot for the current token. -/
structure Presents (size : Nat) (batch : Nat → Request) (w : World V) : Prop where
  apart : Apart size batch
  owner : ∀ b < size, 0 ≤ (batch b).write → (batch b).owner < setup.sizes.rows
  length : ∀ b < size, 0 ≤ (batch b).write → (batch b).length ≤ setup.sizes.cap
  nodup : ∀ b < size, 0 ≤ (batch b).write → ∀ i < (batch b).length, ∀ j < (batch b).length,
    (batch b).selected i = (batch b).selected j → i = j
  selected : ∀ b < size, 0 ≤ (batch b).write → ∀ i < (batch b).length,
    (batch b).selected i ∈ w.filled (batch b).owner ∨ ((batch b).selected i : Int) = (batch b).write
  fresh : ∀ b < size, 0 ≤ (batch b).write → ∀ o, (batch b).write.toNat ∉ w.filled o
  writes : ∀ b < size, ∀ b' < size, 0 ≤ (batch b).write → (batch b).write = (batch b').write → b = b'
  recent : setup.recent = true → ∀ b < size, 0 ≤ (batch b).write →
    ∃ last, (batch b).length = last + 1 ∧ ((batch b).selected last : Int) = (batch b).write

namespace World

/-- `store_rows`. -/
def storeRows (size : Nat) (batch : Nat → Request) (current : Nat → V) (host : Nat → V) : Nat → V :=
  scatter ((List.range size).filterMap fun b =>
    if 0 ≤ (batch b).write then some ((batch b).write.toNat, current b) else none) host

def decode (size : Nat) (batch : Nat → Request) (current : Nat → Nat → V) (w : World V) : World V :=
  let metadata := planLru setup.sizes size batch w.metadata
  { metadata := metadata
    pools := fun layer =>
      appendCached setup.sizes setup.recent size batch metadata.requests (current layer)
        (gatherCached setup.sizes setup.recent size batch metadata.requests (w.host layer)
          (w.pools layer))
    host := fun layer => storeRows size batch (current layer) (w.host layer)
    filled := fun o => w.filled o ∪
      ((Finset.range size).filter fun b => 0 ≤ (batch b).write ∧ (batch b).owner = o).image
        fun b => (batch b).write.toNat }

def plain (batch : Nat → Request) (current : Nat → Nat → V)
    (staging : Nat → Nat → V) (layer : Nat) (w : World V) : Nat → Nat → V :=
  appendPlain setup.sizes setup.recent batch (current layer)
    (gatherPlain setup.sizes setup.zero setup.recent batch (w.host layer) staging)

end World

def Event.Allowed (w : World V) : Event V → Prop
  | .decode size batch _ => Presents setup size batch w
  | .invalidate _ => True
  | .write slot _ => ∀ o, slot ∉ w.filled o
  | .fill _ _ => True

def Event.apply (w : World V) : Event V → World V
  | .decode size batch current => w.decode setup size batch current
  | .invalidate owner =>
    { w with
      metadata := w.metadata.invalidate owner
      filled := update w.filled owner ∅ }
  | .write slot values => { w with host := fun layer => update (w.host layer) slot (values layer) }
  | .fill owner slot =>
    { w with filled := update w.filled owner (insert slot (w.filled owner)) }

def Next (w w' : World V) : Prop := ∃ event : Event V, event.Allowed setup w ∧ event.apply setup w = w'

structure Initial (w : World V) : Prop where
  rows : ∀ o, w.metadata.rows o = {}
  padding : ∀ layer, w.pools layer (setup.sizes.rows * setup.sizes.cache) = setup.zero
  filled : ∀ o, w.filled o = ∅

def Reachable (w : World V) : Prop :=
  ∃ start, Initial setup start ∧ Relation.ReflTransGen (Next setup) start w

theorem cell_inj {cache o o' p p' : Nat} (hp : p < cache) (hp' : p' < cache)
    (same : o * cache + p = o' * cache + p') : o = o' ∧ p = p' := by
  have cacheOf : ∀ {o p}, p < cache → (o * cache + p) / cache = o := by
    intro o p h
    rw [Nat.mul_comm, Nat.mul_add_div (Nat.zero_lt_of_lt h), Nat.div_eq_of_lt h, Nat.add_zero]
  have owner : o = o' := by rw [← cacheOf (o := o) hp, same, cacheOf hp']
  subst owner
  exact ⟨rfl, Nat.add_left_cancel same⟩

theorem cell_ne_padding {cache rows o p : Nat} (ho : o < rows) (hp : p < cache) :
    o * cache + p ≠ rows * cache := by
  have : (o + 1) * cache ≤ rows * cache := Nat.mul_le_mul_right _ ho
  rw [Nat.succ_mul] at this
  omega

/-- A cached slot holds what the host holds. -/
structure Coherent (w : World V) : Prop where
  sound : ∀ o, Sound setup.sizes (w.metadata.rows o)
  cached : ∀ o slot p, (w.metadata.rows o).directory slot = ((p : Nat) : Int) →
    slot ∈ w.filled o ∧
      ∀ layer, w.pools layer (o * setup.sizes.cache + p) = w.host layer slot
  padding : ∀ layer, w.pools layer (setup.sizes.rows * setup.sizes.cache) = setup.zero

variable {setup} {size : Nat} {batch : Nat → Request} {w : World V} {b : Nat}
  {current : Nat → Nat → V}

theorem foldl_last_cases (l : List Nat) :
    l = [] ∨ ∃ j ∈ l, l.foldl (fun _ i => i + 1) 0 = j + 1 := by
  induction l using List.reverseRecOn with
  | nil => exact .inl rfl
  | append_singleton l j _ => exact .inr ⟨j, by simp, by simp⟩

theorem append_position {sizes : Sizes} {recent : Bool} {r : Request}
    (appends : Appends sizes recent r) : ∃ i < r.length, i + 1 = appendLength sizes recent r := by
  have hpos := appends.2.1
  refine ⟨appendLength sizes recent r - 1, ?_, by omega⟩
  cases recent with
  | true =>
    have length : appendLength sizes true r = r.length := rfl
    omega
  | false =>
    unfold appendLength at hpos ⊢
    simp only [Bool.false_eq_true, ↓reduceIte] at hpos ⊢
    rcases foldl_last_cases ((List.range sizes.cap).filter fun i =>
      decide (i < r.length ∧ (r.selected i : Int) = r.write)) with
      none | ⟨j, hj, last⟩
    · rw [none] at hpos
      exact absurd hpos (Nat.lt_irrefl 0)
    · rw [last]
      simp only [List.mem_filter, decide_eq_true_eq] at hj
      exact hj.2.1

namespace Presents

variable (presents : Presents setup size batch w)

include presents

theorem valid (hb : b < size) (active : 0 ≤ (batch b).write) (i : Nat) :
    Valid setup.sizes (batch b) i ↔ i < (batch b).length :=
  ⟨And.left, fun h => ⟨h, h.trans_le (presents.length b hb active)⟩⟩

theorem nodupValid (hb : b < size) (active : 0 ≤ (batch b).write) (i j : Nat)
    (hi : Valid setup.sizes (batch b) i) (hj : Valid setup.sizes (batch b) j)
    (same : (batch b).selected i = (batch b).selected j) : i = j :=
  presents.nodup b hb active i hi.1 j hj.1 same

theorem appends_iff (hb : b < size) (active : 0 ≤ (batch b).write) {i : Nat}
    (hi : i < (batch b).length) :
    Appends setup.sizes setup.recent (batch b) ∧
        i + 1 = appendLength setup.sizes setup.recent (batch b) ↔
      ((batch b).selected i : Int) = (batch b).write := by
  have hcap := presents.length b hb active
  have unique : ∀ j < (batch b).length, ((batch b).selected j : Int) = (batch b).write →
      ((batch b).selected i : Int) = (batch b).write → j = i := by
    intro j hj hjw hiw
    exact presents.nodup b hb active j hj i hi (by omega)
  unfold Appends
  cases hrecent : setup.recent with
  | true =>
    obtain ⟨last, hlength, hlast⟩ := presents.recent hrecent b hb active
    have length : appendLength setup.sizes true (batch b) = (batch b).length := rfl
    rw [length]
    constructor
    · rintro ⟨-, same⟩
      have : i = last := by omega
      exact this ▸ hlast
    · intro hiw
      have := unique last (by omega) hlast hiw
      exact ⟨⟨active, by omega, by omega⟩, by omega⟩
  | false =>
    have length : appendLength setup.sizes false (batch b) =
        ((List.range setup.sizes.cap).filter fun i => decide (i < (batch b).length ∧
          ((batch b).selected i : Int) = (batch b).write)).foldl (fun _ i => i + 1) 0 := rfl
    rw [length]
    set lanes := (List.range setup.sizes.cap).filter fun i => decide (i < (batch b).length ∧
      ((batch b).selected i : Int) = (batch b).write)
    have mem : ∀ j, j ∈ lanes ↔ j < setup.sizes.cap ∧ j < (batch b).length ∧
        ((batch b).selected j : Int) = (batch b).write := by
      intro j
      simp [lanes]
    rcases foldl_last_cases lanes with none | ⟨j, hj, last⟩
    · rw [none]
      refine iff_of_false (fun h => absurd h.1.2.1 (Nat.lt_irrefl 0)) fun hiw => ?_
      have := (mem i).mpr ⟨hi.trans_le hcap, hi, hiw⟩
      rw [none] at this
      cases this
    · obtain ⟨hjcap, hjlength, hjw⟩ := (mem j).mp hj
      rw [last]
      constructor
      · rintro ⟨-, same⟩
        have : i = j := by omega
        exact this ▸ hjw
      · intro hiw
        have := unique j hjlength hjw hiw
        exact ⟨⟨active, by omega, by omega⟩, by omega⟩

theorem planned (coherent : Coherent setup w) (hb : b < size) (active : 0 ≤ (batch b).write) :
    Planned setup.sizes (batch b) (w.metadata.rows (batch b).owner) (w.metadata.requests b)
      ((planLru setup.sizes size batch w.metadata).rows (batch b).owner)
      ((planLru setup.sizes size batch w.metadata).requests b) := by
  have alone := planLru_active setup.sizes w.metadata presents.apart hb active
  rw [alone.1, alone.2]
  exact OmniKV.planned (coherent.sound _) active (presents.nodupValid hb active)

theorem fromHost (hb : b < size) (active : 0 ≤ (batch b).write) {i : Nat}
    (hi : i < (batch b).length) (hcurrent : ((batch b).selected i : Int) ≠ (batch b).write) :
    FromHost setup.sizes setup.recent (batch b) i := by
  refine ⟨?_, ((presents.valid hb active i).mpr hi).2, active, hcurrent⟩
  cases hrecent : setup.recent with
  | false => exact hi
  | true =>
    -- The last selected token is the current one.
    obtain ⟨last, hlength, hlast⟩ := presents.recent hrecent b hb active
    have : i ≠ last := fun same => hcurrent (same ▸ hlast)
    simp only [Bool.toNat_true]
    omega

section

variable (coherent : Coherent setup w)

include coherent

theorem mem_gather {write : Nat × V} {host : Nat → V} :
    (write ∈ (List.range size).flatMap fun b => missWrites setup.sizes setup.recent (batch b)
        ((planLru setup.sizes size batch w.metadata).requests b) host) ↔
      ∃ b < size, 0 ≤ (batch b).write ∧ ∃ i,
        Missed setup.sizes (batch b) (w.metadata.rows (batch b).owner) i ∧
        FromHost setup.sizes setup.recent (batch b) i ∧
        write = ((batch b).owner * setup.sizes.cache +
          victimOf setup.sizes (batch b) (w.metadata.rows (batch b).owner) (w.metadata.requests b) i,
          host ((batch b).selected i)) := by
  simp only [List.mem_flatMap, List.mem_range, missWrites, List.mem_filterMap]
  constructor
  · rintro ⟨b, hb, item, hitem, hwrite⟩
    by_cases active : 0 ≤ (batch b).write
    · have plan := presents.planned coherent hb active
      have hcount : item < Nat.count (Missed setup.sizes (batch b)
          (w.metadata.rows (batch b).owner)) setup.sizes.cap := plan.missCount ▸ hitem
      obtain ⟨i, -, missed, rfl⟩ := exists_rank hcount
      rw [plan.victims i missed] at hwrite
      split at hwrite
      · next h =>
        refine ⟨b, hb, active, i, missed, h.1, ?_⟩
        rw [← Option.some.inj hwrite, plan.plan_missed i missed]
        congr 1
        omega
      · cases hwrite
    · rw [(planLru_padded w.metadata presents.apart hb active).1] at hitem
      exact absurd hitem (Nat.not_lt_zero _)
  · rintro ⟨b, hb, active, i, missed, fromHost, rfl⟩
    have plan := presents.planned coherent hb active
    have entry := plan.plan_missed i missed
    refine ⟨b, hb, rank (Missed setup.sizes (batch b) (w.metadata.rows (batch b).owner)) i, ?_, ?_⟩
    · rw [plan.missCount]
      exact rank_lt missed missed.1.2
    · rw [plan.victims i missed, if_pos ⟨fromHost, by omega⟩, entry]
      congr 2
      omega

theorem mem_append {write : Nat × V} {value : Nat → V} :
    (write ∈ (List.range size).filterMap fun b =>
        if Appends setup.sizes setup.recent (batch b) then
          some (cellOf (((planLru setup.sizes size batch w.metadata).requests b).plan
            (appendLength setup.sizes setup.recent (batch b) - 1)), value b)
        else none) ↔
      ∃ b < size, 0 ≤ (batch b).write ∧ ∃ i < (batch b).length, ∃ p < setup.sizes.cache,
        ((batch b).selected i : Int) = (batch b).write ∧
        ((planLru setup.sizes size batch w.metadata).rows (batch b).owner).directory
          ((batch b).selected i) = (p : Int) ∧
        write = ((batch b).owner * setup.sizes.cache + p, value b) := by
  simp only [List.mem_filterMap, List.mem_range]
  constructor
  · rintro ⟨b, hb, hwrite⟩
    split at hwrite
    · next appends =>
      obtain ⟨i, hi, position⟩ := append_position appends
      have active := appends.1
      have plan := presents.planned coherent hb active
      have valid := (presents.valid hb active i).mpr hi
      obtain ⟨p, hp, hdir⟩ := plan.knows (coherent.sound _) active
        (presents.nodupValid hb active) valid
      refine ⟨b, hb, active, i, hi, p, hp, (presents.appends_iff hb active hi).mp ⟨appends, position⟩,
        hdir, ?_⟩
      rw [← Option.some.inj hwrite, ← plan.cell (presents.nodupValid hb active) valid hdir, ← position]
      rfl
    · cases hwrite
  · rintro ⟨b, hb, active, i, hi, p, hp, current, hdir, rfl⟩
    obtain ⟨appends, position⟩ := (presents.appends_iff hb active hi).mpr current
    have valid := (presents.valid hb active i).mpr hi
    have plan := presents.planned coherent hb active
    refine ⟨b, hb, ?_⟩
    rw [if_pos appends, ← position, ← plan.cell (presents.nodupValid hb active) valid hdir]
    rfl

theorem slot_unique (hb : b < size) (active : 0 ≤ (batch b).write) {slot slot' p : Nat}
    (h : ((planLru setup.sizes size batch w.metadata).rows (batch b).owner).directory slot = (p : Int))
    (h' : ((planLru setup.sizes size batch w.metadata).rows (batch b).owner).directory slot' =
      (p : Int)) : slot = slot' := by
  have sound := (presents.planned coherent hb active).sound (coherent.sound _) active
  rcases sound.directory slot with none | ⟨q, -, hq, hkey⟩ <;>
    rcases sound.directory slot' with none' | ⟨q', -, hq', hkey'⟩ <;> try omega
  have same : q = q' := by omega
  subst same
  omega

theorem pool_other {layer o p : Nat} (hp : p < setup.sizes.cache)
    (other : ∀ b < size, 0 ≤ (batch b).write → (batch b).owner = o → ∀ i < (batch b).length,
      ((planLru setup.sizes size batch w.metadata).rows o).directory ((batch b).selected i) ≠
        (p : Int)) :
    (w.decode setup size batch current).pools layer (o * setup.sizes.cache + p) =
      w.pools layer (o * setup.sizes.cache + p) := by
  refine (scatter_of_forall_ne ?_).trans (scatter_of_forall_ne ?_)
  · intro write hwrite same
    obtain ⟨b, hb, active, i, hi, q, hq, -, hdir, rfl⟩ := (presents.mem_append coherent).mp hwrite
    obtain ⟨rfl, rfl⟩ := cell_inj hq hp same
    exact other b hb active rfl i hi hdir
  · intro write hwrite same
    obtain ⟨b, hb, active, i, missed, -, rfl⟩ := (presents.mem_gather coherent).mp hwrite
    have victim := (victimOf_spec (w.metadata.requests b) (coherent.sound _) active missed).1
    obtain ⟨rfl, rfl⟩ := cell_inj victim hp same
    exact other b hb active rfl i missed.1.1 ((presents.planned coherent hb active).directory_missed
      i missed)

theorem pool_selected {layer i p : Nat} (hb : b < size) (active : 0 ≤ (batch b).write)
    (hi : i < (batch b).length)
    (hdir : ((planLru setup.sizes size batch w.metadata).rows (batch b).owner).directory
      ((batch b).selected i) = (p : Int)) (hp : p < setup.sizes.cache) :
    (w.decode setup size batch current).pools layer ((batch b).owner * setup.sizes.cache + p) =
      if ((batch b).selected i : Int) = (batch b).write then current layer b
      else w.host layer ((batch b).selected i) := by
  have valid := (presents.valid hb active i).mpr hi
  have plan := presents.planned coherent hb active
  split
  · next hcurrent =>
    refine scatter_of_mem (x := ((batch b).owner * setup.sizes.cache + p, current layer b))
      ((presents.mem_append coherent).mpr ⟨b, hb, active, i, hi, p, hp, hcurrent, hdir, rfl⟩) ?_
    intro other hother same
    obtain ⟨b', hb', active', -, -, q, hq, -, -, rfl⟩ := (presents.mem_append coherent).mp hother
    obtain ⟨owner, -⟩ := cell_inj hq hp same
    rw [presents.apart b' hb' b hb active' active owner]
  · next hcurrent =>
    refine (scatter_of_forall_ne ?_).trans ?_
    · intro write hwrite same
      obtain ⟨b', hb', active', j, hj, q, hq, hj', hdir', rfl⟩ :=
        (presents.mem_append coherent).mp hwrite
      obtain ⟨owner, rfl⟩ := cell_inj hq hp same
      obtain rfl := presents.apart b' hb' b hb active' active owner
      exact hcurrent (presents.slot_unique coherent hb active hdir' hdir ▸ hj')
    · by_cases missed : Missed setup.sizes (batch b) (w.metadata.rows (batch b).owner) i
      · have fromHost := presents.fromHost hb active hi hcurrent
        have hvictim := plan.directory_missed i missed
        have cell : p = victimOf setup.sizes (batch b) (w.metadata.rows (batch b).owner)
            (w.metadata.requests b) i := by omega
        refine scatter_of_mem (x := ((batch b).owner * setup.sizes.cache + p,
          w.host layer ((batch b).selected i)))
          ((presents.mem_gather coherent).mpr ⟨b, hb, active, i, missed, fromHost, by rw [cell]⟩) ?_
        intro other hother same
        obtain ⟨b', hb', active', j, missed', -, rfl⟩ := (presents.mem_gather coherent).mp hother
        have victim' := (victimOf_spec (w.metadata.requests b') (coherent.sound _)
          active' missed').1
        obtain ⟨owner, hcell⟩ := cell_inj victim' hp same
        obtain rfl := presents.apart b' hb' b hb active' active owner
        rw [victimOf_injective _ (coherent.sound _) active missed' missed (hcell.trans cell)]
      · have hit : Hit setup.sizes (batch b) (w.metadata.rows (batch b).owner) i := by
          by_contra none
          exact missed ⟨valid, none⟩
        have known : (w.metadata.rows (batch b).owner).directory ((batch b).selected i) = (p : Int) := by
          rcases plan.known hdir with ⟨j, hj, same, -⟩ | ⟨known, -⟩
          · exact absurd hit (presents.nodup b hb active j hj.1.1 i hi same ▸ hj).2
          · exact known
        refine (scatter_of_forall_ne ?_).trans ((coherent.cached _ _ _ known).2 layer)
        intro write hwrite same
        obtain ⟨b', hb', active', j, missed', -, rfl⟩ := (presents.mem_gather coherent).mp hwrite
        have victim' := (victimOf_spec (w.metadata.requests b') (coherent.sound _)
          active' missed').1
        obtain ⟨owner, hcell⟩ := cell_inj victim' hp same
        obtain rfl := presents.apart b' hb' b hb active' active owner
        refine victimOf_ne_hit (w.metadata.requests b') (coherent.sound _) active missed' hit ?_
        omega

end

theorem host_filled {layer slot o : Nat} (filled : slot ∈ w.filled o) :
    (w.decode setup size batch current).host layer slot = w.host layer slot := by
  refine scatter_of_forall_ne ?_
  intro write hwrite same
  obtain ⟨b, hb, hwrite⟩ := List.mem_filterMap.mp hwrite
  split at hwrite
  · next active =>
    cases hwrite
    obtain rfl : (batch b).write.toNat = slot := same
    exact presents.fresh b (List.mem_range.mp hb) active o filled
  · cases hwrite

theorem host_current {layer : Nat} (hb : b < size) (active : 0 ≤ (batch b).write) :
    (w.decode setup size batch current).host layer (batch b).write.toNat = current layer b := by
  refine scatter_of_mem (x := ((batch b).write.toNat, current layer b)) ?_ ?_
  · exact List.mem_filterMap.mpr ⟨b, List.mem_range.mpr hb, by simp [active]⟩
  · intro other hother same
    obtain ⟨b', hb', hother⟩ := List.mem_filterMap.mp hother
    split at hother
    · next active' =>
      cases hother
      have write : (batch b').write = (batch b).write := by
        have : (batch b').write.toNat = (batch b).write.toNat := same
        omega
      rw [presents.writes b' (List.mem_range.mp hb') b hb active' write]
    · cases hother

theorem decode (coherent : Coherent setup w) :
    Coherent setup (w.decode setup size batch current) := by
  have owned : ∀ o, (∃ b < size, 0 ≤ (batch b).write ∧ (batch b).owner = o) ∨
      (planLru setup.sizes size batch w.metadata).rows o = w.metadata.rows o := by
    intro o
    by_cases owner : ∃ b < size, 0 ≤ (batch b).write ∧ (batch b).owner = o
    · exact .inl owner
    · exact .inr (planLru_other w.metadata presents.apart fun b hb active same =>
        owner ⟨b, hb, active, same⟩)
  have sound : ∀ o, Sound setup.sizes ((planLru setup.sizes size batch w.metadata).rows o) := by
    intro o
    rcases owned o with ⟨b, hb, active, rfl⟩ | same
    · exact (presents.planned coherent hb active).sound (coherent.sound _) active
    · rw [same]
      exact coherent.sound o
  refine ⟨sound, ?_, ?_⟩
  · intro o slot p hdir
    replace hdir : ((planLru setup.sizes size batch w.metadata).rows o).directory slot = (p : Int) :=
      hdir
    have hp : p < setup.sizes.cache := by
      rcases (sound o).directory slot with none | ⟨q, hq, hqdir, -⟩ <;> omega
    by_cases selected : ∃ b < size, 0 ≤ (batch b).write ∧ (batch b).owner = o ∧
        ∃ i < (batch b).length, (batch b).selected i = slot
    · obtain ⟨b, hb, active, rfl, i, hi, rfl⟩ := selected
      by_cases hcurrent : ((batch b).selected i : Int) = (batch b).write
      · have slot : (batch b).selected i = (batch b).write.toNat := by omega
        refine ⟨mem_union_right _ (mem_image.mpr ⟨b, ?_, slot.symm⟩), fun layer => ?_⟩
        · exact Finset.mem_filter.mpr ⟨Finset.mem_range.mpr hb, active, rfl⟩
        · rw [presents.pool_selected coherent hb active hi hdir hp, if_pos hcurrent, slot]
          exact (presents.host_current hb active).symm
      · have filled := (presents.selected b hb active i hi).resolve_right hcurrent
        refine ⟨mem_union_left _ filled, fun layer => ?_⟩
        rw [presents.pool_selected coherent hb active hi hdir hp, if_neg hcurrent,
          presents.host_filled filled]
    · -- The entry is an old one, and no selected token is planned on its cell.
      have known : (w.metadata.rows o).directory slot = (p : Int) := by
        rcases owned o with ⟨b, hb, active, rfl⟩ | same
        · rcases (presents.planned coherent hb active).known hdir with ⟨i, hi, same, -⟩ | ⟨known, -⟩
          · exact absurd ⟨b, hb, active, rfl, i, hi.1.1, same⟩ selected
          · exact known
        · rwa [same] at hdir
      obtain ⟨filled, holds⟩ := coherent.cached o slot p known
      refine ⟨mem_union_left _ filled, fun layer => ?_⟩
      rw [presents.host_filled filled, ← holds layer]
      refine presents.pool_other coherent hp ?_
      rintro b hb active rfl i hi hdir'
      exact selected ⟨b, hb, active, rfl, i, hi, presents.slot_unique coherent hb active hdir' hdir⟩
  · intro layer
    refine ((scatter_of_forall_ne ?_).trans (scatter_of_forall_ne ?_)).trans (coherent.padding layer)
    · intro write hwrite same
      obtain ⟨b, hb, active, -, -, q, hq, -, -, rfl⟩ := (presents.mem_append coherent).mp hwrite
      exact cell_ne_padding (presents.owner b hb active) hq same
    · intro write hwrite same
      obtain ⟨b, hb, active, i, missed, -, rfl⟩ := (presents.mem_gather coherent).mp hwrite
      exact cell_ne_padding (presents.owner b hb active)
        (victimOf_spec (w.metadata.requests b) (coherent.sound _) active missed).1 same

end Presents

theorem Initial.coherent (initial : Initial setup w) : Coherent setup w where
  sound o := by
    rw [initial.rows]
    exact Sound.initial _
  cached o slot p h := by
    rw [initial.rows] at h
    exact nomatch h
  padding := initial.padding

theorem Coherent.apply (coherent : Coherent setup w) {event : Event V}
    (allowed : event.Allowed setup w) : Coherent setup (event.apply setup w) := by
  cases event with
  | decode size batch current => exact Presents.decode allowed coherent
  | invalidate owner =>
    refine ⟨fun o => ?_, fun o slot p h => ?_, coherent.padding⟩
    · by_cases same : o = owner
      · subst same
        simpa [Event.apply, Metadata.invalidate] using Sound.initial setup.sizes
      · simpa [Event.apply, Metadata.invalidate, same] using coherent.sound o
    · by_cases same : o = owner
      · subst same
        simp only [Event.apply, Metadata.invalidate, update_self] at h
        omega
      · simp only [Event.apply, Metadata.invalidate, ne_eq, same, not_false_eq_true,
          update_of_ne] at h ⊢
        exact coherent.cached o slot p h
  | write slot values =>
    refine ⟨coherent.sound, fun o slot' p h => ?_, coherent.padding⟩
    obtain ⟨filled, holds⟩ := coherent.cached o slot' p h
    refine ⟨filled, fun layer => (holds layer).trans ?_⟩
    -- The written slot is in no sequence.
    have ne : slot' ≠ slot := fun same => allowed o (same ▸ filled)
    exact (update_of_ne ne _ _).symm
  | fill owner slot =>
    refine ⟨coherent.sound, fun o slot' p h => ?_, coherent.padding⟩
    obtain ⟨filled, holds⟩ := coherent.cached o slot' p h
    refine ⟨?_, holds⟩
    show slot' ∈ update w.filled owner _ o
    rw [update_apply]
    split
    · next same => exact mem_insert_of_mem (same ▸ filled)
    · exact filled

theorem Reachable.coherent (reachable : Reachable setup w) : Coherent setup w := by
  obtain ⟨start, initial, run⟩ := reachable
  induction run with
  | refl => exact initial.coherent
  | tail _ next ih =>
    obtain ⟨event, allowed, rfl⟩ := next
    exact ih.apply allowed

structure Mirror (sizes : Sizes) (row : OwnerRow) : Prop where
  iff : ∀ slot p, p < sizes.cache →
    (row.directory slot = ((p : Nat) : Int) ↔ row.keys p = ((slot : Nat) : Int))
  directory : ∀ slot, row.directory slot = -1 ∨ ∃ p < sizes.cache, row.directory slot = (p : Int)
  keys : ∀ p < sizes.cache, row.keys p = -1 ∨ ∃ slot : Nat, row.keys p = (slot : Int)

/-- A decode step chooses the least recently used cells of each active request as victims. -/
def ChoosesLru (sizes : Sizes) (r : Request) (row : OwnerRow) (buffers buffers' : RequestRow) : Prop :=
  ∃ victims : Finset Nat,
    (∀ p, p ∈ victims ↔ p < sizes.cache ∧ ∃ i, Valid sizes r i ∧
      buffers'.plan i = -((r.owner * sizes.cache + p : Nat) : Int) - 1) ∧
    victims.card = Nat.count (Missed sizes r row) sizes.cap ∧
    (∀ p ∈ victims, ∀ i, Valid sizes r i → row.directory (r.selected i) ≠ (p : Int)) ∧
    ∀ p ∈ victims, ∀ q < sizes.cache, q ∉ victims →
      (lookup sizes r row buffers).1.ages p < (lookup sizes r row buffers).1.ages q ∨
        (lookup sizes r row buffers).1.ages p = (lookup sizes r row buffers).1.ages q ∧ p < q

structure Transparent (setup : Setup V) (w : World V) : Prop where
  mirror : ∀ o, Mirror setup.sizes (w.metadata.rows o)
  victims : ∀ size batch current, (Event.decode size batch current).Allowed setup w →
    ∀ b < size, 0 ≤ (batch b).write →
      ChoosesLru setup.sizes (batch b) (w.metadata.rows (batch b).owner) (w.metadata.requests b)
        ((w.decode setup size batch current).metadata.requests b)
  values : ∀ size batch current, (Event.decode size batch current).Allowed setup w →
    ∀ staging layer, ∀ b < size, 0 ≤ (batch b).write → ∀ i < (batch b).length,
      (w.decode setup size batch current).pools layer
          (((w.decode setup size batch current).metadata.requests b).view i) =
        w.plain setup batch current staging layer b i
  padded : ∀ size batch current, (Event.decode size batch current).Allowed setup w →
    ∀ staging layer, ∀ b < size, (batch b).write < 0 → ∀ i < setup.sizes.cap,
      (w.decode setup size batch current).pools layer
          (((w.decode setup size batch current).metadata.requests b).view i) =
        w.plain setup batch current staging layer b i

theorem Sound.mirror {sizes : Sizes} {row : OwnerRow} (sound : Sound sizes row) : Mirror sizes row where
  iff slot p hp := by
    constructor
    · intro h
      rcases sound.directory slot with none | ⟨q, -, hq, hkey⟩
      · omega
      · have : q = p := by omega
        exact this ▸ hkey
    · intro h
      rcases sound.keys p hp with none | ⟨slot', hkey, hdir⟩
      · omega
      · have : slot' = slot := by omega
        exact this ▸ hdir
  directory slot := by
    rcases sound.directory slot with none | ⟨q, hq, hdir, -⟩
    · exact .inl none
    · exact .inr ⟨q, hq, hdir⟩
  keys p hp := by
    rcases sound.keys p hp with none | ⟨slot, hkey, -⟩
    · exact .inl none
    · exact .inr ⟨slot, hkey⟩

theorem Planned.choosesLru {sizes : Sizes} {r : Request} {row row' : OwnerRow}
    {buffers buffers' : RequestRow} (plan : Planned sizes r row buffers row' buffers')
    (sound : Sound sizes row) (active : 0 ≤ r.write) : ChoosesLru sizes r row buffers buffers' := by
  refine ⟨(Finset.range sizes.cache).filter (Victim sizes r row buffers), ?_, ?_, ?_, ?_⟩
  · intro p
    rw [Finset.mem_filter, Finset.mem_range]
    refine and_congr_right fun hp => ⟨fun victim => ?_, ?_⟩
    · obtain ⟨i, missed, rfl⟩ := exists_victimOf sound active hp victim
      refine ⟨i, missed.1, (plan.plan_missed i missed).trans ?_⟩
      push_cast
      rfl
    · rintro ⟨i, valid, entry⟩
      have missed : Missed sizes r row i := by
        refine ⟨valid, fun hit => ?_⟩
        have := plan.plan_hit i hit
        have := hit.2
        omega
      have := plan.plan_missed i missed
      have cell : victimOf sizes r row buffers i = p := by
        push_cast at this entry
        omega
      exact cell ▸ (victimOf_spec buffers sound active missed).2.1
  · rw [← Nat.count_eq_card_filter_range]
    exact (victim_count buffers sound active).1
  · intro p hp i valid known
    obtain ⟨hcache, victim⟩ := Finset.mem_filter.mp hp
    obtain ⟨j, missed, rfl⟩ := exists_victimOf sound active (Finset.mem_range.mp hcache) victim
    have hit : Hit sizes r row i := ⟨valid, known ▸ Int.natCast_nonneg _⟩
    refine victimOf_ne_hit buffers sound active missed hit ?_
    omega
  · intro p hp q hq hnot
    refine Smallest.lt (Finset.mem_filter.mp hp).2 fun chosen => hnot ?_
    exact Finset.mem_filter.mpr ⟨Finset.mem_range.mpr hq, chosen⟩

/-- In every state of every run the LRU cache is transparent. -/
theorem Reachable.transparent (reachable : Reachable setup w) : Transparent setup w := by
  have coherent := reachable.coherent
  refine ⟨fun o => (coherent.sound o).mirror, ?_, ?_, ?_⟩
  · intro size batch current presents b hb active
    exact (Presents.planned presents coherent hb active).choosesLru (coherent.sound _) active
  · intro size batch current presents staging layer b hb active i hi
    replace presents : Presents setup size batch w := presents
    have valid := (presents.valid hb active i).mpr hi
    have plan := presents.planned coherent hb active
    obtain ⟨p, hp, hdir⟩ := plan.knows (coherent.sound _) active (presents.nodupValid hb active) valid
    have view : ((w.decode setup size batch current).metadata.requests b).view i =
        (batch b).owner * setup.sizes.cache + p := by
      have := plan.view i valid
      rw [hdir] at this
      exact this
    rw [view, presents.pool_selected coherent hb active hi hdir hp]
    unfold World.plain appendPlain
    rw [if_congr (presents.appends_iff hb active hi) rfl rfl]
    by_cases hcurrent : ((batch b).selected i : Int) = (batch b).write
    · rw [if_pos hcurrent, if_pos hcurrent]
    · rw [if_neg hcurrent, if_neg hcurrent]
      have fromHost : FromHost setup.sizes setup.recent (batch b) i :=
        presents.fromHost hb active hi hcurrent
      rw [gatherPlain, if_pos fromHost]
  · intro size batch current presents staging layer b hb padded i hi
    replace presents : Presents setup size batch w := presents
    have view := (planLru_padded w.metadata presents.apart hb (by omega)).2 i hi
    have cell : (w.decode setup size batch current).pools layer
        (((w.decode setup size batch current).metadata.requests b).view i) = setup.zero := by
      have decoded : Coherent setup (w.decode setup size batch current) := presents.decode coherent
      exact (congrArg _ view).trans (decoded.padding layer)
    have idle : ¬ Appends setup.sizes setup.recent (batch b) := fun h => by
      have := h.1
      omega
    have unread : ¬ FromHost setup.sizes setup.recent (batch b) i := fun h => by
      have := h.2.2.1
      omega
    rw [cell]
    simp [World.plain, appendPlain, gatherPlain, idle, unread, padded, hi]

def oneRow : Setup Nat := ⟨⟨1, 2, 2, le_rfl⟩, true, 0⟩

/-- Nothing is cached. -/
def emptyGroup : World Nat where
  metadata := { requests := fun _ => ⟨fun _ => 0, fun _ => 0, 0, fun _ => 0⟩ }
  pools _ _ := 0
  host _ _ := 7

/-- A past slot and the slot of the current token are selected. -/
def twoTokens (past write : Nat) : Nat → Request := fun _ =>
  { owner := 0, selected := fun i => if i = 0 then past else write, length := 2, write := write }

theorem presents_twoTokens {w : World Nat} {past write : Nat} (differ : past ≠ write)
    (filled : past ∈ w.filled 0) (fresh : ∀ o, write ∉ w.filled o) :
    Presents oneRow 1 (twoTokens past write) w where
  apart b hb b' hb' _ _ _ := by omega
  owner _ _ _ := Nat.one_pos
  length _ _ _ := le_rfl
  nodup _ _ _ i hi j hj same := by
    simp only [twoTokens] at hi hj same
    split at same <;> split at same <;> omega
  selected _ _ _ i _ := by
    simp only [twoTokens]
    split
    · exact .inl filled
    · exact .inr rfl
  fresh _ _ _ o := fresh o
  writes b hb b' hb' _ _ := by omega
  recent _ _ _ _ := ⟨1, rfl, rfl⟩

/-- Slot 3 is missed and then hit, slot 5 evicts slot 4, and the row is reused. -/
def reuseEvents : List (Event Nat) :=
  [.write 3 fun _ => 7, .fill 0 3, .decode 1 (twoTokens 3 4) fun _ _ => 8,
    .decode 1 (twoTokens 3 5) fun _ _ => 9, .invalidate 0, .write 6 fun _ => 10, .fill 0 6,
    .decode 1 (twoTokens 6 7) fun _ _ => 11]

theorem transparent_after_reuse :
    Transparent oneRow (reuseEvents.foldl (Event.apply oneRow) emptyGroup) := by
  refine Reachable.transparent ⟨emptyGroup, ⟨fun _ => rfl, fun _ => rfl, fun _ => rfl⟩, ?_⟩
  refine .head ⟨.write 3 fun _ => 7, fun o => ?_, rfl⟩ (.head ⟨.fill 0 3, trivial, rfl⟩
    (.head ⟨.decode 1 (twoTokens 3 4) fun _ _ => 8, presents_twoTokens (by decide) ?_ ?_, rfl⟩
    (.head ⟨.decode 1 (twoTokens 3 5) fun _ _ => 9, presents_twoTokens (by decide) ?_ ?_, rfl⟩
    (.head ⟨.invalidate 0, trivial, rfl⟩ (.head ⟨.write 6 fun _ => 10, fun o => ?_, rfl⟩
    (.head ⟨.fill 0 6, trivial, rfl⟩
    (.single ⟨.decode 1 (twoTokens 6 7) fun _ _ => 11, presents_twoTokens (by decide) ?_ ?_, rfl⟩)))))))
  all_goals simp [Event.apply, World.decode, twoTokens, emptyGroup, update_apply]
  all_goals intros; split_ifs <;> simp

end SparseEngine.OmniKV
