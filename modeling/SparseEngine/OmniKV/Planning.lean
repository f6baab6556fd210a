import SparseEngine.OmniKV.Kernels
import Mathlib.Algebra.Order.BigOperators.Group.Finset

/-! What the three programs of `plan_lru` do to the row of one owner. -/

namespace SparseEngine.OmniKV

open Lanes

variable (sizes : Sizes)

/-- The directory and the keys name each other where they name anything. -/
structure Sound (row : OwnerRow) : Prop where
  directory : ∀ slot, row.directory slot = -1 ∨
    ∃ p < sizes.cache, row.directory slot = (p : Int) ∧ row.keys p = (slot : Int)
  keys : ∀ p < sizes.cache, row.keys p = -1 ∨
    ∃ slot : Nat, row.keys p = (slot : Int) ∧ row.directory slot = (p : Int)
  aged : ∀ p < sizes.cache, row.ages p ≤ row.clock

theorem Sound.initial : Sound sizes {} where
  directory _ := .inl rfl
  keys _ _ := .inl rfl
  aged _ _ := le_rfl

def Missed (r : Request) (row : OwnerRow) (i : Nat) : Prop := Valid sizes r i ∧ ¬ Hit sizes r row i

instance (r : Request) (row : OwnerRow) : DecidablePred (Missed sizes r row) := fun _ =>
  inferInstanceAs (Decidable (_ ∧ _))

variable {sizes} {r : Request} {row : OwnerRow} {buffers : RequestRow}

variable {i p : Nat}

theorem Sound.hit (sound : Sound sizes row) (hit : Hit sizes r row i) :
    ∃ p < sizes.cache, row.directory (r.selected i) = (p : Int) ∧
      row.keys p = (r.selected i : Int) := by
  rcases sound.directory (r.selected i) with none | found
  · have := hit.2
    omega
  · exact found

theorem Sound.missed (sound : Sound sizes row) (missed : Missed sizes r row i) :
    row.directory (r.selected i) = -1 := by
  rcases sound.directory (r.selected i) with none | ⟨p, -, h, -⟩
  · exact none
  · exact absurd ⟨missed.1, h ▸ Int.natCast_nonneg p⟩ missed.2

theorem lookup_row (active : 0 ≤ r.write) :
    (lookup sizes r row buffers).1 = { row with
      clock := row.clock + 1
      ages := store sizes.cap (Hit sizes r row) (fun i => (row.directory (r.selected i)).toNat)
        (fun _ => row.clock + 1) row.ages } := by
  simp [lookup, active]

theorem lookup_ages_hit (active : 0 ≤ r.write) (hit : Hit sizes r row i) :
    (lookup sizes r row buffers).1.ages (row.directory (r.selected i)).toNat = row.clock + 1 := by
  rw [lookup_row active]
  exact store_of_mem (f := fun i => (row.directory (r.selected i)).toNat) hit.1.2 hit
    fun _ _ _ _ => rfl

theorem lookup_ages_other (active : 0 ≤ r.write)
    (other : ∀ i, Hit sizes r row i → (row.directory (r.selected i)).toNat ≠ p) :
    (lookup sizes r row buffers).1.ages p = row.ages p := by
  rw [lookup_row active]
  exact store_of_forall_ne fun i _ hit => other i hit

theorem lookup_plan (active : 0 ≤ r.write) (hi : i < sizes.cap) :
    (lookup sizes r row buffers).2.plan i =
      if Hit sizes r row i then row.directory (r.selected i) else -1 := by
  simp only [lookup, active, ↓reduceIte]
  exact store_of_mem (f := id) hi trivial fun j _ _ same => by rw [show j = i from same]

theorem missing_lookup (active : 0 ≤ r.write) (i : Nat) :
    Missing sizes r (lookup sizes r row buffers).2.plan i ↔ Missed sizes r row i := by
  unfold Missing Missed
  refine and_congr_right fun valid => ?_
  rw [lookup_plan active valid.2]
  by_cases hit : Hit sizes r row i
  · simp [hit, hit.2]
  · simp [hit]

theorem count_missing_lookup (active : 0 ≤ r.write) :
    Nat.count (Missing sizes r (lookup sizes r row buffers).2.plan) sizes.cap =
      Nat.count (Missed sizes r row) sizes.cap := by
  exact count_congr (missing_lookup active) _

theorem missed_le_count (sound : Sound sizes row) (active : 0 ≤ r.write) :
    Nat.count (Missed sizes r row) sizes.cap ≤
      Nat.count (fun p => (lookup sizes r row buffers).1.ages p ≤ row.clock) sizes.cache := by
  set ages := (lookup sizes r row buffers).1.ages
  have split : Nat.count (fun p => ages p ≤ row.clock) sizes.cache +
      ((Finset.range sizes.cache).filter fun p => ¬ ages p ≤ row.clock).card = sizes.cache := by
    rw [Nat.count_eq_card_filter_range]
    have := Finset.card_filter_add_card_filter_not (s := Finset.range sizes.cache)
      (fun p => ages p ≤ row.clock)
    simpa using this
  have lanes : Nat.count (Missed sizes r row) sizes.cap + Nat.count (Hit sizes r row) sizes.cap ≤
      sizes.cap := by
    have : ∀ n, Nat.count (Missed sizes r row) n + Nat.count (Hit sizes r row) n ≤ n := by
      intro n
      induction n with
      | zero => simp
      | succ n ih =>
        rw [Nat.count_succ, Nat.count_succ]
        have : ¬ (Missed sizes r row n ∧ Hit sizes r row n) := fun h => h.1.2 h.2
        split <;> split <;> simp_all <;> omega
    exact this _
  -- A cell with the new stamp is the cell of a hit lane.
  have stamped : ((Finset.range sizes.cache).filter fun p => ¬ ages p ≤ row.clock).card ≤
      Nat.count (Hit sizes r row) sizes.cap := by
    rw [Nat.count_eq_card_filter_range]
    refine (Finset.card_le_card ?_).trans (Finset.card_image_le (s := (Finset.range sizes.cap).filter
      (Hit sizes r row)) (f := fun i => (row.directory (r.selected i)).toNat))
    intro p hp
    obtain ⟨hcache, hnew⟩ := Finset.mem_filter.mp hp
    by_contra notHit
    refine hnew ?_
    have : ages p = row.ages p := lookup_ages_other active fun i hit same =>
      notHit (Finset.mem_image.mpr
        ⟨i, Finset.mem_filter.mpr ⟨Finset.mem_range.mpr hit.1.2, hit⟩, same⟩)
    rw [this]
    exact sound.aged p (Finset.mem_range.mp hcache)
  have := sizes.cap_le
  omega

theorem chosen_spec {count m : Nat} (hm : m ≤ row.clock)
    (enough : count ≤ Nat.count (fun p => row.ages p ≤ m) sizes.cache) :
    Nat.count (Chosen sizes row count) sizes.cache = count ∧
      ∀ p, Chosen sizes row count p → row.ages p ≤ m := by
  have mono : ∀ m m', m ≤ m' → count ≤ Nat.count (fun i => row.ages i ≤ m) sizes.cache →
      count ≤ Nat.count (fun i => row.ages i ≤ m') sizes.cache := fun m m' hle h =>
    h.trans (Nat.count_mono_left fun i _ hi => hi.trans hle)
  obtain ⟨-, hmeets, hleast⟩ := bisect_spec mono 0 row.clock (Nat.zero_le _)
    (mono m row.clock hm enough) fun _ h => absurd h (Nat.not_lt_zero _)
  have hlow : threshold sizes row count ≤ m := by
    by_contra h
    exact hleast m (Nat.lt_of_not_le h) enough
  have older : Nat.count (fun i => row.ages i < threshold sizes row count) sizes.cache ≤ count := by
    cases hzero : threshold sizes row count with
    | zero => simp
    | succ low =>
      have few := hleast low (by
        show low < threshold sizes row count
        omega)
      have same : Nat.count (fun i => row.ages i < low + 1) sizes.cache =
          Nat.count (fun i => row.ages i ≤ low) sizes.cache :=
        count_congr (fun _ => Nat.lt_succ_iff) _
      omega
  constructor
  · have total := count_smallest row.ages (threshold sizes row count)
      (count - Nat.count (fun i => row.ages i < threshold sizes row count) sizes.cache) sizes.cache
    have all := count_le_low row.ages (threshold sizes row count) sizes.cache
    have hmeets' : count ≤ Nat.count (fun i => row.ages i ≤ threshold sizes row count) sizes.cache :=
      hmeets
    show Nat.count (Smallest row.ages _ _) sizes.cache = count
    rw [total]
    omega
  · intro p hp
    rcases hp with hlt | ⟨heq, -⟩
    · exact hlt.le.trans hlow
    · exact heq.le.trans hlow

def victimOf (sizes : Sizes) (r : Request) (row : OwnerRow) (buffers : RequestRow) (i : Nat) : Nat :=
  (chooseVictims sizes r (lookup sizes r row buffers).1 (lookup sizes r row buffers).2).2.victims
    (rank (Missed sizes r row) i)

def Victim (sizes : Sizes) (r : Request) (row : OwnerRow) (buffers : RequestRow) (p : Nat) : Prop :=
  Chosen sizes (lookup sizes r row buffers).1 (Nat.count (Missed sizes r row) sizes.cap) p

instance (buffers : RequestRow) : DecidablePred (Victim sizes r row buffers) := fun _ =>
  inferInstanceAs (Decidable (Chosen _ _ _ _))

theorem victim_count (buffers : RequestRow) (sound : Sound sizes row) (active : 0 ≤ r.write) :
    Nat.count (Victim sizes r row buffers) sizes.cache = Nat.count (Missed sizes r row) sizes.cap ∧
      ∀ p, Victim sizes r row buffers p →
        (lookup sizes r row buffers).1.ages p ≤ row.clock := by
  have clock : row.clock ≤ (lookup sizes r row buffers).1.clock := by
    rw [lookup_row active]
    exact Nat.le_succ _
  exact chosen_spec clock (missed_le_count sound active)

theorem victimOf_rank (sound : Sound sizes row) (active : 0 ≤ r.write) (hp : p < sizes.cache)
    (victim : Victim sizes r row buffers p)
    (same : rank (Missed sizes r row) i = rank (Victim sizes r row buffers) p) :
    victimOf sizes r row buffers i = p := by
  have positive : 0 < Nat.count (Missed sizes r row) sizes.cap := by
    rw [← (victim_count buffers sound active).1]
    exact Nat.zero_lt_of_lt (rank_lt victim hp)
  have chosen : ∀ count, count = Nat.count (Missed sizes r row) sizes.cap → ∀ a : Nat → Nat,
      store sizes.cache (Chosen sizes (lookup sizes r row buffers).1 count)
        (rank (Chosen sizes (lookup sizes r row buffers).1 count)) id a
        (rank (Victim sizes r row buffers) p) = p := by
    rintro _ rfl a
    exact store_rank hp victim
  unfold victimOf chooseVictims
  rw [if_pos active, if_pos (by rwa [count_missing_lookup active]), same]
  exact chosen _ (count_missing_lookup active) _

theorem victimOf_spec (buffers : RequestRow) (sound : Sound sizes row) (active : 0 ≤ r.write)
    (missed : Missed sizes r row i) :
    victimOf sizes r row buffers i < sizes.cache ∧
      Victim sizes r row buffers (victimOf sizes r row buffers i) ∧
      rank (Victim sizes r row buffers) (victimOf sizes r row buffers i) =
        rank (Missed sizes r row) i := by
  have hrank : rank (Missed sizes r row) i < Nat.count (Victim sizes r row buffers) sizes.cache := by
    rw [(victim_count buffers sound active).1]
    exact rank_lt missed missed.1.2
  obtain ⟨p, hp, victim, same⟩ := exists_rank hrank
  rw [victimOf_rank sound active hp victim same.symm]
  exact ⟨hp, victim, same⟩

theorem victimOf_injective (buffers : RequestRow) (sound : Sound sizes row) (active : 0 ≤ r.write)
    {j : Nat} (hi : Missed sizes r row i) (hj : Missed sizes r row j)
    (same : victimOf sizes r row buffers i = victimOf sizes r row buffers j) : i = j := by
  refine rank_injective hi hj ?_
  rw [← (victimOf_spec buffers sound active hi).2.2, same]
  exact (victimOf_spec buffers sound active hj).2.2

theorem exists_victimOf (sound : Sound sizes row) (active : 0 ≤ r.write) (hp : p < sizes.cache)
    (victim : Victim sizes r row buffers p) :
    ∃ i, Missed sizes r row i ∧ victimOf sizes r row buffers i = p := by
  have hrank : rank (Victim sizes r row buffers) p < Nat.count (Missed sizes r row) sizes.cap := by
    rw [← (victim_count buffers sound active).1]
    exact rank_lt victim hp
  obtain ⟨i, -, missed, same⟩ := exists_rank hrank
  exact ⟨i, missed, victimOf_rank sound active hp victim same⟩

theorem victimOf_ne_hit (buffers : RequestRow) (sound : Sound sizes row) (active : 0 ≤ r.write)
    {j : Nat} (missed : Missed sizes r row i) (hit : Hit sizes r row j) :
    (row.directory (r.selected j)).toNat ≠ victimOf sizes r row buffers i := by
  intro same
  have old := (victim_count buffers sound active).2 _
    (victimOf_spec buffers sound active missed).2.1
  rw [← same, lookup_ages_hit active hit] at old
  exact Nat.not_succ_le_self _ old

/-- The programs of `plan_lru` on one request. -/
def planRow (sizes : Sizes) (r : Request) (row : OwnerRow) (buffers : RequestRow) :
    OwnerRow × RequestRow :=
  let (row₁, buffers₁) := lookup sizes r row buffers
  let (row₂, buffers₂) := chooseVictims sizes r row₁ buffers₁
  admitMisses sizes r row₂ buffers₂

/-- What the planning kernel writes for one request. -/
structure Planned (sizes : Sizes) (r : Request) (row : OwnerRow) (buffers : RequestRow)
    (row' : OwnerRow) (buffers' : RequestRow) : Prop where
  directory_missed : ∀ i, Missed sizes r row i →
    row'.directory (r.selected i) = (victimOf sizes r row buffers i : Int)
  directory_evicted : ∀ i slot, Missed sizes r row i →
    row.keys (victimOf sizes r row buffers i) = ((slot : Nat) : Int) → row'.directory slot = -1
  directory_other : ∀ slot, (∀ i, Missed sizes r row i → r.selected i ≠ slot) →
    (∀ i, Missed sizes r row i → row.keys (victimOf sizes r row buffers i) ≠ ((slot : Nat) : Int)) →
    row'.directory slot = row.directory slot
  keys_victim : ∀ i, Missed sizes r row i →
    row'.keys (victimOf sizes r row buffers i) = (r.selected i : Int)
  keys_other : ∀ p, (∀ i, Missed sizes r row i → victimOf sizes r row buffers i ≠ p) →
    row'.keys p = row.keys p
  aged : ∀ p < sizes.cache, row'.ages p ≤ row'.clock
  plan_missed : ∀ i, Missed sizes r row i → buffers'.plan i =
    -(((r.owner * sizes.cache : Nat) : Int) + (victimOf sizes r row buffers i : Int)) - 1
  plan_hit : ∀ i, Hit sizes r row i → buffers'.plan i =
    ((r.owner * sizes.cache : Nat) : Int) + row.directory (r.selected i)
  view : ∀ i, Valid sizes r i → buffers'.view i =
    r.owner * sizes.cache + (row'.directory (r.selected i)).toNat
  missCount : buffers'.missCount = Nat.count (Missed sizes r row) sizes.cap
  victims : ∀ i, Missed sizes r row i → buffers'.victims (rank (Missed sizes r row) i) = i

theorem chooseVictims_row : (chooseVictims sizes r row buffers).1 = row := by
  unfold chooseVictims
  split
  · dsimp only
    split <;> rfl
  · rfl

theorem chooseVictims_plan : (chooseVictims sizes r row buffers).2.plan = buffers.plan := by
  unfold chooseVictims
  split
  · dsimp only
    split <;> rfl
  · rfl

theorem chooseVictims_missCount :
    (chooseVictims sizes r row buffers).2.missCount = buffers.missCount := by
  unfold chooseVictims
  split
  · dsimp only
    split <;> rfl
  · rfl

def chosenBuffers (sizes : Sizes) (r : Request) (row : OwnerRow) (buffers : RequestRow) :
    RequestRow :=
  (chooseVictims sizes r (lookup sizes r row buffers).1 (lookup sizes r row buffers).2).2

theorem planRow_eq : planRow sizes r row buffers =
    admitMisses sizes r (lookup sizes r row buffers).1 (chosenBuffers sizes r row buffers) := by
  show admitMisses sizes r (chooseVictims sizes r _ _).1 _ = _
  rw [chooseVictims_row]
  rfl

theorem missing_chosen (active : 0 ≤ r.write) (i : Nat) :
    Missing sizes r (chosenBuffers sizes r row buffers).plan i ↔ Missed sizes r row i := by
  unfold chosenBuffers
  rw [chooseVictims_plan]
  exact missing_lookup active i

theorem victims_chosen (active : 0 ≤ r.write) (i : Nat) :
    (chosenBuffers sizes r row buffers).victims
        (rank (Missing sizes r (chosenBuffers sizes r row buffers).plan) i) =
      victimOf sizes r row buffers i := by
  rw [rank_congr (missing_chosen active)]
  rfl

section

variable (active : 0 ≤ r.write)

include active

theorem planRow_directory : (planRow sizes r row buffers).1.directory =
    store sizes.cap (Missed sizes r row) r.selected (fun i => (victimOf sizes r row buffers i : Int))
      (store sizes.cap
        (fun i => Missed sizes r row i ∧ 0 ≤ row.keys (victimOf sizes r row buffers i))
        (fun i => (row.keys (victimOf sizes r row buffers i)).toNat) (fun _ => -1)
        row.directory) := by
  rw [planRow_eq, admitMisses, if_pos active, lookup_row active]
  simp only [victims_chosen active]
  refine (store_congr (missing_chosen active) (fun _ _ => rfl) fun _ _ => rfl).trans ?_
  congr 1
  refine store_congr (fun i => ?_) (fun _ _ => rfl) fun _ _ => rfl
  rw [missing_chosen active, victims_chosen active]

theorem planRow_keys : (planRow sizes r row buffers).1.keys =
    store sizes.cap (Missed sizes r row) (victimOf sizes r row buffers)
      (fun i => (r.selected i : Int)) row.keys := by
  rw [planRow_eq, admitMisses, if_pos active, lookup_row active]
  simp only [victims_chosen active]
  exact store_congr (missing_chosen active) (fun _ _ => rfl) fun _ _ => rfl

theorem planRow_ages : (planRow sizes r row buffers).1.ages =
    store sizes.cap (Missed sizes r row) (victimOf sizes r row buffers)
      (fun _ => row.clock + 1) (lookup sizes r row buffers).1.ages := by
  rw [planRow_eq, admitMisses, if_pos active]
  simp only [victims_chosen active]
  refine (store_congr (missing_chosen active) (fun _ _ => rfl) fun _ _ => ?_)
  rw [lookup_row active]

theorem planRow_clock : (planRow sizes r row buffers).1.clock = row.clock + 1 := by
  rw [planRow_eq, admitMisses, if_pos active, lookup_row active]

theorem planRow_victims : (planRow sizes r row buffers).2.victims =
    store sizes.cap (Missed sizes r row) (rank (Missed sizes r row)) id
      (chosenBuffers sizes r row buffers).victims := by
  rw [planRow_eq, admitMisses, if_pos active]
  exact store_congr (missing_chosen active)
    (fun i _ => rank_congr (missing_chosen active) i) fun _ _ => rfl

theorem planRow_missCount : (planRow sizes r row buffers).2.missCount =
    Nat.count (Missed sizes r row) sizes.cap := by
  rw [planRow_eq, admitMisses, if_pos active]
  show (chosenBuffers sizes r row buffers).missCount = _
  unfold chosenBuffers
  rw [chooseVictims_missCount]
  unfold lookup
  rw [if_pos active]
  rfl

def position (sizes : Sizes) (r : Request) (row : OwnerRow) (buffers : RequestRow) (i : Nat) : Int :=
  ((r.owner * sizes.cache : Nat) : Int) +
    if Missed sizes r row i then (victimOf sizes r row buffers i : Int)
    else row.directory (r.selected i)

variable {i : Nat}

theorem position_eq (valid : Valid sizes r i) :
    ((r.owner * sizes.cache : Nat) : Int) +
        (if Missing sizes r (chosenBuffers sizes r row buffers).plan i then
          ((chosenBuffers sizes r row buffers).victims
            (rank (Missing sizes r (chosenBuffers sizes r row buffers).plan) i) : Int)
        else (chosenBuffers sizes r row buffers).plan i) =
      position sizes r row buffers i := by
  unfold position
  simp only [missing_chosen active, victims_chosen active]
  congr 1
  split
  · rfl
  · next h =>
    have hit : Hit sizes r row i := by
      by_contra none
      exact h ⟨valid, none⟩
    unfold chosenBuffers
    rw [chooseVictims_plan, lookup_plan active valid.2, if_pos hit]

theorem planRow_plan (valid : Valid sizes r i) : (planRow sizes r row buffers).2.plan i =
    if Missed sizes r row i then -position sizes r row buffers i - 1
    else position sizes r row buffers i := by
  rw [planRow_eq, admitMisses, if_pos active]
  refine (store_of_mem (f := id) valid.2 valid fun j _ _ same => by rw [show j = i from same]).trans
    ?_
  dsimp only
  rw [position_eq active valid]
  simp only [missing_chosen active]

theorem planRow_view (hi : i < sizes.cap) : (planRow sizes r row buffers).2.view i =
    if Valid sizes r i then (position sizes r row buffers i).toNat
    else sizes.rows * sizes.cache := by
  rw [planRow_eq, admitMisses, if_pos active]
  refine (store_of_mem (f := id) hi trivial fun j _ _ same => by rw [show j = i from same]).trans
    ?_
  split
  · next valid =>
    dsimp only
    rw [position_eq active valid]
  · rfl

end

theorem planned (sound : Sound sizes row) (active : 0 ≤ r.write)
    (nodup : ∀ i j, Valid sizes r i → Valid sizes r j → r.selected i = r.selected j → i = j) :
    Planned sizes r row buffers (planRow sizes r row buffers).1 (planRow sizes r row buffers).2 := by
  have cell : ∀ i, Missed sizes r row i → victimOf sizes r row buffers i < sizes.cache :=
    fun i hi => (victimOf_spec buffers sound active hi).1
  have injective : ∀ i j, Missed sizes r row i → Missed sizes r row j →
      victimOf sizes r row buffers i = victimOf sizes r row buffers j → i = j :=
    fun i j => victimOf_injective buffers sound active
  -- The slot a victim held was not missing: the directory knew it.
  have held : ∀ i j slot, Missed sizes r row i → Missed sizes r row j →
      row.keys (victimOf sizes r row buffers i) = ((slot : Nat) : Int) → r.selected j ≠ slot := by
    rintro i j slot hi hj hkey rfl
    rcases sound.keys _ (cell i hi) with none | ⟨slot, hslot, hdir⟩
    · omega
    · have same : slot = r.selected j := by omega
      subst same
      have := sound.missed hj
      omega
  have directory_missed : ∀ i, Missed sizes r row i →
      (planRow sizes r row buffers).1.directory (r.selected i) =
        (victimOf sizes r row buffers i : Int) := by
    intro i hi
    rw [planRow_directory active]
    exact store_of_mem hi.1.2 hi fun j _ hj same => by rw [nodup j i hj.1 hi.1 same]
  refine
    { directory_missed := directory_missed
      directory_evicted := ?_
      directory_other := ?_
      keys_victim := ?_
      keys_other := ?_
      aged := ?_
      plan_missed := ?_
      plan_hit := ?_
      view := ?_
      missCount := planRow_missCount active
      victims := ?_ }
  · intro i slot hi hkey
    rw [planRow_directory active,
      store_of_forall_ne fun j _ hj same => held i j slot hi hj hkey same]
    have index : (row.keys (victimOf sizes r row buffers i)).toNat = slot := by omega
    rw [← index]
    exact store_of_mem (f := fun i => (row.keys (victimOf sizes r row buffers i)).toNat) hi.1.2
      ⟨hi, by omega⟩ fun _ _ _ _ => rfl
  · intro slot unselected unheld
    rw [planRow_directory active, store_of_forall_ne fun j _ hj same => unselected j hj same]
    refine store_of_forall_ne fun j _ hj same => unheld j hj.1 ?_
    omega
  · intro i hi
    rw [planRow_keys active]
    exact store_of_mem hi.1.2 hi fun j _ hj same => by rw [injective j i hj hi same]
  · intro p other
    rw [planRow_keys active]
    exact store_of_forall_ne fun j _ hj => other j hj
  · intro p hp
    rw [planRow_ages active, planRow_clock active]
    by_cases taken : ∃ i, Missed sizes r row i ∧ victimOf sizes r row buffers i = p
    · obtain ⟨i, hi, rfl⟩ := taken
      rw [store_of_mem hi.1.2 hi fun _ _ _ _ => rfl]
    · rw [store_of_forall_ne fun j _ hj same => taken ⟨j, hj, same⟩]
      by_cases hit : ∃ i, Hit sizes r row i ∧ (row.directory (r.selected i)).toNat = p
      · obtain ⟨i, hi, rfl⟩ := hit
        rw [lookup_ages_hit active hi]
      · rw [lookup_ages_other active fun i hi same => hit ⟨i, hi, same⟩]
        exact (sound.aged p hp).trans (Nat.le_succ _)
  · intro i hi
    rw [planRow_plan active hi.1, if_pos hi]
    simp [position, hi]
  · intro i hi
    have notMissed : ¬ Missed sizes r row i := fun h => h.2 hi
    rw [planRow_plan active hi.1, if_neg notMissed]
    simp [position, notMissed]
  · intro i valid
    rw [planRow_view active valid.2, if_pos valid]
    unfold position
    by_cases hi : Missed sizes r row i
    · rw [if_pos hi, directory_missed i hi]
      omega
    · have hit : Hit sizes r row i := by
        by_contra none
        exact hi ⟨valid, none⟩
      rw [if_neg hi]
      -- The directory still knows the cell of a hit, which was not taken.
      have kept : (planRow sizes r row buffers).1.directory (r.selected i) =
          row.directory (r.selected i) := by
        rw [planRow_directory active, store_of_forall_ne, store_of_forall_ne]
        · intro j _ hj same
          obtain ⟨p, hp, hdir, hkey⟩ := sound.hit hit
          refine victimOf_ne_hit buffers sound active hj.1 hit ?_
          rcases sound.keys _ (cell j hj.1) with none | ⟨slot, hslot, hdir'⟩
          · omega
          · have : slot = r.selected i := by omega
            subst this
            omega
        · intro j _ hj same
          have : j = i := nodup j i hj.1 valid same
          exact hj.2 (this ▸ hit)
      rw [kept]
      have := hit.2
      omega
  · intro i hi
    rw [planRow_victims active]
    exact store_rank (v := id) hi.1.2 hi

section

variable {row' : OwnerRow} {buffers' : RequestRow}

theorem Planned.sound (plan : Planned sizes r row buffers row' buffers') (sound : Sound sizes row)
    (active : 0 ≤ r.write) : Sound sizes row' where
  directory slot := by
    by_cases selected : ∃ i, Missed sizes r row i ∧ r.selected i = slot
    · obtain ⟨i, hi, rfl⟩ := selected
      exact .inr ⟨_, (victimOf_spec buffers sound active hi).1, plan.directory_missed i hi,
        plan.keys_victim i hi⟩
    · by_cases evicted : ∃ i, Missed sizes r row i ∧
          row.keys (victimOf sizes r row buffers i) = (slot : Int)
      · obtain ⟨i, hi, hkey⟩ := evicted
        exact .inl (plan.directory_evicted i slot hi hkey)
      · rw [plan.directory_other slot (fun i hi same => selected ⟨i, hi, same⟩)
          fun i hi same => evicted ⟨i, hi, same⟩]
        rcases sound.directory slot with none | ⟨p, hp, hdir, hkey⟩
        · exact .inl none
        · refine .inr ⟨p, hp, hdir, (plan.keys_other p ?_).trans hkey⟩
          rintro i hi rfl
          exact evicted ⟨i, hi, hkey⟩
  keys p hp := by
    by_cases taken : ∃ i, Missed sizes r row i ∧ victimOf sizes r row buffers i = p
    · obtain ⟨i, hi, rfl⟩ := taken
      exact .inr ⟨_, plan.keys_victim i hi, plan.directory_missed i hi⟩
    · rw [plan.keys_other p fun i hi same => taken ⟨i, hi, same⟩]
      rcases sound.keys p hp with none | ⟨slot, hkey, hdir⟩
      · exact .inl none
      · refine .inr ⟨slot, hkey, (plan.directory_other slot ?_ ?_).trans hdir⟩
        · rintro i hi rfl
          have := sound.missed hi
          omega
        · intro i hi held
          rcases sound.keys _ (victimOf_spec buffers sound active hi).1 with
            none | ⟨slot', hkey', hdir'⟩
          · omega
          · have : slot' = slot := by omega
            subst this
            exact taken ⟨i, hi, by omega⟩
  aged := plan.aged

theorem Planned.known (plan : Planned sizes r row buffers row' buffers') {slot p : Nat}
    (h : row'.directory slot = (p : Int)) :
    (∃ i, Missed sizes r row i ∧ r.selected i = slot ∧ victimOf sizes r row buffers i = p) ∨
      row.directory slot = (p : Int) ∧ ∀ i, Missed sizes r row i → r.selected i ≠ slot := by
  by_cases selected : ∃ i, Missed sizes r row i ∧ r.selected i = slot
  · obtain ⟨i, hi, rfl⟩ := selected
    have := plan.directory_missed i hi
    exact .inl ⟨i, hi, rfl, by omega⟩
  · have unselected : ∀ i, Missed sizes r row i → r.selected i ≠ slot := fun i hi same =>
      selected ⟨i, hi, same⟩
    by_cases evicted : ∃ i, Missed sizes r row i ∧
        row.keys (victimOf sizes r row buffers i) = (slot : Int)
    · obtain ⟨i, hi, hkey⟩ := evicted
      have := plan.directory_evicted i slot hi hkey
      omega
    · exact .inr ⟨(plan.directory_other slot unselected fun i hi same =>
        evicted ⟨i, hi, same⟩).symm.trans h, unselected⟩

theorem Planned.knows (plan : Planned sizes r row buffers row' buffers') (sound : Sound sizes row)
    (active : 0 ≤ r.write)
    (nodup : ∀ i j, Valid sizes r i → Valid sizes r j → r.selected i = r.selected j → i = j)
    {i : Nat} (valid : Valid sizes r i) :
    ∃ p < sizes.cache, row'.directory (r.selected i) = (p : Int) := by
  by_cases hi : Missed sizes r row i
  · exact ⟨_, (victimOf_spec buffers sound active hi).1, plan.directory_missed i hi⟩
  · have hit : Hit sizes r row i := by
      by_contra none
      exact hi ⟨valid, none⟩
    obtain ⟨p, hp, hdir, hkey⟩ := sound.hit hit
    refine ⟨p, hp, (plan.directory_other _ ?_ ?_).trans hdir⟩
    · intro j hj same
      exact hj.2 (nodup j i hj.1 valid same ▸ hit)
    · intro j hj held
      refine victimOf_ne_hit buffers sound active hj hit ?_
      rcases sound.keys _ (victimOf_spec buffers sound active hj).1 with
        none | ⟨slot, hslot, hdir'⟩
      · omega
      · have : slot = r.selected i := by omega
        subst this
        omega

theorem Planned.cell (plan : Planned sizes r row buffers row' buffers')
    (nodup : ∀ i j, Valid sizes r i → Valid sizes r j → r.selected i = r.selected j → i = j)
    {i p : Nat} (valid : Valid sizes r i) (hp : row'.directory (r.selected i) = (p : Int)) :
    cellOf (buffers'.plan i) = r.owner * sizes.cache + p := by
  unfold cellOf
  by_cases hi : Missed sizes r row i
  · have := plan.directory_missed i hi
    rw [plan.plan_missed i hi]
    split <;> omega
  · have hit : Hit sizes r row i := by
      by_contra none
      exact hi ⟨valid, none⟩
    rcases plan.known hp with ⟨j, hj, same, -⟩ | ⟨hdir, -⟩
    · exact absurd hit (nodup j i hj.1 valid same ▸ hj).2
    · rw [plan.plan_hit i hit, hdir]
      split <;> omega

end

def Apart (size : Nat) (batch : Nat → Request) : Prop :=
  ∀ b < size, ∀ b' < size, 0 ≤ (batch b).write → 0 ≤ (batch b').write →
    (batch b).owner = (batch b').owner → b = b'

structure Skips (program : Request → OwnerRow → RequestRow → OwnerRow × RequestRow) : Prop where
  row : ∀ r row buffers, ¬ 0 ≤ r.write → (program r row buffers).1 = row
  buffers : ∀ r row row' buffers, ¬ 0 ≤ r.write →
    (program r row buffers).2 = (program r row' buffers).2

variable {program : Request → OwnerRow → RequestRow → OwnerRow × RequestRow}

variable {batch : Nat → Request}

theorem Metadata.launch_spec (skips : Skips program) (m : Metadata) :
    ∀ {size : Nat}, Apart size batch →
      (∀ b < size, 0 ≤ (batch b).write → (m.launch program size batch).rows (batch b).owner =
        (program (batch b) (m.rows (batch b).owner) (m.requests b)).1) ∧
      (∀ o, (∀ b < size, 0 ≤ (batch b).write → (batch b).owner ≠ o) →
        (m.launch program size batch).rows o = m.rows o) ∧
      (∀ b < size, (m.launch program size batch).requests b =
        (program (batch b) (m.rows (batch b).owner) (m.requests b)).2) ∧
      ∀ b, size ≤ b → (m.launch program size batch).requests b = m.requests b
  | 0, _ => ⟨fun _ h => absurd h (Nat.not_lt_zero _), fun _ _ => rfl,
      fun _ h => absurd h (Nat.not_lt_zero _), fun _ _ => rfl⟩
  | size + 1, apart => by
    have apart' : Apart size batch := fun b hb b' hb' =>
      apart b (hb.trans (Nat.lt_succ_self _)) b' (hb'.trans (Nat.lt_succ_self _))
    obtain ⟨active, others, requests, rest⟩ := m.launch_spec skips apart'
    have step : m.launch program (size + 1) batch =
        (m.launch program size batch).runProgram program batch size := by
      unfold Metadata.launch
      rw [List.range_succ, List.foldl_append]
      rfl
    -- The last request finds its owner row as the launch found it, if it looks at it.
    have found : 0 ≤ (batch size).write →
        (m.launch program size batch).rows (batch size).owner = m.rows (batch size).owner := by
      intro h
      refine others _ fun b hb hactive same => ?_
      exact absurd (apart b (hb.trans (Nat.lt_succ_self _)) size (Nat.lt_succ_self _) hactive h same)
        (Nat.ne_of_lt hb)
    have last : program (batch size) ((m.launch program size batch).rows (batch size).owner)
        ((m.launch program size batch).requests size) =
        (if 0 ≤ (batch size).write then
            (program (batch size) (m.rows (batch size).owner) (m.requests size)).1
          else (m.launch program size batch).rows (batch size).owner,
          (program (batch size) (m.rows (batch size).owner) (m.requests size)).2) := by
      rw [rest size le_rfl]
      split
      · next h => rw [found h]
      · next h => exact Prod.ext (skips.row _ _ _ h) (skips.buffers _ _ _ _ h)
    rw [step]
    unfold Metadata.runProgram
    rw [last]
    refine ⟨?_, ?_, ?_, ?_⟩
    · intro b hb hactive
      rcases Nat.lt_succ_iff_lt_or_eq.mp hb with lt | rfl
      · by_cases same : (batch b).owner = (batch size).owner
        · -- Only a padded request shares the row.
          have padded : ¬ 0 ≤ (batch size).write := fun h =>
            Nat.ne_of_lt lt (apart b hb size (Nat.lt_succ_self _) hactive h same)
          simp only [padded, ↓reduceIte, same, Function.update_self]
          rw [← same]
          exact active b lt hactive
        · simp only [ne_eq, same, not_false_eq_true, Function.update_of_ne]
          exact active b lt hactive
      · simp [hactive]
    · intro o other
      have before := others o fun b hb => other b (hb.trans (Nat.lt_succ_self _))
      by_cases same : o = (batch size).owner
      · have padded : ¬ 0 ≤ (batch size).write := fun h =>
          other size (Nat.lt_succ_self _) h same.symm
        simp only [padded, ↓reduceIte, same, Function.update_self]
        exact same ▸ before
      · simpa [same] using before
    · intro b hb
      rcases Nat.lt_succ_iff_lt_or_eq.mp hb with lt | rfl
      · simpa [Nat.ne_of_lt lt] using requests b lt
      · simp
    · intro b hb
      have ne : b ≠ size := by omega
      simpa [ne] using rest b (by omega)

theorem skips_lookup (sizes : Sizes) : Skips (lookup sizes) where
  row r row buffers h := by simp [lookup, h]
  buffers r row row' buffers h := by simp [lookup, h]

theorem skips_chooseVictims (sizes : Sizes) : Skips (chooseVictims sizes) where
  row r row buffers h := by simp [chooseVictims, h]
  buffers r row row' buffers h := by simp [chooseVictims, h]

theorem skips_admitMisses (sizes : Sizes) : Skips (admitMisses sizes) where
  row r row buffers h := by simp [admitMisses, h]
  buffers r row row' buffers h := by simp [admitMisses, h]

variable {size : Nat}

theorem planLru_active (sizes : Sizes) (m : Metadata) (apart : Apart size batch) {b : Nat}
    (hb : b < size) (active : 0 ≤ (batch b).write) :
    (planLru sizes size batch m).rows (batch b).owner =
        (planRow sizes (batch b) (m.rows (batch b).owner) (m.requests b)).1 ∧
      (planLru sizes size batch m).requests b =
        (planRow sizes (batch b) (m.rows (batch b).owner) (m.requests b)).2 := by
  obtain ⟨rows₁, -, requests₁, -⟩ := m.launch_spec (skips_lookup sizes) apart
  set m₁ := m.launch (lookup sizes) size batch
  obtain ⟨rows₂, -, requests₂, -⟩ := m₁.launch_spec (skips_chooseVictims sizes) apart
  set m₂ := m₁.launch (chooseVictims sizes) size batch
  obtain ⟨rows₃, -, requests₃, -⟩ := m₂.launch_spec (skips_admitMisses sizes) apart
  constructor
  · refine (rows₃ b hb active).trans ?_
    rw [rows₂ b hb active, requests₂ b hb, rows₁ b hb active, requests₁ b hb]
    rfl
  · refine (requests₃ b hb).trans ?_
    rw [rows₂ b hb active, requests₂ b hb, rows₁ b hb active, requests₁ b hb]
    rfl

theorem planLru_other (m : Metadata) (apart : Apart size batch) {o : Nat}
    (other : ∀ b < size, 0 ≤ (batch b).write → (batch b).owner ≠ o) :
    (planLru sizes size batch m).rows o = m.rows o := by
  obtain ⟨-, rows₁, -, -⟩ := m.launch_spec (skips_lookup sizes) apart
  set m₁ := m.launch (lookup sizes) size batch
  obtain ⟨-, rows₂, -, -⟩ := m₁.launch_spec (skips_chooseVictims sizes) apart
  set m₂ := m₁.launch (chooseVictims sizes) size batch
  obtain ⟨-, rows₃, -, -⟩ := m₂.launch_spec (skips_admitMisses sizes) apart
  exact ((rows₃ o other).trans (rows₂ o other)).trans (rows₁ o other)

theorem planLru_padded (m : Metadata) (apart : Apart size batch) {b : Nat} (hb : b < size)
    (padded : ¬ 0 ≤ (batch b).write) :
    ((planLru sizes size batch m).requests b).missCount = 0 ∧
      ∀ i < sizes.cap, ((planLru sizes size batch m).requests b).view i =
        sizes.rows * sizes.cache := by
  obtain ⟨-, -, requests₁, -⟩ := m.launch_spec (skips_lookup sizes) apart
  set m₁ := m.launch (lookup sizes) size batch
  obtain ⟨-, -, requests₂, -⟩ := m₁.launch_spec (skips_chooseVictims sizes) apart
  set m₂ := m₁.launch (chooseVictims sizes) size batch
  obtain ⟨-, -, requests₃, -⟩ := m₂.launch_spec (skips_admitMisses sizes) apart
  have final : (planLru sizes size batch m).requests b =
      (admitMisses sizes (batch b) (m₂.rows (batch b).owner)
        (chooseVictims sizes (batch b) (m₁.rows (batch b).owner)
          (lookup sizes (batch b) (m.rows (batch b).owner) (m.requests b)).2).2).2 := by
    refine (requests₃ b hb).trans ?_
    rw [requests₂ b hb, requests₁ b hb]
  rw [final]
  constructor
  · simp [admitMisses, chooseVictims, lookup, padded]
  · intro i hi
    simp only [admitMisses, padded, ↓reduceIte]
    exact store_of_mem (f := id) hi trivial fun _ _ _ _ => rfl

end SparseEngine.OmniKV
