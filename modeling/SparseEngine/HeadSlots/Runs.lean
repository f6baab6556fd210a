import SparseEngine.HeadSlots.Releasing

/-! `plan_append` reads the state and `apply_append` changes it. -/

namespace SparseEngine.HeadSlotAllocator

open PyM List HeadSlotAllocator Prod

variable {s s' : HeadSlotAllocator} {sid : Int} {l row r h c : Nat} {pos : List Int}

theorem consecutive_iff : consecutive pos = true ↔ pos ≠ [] ∧
    (∀ p ∈ pos, 0 ≤ p ∧ p ≤ positionLimit) ∧ pos.IsChain fun a b => b = a + 1 := by
  have hchain := all_zip_tail (R := fun a b : Int => b = a + 1) pos
  simp only [consecutive, Bool.and_eq_true, hchain, and_assoc]
  simp

theorem sorted_of_consecutive (h : consecutive pos = true) : pos.Pairwise (· < ·) := by
  rw [← isChain_iff_pairwise]
  refine (consecutive_iff.mp h).2.2.imp fun {a b} hab => ?_
  rw [hab]
  exact Int.lt_succ a

theorem head_le_of_sorted (h : pos.Pairwise (· < ·)) : ∀ q ∈ pos, pos.headD 0 ≤ q := by
  cases pos with
  | nil => simp
  | cons p pos =>
    intro q hq
    rcases mem_cons.mp hq with rfl | hq
    · exact le_rfl
    · exact ((pairwise_cons.mp h).1 q hq).le

/-- What `plan_append` checks of one row. -/
structure RowOk (s : HeadSlotAllocator) (row : Nat) (pos : List Int) : Prop where
  width : ∀ l < s.layers, ∀ h < s.heads, s.lengths l row h + pos.length ≤ s.width
  after : ∀ l < s.layers, ∀ h < s.heads, 0 < s.lengths l row h →
    s.positions l row h (s.lengths l row h - 1) < pos.headD 0

theorem checkRows_iff : ∀ (positions : List (List Int)) (rows : List Nat),
    s.checkRows positions rows = .ok () ↔ ∀ e ∈ positions.zip rows, RowOk s e.2 e.1
  | [], _ => by simp [checkRows]
  | _ :: _, [] => by simp [checkRows]
  | pos :: positions, row :: rows => by
    have hrow : RowOk s row pos ↔
        ¬ (s.layerHeads.any fun lh => decide (s.width < s.lengths lh.1 row lh.2 + pos.length)) = true ∧
        ¬ (s.layerHeads.any fun lh => decide (0 < s.lengths lh.1 row lh.2 ∧
          pos.headD 0 ≤ s.positions lh.1 row lh.2 (s.lengths lh.1 row lh.2 - 1))) = true := by
      simp only [List.any_eq_true, decide_eq_true_eq, not_exists, not_and, not_lt, not_le,
        mem_layerHeads]
      constructor
      · exact fun h => ⟨fun lh hlh => h.width _ hlh.1 _ hlh.2, fun lh hlh => h.after _ hlh.1 _ hlh.2⟩
      · exact fun h => ⟨fun l hl h' hh => h.1 (l, h') ⟨hl, hh⟩, fun l hl h' hh => h.2 (l, h') ⟨hl, hh⟩⟩
    rw [List.zip_cons_cons, List.forall_mem_cons, ← checkRows_iff positions rows, hrow, checkRows]
    split
    · next hw => exact ⟨fun h => (by cases h), fun h => absurd hw h.1.1⟩
    · next hw =>
      split
      · next ha => exact ⟨fun h => (by cases h), fun h => absurd ha h.1.2⟩
      · next ha => exact ⟨fun h => ⟨⟨hw, ha⟩, h⟩, fun h => h.2⟩

/-- What `plan_append` checks. -/
structure Plannable (s : HeadSlotAllocator) (requests : List (Int × List Int)) : Prop where
  nonempty : requests.map fst ≠ []
  distinct : (requests.map fst).Nodup
  positions : ∀ pos ∈ requests.map snd, consecutive pos = true
  enough : (requests.map fst).countP (fun sid => !s.seqRows.contains sid) ≤ s.freeRows.length
  room : HasRoom s (s.slotsNeeded (requests.map snd))
  rows : ∀ e ∈ (requests.map snd).zip (assignRows s.seqRows (requests.map fst)
    s.freeRows.reverse), RowOk s e.2 e.1

variable {requests : List (Int × List Int)} {plan : HeadAppendPlan}

theorem planAppend_iff :
    s.planAppend requests = .ok plan ↔ Plannable s requests ∧
      plan = ⟨s.generation, requests.map fst,
        assignRows s.seqRows (requests.map fst) s.freeRows.reverse,
        requests.map snd⟩ := by
  unfold planAppend
  simp only
  split
  · next hids =>
    refine ⟨fun h => (by cases h), fun hboth => ?_⟩
    have h := hboth.1
    rcases hids with hids | hids
    · exact absurd hids h.nonempty
    · exact absurd h.distinct hids
  · next hids =>
    rw [not_or, not_not] at hids
    split
    · next hpos =>
      refine ⟨fun h => (by cases h), fun hboth => ?_⟩
      have h := hboth.1
      obtain ⟨pos, hmem, hno⟩ := List.any_eq_true.mp hpos
      rw [h.positions pos hmem] at hno
      cases hno
    · next hpos =>
      rw [Bool.not_eq_true, List.any_eq_false] at hpos
      split
      · next hroom =>
        refine ⟨fun h => (by cases h), fun hboth => ?_⟩
        have h := hboth.1
        rcases hroom with hroom | hroom
        · exact absurd h.enough (not_le.mpr hroom)
        · obtain ⟨l, hl, hlt⟩ := List.any_eq_true.mp hroom
          exact absurd (h.room l (List.mem_range.mp hl)) (not_le.mpr (by simpa using hlt))
      · next hroom =>
        rw [not_or, not_lt, Bool.not_eq_true, List.any_eq_false] at hroom
        have hplan : Plannable s requests ↔ s.checkRows (requests.map snd)
            (assignRows s.seqRows (requests.map fst) s.freeRows.reverse) = .ok () := by
          rw [checkRows_iff]
          refine ⟨fun h => h.rows, fun h => ⟨hids.1, hids.2, fun pos hp => ?_, hroom.1, fun l hl => ?_, h⟩⟩
          · simpa using hpos pos hp
          · simpa using hroom.2 l (List.mem_range.mpr hl)
        rw [hplan]
        cases hcheck : s.checkRows (requests.map snd)
            (assignRows s.seqRows (requests.map fst) s.freeRows.reverse) with
        | error e => simp
        | ok u => simp [eq_comm]

theorem Inv.last_lt (hi : Inv s) (hl : l < s.layers) (hh : h < s.heads) {p : Int}
    (hp : p ∈ s.livePositions l row h) :
    0 < s.lengths l row h ∧ p ≤ s.positions l row h (s.lengths l row h - 1) := by
  obtain ⟨i, hi', rfl⟩ := List.mem_map.mp hp
  have hlt := List.mem_range.mp hi'
  have hpos : 0 < s.lengths l row h := lt_of_le_of_lt (Nat.zero_le i) hlt
  refine ⟨hpos, ?_⟩
  rcases Nat.lt_or_ge i (s.lengths l row h - 1) with hlast | hlast
  · exact (hi.positions_lt hl hh hlast (Nat.sub_lt hpos Nat.one_pos)).le
  · rw [show i = s.lengths l row h - 1 by omega]

theorem RowOk.fits (hrow : RowOk s row pos) (hi : Inv s) (hpos : consecutive pos = true) :
    Fits s row pos := by
  have hsorted := sorted_of_consecutive hpos
  refine ⟨hsorted, hrow.width, fun l hl h hh p hp q hq => ?_⟩
  obtain ⟨hlen, hle⟩ := hi.last_lt hl hh hp
  calc p ≤ s.positions l row h (s.lengths l row h - 1) := hle
    _ < pos.headD 0 := hrow.after l hl h hh hlen
    _ ≤ q := head_le_of_sorted hsorted q hq

theorem length_assignRows {d : Dict Int Nat} {ids : List Int} {next : List Nat}
    (henough : ids.countP (fun sid => !d.contains sid) ≤ next.length) :
    (assignRows d ids next).length = ids.length := by
  induction ids generalizing next with
  | nil => rfl
  | cons x ids ih =>
    rw [countP_cons] at henough
    cases hget : d.get? x with
    | some r =>
      rw [assignRows_known hget, length_cons, length_cons,
        ih (le_trans (Nat.le_add_right _ _) henough)]
    | none =>
      rw [Dict.contains_eq_false.mpr hget, Bool.not_false, if_pos rfl] at henough
      cases next with
      | nil => simp at henough
      | cons r next =>
        rw [assignRows_new hget, length_cons, length_cons,
          ih (Nat.le_of_add_le_add_right henough)]

theorem Plannable.batch (hi : Inv s) (h : Plannable s requests) :
    Batch s ((requests.map fst).zip ((assignRows s.seqRows (requests.map fst)
      s.freeRows.reverse).zip (requests.map snd))) := by
  set ids := requests.map fst with hids
  set positions := requests.map snd with hpositions
  set rows := assignRows s.seqRows ids s.freeRows.reverse with hrows
  have hlen : rows.length = ids.length :=
    length_assignRows (by rw [length_reverse]; exact h.enough)
  have hlen' : positions.length = ids.length := by simp [hids, hpositions]
  have hfst : (ids.zip (rows.zip positions)).map (·.1) = ids :=
    List.map_fst_zip (by rw [length_zip, hlen, hlen', min_self])
  have hsnd : (ids.zip (rows.zip positions)).map (·.2) = rows.zip positions :=
    List.map_snd_zip (by rw [length_zip, hlen, hlen', min_self])
  have hmid : (ids.zip (rows.zip positions)).map (·.2.1) = rows := by
    have := congrArg (List.map fst) hsnd
    rw [List.map_map, List.map_fst_zip (by rw [hlen, hlen'])] at this
    exact this
  have hlast : (ids.zip (rows.zip positions)).map (·.2.2) = positions := by
    have := congrArg (List.map snd) hsnd
    rw [List.map_map, List.map_snd_zip (by rw [hlen, hlen'])] at this
    exact this
  refine ⟨by rw [hfst]; exact h.distinct, by rw [hfst, hmid], by rw [hfst]; exact h.enough,
    fun e he => ?_, by rw [hlast]; exact h.room⟩
  have he2 : e.2 ∈ rows.zip positions := hsnd ▸ List.mem_map_of_mem he
  have hswap : (e.2.2, e.2.1) ∈ positions.zip rows := by
    rw [← zip_swap]
    exact List.mem_map.mpr ⟨e.2, he2, rfl⟩
  exact (h.rows _ hswap).fits hi (h.positions _ (of_mem_zip he2).2)

theorem applyAppend_fresh (hi : Inv s) (hplan : s.planAppend requests = .ok plan) :
    ∃ writes s', applyAppend plan s = (.ok writes, s') ∧ Inv s' ∧ SameShape s s' ∧
      s'.generation = s.generation + 1 := by
  obtain ⟨hplannable, rfl⟩ := planAppend_iff.mp hplan
  obtain ⟨writes, s₁, hrun, hi₁, hshape, hgen⟩ := appendLoop_spec _ [] s hi (hplannable.batch hi)
  refine ⟨writes, { s₁ with generation := s₁.generation + 1 }, ?_,
    { hi₁ with },
    { hshape with }, congrArg (· + 1) hgen⟩
  simp only [applyAppend, bind_run, get_run, raiseIf, ne_eq, not_true_eq_false, if_false, hrun,
    modify_run, pure_run]

theorem applyAppend_stale (h : plan.generation ≠ s.generation) :
    applyAppend plan s =
      (.error (.runtimeError "Stale head-slot append plan; capacity changed."), s) := by
  simp only [applyAppend, bind_run, get_run, raiseIf, if_pos h]

def RoomFor (s : HeadSlotAllocator) (sid : Int) (n : Nat) : Prop :=
  match s.seqRows.get? sid with
  | none => s.freeRows ≠ [] ∧ n ≤ s.width
  | some row => ∀ l < s.layers, ∀ h < s.heads, s.lengths l row h + n ≤ s.width

theorem le_of_min? {xs : List Int} {a : Int} (h : xs.min? = some a) (n : Int) :
    n ≤ a ↔ ∀ b ∈ xs, n ≤ b := le_min?_iff h

theorem exists_min? {xs : List Int} (h : xs ≠ []) : ∃ a, xs.min? = some a := by
  cases hmin : xs.min? with
  | none => exact absurd (min?_eq_none_iff.mp hmin) h
  | some a => exact ⟨a, rfl⟩

theorem appendCapacity_spec (hi : Inv s) (sid : Int) : ∃ cap, s.appendCapacity sid = .ok cap ∧
    0 ≤ cap ∧ ∀ n : Nat, 0 < n → ((n : Int) ≤ cap ↔ HasRoom s (n * s.heads) ∧ RoomFor s sid n) := by
  obtain ⟨hheads, -, hlayers⟩ := hi.positive
  set byLayer := (List.range s.layers).map fun l => (s.freeCounts l : Int) / s.heads with hby
  have hbyLayer : (List.range s.layers).mapM (s.layerCapacity []) = .ok byLayer :=
    mapM_ok fun l _ => by rw [layerCapacity, if_pos rfl]
  have hne : byLayer ≠ [] := by
    rw [hby]
    simp only [ne_eq, map_eq_nil_iff, range_eq_nil]
    omega
  obtain ⟨available, havailable⟩ := exists_min? hne
  have hroom : ∀ n : Nat, (n : Int) ≤ available ↔ HasRoom s (n * s.heads) := by
    intro n
    rw [le_of_min? havailable, hby, forall_mem_map]
    refine forall_congr' fun l => ?_
    rw [List.mem_range, Int.le_ediv_iff_mul_le (by exact_mod_cast hheads)]
    exact imp_congr_right fun _ => by exact_mod_cast Iff.rfl
  unfold appendCapacity
  rw [hbyLayer]
  simp only [bind, Except.bind, havailable, RoomFor]
  cases hget : s.seqRows.get? sid with
  | none =>
    cases hfree : s.freeRows with
    | nil => exact ⟨0, rfl, le_rfl, fun n hn => by simp; omega⟩
    | cons r free =>
      refine ⟨max 0 (min available s.width), rfl, le_max_left _ _, fun n hn => ?_⟩
      rw [le_max_iff, le_min_iff, hroom]
      simp only [ne_eq, reduceCtorEq, not_false_eq_true, true_and, Nat.cast_le]
      exact or_iff_right (by omega)
  | some row =>
    have hne : s.layerHeads.map (fun lh => (s.width : Int) - s.lengths lh.1 row lh.2) ≠ [] := by
      intro hnil
      have hmem : ((0, 0) : Nat × Nat) ∈ s.layerHeads := mem_layerHeads.mpr ⟨hlayers, hheads⟩
      rw [map_eq_nil_iff.mp hnil] at hmem
      simp at hmem
    obtain ⟨left, hleft⟩ := exists_min? hne
    simp only [hleft]
    refine ⟨max 0 (min available left), rfl, le_max_left _ _, fun n hn => ?_⟩
    rw [le_max_iff, le_min_iff, hroom, le_of_min? hleft, forall_mem_map]
    rw [or_iff_right (by omega)]
    refine and_congr_right fun _ => ?_
    constructor
    · intro hall l hl h hh
      have := hall (l, h) (mem_layerHeads.mpr ⟨hl, hh⟩)
      simp only at this
      omega
    · intro hall lh hlh
      obtain ⟨hl, hh⟩ := mem_layerHeads.mp hlh
      have := hall lh.1 hl lh.2 hh
      omega

/-- `pos` comes after what the sequence holds. -/
def Follows (s : HeadSlotAllocator) (sid : Int) (pos : List Int) : Prop :=
  ∀ row, s.seqRows.get? sid = some row → ∀ l < s.layers, ∀ h < s.heads,
    ∀ p ∈ s.livePositions l row h, p < pos.headD 0

theorem slotsNeeded_one (s : HeadSlotAllocator) (pos : List Int) :
    s.slotsNeeded [pos] = pos.length * s.heads := by
  rw [slotsNeeded_cons]
  rfl

theorem planOne_iff (hi : Inv s) (hpos : consecutive pos = true) (hfollows : Follows s sid pos) :
    (∃ plan, s.planAppend [(sid, pos)] = .ok plan) ↔
      HasRoom s (pos.length * s.heads) ∧ RoomFor s sid pos.length := by
  have hplan : (∃ plan, s.planAppend [(sid, pos)] = .ok plan) ↔ Plannable s [(sid, pos)] := by
    constructor
    · rintro ⟨plan, hplan⟩
      exact (planAppend_iff.mp hplan).1
    · exact fun h => ⟨_, planAppend_iff.mpr ⟨h, rfl⟩⟩
  rw [hplan]
  cases hget : s.seqRows.get? sid with
  | some row =>
    have hroom : RoomFor s sid pos.length ↔
        ∀ l < s.layers, ∀ h < s.heads, s.lengths l row h + pos.length ≤ s.width := by
      simp only [RoomFor, hget]
    have hrows : assignRows s.seqRows [sid] s.freeRows.reverse = [row] := by
      rw [assignRows_known hget]
      rfl
    rw [hroom, ← slotsNeeded_one]
    constructor
    · intro h
      refine ⟨h.room, (h.rows (pos, row) ?_).width⟩
      simp [hrows]
    · rintro ⟨hslots, hwidth⟩
      refine ⟨by simp, by simp, by simpa using hpos, ?_, hslots, ?_⟩
      · simp [Dict.contains_iff.mpr ⟨row, hget⟩]
      · simp only [List.map_cons, List.map_nil, hrows, List.zip_cons_cons, List.zip_nil_left,
          List.mem_singleton, forall_eq]
        refine ⟨hwidth, fun l hl h hh hlen => hfollows row hget l hl h hh _ ?_⟩
        exact List.mem_map.mpr ⟨_, List.mem_range.mpr (Nat.sub_lt hlen Nat.one_pos), rfl⟩
  | none =>
    have hroom : RoomFor s sid pos.length ↔ s.freeRows ≠ [] ∧ pos.length ≤ s.width := by
      simp only [RoomFor, hget]
    rw [hroom, ← slotsNeeded_one]
    rcases eq_nil_or_concat s.freeRows with hnil | ⟨free, row, hfree⟩
    · refine ⟨fun h => ?_, fun h => absurd hnil h.2.1⟩
      have henough := h.enough
      simp [hnil, Dict.contains_eq_false.mpr hget] at henough
    · have hmem : row ∈ s.freeRows := by rw [hfree]; simp
      have hidle := hi.idle row hmem
      have hrows : assignRows s.seqRows [sid] s.freeRows.reverse = [row] := by
        rw [hfree, concat_eq_append, reverse_append, reverse_singleton,
          singleton_append, assignRows_new hget]
        rfl
      obtain ⟨hheads, -, hlayers⟩ := hi.positive
      constructor
      · intro h
        have hwidth := (h.rows (pos, row) (by simp [hrows])).width 0 hlayers 0 hheads
        rw [hidle, Nat.zero_add] at hwidth
        exact ⟨h.room, ne_nil_of_mem hmem, hwidth⟩
      · rintro ⟨hslots, -, hwidth⟩
        refine ⟨by simp, by simp, by simpa using hpos, ?_, hslots, ?_⟩
        · simp [Dict.contains_eq_false.mpr hget, hfree]
        · simp only [List.map_cons, List.map_nil, hrows, List.zip_cons_cons, List.zip_nil_left,
            List.mem_singleton, forall_eq]
          refine ⟨fun l _ h _ => by rw [hidle, Nat.zero_add]; exact hwidth, fun l _ h _ hlen => ?_⟩
          rw [hidle] at hlen
          exact absurd hlen (Nat.lt_irrefl 0)

inductive Reachable (capacities : List Nat) (heads width rows : Nat) :
    HeadSlotAllocator → List HeadAppendPlan → Prop
  | create {s : HeadSlotAllocator} : HeadSlotAllocator.create capacities heads width rows = .ok s →
      Reachable capacities heads width rows s []
  | planAppend {s : HeadSlotAllocator} {plans : List HeadAppendPlan} {plan : HeadAppendPlan}
      (requests : List (Int × List Int)) : Reachable capacities heads width rows s plans →
      s.planAppend requests = .ok plan → Reachable capacities heads width rows s (plan :: plans)
  | applyAppend {s : HeadSlotAllocator} {plans : List HeadAppendPlan} {plan : HeadAppendPlan} :
      Reachable capacities heads width rows s plans → plan ∈ plans →
      Reachable capacities heads width rows (applyAppend plan s).2 plans
  | compact {s : HeadSlotAllocator} {plans : List HeadAppendPlan} (seqId : Int)
      (selections : List (List (Option (List Int)))) :
      Reachable capacities heads width rows s plans →
      Reachable capacities heads width rows (HeadSlotAllocator.compact seqId selections s).2 plans
  | freeSeq {s : HeadSlotAllocator} {plans : List HeadAppendPlan} (seqId : Int) :
      Reachable capacities heads width rows s plans →
      Reachable capacities heads width rows (freeSeq seqId s).2 plans

theorem inv_create {capacities : List Nat} {heads width rows : Nat}
    (h : create capacities heads width rows = .ok s) :
    Inv s ∧ s.capacities = capacities ∧ s.rows = rows := by
  unfold create at h
  split at h
  · cases h
  · next hpos =>
    rw [not_or] at hpos
    cases h
    have hne : ∀ n ∈ capacities ++ [heads, width, rows], 0 < n := fun n hn =>
      Nat.pos_of_ne_zero fun e => hpos.2 (e ▸ hn)
    refine ⟨⟨⟨hne _ (by simp [fresh]), hne _ (by simp [fresh]), length_pos_of_ne_nil hpos.1⟩, fun l _ => ?_,
      nodup_reverse.mpr nodup_range, fun r hr => by simpa [fresh] using hr,
      fun sid r hr => by simp [fresh] at hr, fun r hr => by simpa [fresh] using hr,
      fun sid sid' r hr => by simp [fresh] at hr, fun r _ l h => rfl, fun l _ r h _ => Nat.zero_le _,
      fun l r h c _ => ⟨rfl, rfl⟩, fun l _ r h _ => List.Pairwise.nil⟩, rfl, rfl⟩
    have hlive : ∀ r ∈ Finset.range rows, ∑ h ∈ Finset.range heads,
        (([] : List Int) : Multiset Int) = 0 := fun r _ => by simp
    exact (congrArg _ (Finset.sum_eq_zero hlive)).trans (add_zero _)

def PlansKnown (s : HeadSlotAllocator) (plans : List HeadAppendPlan) : Prop :=
  ∀ plan ∈ plans, plan.generation ≤ s.generation ∧
    (plan.generation = s.generation → ∃ requests, s.planAppend requests = .ok plan)

theorem PlansKnown.outdated {plans : List HeadAppendPlan} (h : PlansKnown s plans)
    (hgen : s'.generation = s.generation + 1) : PlansKnown s' plans := by
  intro plan hplan
  have hle := (h plan hplan).1
  rw [hgen]
  exact ⟨hle.trans (Nat.le_succ _), fun e => absurd (e ▸ hle) (Nat.not_succ_le_self _)⟩

theorem compact_raises {selections : List (List (Option (List Int)))} {e : PyError}
    (h : s.validateSelection sid selections = .error e) :
    compact sid selections s = (.error e, s) := by
  simp only [compact, bind_run, get_run, lift_run, h]

variable {capacities : List Nat} {heads width rows : Nat} {plans : List HeadAppendPlan}

theorem Reachable.inv (h : Reachable capacities heads width rows s plans) :
    (Inv s ∧ s.capacities = capacities ∧ s.rows = rows) ∧ PlansKnown s plans := by
  induction h with
  | create hs => exact ⟨inv_create hs, by simp [PlansKnown]⟩
  | @planAppend s plans plan requests _ hplan ih =>
    refine ⟨ih.1, List.forall_mem_cons.mpr ⟨?_, ih.2⟩⟩
    obtain ⟨-, rfl⟩ := planAppend_iff.mp hplan
    exact ⟨le_rfl, fun _ => ⟨requests, hplan⟩⟩
  | @applyAppend s plans plan _ hmem ih =>
    obtain ⟨⟨hi, hcap, hrows⟩, hknown⟩ := ih
    by_cases hgen : plan.generation = s.generation
    · obtain ⟨requests, hplan⟩ := (hknown plan hmem).2 hgen
      obtain ⟨writes, s', hrun, hi', hshape, hgen'⟩ := applyAppend_fresh hi hplan
      rw [hrun]
      exact ⟨⟨hi', hshape.capacities.trans hcap, hshape.rows.trans hrows⟩, hknown.outdated hgen'⟩
    · rw [applyAppend_stale hgen]
      exact ⟨⟨hi, hcap, hrows⟩, hknown⟩
  | @compact s plans seqId selections _ ih =>
    obtain ⟨⟨hi, hcap, hrows⟩, hknown⟩ := ih
    cases hsel : s.validateSelection seqId selections with
    | error e =>
      rw [compact_raises hsel]
      exact ⟨⟨hi, hcap, hrows⟩, hknown⟩
    | ok row =>
      obtain ⟨released, s', hrun, hi', hshape, -, -, hgen, -⟩ := compact_spec hi hsel
      rw [hrun]
      exact ⟨⟨hi', hshape.capacities.trans hcap, hshape.rows.trans hrows⟩, hknown.outdated hgen⟩
  | @freeSeq s plans seqId _ ih =>
    obtain ⟨⟨hi, hcap, hrows⟩, hknown⟩ := ih
    obtain ⟨s', hrun, hi', hshape, hsame⟩ := freeSeq_spec hi seqId
    rw [hrun]
    refine ⟨⟨hi', hshape.capacities.trans hcap, hshape.rows.trans hrows⟩, ?_⟩
    rcases hsame with rfl | hgen
    · exact hknown
    · exact hknown.outdated hgen

theorem Inv.live_iff (hi : Inv s) (hl : l < s.layers) (hr : r < s.rows) (hh : h < s.heads) :
    0 ≤ s.slots l r h c ↔ c < s.lengths l r h := by
  constructor
  · intro hslot
    by_contra hc
    rw [(hi.blank l r h c (not_lt.mp hc)).1] at hslot
    exact absurd hslot (by decide)
  · intro hc
    have hmem : s.slots l r h c ∈ s.liveIds l := by
      refine Multiset.mem_sum.mpr ⟨r, Finset.mem_range.mpr hr, Multiset.mem_sum.mpr
        ⟨h, Finset.mem_range.mpr hh, ?_⟩⟩
      exact Multiset.mem_coe.mpr (List.mem_map_of_mem (List.mem_range.mpr hc))
    have hall : s.slots l r h c ∈ s.allIds l := by
      rw [← hi.partition l hl]
      exact Multiset.mem_add.mpr (Or.inr hmem)
    obtain ⟨n, -, hn⟩ := List.mem_map.mp (Multiset.mem_coe.mp hall)
    exact hn ▸ Int.natCast_nonneg n

/-- In every state of every run: the free slots and the live cells of a layer are its slots, each
once; a row is free or owned by one sequence. -/
theorem head_slot_invariants (h : Reachable capacities heads width rows s plans) :
    (∀ l < capacities.length, (s.freeIds l : Multiset Int) + s.liveIds l =
      ((List.range (capacities.getD l 0)).map Int.ofNat : List Int)) ∧
    (s.freeRows.Nodup ∧ (∀ r ∈ s.freeRows, r < rows) ∧
      (∀ sid r, s.seqRows.get? sid = some r → r < rows) ∧
      ∀ r < rows, (r ∈ s.freeRows ∧ ∀ sid, s.seqRows.get? sid ≠ some r) ∨
        (r ∉ s.freeRows ∧ ∃! sid, s.seqRows.get? sid = some r)) ∧
    (∀ l < capacities.length, ∀ r < rows, ∀ h < s.heads,
      (∀ c, 0 ≤ s.slots l r h c ↔ c < s.lengths l r h) ∧
      (s.livePositions l r h).Pairwise (· < ·)) ∧
    (∀ requests plan, s.planAppend requests = .ok plan →
      ∃ writes s', applyAppend plan s = (.ok writes, s')) ∧
    (∀ plan ∈ plans, (∃ requests, s.planAppend requests = .ok plan) ∨
      applyAppend plan s =
        (.error (.runtimeError "Stale head-slot append plan; capacity changed."), s)) ∧
    (∀ sid selections, (∃ e, compact sid selections s = (.error e, s)) ∨
      ∃ row released s', s.seqRows.get? sid = some row ∧
        compact sid selections s = (.ok released, s') ∧
        (∀ l < capacities.length, ∀ h < s.heads, s'.livePairs l row h =
          ((selectionAt selections l h).getD []).map fun i =>
            (s.slots l row h i.toNat, s.positions l row h i.toNat)) ∧
        ∀ l r h, r ≠ row → s'.livePairs l r h = s.livePairs l r h) ∧
    ∀ sid, ∃ cap, s.appendCapacity sid = .ok cap ∧ ∀ pos, consecutive pos = true →
      Follows s sid pos →
      ((∃ plan, s.planAppend [(sid, pos)] = .ok plan) ↔ (pos.length : Int) ≤ cap) := by
  obtain ⟨⟨hi, rfl, rfl⟩, hknown⟩ := h.inv
  refine ⟨hi.partition, ⟨hi.freeRows_nodup, hi.freeRows_lt, hi.owned_lt, fun r hr => ?_⟩,
    fun l hl r hr h hh => ⟨fun c => hi.live_iff hl hr hh, hi.increasing l hl r h hh⟩,
    fun requests plan hplan => ?_, fun plan hmem => ?_, fun sid selections => ?_, fun sid => ?_⟩
  · by_cases hfree : r ∈ s.freeRows
    · exact Or.inl ⟨hfree, (hi.owner r hr).mp hfree⟩
    · have howned := hfree
      rw [hi.owner r hr] at howned
      push Not at howned
      obtain ⟨sid, hsid⟩ := howned
      exact Or.inr ⟨hfree, sid, hsid, fun sid' hsid' => hi.unique sid' sid r hsid' hsid⟩
  · obtain ⟨writes, s', hrun, -⟩ := applyAppend_fresh hi hplan
    exact ⟨writes, s', hrun⟩
  · by_cases hgen : plan.generation = s.generation
    · exact Or.inl ((hknown plan hmem).2 hgen)
    · exact Or.inr (applyAppend_stale hgen)
  · cases hsel : s.validateSelection sid selections with
    | error e => exact Or.inl ⟨e, compact_raises hsel⟩
    | ok row =>
      obtain ⟨released, s', hrun, -, -, hsid, -, -, hkept, hrest⟩ := compact_spec hi hsel
      exact Or.inr ⟨row, released, s', hsid, hrun, hkept, hrest⟩
  · obtain ⟨cap, hrun, -, hcap⟩ := appendCapacity_spec hi sid
    refine ⟨cap, hrun, fun pos hpos hfollows => ?_⟩
    rw [hcap _ (length_pos_of_ne_nil (consecutive_iff.mp hpos).1)]
    exact planOne_iff hi hpos hfollows

def demoAllocator : HeadSlotAllocator :=
  (applyAppend ⟨0, [7], [0], [[4, 5]]⟩ (fresh [6] 2 3 1)).2

theorem demoAllocator_reachable :
    Reachable [6] 2 3 1 demoAllocator [⟨0, [7], [0], [[4, 5]]⟩] :=
  .applyAppend (.planAppend [(7, [4, 5])] (.create rfl) rfl) mem_cons_self

theorem head_slot_invariants_demo : demoAllocator.freeIds 0 = [0, 1] ∧
    demoAllocator.cells 0 0 1 = [3, 5] ∧
    (demoAllocator.freeIds 0 : Multiset Int) + demoAllocator.liveIds 0 =
      ([0, 1, 2, 3, 4, 5] : List Int) ∧
    demoAllocator.appendCapacity 7 = .ok 1 ∧
    ∃ plan, demoAllocator.planAppend [(7, [9])] = .ok plan := by
  obtain ⟨hpartition, -, -, -, -, -, hcapacity⟩ := head_slot_invariants demoAllocator_reachable
  obtain ⟨cap, hcap, hplan⟩ := hcapacity 7
  have hone : demoAllocator.appendCapacity 7 = .ok 1 := by decide
  obtain rfl : cap = 1 := Except.ok.inj (hcap.symm.trans hone)
  refine ⟨by decide, by decide, hpartition 0 (by decide), hone, (hplan [9] (by decide) ?_).mpr le_rfl⟩
  have hpos : ∀ l < 1, ∀ h < 2, ∀ p ∈ demoAllocator.livePositions l 0 h, p < 9 := by decide
  intro row hrow l hl h hh p hp
  have hown : demoAllocator.seqRows.get? 7 = some 0 := rfl
  obtain rfl : 0 = row := Option.some.inj (hown.symm.trans hrow)
  exact hpos l hl h hh p hp

def limitAllocator : HeadSlotAllocator :=
  (applyAppend ⟨0, [7], [0], [[positionLimit]]⟩ (fresh [2] 1 2 1)).2

/-- After the last position one more token has a slot and a column, and no position. -/
theorem not_appendCapacity_plannable :
    Reachable [2] 1 2 1 limitAllocator [⟨0, [7], [0], [[positionLimit]]⟩] ∧
      limitAllocator.appendCapacity 7 = .ok 1 ∧
      ∀ p plan, limitAllocator.planAppend [(7, [p])] ≠ .ok plan := by
  refine ⟨.applyAppend (.planAppend [(7, [positionLimit])] (.create rfl) rfl) mem_cons_self,
    by decide, fun p plan hplan => ?_⟩
  obtain ⟨hplannable, -⟩ := planAppend_iff.mp hplan
  have hle := ((consecutive_iff.mp (hplannable.positions [p] (by simp))).2.1 p (by simp)).2
  have hrow : RowOk limitAllocator 0 [p] :=
    hplannable.rows ([p], 0) (mem_cons_self)
  have hlt : positionLimit < p := hrow.after 0 (by decide) 0 (by decide) (by decide)
  exact absurd hle (not_le.mpr hlt)

end SparseEngine.HeadSlotAllocator
