import SparseEngine.Lib.Py
import SparseEngine.Lib.TopSelection

/-! `select_adakv_indices` chooses, for the heads of one layer, which tokens to keep. -/

namespace SparseEngine.AdaKV

open List Finset

/-- A tensor of `heads` by `width`. -/
structure ScoreMatrix (R : Type) where
  rows : List (List (WithBot R))
  width : Nat
  rect : ∀ row ∈ rows, row.length = width

structure Options where
  budget : Nat
  alpha : Rat
  sinkKeep : Nat
  recentKeep : Nat
  poolKernelSize : Nat
  round : Rat → Rat

variable {R : Type} [LinearOrder R]

def ScoreMatrix.cell (scores : ScoreMatrix R) (h c : Nat) : WithBot R :=
  (scores.rows[h]?.bind (·[c]?)).getD ⊥

/-- `lengths[h]`. -/
def lengthAt (lengths : List Nat) (h : Nat) : Nat := lengths.getD h 0

def valid (lengths : List Nat) (h c : Nat) : Bool := c < lengthAt lengths h

def maskedFill (mask : Nat → Nat → Bool) (scores : Nat → Nat → WithBot R) (h c : Nat) : WithBot R :=
  if mask h c then ⊥ else scores h c

/-- `F.max_pool1d` with stride 1 and padding `kernel // 2`. -/
def maxPool (kernel width : Nat) (scores : Nat → Nat → WithBot R) (h c : Nat) : WithBot R :=
  ((List.range width).filter fun j => c ≤ j + kernel / 2 ∧ j + kernel / 2 < c + kernel).foldr
    (fun j best => max (scores h j) best) ⊥

def pooledScores (scores : ScoreMatrix R) (lengths : List Nat) (kernel : Nat) :
    Nat → Nat → WithBot R :=
  let masked := maskedFill (fun h c => !valid lengths h c) scores.cell
  if kernel > 1 then maxPool kernel scores.width masked else masked

/-- `torch.argsort(descending=True, stable=True)`. -/
def argsort {ι : Type} (key : ι → WithBot R) (l : List ι) : List ι :=
  l.mergeSort fun a b => key b ≤ key a

/-- `order[:count]`. A negative count is taken from the end. -/
def sliceTo {ι : Type} (count : Int) (l : List ι) : List ι :=
  l.take (if count < 0 then l.length + count else count).toNat

namespace Options

variable (o : Options)

/-- `max(1, math.floor(budget * alpha))`. -/
def floor : Nat := max 1 (⌊o.round (o.budget * o.alpha)⌋).toNat

def sink (n : Nat) : Nat := min n o.sinkKeep

def recent (n : Nat) : Nat := min (n - o.sink n) o.recentKeep

def minimum (n : Nat) : Nat := min n (max o.floor (o.sink n + o.recent n))

def extra (n : Nat) : Nat := o.minimum n - o.sink n - o.recent n

def isProtected (lengths : List Nat) (h c : Nat) : Bool :=
  let n := lengthAt lengths h
  (c < o.sink n || n - o.recent n ≤ c) && valid lengths h c

end Options

/-- The tokens of a layer. -/
structure Layer (R : Type) where
  lengths : List Nat
  width : Nat
  pooled : Nat → Nat → WithBot R

def Layer.openScores (l : Layer R) (selected : Nat → Nat → Bool) : Nat → Nat → WithBot R :=
  maskedFill (fun h c => selected h c || !valid l.lengths h c) l.pooled

/-- The cells of the matrix. -/
def cells (heads width : Nat) : List (Nat × Nat) :=
  (List.range heads).flatMap fun h => (List.range width).map fun c => (h, c)

namespace Options

variable (o : Options) (l : Layer R)

/-- The best `extra` of a head. -/
def safeOrder (h : Nat) : List Nat :=
  (argsort (l.openScores (o.isProtected l.lengths) h) (List.range l.width)).take
    (o.extra (lengthAt l.lengths h))

/-- `selected` after the first phase. -/
def isFirst (h c : Nat) : Bool := o.isProtected l.lengths h c || decide (c ∈ o.safeOrder l h)

/-- The best `remaining` of all heads. -/
def globalOrder (remaining : Int) : List (Nat × Nat) :=
  sliceTo remaining (argsort (fun x => l.openScores (o.isFirst l) x.1 x.2)
    (cells l.lengths.length l.width))

/-- `selected` after both phases. -/
def isSelected (remaining : Int) (h c : Nat) : Bool :=
  o.isFirst l h c || remaining ≠ 0 && (h, c) ∈ o.globalOrder l remaining

end Options

/-- `torch.nonzero(selected[h, :n])` for every head. -/
def nonzeroRows (lengths : List Nat) (selected : Nat → Nat → Bool) : List (List Nat) :=
  lengths.zipIdx.map fun e => (List.range e.1).filter (selected e.2)

def selectAdakvIndices (scores : ScoreMatrix R) (lengths : List Nat) (o : Options) :
    Except PyError (List (List Nat)) := do
  if scores.rows.length ≠ lengths.length ∨ lengths = [] ∨
      ∃ n ∈ lengths, n = 0 ∨ n > scores.width then
    throw (.valueError "AdaKV requires nonempty candidate lengths within [heads, width].")
  if o.budget < 1 ∨ ¬ (0 < o.alpha ∧ o.alpha ≤ 1) then
    throw (.valueError "AdaKV requires a positive budget and alpha in (0, 1].")
  if o.sinkKeep + o.recentKeep > o.budget ∨ o.poolKernelSize < 1 then
    throw (.valueError "Invalid AdaKV protected-token or pooling configuration.")
  if ∃ h < lengths.length, ∃ c < lengthAt lengths h, scores.cell h c = ⊥ then
    throw (.valueError "AdaKV candidate scores contain NaN or infinity.")
  let target := min lengths.sum (lengths.length * o.budget)
  if target = lengths.sum then return lengths.map List.range
  let l : Layer R := ⟨lengths, scores.width, pooledScores scores lengths o.poolKernelSize⟩
  let remaining := (target : Int) - ((lengths.map o.minimum).sum : Nat)
  let indices := nonzeroRows lengths (o.isSelected l remaining)
  if (indices.map List.length).sum ≠ target ∨
      ∃ e ∈ indices.zip (lengths.map o.minimum), e.1.length < e.2 then
    throw (.runtimeError "AdaKV selection violated total budget or per-head safeguard.")
  return indices

def cellList (choice : List (List Nat)) : List (Nat × Nat) :=
  (List.range choice.length).flatMap fun h => (choice.getD h []).map fun c => (h, c)

def totalScore [AddCommGroup R] (pooled : Nat → Nat → WithBot R) (choice : List (List Nat)) : R :=
  ((cellList choice).map fun x => (pooled x.1 x.2).unbotD 0).sum

structure Admitted (scores : ScoreMatrix R) (lengths : List Nat) (o : Options) : Prop where
  heads : scores.rows.length = lengths.length
  nonempty : lengths ≠ []
  inside : ∀ n ∈ lengths, 0 < n ∧ n ≤ scores.width
  budget : 1 ≤ o.budget
  alpha : 0 < o.alpha ∧ o.alpha ≤ 1
  kept : o.sinkKeep + o.recentKeep ≤ o.budget
  kernel : 1 ≤ o.poolKernelSize
  finite : ∀ h < lengths.length, ∀ c < lengthAt lengths h, scores.cell h c ≠ ⊥

/-- The choice spends the budget and keeps every floor. -/
structure Allowed (lengths : List Nat) (o : Options) (choice : List (List Nat)) : Prop where
  heads : choice.length = lengths.length
  sorted : ∀ h < lengths.length, (choice.getD h []).Pairwise (· < ·)
  below : ∀ h < lengths.length, ∀ c ∈ choice.getD h [], c < lengthAt lengths h
  keeps : ∀ h < lengths.length, ∀ c < lengthAt lengths h,
    c < o.sinkKeep ∨ lengthAt lengths h ≤ c + o.recentKeep → c ∈ choice.getD h []
  floor : ∀ h < lengths.length, o.minimum (lengthAt lengths h) ≤ (choice.getD h []).length
  total : (choice.map List.length).sum = min lengths.sum (lengths.length * o.budget)

section

variable {choice : List (List Nat)} {lengths : List Nat} {o : Options} {heads width : Nat}

theorem mem_cellList {x : Nat × Nat} :
    x ∈ cellList choice ↔ x.1 < choice.length ∧ x.2 ∈ choice.getD x.1 [] := by
  obtain ⟨h, c⟩ := x
  simp only [cellList, List.mem_flatMap, List.mem_range, List.mem_map, Prod.mk.injEq]
  constructor
  · rintro ⟨h', hlt, c', hc, rfl, rfl⟩
    exact ⟨hlt, hc⟩
  · rintro ⟨hlt, hc⟩
    exact ⟨h, hlt, c, hc, rfl, rfl⟩

theorem nodup_headMajor {f : Nat → List Nat} (hf : ∀ h < heads, (f h).Nodup) :
    ((List.range heads).flatMap fun h => (f h).map fun c => (h, c)).Nodup := by
  refine List.nodup_flatMap.mpr ⟨fun h hh => ?_, ?_⟩
  · exact (hf h (List.mem_range.mp hh)).map fun _ _ heq => (Prod.mk.inj heq).2
  · refine List.nodup_range.imp fun hne => ?_
    refine disjoint_left.mpr fun x hx hx' => hne ?_
    obtain ⟨c, -, rfl⟩ := List.mem_map.mp hx
    obtain ⟨c', -, heq⟩ := List.mem_map.mp hx'
    exact (Prod.mk.inj heq).1.symm

theorem nodup_cells : (cells heads width).Nodup := nodup_headMajor fun _ _ => List.nodup_range

theorem mem_cells {x : Nat × Nat} : x ∈ cells heads width ↔ x.1 < heads ∧ x.2 < width := by
  obtain ⟨h, c⟩ := x
  simp [cells, List.mem_flatMap, List.mem_map]

theorem length_cellList : (cellList choice).length = (choice.map List.length).sum := by
  have hget : (List.range choice.length).map (fun h => choice.getD h []) = choice := by
    refine List.ext_getElem (by simp) fun i hi _ => ?_
    have hlt : i < choice.length := by simpa using hi
    simp [hlt]
  calc (cellList choice).length
      = ((List.range choice.length).map fun h => (choice.getD h []).length).sum := by
        simp [cellList, List.length_flatMap]
    _ = (((List.range choice.length).map fun h => choice.getD h []).map List.length).sum := by
        rw [List.map_map]
        rfl
    _ = (choice.map List.length).sum := by rw [hget]

def tokens (lengths : List Nat) : Finset (Nat × Nat) :=
  (cellList (lengths.map List.range)).toFinset

theorem getD_map_range {h : Nat} (hh : h < lengths.length) :
    (lengths.map List.range).getD h [] = List.range (lengthAt lengths h) := by
  simp [lengthAt, List.getD, hh]

theorem mem_tokens {x : Nat × Nat} :
    x ∈ tokens lengths ↔ x.1 < lengths.length ∧ x.2 < lengthAt lengths x.1 := by
  rw [tokens, List.mem_toFinset, mem_cellList, length_map]
  refine and_congr_right fun hh => ?_
  rw [getD_map_range hh, List.mem_range]

variable (hnodup : ∀ h < choice.length, (choice.getD h []).Nodup)

include hnodup

theorem card_cellList : (cellList choice).toFinset.card = (choice.map List.length).sum := by
  have hcells : (cellList choice).Nodup := nodup_headMajor hnodup
  rw [toFinset_card_of_nodup hcells]
  exact length_cellList

theorem card_inGroup {h : Nat} (hh : h < choice.length) :
    (inGroup Prod.fst (cellList choice).toFinset h).card = (choice.getD h []).length := by
  have heq : inGroup Prod.fst (cellList choice).toFinset h =
      ((choice.getD h []).map fun c => (h, c)).toFinset := by
    ext ⟨h', c⟩
    rw [mem_inGroup, List.mem_toFinset, List.mem_toFinset, mem_cellList, List.mem_map]
    constructor
    · rintro ⟨⟨-, hc⟩, rfl⟩
      exact ⟨c, hc, rfl⟩
    · rintro ⟨c', hc, heq⟩
      cases heq
      exact ⟨⟨hh, hc⟩, rfl⟩
  rw [heq, toFinset_card_of_nodup
    ((hnodup h hh).map fun _ _ heq => (Prod.mk.inj heq).2), length_map]

end

section

omit [LinearOrder R]

variable {scores : ScoreMatrix R} {lengths : List Nat} {o : Options} {n h c : Nat}

theorem isProtected_iff :
    o.isProtected lengths h c = true ↔ c < lengthAt lengths h ∧
      (c < o.sinkKeep ∨ lengthAt lengths h ≤ c + o.recentKeep) := by
  simp [Options.isProtected, valid, Options.sink, Options.recent]
  omega

theorem open_iff : c < lengthAt lengths h ∧ ¬ o.isProtected lengths h c = true ↔
    o.sink (lengthAt lengths h) ≤ c ∧
      c < lengthAt lengths h - o.recent (lengthAt lengths h) := by
  rw [isProtected_iff]
  simp only [Options.sink, Options.recent]
  omega

theorem kept_le_minimum (n : Nat) : o.sink n + o.recent n ≤ o.minimum n := by
  simp only [Options.minimum, Options.sink, Options.recent]
  omega

theorem minimum_le (n : Nat) : o.minimum n ≤ n := Nat.min_le_left _ _

theorem minimum_le_budget (ok : Admitted scores lengths o) (hmono : Monotone o.round)
    (hexact : o.round o.budget = o.budget) (n : Nat) : o.minimum n ≤ o.budget := by
  have hbudget := ok.budget
  have hkept := ok.kept
  have hproduct : (o.budget : Rat) * o.alpha ≤ o.budget :=
    mul_le_of_le_one_right (Nat.cast_nonneg _) ok.alpha.2
  have hfloor : ⌊o.round (o.budget * o.alpha)⌋ ≤ (o.budget : Int) := by
    have hround := hexact ▸ hmono hproduct
    have hle := Int.floor_mono hround
    rwa [Int.floor_natCast] at hle
  simp only [Options.minimum, Options.floor, Options.sink, Options.recent]
  omega

theorem lengthAt_mem (hh : h < lengths.length) : lengthAt lengths h ∈ lengths := by
  simp [lengthAt, hh]

theorem sum_lengthAt (f : Nat → Nat) :
    ((List.range lengths.length).map fun h => f (lengthAt lengths h)).sum =
      (lengths.map f).sum := by
  have hget : (List.range lengths.length).map (lengthAt lengths) = lengths := by
    refine List.ext_getElem (by simp) fun i hi _ => ?_
    have hlt : i < lengths.length := by simpa using hi
    simp [lengthAt, hlt]
  conv_rhs => rw [← hget, List.map_map]
  rfl

theorem sum_minimum_le (ok : Admitted scores lengths o) (hmono : Monotone o.round)
    (hexact : o.round o.budget = o.budget) :
    (lengths.map o.minimum).sum ≤ min lengths.sum (lengths.length * o.budget) := by
  refine le_min ?_ ?_
  · calc (lengths.map o.minimum).sum ≤ (lengths.map id).sum :=
        sum_le_sum fun n _ => minimum_le n
      _ = lengths.sum := by rw [List.map_id]
  · calc (lengths.map o.minimum).sum ≤ (lengths.map fun _ => o.budget).sum :=
        sum_le_sum fun n _ => minimum_le_budget ok hmono hexact n
      _ = lengths.length * o.budget := by simp

variable {l : Layer R} {selected : Nat → Nat → Bool}

theorem openScores_ne_bot (hpooled : c < lengthAt l.lengths h → l.pooled h c ≠ ⊥) :
    l.openScores selected h c ≠ ⊥ ↔ c < lengthAt l.lengths h ∧ ¬ selected h c = true := by
  by_cases hc : c < lengthAt l.lengths h
  · cases hs : selected h c <;> simp [Layer.openScores, maskedFill, valid, hc, hs, hpooled hc]
  · simp [Layer.openScores, maskedFill, valid, hc]

theorem openScores_eq (hc : c < lengthAt l.lengths h) (hs : ¬ selected h c = true) :
    l.openScores selected h c = l.pooled h c := by
  simp [Layer.openScores, maskedFill, valid, hc, hs]

end

section

variable {scores : ScoreMatrix R} {lengths : List Nat} {o : Options} {h c : Nat}

theorem le_foldr_max {f : Nat → WithBot R} : ∀ {l : List Nat}, c ∈ l →
    f c ≤ l.foldr (fun j best => max (f j) best) ⊥
  | j :: l, hc => by
    rw [foldr_cons]
    rcases mem_cons.mp hc with rfl | hc
    · exact le_max_left _ _
    · exact (le_foldr_max hc).trans (le_max_right _ _)

theorem pooled_ne_bot (ok : Admitted scores lengths o) (hh : h < lengths.length)
    (hc : c < lengthAt lengths h) : pooledScores scores lengths o.poolKernelSize h c ≠ ⊥ := by
  have hmasked : maskedFill (fun h c => !valid lengths h c) scores.cell h c ≠ ⊥ := by
    simpa [maskedFill, valid, hc] using ok.finite h hh c hc
  have hwidth := (ok.inside _ (lengthAt_mem hh)).2
  simp only [pooledScores]
  split
  · next hk =>
    refine fun hbot => hmasked (le_bot_iff.mp (hbot ▸ le_foldr_max ?_))
    simp only [List.mem_filter, List.mem_range, decide_eq_true_eq]
    omega
  · exact hmasked

variable {ι : Type} {key : ι → WithBot R} {l : List ι}

theorem perm_argsort : (argsort key l).Perm l := mergeSort_perm _ _

theorem pairwise_argsort : (argsort key l).Pairwise fun a b => key b ≤ key a := by
  have hsorted := @pairwise_mergeSort _ (fun a b => decide (key b ≤ key a))
    (fun a b c hab hbc => by simp only [decide_eq_true_eq] at *; exact hbc.trans hab)
    (fun a b => by simpa using le_total (key b) (key a)) l
  exact hsorted.imp fun h => of_decide_eq_true h

end

structure Layer.Scored (l : Layer R) : Prop where
  fits : ∀ n ∈ l.lengths, n ≤ l.width
  finite : ∀ h < l.lengths.length, ∀ c < lengthAt l.lengths h, l.pooled h c ≠ ⊥

section

variable {lengths : List Nat} {selected : Nat → Nat → Bool}

theorem nonzeroRows_eq : nonzeroRows lengths selected =
    (List.range lengths.length).map fun h =>
      (List.range (lengthAt lengths h)).filter (selected h) := by
  refine List.ext_getElem (by simp [nonzeroRows]) fun i hi _ => ?_
  have hlt : i < lengths.length := by simpa [nonzeroRows] using hi
  simp [nonzeroRows, lengthAt, hlt]

theorem getD_nonzeroRows {h : Nat} (hh : h < lengths.length) :
    (nonzeroRows lengths selected).getD h [] =
      (List.range (lengthAt lengths h)).filter (selected h) := by
  rw [nonzeroRows_eq]
  simp [List.getD, hh]

theorem length_nonzeroRows : (nonzeroRows lengths selected).length = lengths.length := by
  simp [nonzeroRows]

theorem nodup_nonzeroRows {h : Nat} (hh : h < (nonzeroRows lengths selected).length) :
    ((nonzeroRows lengths selected).getD h []).Nodup := by
  rw [getD_nonzeroRows (length_nonzeroRows ▸ hh)]
  exact List.nodup_range.filter _

theorem toFinset_nonzeroRows : (cellList (nonzeroRows lengths selected)).toFinset =
    (tokens lengths).filter fun x => selected x.1 x.2 = true := by
  ext x
  rw [List.mem_toFinset, mem_cellList, Finset.mem_filter, mem_tokens, length_nonzeroRows, and_assoc]
  refine and_congr_right fun hh => ?_
  rw [getD_nonzeroRows hh, List.mem_filter, List.mem_range]

end

theorem card_tokens (lengths : List Nat) : (tokens lengths).card = lengths.sum := by
  have hcard : (cellList (lengths.map List.range)).toFinset.card =
      ((lengths.map List.range).map List.length).sum := card_cellList fun h hh => by
    rw [getD_map_range (by simpa using hh)]
    exact List.nodup_range
  rw [tokens, hcard, List.map_map]
  refine congrArg List.sum ((List.map_congr_left fun n _ => ?_).trans (List.map_id lengths))
  exact List.length_range

section

variable {l : Layer R} {o : Options} {h : Nat}

theorem safe_spec (sc : l.Scored) (hh : h < l.lengths.length) :
    (o.safeOrder l h).Nodup ∧ (o.safeOrder l h).length = o.extra (lengthAt l.lengths h) ∧
    (∀ c ∈ o.safeOrder l h, c < lengthAt l.lengths h ∧ ¬ o.isProtected l.lengths h c = true) ∧
    ∀ a ∈ o.safeOrder l h, ∀ b, b < lengthAt l.lengths h → ¬ o.isProtected l.lengths h b = true →
      b ∉ o.safeOrder l h → l.pooled h b ≤ l.pooled h a := by
  obtain ⟨key, hkey⟩ : ∃ key, key = l.openScores (o.isProtected l.lengths) h := ⟨_, rfl⟩
  rw [Options.safeOrder, ← hkey]
  have hopen : ∀ c, key c ≠ ⊥ ↔ c < lengthAt l.lengths h ∧ ¬ o.isProtected l.lengths h c = true := by
    intro c
    rw [hkey]
    exact openScores_ne_bot (sc.finite h hh c)
  have hwidth := sc.fits _ (lengthAt_mem hh)
  have hperm : (argsort key (List.range l.width)).Perm (List.range l.width) := perm_argsort
  have hkept := kept_le_minimum (o := o) (lengthAt l.lengths h)
  have hminimum := minimum_le (o := o) (lengthAt l.lengths h)
  have hextra : o.extra (lengthAt l.lengths h) ≤
      ((argsort key (List.range l.width)).filter fun c => key c ≠ ⊥).length := by
    -- the tokens between the sink and the recent ones are all open
    have hsub : List.range' (o.sink (lengthAt l.lengths h)) (o.extra (lengthAt l.lengths h)) ⊆
        (argsort key (List.range l.width)).filter fun c => key c ≠ ⊥ := by
      intro c hc
      rw [mem_range'_1] at hc
      have hbetween := open_iff.mpr ⟨hc.1, by simp only [Options.extra] at hc; omega⟩
      refine List.mem_filter.mpr ⟨hperm.mem_iff.mpr (List.mem_range.mpr ?_), ?_⟩
      · exact hbetween.1.trans_le hwidth
      · exact decide_eq_true ((hopen c).mpr hbetween)
    have hle := (List.subperm_of_subset List.nodup_range' hsub).length_le
    rwa [List.length_range'] at hle
  have hne := take_ne_bot pairwise_argsort hextra
  refine ⟨?_, ?_, fun c hc => (hopen c).mp (hne c hc), fun a ha b hb hfree hnot => ?_⟩
  · exact (hperm.nodup_iff.mpr List.nodup_range).sublist (take_sublist _ _)
  · rw [length_take, hperm.length_eq, List.length_range]
    simp only [Options.extra] at *
    omega
  · have hopen_a := (hopen a).mp (hne a ha)
    have hmem := hperm.mem_iff.mpr (List.mem_range.mpr (hb.trans_le hwidth))
    have hle := take_above pairwise_argsort a ha b hmem hnot
    rwa [hkey, openScores_eq hb hfree, openScores_eq hopen_a.1 hopen_a.2] at hle

theorem length_first (sc : l.Scored) (hh : h < l.lengths.length) :
    ((List.range (lengthAt l.lengths h)).filter (o.isFirst l h)).length =
      o.minimum (lengthAt l.lengths h) := by
  obtain ⟨hnodup, hlength, hfree, -⟩ := safe_spec (o := o) sc hh
  have hkept := kept_le_minimum (o := o) (lengthAt l.lengths h)
  have hminimum := minimum_le (o := o) (lengthAt l.lengths h)
  obtain ⟨n, hn⟩ : ∃ n, n = lengthAt l.lengths h := ⟨_, rfl⟩
  have hrest : (List.range' (o.sink n) (n - o.recent n - o.sink n)).Perm
      ((List.range n).filter fun c => !o.isProtected l.lengths h c) := by
    refine (List.perm_ext_iff_of_nodup List.nodup_range' (List.nodup_range.filter _)).mpr
      fun c => ?_
    have hopen : c < n ∧ ¬ o.isProtected l.lengths h c = true ↔ o.sink n ≤ c ∧ c < n - o.recent n :=
      hn ▸ open_iff
    rw [mem_range'_1, List.mem_filter, List.mem_range]
    simp only [Bool.not_eq_true', ← Bool.not_eq_true]
    rw [hopen]
    omega
  have hsplit := length_eq_length_filter_add (l := List.range n) (o.isProtected l.lengths h)
  rw [List.length_range, ← hrest.length_eq, List.length_range'] at hsplit
  have hall : (o.safeOrder l h ++ (List.range n).filter (o.isProtected l.lengths h)).Perm
      ((List.range n).filter (o.isFirst l h)) := by
    refine (List.perm_ext_iff_of_nodup (nodup_append.mpr
      ⟨hnodup, List.nodup_range.filter _, ?_⟩) (List.nodup_range.filter _)).mpr fun c => ?_
    · rintro c hc _ hc' rfl
      exact (hfree c hc).2 (List.mem_filter.mp hc').2
    · rw [mem_append, List.mem_filter, List.mem_filter, List.mem_range, Options.isFirst,
        Bool.or_eq_true, decide_eq_true_eq]
      constructor
      · rintro (hc | hc)
        · exact ⟨hn ▸ (hfree c hc).1, .inr hc⟩
        · exact ⟨hc.1, .inl hc.2⟩
      · rintro ⟨hlt, hc | hc⟩
        · exact .inr ⟨hlt, hc⟩
        · exact .inl hc
  rw [← hn, ← hall.length_eq, length_append, hlength, ← hn]
  rw [← hn] at hkept hminimum
  simp only [Options.extra]
  have hinside : o.sink n + o.recent n ≤ n := by simp only [Options.sink, Options.recent]; omega
  omega

end

section

variable {l : Layer R} {o : Options}

theorem sum_first (sc : l.Scored) :
    ((nonzeroRows l.lengths (o.isFirst l)).map List.length).sum =
      (l.lengths.map o.minimum).sum := by
  rw [nonzeroRows_eq, List.map_map]
  refine (congrArg List.sum (List.map_congr_left fun h hh => ?_)).trans (sum_lengthAt o.minimum)
  exact length_first sc (List.mem_range.mp hh)

theorem second_spec (sc : l.Scored) {remaining : Int} (hpos : 0 ≤ remaining)
    (hroom : remaining + ((l.lengths.map o.minimum).sum : Nat) ≤ (l.lengths.sum : Nat)) :
    (o.globalOrder l remaining).Nodup ∧ ((o.globalOrder l remaining).length : Int) = remaining ∧
    (∀ x ∈ o.globalOrder l remaining, x ∈ tokens l.lengths ∧ ¬ o.isFirst l x.1 x.2 = true) ∧
    ∀ x ∈ o.globalOrder l remaining, ∀ y ∈ tokens l.lengths, ¬ o.isFirst l y.1 y.2 = true →
      y ∉ o.globalOrder l remaining → l.pooled y.1 y.2 ≤ l.pooled x.1 x.2 := by
  obtain ⟨key, hkey⟩ : ∃ key : Nat × Nat → WithBot R,
      key = fun x => l.openScores (o.isFirst l) x.1 x.2 := ⟨_, rfl⟩
  rw [Options.globalOrder, ← hkey, sliceTo, if_neg (not_lt.mpr hpos)]
  have hperm : (argsort key (cells l.lengths.length l.width)).Perm (cells l.lengths.length l.width) :=
    perm_argsort
  have hopen : ∀ x ∈ cells l.lengths.length l.width,
      (key x ≠ ⊥ ↔ x.2 < lengthAt l.lengths x.1 ∧ ¬ o.isFirst l x.1 x.2 = true) := by
    intro x hx
    rw [hkey]
    exact openScores_ne_bot (sc.finite x.1 (mem_cells.mp hx).1 x.2)
  have hcell : ∀ x ∈ tokens l.lengths, x ∈ cells l.lengths.length l.width := by
    intro x hx
    obtain ⟨hh, hc⟩ := mem_tokens.mp hx
    exact mem_cells.mpr ⟨hh, hc.trans_le (sc.fits _ (lengthAt_mem hh))⟩
  have hcount : remaining.toNat ≤ ((argsort key (cells l.lengths.length l.width)).filter
      fun x => key x ≠ ⊥).length := by
    -- the open cells are the tokens that the first phase left
    have hsub : tokens l.lengths \ (cellList (nonzeroRows l.lengths (o.isFirst l))).toFinset ⊆
        ((argsort key (cells l.lengths.length l.width)).filter fun x => key x ≠ ⊥).toFinset := by
      intro x hx
      rw [toFinset_nonzeroRows, Finset.mem_sdiff, Finset.mem_filter] at hx
      obtain ⟨hx, hfirst⟩ := hx
      refine List.mem_toFinset.mpr (List.mem_filter.mpr ⟨hperm.mem_iff.mpr (hcell x hx), ?_⟩)
      exact decide_eq_true ((hopen x (hcell x hx)).mpr
        ⟨(mem_tokens.mp hx).2, fun h => hfirst ⟨hx, h⟩⟩)
    have hle := (card_le_card hsub).trans (toFinset_card_le _)
    have hsdiff := le_card_sdiff
      (cellList (nonzeroRows l.lengths (o.isFirst l))).toFinset (tokens l.lengths)
    rw [card_tokens, card_cellList fun h hh => nodup_nonzeroRows hh, sum_first sc] at hsdiff
    omega
  have hne := take_ne_bot pairwise_argsort hcount
  have htaken : ∀ x ∈ (argsort key (cells l.lengths.length l.width)).take remaining.toNat,
      x ∈ tokens l.lengths ∧ ¬ o.isFirst l x.1 x.2 = true := by
    intro x hx
    have hmem := hperm.mem_iff.mp (mem_of_mem_take hx)
    obtain ⟨hc, hfirst⟩ := (hopen x hmem).mp (hne x hx)
    exact ⟨mem_tokens.mpr ⟨(mem_cells.mp hmem).1, hc⟩, hfirst⟩
  refine ⟨?_, ?_, htaken, fun x hx y hy hfirst hnot => ?_⟩
  · exact (hperm.nodup_iff.mpr nodup_cells).sublist (take_sublist _ _)
  · have hle := hcount.trans (length_filter_le _ _)
    rw [length_take, Nat.min_eq_left hle]
    omega
  · have hle := take_above pairwise_argsort x hx y (hperm.mem_iff.mpr (hcell y hy)) hnot
    obtain ⟨hx, hfirst'⟩ := htaken x hx
    rw [hkey] at hle
    simp only at hle
    rwa [openScores_eq (mem_tokens.mp hy).2 hfirst, openScores_eq (mem_tokens.mp hx).2 hfirst']
      at hle

end

section

variable [AddCommGroup R]

def weight (pooled : Nat → Nat → WithBot R) (x : Nat × Nat) : R := (pooled x.1 x.2).unbotD 0

theorem weight_le {pooled : Nat → Nat → WithBot R} {x y : Nat × Nat}
    (hy : pooled y.1 y.2 ≠ ⊥) (hle : pooled y.1 y.2 ≤ pooled x.1 x.2) :
    weight pooled y ≤ weight pooled x := by
  obtain ⟨b, hb⟩ := WithBot.ne_bot_iff_exists.mp hy
  have hx : pooled x.1 x.2 ≠ ⊥ := fun hbot => hy (le_bot_iff.mp (hbot ▸ hle))
  obtain ⟨a, ha⟩ := WithBot.ne_bot_iff_exists.mp hx
  rw [← hb, ← ha, WithBot.coe_le_coe] at hle
  rw [weight, weight, ← hb, ← ha]
  exact hle

omit [LinearOrder R] in
theorem totalScore_eq {pooled : Nat → Nat → WithBot R} {choice : List (List Nat)}
    (hnodup : ∀ h < choice.length, (choice.getD h []).Nodup) :
    totalScore pooled choice = ∑ x ∈ (cellList choice).toFinset, weight pooled x := by
  have hcells : (cellList choice).Nodup := nodup_headMajor hnodup
  rw [sum_toFinset _ hcells]
  rfl

variable {scores : ScoreMatrix R} {lengths : List Nat} {o : Options}

/-- `indices` is allowed, and no allowed selection scores more. -/
def Optimal (scores : ScoreMatrix R) (lengths : List Nat) (o : Options)
    (indices : List (List Nat)) : Prop :=
  Allowed lengths o indices ∧ ∀ other, Allowed lengths o other →
    totalScore (pooledScores scores lengths o.poolKernelSize) other ≤
      totalScore (pooledScores scores lengths o.poolKernelSize) indices

omit [LinearOrder R] [AddCommGroup R] in
theorem Allowed.nodup {choice : List (List Nat)} (h : Allowed lengths o choice) :
    ∀ k < choice.length, (choice.getD k []).Nodup := fun k hk =>
  (h.sorted k (h.heads ▸ hk)).imp fun hlt => hlt.ne

theorem Allowed.sub {choice : List (List Nat)} (h : Allowed lengths o choice) :
    (cellList choice).toFinset ⊆ tokens lengths := by
  intro x hx
  obtain ⟨hh, hc⟩ := mem_cellList.mp (List.mem_toFinset.mp hx)
  exact mem_tokens.mpr ⟨h.heads ▸ hh, h.below x.1 (h.heads ▸ hh) x.2 hc⟩

theorem optimal_all (hall : min lengths.sum (lengths.length * o.budget) = lengths.sum) :
    Optimal scores lengths o (lengths.map List.range) := by
  have hallowed : Allowed lengths o (lengths.map List.range) := by
    refine ⟨by simp, fun h hh => ?_, fun h hh c hc => ?_, fun h hh c hc _ => ?_, fun h hh => ?_, ?_⟩
    · rw [getD_map_range hh]
      exact pairwise_lt_range
    · rw [getD_map_range hh] at hc
      exact List.mem_range.mp hc
    · rw [getD_map_range hh]
      exact List.mem_range.mpr hc
    · rw [getD_map_range hh, List.length_range]
      exact minimum_le _
    · rw [hall, List.map_map]
      refine congrArg List.sum ((List.map_congr_left fun n _ => ?_).trans (List.map_id lengths))
      exact List.length_range
  refine ⟨hallowed, fun other hother => ?_⟩
  have hcard : (tokens lengths).card ≤ (cellList other).toFinset.card := by
    rw [card_tokens, card_cellList hother.nodup, hother.total, hall]
  rw [totalScore_eq hother.nodup, totalScore_eq hallowed.nodup,
    eq_of_subset_of_card_le hother.sub hcard]
  exact le_refl _

end

section

variable {l : Layer R} {o : Options} {remaining : Int} (sc : l.Scored)
  (htarget : remaining + ((l.lengths.map o.minimum).sum : Nat) =
    (min l.lengths.sum (l.lengths.length * o.budget) : Nat))
  (hpos : 0 ≤ remaining)

def firstTokens (o : Options) (l : Layer R) : Finset (Nat × Nat) :=
  (tokens l.lengths).filter fun x => o.isFirst l x.1 x.2 = true

theorem card_firstTokens (sc : l.Scored) :
    (firstTokens o l).card = (l.lengths.map o.minimum).sum := by
  rw [firstTokens, ← toFinset_nonzeroRows, card_cellList fun h hh => nodup_nonzeroRows hh,
    sum_first sc]

theorem card_inGroup_first (sc : l.Scored) {h : Nat} (hh : h < l.lengths.length) :
    (inGroup Prod.fst (firstTokens o l) h).card = o.minimum (lengthAt l.lengths h) := by
  rw [firstTokens, ← toFinset_nonzeroRows, card_inGroup (fun h hh => nodup_nonzeroRows hh)
    (by rwa [length_nonzeroRows]), getD_nonzeroRows hh, length_first sc hh]

include sc htarget hpos

theorem isSelected_iff {h c : Nat} : o.isSelected l remaining h c = true ↔
    o.isFirst l h c = true ∨ (h, c) ∈ o.globalOrder l remaining := by
  obtain ⟨-, hlength, -, -⟩ := second_spec (o := o) sc hpos (by omega)
  have hzero : (h, c) ∈ o.globalOrder l remaining → remaining ≠ 0 := by
    intro hmem hzero
    have hnil : o.globalOrder l remaining = [] := length_eq_zero_iff.mp (by omega)
    rw [hnil] at hmem
    cases hmem
  simp only [Options.isSelected, Bool.or_eq_true, Bool.and_eq_true, decide_eq_true_eq]
  exact or_congr_right ⟨fun h => h.2, fun h => ⟨hzero h, h⟩⟩

theorem toFinset_selected : (cellList (nonzeroRows l.lengths (o.isSelected l remaining))).toFinset =
    firstTokens o l ∪ (o.globalOrder l remaining).toFinset := by
  obtain ⟨-, -, hopen, -⟩ := second_spec (o := o) sc hpos (by omega)
  rw [toFinset_nonzeroRows, firstTokens]
  ext x
  simp only [mem_union, Finset.mem_filter, List.mem_toFinset,
    isSelected_iff sc htarget hpos]
  constructor
  · rintro ⟨hx, hfirst | hb⟩
    · exact .inl ⟨hx, hfirst⟩
    · exact .inr hb
  · rintro (⟨hx, hfirst⟩ | hb)
    · exact ⟨hx, .inl hfirst⟩
    · exact ⟨(hopen x hb).1, .inr hb⟩

theorem card_selected : (firstTokens o l ∪ (o.globalOrder l remaining).toFinset).card =
    min l.lengths.sum (l.lengths.length * o.budget) := by
  obtain ⟨hnodup, hlength, hopen, -⟩ := second_spec (o := o) sc hpos (by omega)
  have hdisjoint : Disjoint (firstTokens o l) (o.globalOrder l remaining).toFinset := by
    refine disjoint_left.mpr fun x hx hb => ?_
    exact (hopen x (List.mem_toFinset.mp hb)).2 (Finset.mem_filter.mp hx).2
  rw [card_union_of_disjoint hdisjoint, toFinset_card_of_nodup hnodup,
    card_firstTokens sc]
  omega

theorem allowed_selected :
    Allowed l.lengths o (nonzeroRows l.lengths (o.isSelected l remaining)) := by
  refine ⟨length_nonzeroRows, fun h hh => ?_, fun h hh c hc => ?_, fun h hh c hc hkept => ?_,
    fun h hh => ?_, ?_⟩
  · rw [getD_nonzeroRows hh]
    exact pairwise_lt_range.filter _
  · rw [getD_nonzeroRows hh] at hc
    exact List.mem_range.mp (List.mem_filter.mp hc).1
  · rw [getD_nonzeroRows hh]
    refine List.mem_filter.mpr ⟨List.mem_range.mpr hc,
      (isSelected_iff sc htarget hpos).mpr (.inl ?_)⟩
    rw [Options.isFirst, isProtected_iff.mpr ⟨hc, hkept⟩, Bool.true_or]
  · rw [getD_nonzeroRows hh, ← length_first sc hh]
    exact (monotone_filter_right _ fun c hc =>
      (isSelected_iff sc htarget hpos).mpr (.inl hc)).length_le
  · rw [← card_cellList fun h hh => nodup_nonzeroRows hh, toFinset_selected sc htarget hpos,
      card_selected sc htarget hpos]

variable [AddCommGroup R] [IsOrderedAddMonoid R]

theorem phases_above {other : List (List Nat)} (hother : Allowed l.lengths o other) :
    totalScore l.pooled other ≤
      totalScore l.pooled (nonzeroRows l.lengths (o.isSelected l remaining)) := by
  obtain ⟨-, -, hopen, habove⟩ := second_spec (o := o) sc hpos (by omega)
  rw [totalScore_eq hother.nodup, totalScore_eq fun h hh => nodup_nonzeroRows hh,
    toFinset_selected sc htarget hpos]
  -- `F` is protected and `E` the rest of the first phase
  obtain ⟨F, hF⟩ : ∃ F, F = (tokens l.lengths).filter fun x =>
      o.isProtected l.lengths x.1 x.2 = true := ⟨_, rfl⟩
  obtain ⟨E, hE⟩ : ∃ E, E = (tokens l.lengths).filter fun x => x.2 ∈ o.safeOrder l x.1 := ⟨_, rfl⟩
  have hFE : firstTokens o l = F ∪ E := by
    rw [firstTokens, hF, hE, ← filter_or]
    simp only [Options.isFirst, Bool.or_eq_true, decide_eq_true_eq]
  have hmemF : ∀ x, x ∈ F ↔ x ∈ tokens l.lengths ∧ o.isProtected l.lengths x.1 x.2 = true :=
    fun x => hF ▸ Finset.mem_filter
  have hmemE : ∀ x, x ∈ E ↔ x ∈ tokens l.lengths ∧ x.2 ∈ o.safeOrder l x.1 :=
    fun x => hE ▸ Finset.mem_filter
  have hfinite : ∀ x ∈ tokens l.lengths, l.pooled x.1 x.2 ≠ ⊥ := fun x hx =>
    sc.finite x.1 (mem_tokens.mp hx).1 x.2 (mem_tokens.mp hx).2
  rw [hFE]
  refine two_phase Prod.fst (fun k => ⟨fun x hx => ?_, fun x hx y hy hnot => ?_⟩)
    ⟨fun x hx => ?_, fun x hx y hy hnot => ?_⟩ hother.sub (fun x hx => ?_) (fun k => ?_) ?_
  · obtain ⟨hx, hk⟩ := mem_inGroup.mp hx
    obtain ⟨hx, hs⟩ := (hmemE x).mp hx
    obtain ⟨-, -, hfree, -⟩ := safe_spec (o := o) sc (mem_tokens.mp hx).1
    exact mem_inGroup.mpr ⟨Finset.mem_sdiff.mpr
      ⟨hx, fun hxF => (hfree x.2 hs).2 ((hmemF x).mp hxF).2⟩, hk⟩
  · obtain ⟨hxE, rfl⟩ := mem_inGroup.mp hx
    obtain ⟨hx, hs⟩ := (hmemE x).mp hxE
    obtain ⟨hy, hk⟩ := mem_inGroup.mp hy
    obtain ⟨hy, hyF⟩ := Finset.mem_sdiff.mp hy
    obtain ⟨-, -, -, hbest⟩ := safe_spec (o := o) sc (mem_tokens.mp hx).1
    refine weight_le (hfinite y hy) ?_
    have hle := hbest x.2 hs y.2 (hk ▸ (mem_tokens.mp hy).2)
      (fun hp => hyF ((hmemF y).mpr ⟨hy, hk ▸ hp⟩))
      (fun hp => hnot (mem_inGroup.mpr ⟨(hmemE y).mpr ⟨hy, hk ▸ hp⟩, hk⟩))
    rwa [hk]
  · obtain ⟨hx, hfree⟩ := hopen x (List.mem_toFinset.mp hx)
    rw [← hFE]
    exact Finset.mem_sdiff.mpr ⟨hx, fun hx' => hfree (Finset.mem_filter.mp hx').2⟩
  · obtain ⟨hy, hyout⟩ := Finset.mem_sdiff.mp hy
    rw [← hFE] at hyout
    exact weight_le (hfinite y hy) (habove x (List.mem_toFinset.mp hx) y hy
      (fun hfirst => hyout (Finset.mem_filter.mpr ⟨hy, hfirst⟩))
      fun hb => hnot (List.mem_toFinset.mpr hb))
  · obtain ⟨hx, hp⟩ := (hmemF x).mp hx
    obtain ⟨hh, hc⟩ := mem_tokens.mp hx
    have hkeeps := hother.keeps x.1 hh x.2 hc (isProtected_iff.mp hp).2
    exact List.mem_toFinset.mpr (mem_cellList.mpr ⟨hother.heads ▸ hh, hkeeps⟩)
  · rw [← hFE]
    by_cases hk : k < l.lengths.length
    · rw [card_inGroup_first sc hk, card_inGroup hother.nodup (hother.heads ▸ hk)]
      exact hother.floor k hk
    · have hnone : inGroup Prod.fst (firstTokens o l) k = ∅ := by
        refine eq_empty_of_forall_notMem fun x hx => hk ?_
        obtain ⟨hfirst, rfl⟩ := mem_inGroup.mp hx
        exact (mem_tokens.mp (Finset.mem_filter.mp hfirst).1).1
      rw [hnone]
      exact Nat.zero_le _
  · rw [card_cellList hother.nodup, hother.total, ← hFE, card_selected sc htarget hpos]

end

section

variable [AddCommGroup R] [IsOrderedAddMonoid R] {scores : ScoreMatrix R} {lengths : List Nat}
  {o : Options} (ok : Admitted scores lengths o)

include ok

/-- The selection never fails its own check. -/
theorem selectAdakvIndices_optimal (hmono : Monotone o.round)
    (hexact : o.round o.budget = o.budget) :
    ∃ indices, selectAdakvIndices scores lengths o = .ok indices ∧
      Optimal scores lengths o indices := by
  have hshape : ¬ (scores.rows.length ≠ lengths.length ∨ lengths = [] ∨
      ∃ n ∈ lengths, n = 0 ∨ n > scores.width) := by
    rintro (hheads | hnil | ⟨n, hn, hzero | hlarge⟩)
    · exact hheads ok.heads
    · exact ok.nonempty hnil
    · exact (ok.inside n hn).1.ne' hzero
    · exact absurd (ok.inside n hn).2 (not_le.mpr hlarge)
  have hbudget : ¬ (o.budget < 1 ∨ ¬ (0 < o.alpha ∧ o.alpha ≤ 1)) := by
    rintro (hsmall | halpha)
    · exact absurd ok.budget (not_le.mpr hsmall)
    · exact halpha ok.alpha
  have hkept : ¬ (o.sinkKeep + o.recentKeep > o.budget ∨ o.poolKernelSize < 1) := by
    rintro (hover | hkernel)
    · exact absurd ok.kept (not_le.mpr hover)
    · exact absurd ok.kernel (not_le.mpr hkernel)
  have hfinite : ¬ ∃ h < lengths.length, ∃ c < lengthAt lengths h, scores.cell h c = ⊥ := by
    rintro ⟨h, hh, c, hc, hbot⟩
    exact ok.finite h hh c hc hbot
  simp only [selectAdakvIndices, if_neg hshape, if_neg hbudget, if_neg hkept, if_neg hfinite]
  by_cases hall : min lengths.sum (lengths.length * o.budget) = lengths.sum
  · exact ⟨_, if_pos hall, optimal_all hall⟩
  · rw [if_neg hall]
    have hle := sum_minimum_le ok hmono hexact
    have sc : (⟨lengths, scores.width, pooledScores scores lengths o.poolKernelSize⟩ :
        Layer R).Scored := ⟨fun n hn => (ok.inside n hn).2, fun h hh c => pooled_ne_bot ok hh⟩
    have hroom := Int.sub_nonneg.mpr (Int.ofNat_le.mpr hle)
    have hoptimal : Optimal scores lengths o _ :=
      ⟨allowed_selected sc (Int.sub_add_cancel _ _) hroom,
        fun other => phases_above sc (Int.sub_add_cancel _ _) hroom⟩
    refine ⟨_, if_neg ?_, hoptimal⟩
    obtain ⟨hallowed, -⟩ := hoptimal
    rintro (htotal | ⟨e, he, hshort⟩)
    · exact htotal hallowed.total
    · obtain ⟨h, hget⟩ := mem_iff_getElem?.mp he
      obtain ⟨hrow, hmin⟩ := getElem?_zip_eq_some.mp hget
      have hh : h < lengths.length := by
        simpa using (List.getElem?_eq_some_iff.mp hmin).1
      have hfloor := hallowed.floor h hh
      rw [List.getD, hrow] at hfloor
      have heq : e.2 = o.minimum (lengthAt lengths h) := by
        simpa [lengthAt, hh] using hmin.symm
      rw [← heq] at hfloor
      exact absurd hshort (not_lt.mpr hfloor)

end

/-- Two heads of three and two tokens share a budget of four. -/
theorem selectAdakvIndices_optimal_shared :
    let scores : ScoreMatrix Int := ⟨[[5, 4, 0], [3, 1, 0]], 3, by decide⟩
    let o : Options := ⟨2, 1 / 2, 0, 1, 1, id⟩
    ∃ indices, selectAdakvIndices scores [3, 2] o = .ok indices ∧
      Optimal scores [3, 2] o indices :=
  selectAdakvIndices_optimal
    { heads := rfl, nonempty := by decide, inside := by decide, budget := by decide,
      alpha := by norm_num, kept := by decide, kernel := by decide, finite := by decide }
    monotone_id rfl

end SparseEngine.AdaKV
