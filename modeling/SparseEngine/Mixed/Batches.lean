import SparseEngine.Mixed.Turns

/-! `record_step_tokens` takes the sequences of a batch in their turns. -/

namespace SparseEngine.PrefixCacheCoordinator

open PyM RadixPrefixIndex List Dict

variable {ι κ μ : Type} [LinearOrder ι]

def onDevice (c : PrefixCacheCoordinator ι κ μ) : Option ι → Bool
  | none => true
  | some p => (c.prefixCache.blocks.get? p).any (·.residency.devicePresent)

def belowDevice (cfg : CoordinatorConfig ι κ μ) (isPrefill : Bool) (seq : MixedSequence ι)
    (c : PrefixCacheCoordinator ι κ μ) : Bool :=
  match completedBlock cfg isPrefill seq c with
  | none => true
  | some id => c.prefixCache.blocks.contains id || decide (id ∈ c.pendingBlockIds) ||
      onDevice c (stateOf c seq).parentBlockId

/-- `belowDevice` before the turn of each sequence. -/
def recordsBelowDevice (cfg : CoordinatorConfig ι κ μ) (isPrefill : Bool) :
    List (MixedSequence ι) → PrefixCacheCoordinator ι κ μ → Bool
  | [], _ => true
  | seq :: seqs, c => belowDevice cfg isPrefill seq c &&
      recordsBelowDevice cfg isPrefill seqs (recordSeqTokens cfg isPrefill seq c).2

def produced (c : PrefixCacheCoordinator ι κ μ) (seqId : Nat) : List ι :=
  (pendings c seqId).map (·.stableBlockId) ++ duplicates c seqId

def Idle (c : PrefixCacheCoordinator ι κ μ) : Prop :=
  ∀ k, pendings c k = [] ∧ duplicates c k = []

structure Ready (cfg : CoordinatorConfig ι κ μ) (isPrefill : Bool) (seq : MixedSequence ι)
    (c : PrefixCacheCoordinator ι κ μ) : Prop where
  bounded : isPrefill = true → Bounded cfg seq
  fits : Fits cfg isPrefill seq c
  held : records c seq = true → ∀ p, (stateOf c seq).parentBlockId = some p → Holds c seq.seqId p

/-- What a sequence is left with after its turn, when the step started in `c₁`. -/
structure AfterTurn (cfg : CoordinatorConfig ι κ μ) (isPrefill : Bool)
    (c₁ : PrefixCacheCoordinator ι κ μ) (seq : MixedSequence ι)
    (c : PrefixCacheCoordinator ι κ μ) : Prop where
  single : (produced c seq.seqId).length ≤ 1
  recorded : records c seq = true → records c₁ seq = true
  state : records c seq = true → stateOf c seq = turnState cfg isPrefill seq c₁
  held : records c seq = true → ∀ p, (stateOf c seq).parentBlockId = some p →
    Holds c seq.seqId p ∨ p ∈ produced c seq.seqId
  below : ∀ p ∈ pendings c seq.seqId, ∀ q, p.parentBlockId = some q →
    Holds c seq.seqId q ∧ onDevice c (some q) = true

/-- The record loop after the turns of `done`. -/
structure Recording (cfg : CoordinatorConfig ι κ μ) (isPrefill : Bool)
    (c₁ : PrefixCacheCoordinator ι κ μ) (done : List (MixedSequence ι))
    (c : PrefixCacheCoordinator ι κ μ) : Prop where
  holding : Holding c
  balanced : Balanced cfg c
  holds : ∀ k x, Holds c₁ k x → Holds c k x
  prefixBlocks : c.seqIdToPrefixBlocks = c₁.seqIdToPrefixBlocks
  runtime : ∀ k, k ∉ done.map (·.seqId) → c.runtimeStates.get? k = c₁.runtimeStates.get? k
  limited : ∀ k, k ∉ done.map (·.seqId) →
    (k ∈ c.capacityLimitedSeqIds ↔ k ∈ c₁.capacityLimitedSeqIds)
  materialized : ∀ k, k ∉ done.map (·.seqId) →
    c.seqIdToMaterializedBlocks.get? k = c₁.seqIdToMaterializedBlocks.get? k
  idle : ∀ k, k ∉ done.map (·.seqId) → pendings c k = [] ∧ duplicates c k = []
  turns : ∀ seq ∈ done, AfterTurn cfg isPrefill c₁ seq c
  ordered : ∀ pre seq post, done = pre ++ seq :: post → ∀ id ∈ duplicates c seq.seqId,
    ∃ owner ∈ pre, id ∈ (pendings c owner.seqId).map (·.stableBlockId)

section

variable {cfg : CoordinatorConfig ι κ μ} {isPrefill : Bool} {c c' c₁ : PrefixCacheCoordinator ι κ μ}
  {seq : MixedSequence ι} {done : List (MixedSequence ι)} {seqId : Nat} {id : ι}

theorem Recording.start (h : Holding c) (hb : Balanced cfg c) (hidle : Idle c) :
    Recording cfg isPrefill c [] c where
  holding := h
  balanced := hb
  holds := fun _ _ hx => hx
  prefixBlocks := rfl
  runtime := fun _ _ => rfl
  limited := fun _ _ => .rfl
  materialized := fun _ _ => rfl
  idle := fun k _ => hidle k
  turns := fun _ hmem => absurd hmem not_mem_nil
  ordered := fun _ _ _ hdone => absurd hdone.symm (append_ne_nil_of_right_ne_nil _
    (cons_ne_nil _ _))

theorem Stays.onDevice (h : Stays c c') (hh : Holding c) {q : ι} (hheld : Holds c seqId q)
    (hd : onDevice c (some q) = true) : onDevice c' (some q) = true := by
  obtain ⟨b, hb, hr⟩ := hheld.referenced hh
  obtain ⟨b', hb', -, hdev⟩ := h.kept q b hb hr
  have hd' : (c.prefixCache.blocks.get? q).any (·.residency.devicePresent) = true := hd
  show (c'.prefixCache.blocks.get? q).any (·.residency.devicePresent) = true
  rw [hb, Option.any_some] at hd'
  rw [hb', Option.any_some]
  exact hdev hd'

theorem Accounts.pending_of_mem (hb : Balanced cfg c) (hid : id ∈ c.pendingBlockIds) :
    ∃ k, id ∈ (pendings c k).map (·.stableBlockId) := by
  by_contra hno
  push Not at hno
  have hzero : pendingCount c id = 0 := by
    unfold pendingCount
    rw [sumBy_congr (g := fun _ _ => 0) fun k ps hps => count_eq_zero.mpr fun hmem => ?_]
    · simp [sumBy]
    · refine hno k ?_
      unfold pendings
      rw [hps]
      exact hmem
  have hids := hb.ids id
  rw [hzero, if_pos hid] at hids
  simp at hids

theorem Accounts.absent_of_pending (hb : Balanced cfg c) {p : PendingMixedPrefixBlock ι κ}
    (hp : p ∈ pendings c seqId) : c.prefixCache.blocks.get? p.stableBlockId = none := by
  refine hb.apart _ ?_
  by_contra hno
  have hids := hb.ids p.stableBlockId
  rw [if_neg hno] at hids
  have hle := le_sumBy (fun (_ : Nat) (ps : List (PendingMixedPrefixBlock ι κ)) =>
    (ps.map (·.stableBlockId)).count p.stableBlockId) c.pendingBlocks seqId
  unfold pendings at hp
  cases hps : c.pendingBlocks.get? seqId with
  | none =>
    rw [hps] at hp
    cases hp
  | some ps =>
    rw [hps] at hp
    rw [weightAt, hps] at hle
    dsimp only [Option.elim] at hle
    have hpos : 0 < (ps.map (·.stableBlockId)).count p.stableBlockId :=
      count_pos_iff.mpr (mem_map_of_mem hp)
    unfold pendingCount at hids
    omega

theorem AfterTurn.elsewhere (h : AfterTurn cfg isPrefill c₁ seq c) (hh : Holding c)
    (hf : TurnFrame seqId c c') (hne : seq.seqId ≠ seqId) :
    AfterTurn cfg isPrefill c₁ seq c' := by
  have hpend : pendings c' seq.seqId = pendings c seq.seqId := by
    unfold pendings
    rw [hf.elsewhere.pending _ hne]
  have hprod : produced c' seq.seqId = produced c seq.seqId := by
    unfold produced duplicates
    rw [hpend, hf.elsewhere.duplicates _ hne]
  have hstate : stateOf c' seq = stateOf c seq := by
    unfold stateOf
    rw [hf.elsewhere.runtime _ hne]
  have hrec : records c' seq = records c seq := by
    unfold records
    rw [decide_eq_decide.mpr (not_congr (hf.elsewhere.limited _ hne))]
  have hheld : ∀ x, Holds c seq.seqId x → Holds c' seq.seqId x := by
    intro x hx
    unfold Holds
    rw [hf.elsewhere.heldBlocks hne]
    exact hx
  refine ⟨hprod ▸ h.single, fun hr => h.recorded (hrec ▸ hr), fun hr => ?_, fun hr p hp => ?_,
    fun p hp q hq => ?_⟩
  · rw [hstate]
    exact h.state (hrec ▸ hr)
  · rw [hstate] at hp
    rw [hprod]
    exact (h.held (hrec ▸ hr) p hp).imp_left (hheld p)
  · rw [hpend] at hp
    obtain ⟨hq', hd⟩ := h.below p hp q hq
    exact ⟨hheld q hq', hf.stays.onDevice hh hq' hd⟩

structure SameTurn (cfg : CoordinatorConfig ι κ μ) (isPrefill : Bool) (seq : MixedSequence ι)
    (c₁ c : PrefixCacheCoordinator ι κ μ) : Prop where
  state : stateOf c seq = stateOf c₁ seq
  records : records c seq = records c₁ seq
  completed : completedBlock cfg isPrefill seq c = completedBlock cfg isPrefill seq c₁
  turn : turnState cfg isPrefill seq c = turnState cfg isPrefill seq c₁

theorem Recording.sameTurn (h : Recording cfg isPrefill c₁ done c)
    (hnew : seq.seqId ∉ done.map (·.seqId)) : SameTurn cfg isPrefill seq c₁ c := by
  have hstate : stateOf c seq = stateOf c₁ seq := by
    unfold stateOf
    rw [h.runtime _ hnew]
  have hrec : PrefixCacheCoordinator.records c seq = PrefixCacheCoordinator.records c₁ seq := by
    unfold PrefixCacheCoordinator.records
    rw [decide_eq_decide.mpr (not_congr (h.limited _ hnew))]
  have hcompleted : completedBlock cfg isPrefill seq c = completedBlock cfg isPrefill seq c₁ := by
    unfold completedBlock
    rw [hstate, hrec]
  refine ⟨hstate, hrec, hcompleted, ?_⟩
  unfold turnState
  rw [hstate, hrec, hcompleted]

theorem Turn.produced (ht : Turn cfg isPrefill seq c c') (hp : pendings c seq.seqId = [])
    (hd : duplicates c seq.seqId = []) : produced c' seq.seqId = [] ∨ ∃ id,
      completedBlock cfg isPrefill seq c = some id ∧ produced c' seq.seqId = [id] := by
  unfold PrefixCacheCoordinator.produced
  cases hcompleted : completedBlock cfg isPrefill seq c with
  | none =>
    obtain ⟨hp', hd'⟩ := ht.idle hcompleted
    exact .inl (by rw [hp', hd', hp, hd]; rfl)
  | some id =>
    cases ht.outcome id hcompleted with
    | limited _ hp' hd' => exact .inl (by rw [hp', hd', hp, hd]; rfl)
    | existing _ hp' hd' => exact .inl (by rw [hp', hd', hp, hd]; rfl)
    | duplicate _ hp' hd' =>
      rw [hd, if_neg not_mem_nil] at hd'
      exact .inr ⟨id, rfl, by rw [hp', hd', hp]; rfl⟩
    | owner p hid _ _ _ hp' hd' =>
      exact .inr ⟨id, rfl, by rw [hp', hd', hp, hd, ← hid]; rfl⟩

theorem Turn.after (ht : Turn cfg isPrefill seq c c') (hs : SameTurn cfg isPrefill seq c₁ c)
    (hp : pendings c seq.seqId = []) (hd : duplicates c seq.seqId = []) (hh : Holding c)
    (hheld : records c seq = true →
      ∀ p, (stateOf c seq).parentBlockId = some p → Holds c seq.seqId p)
    (hbelow : belowDevice cfg isPrefill seq c = true) : AfterTurn cfg isPrefill c₁ seq c' := by
  have hlimited : records c' seq = true → seq.seqId ∉ c'.capacityLimitedSeqIds :=
    fun hr => (records_iff.mp hr).2
  have hrec : records c' seq = true → records c seq = true := fun hr =>
    records_iff.mpr ⟨(records_iff.mp hr).1, fun hmem => hlimited hr (ht.frame.limited hmem)⟩
  refine ⟨?_, fun hr => hs.records ▸ hrec hr, fun hr => (ht.state (hlimited hr)).trans hs.turn,
    fun hr q hq => ?_, fun p hpend q hq => ?_⟩
  · rcases ht.produced hp hd with hnil | ⟨id, -, hone⟩
    · rw [hnil]
      exact Nat.zero_le _
    · rw [hone]
      exact le_rfl
  · rw [ht.state (hlimited hr)] at hq
    unfold turnState at hq
    cases hcompleted : completedBlock cfg isPrefill seq c with
    | none =>
      rw [hcompleted] at hq
      simp only [hrec hr, if_true] at hq
      exact .inl (ht.frame.mono q (hheld (hrec hr) q hq))
    | some id =>
      rw [hcompleted] at hq
      cases hq
      cases ht.outcome q hcompleted with
      | limited hl _ _ => exact absurd hl (hlimited hr)
      | existing hh' _ _ => exact .inl hh'
      | duplicate _ _ hd' =>
        rw [hd, if_neg not_mem_nil] at hd'
        exact .inr (mem_append.mpr (.inr (by rw [hd']; exact mem_singleton_self q)))
      | owner p hid _ _ _ hp' _ =>
        refine .inr (mem_append.mpr (.inl (mem_map.mpr ⟨p, ?_, hid⟩)))
        rw [hp']
        exact mem_append.mpr (.inr (mem_singleton_self p))
  · cases hcompleted : completedBlock cfg isPrefill seq c with
    | none =>
      rw [(ht.idle hcompleted).1, hp] at hpend
      cases hpend
    | some id =>
      cases ht.outcome id hcompleted with
      | limited _ hp' _ => rw [hp', hp] at hpend; cases hpend
      | existing _ hp' _ => rw [hp', hp] at hpend; cases hpend
      | duplicate _ hp' _ => rw [hp', hp] at hpend; cases hpend
      | owner p' hid hparent hnew hfree hp' _ =>
        rw [hp', hp, nil_append, mem_singleton] at hpend
        subst hpend
        rw [hparent] at hq
        have hr : records c seq = true := by
          by_contra hno
          simp [completedBlock, hno] at hcompleted
        have hq' := hheld hr q hq
        have hdev : onDevice c (some q) = true := by
          unfold belowDevice at hbelow
          rw [hcompleted] at hbelow
          simpa [contains_eq_false.mpr hnew, hfree, hq] using hbelow
        exact ⟨ht.frame.mono q hq', ht.frame.stays.onDevice hh hq' hdev⟩

theorem Turn.mem_duplicates (ht : Turn cfg isPrefill seq c c') (hd : duplicates c seq.seqId = [])
    (hid : id ∈ duplicates c' seq.seqId) : id ∈ c.pendingBlockIds := by
  cases hcompleted : completedBlock cfg isPrefill seq c with
  | none =>
    rw [(ht.idle hcompleted).2, hd] at hid
    cases hid
  | some x =>
    cases ht.outcome x hcompleted with
    | limited _ _ hd' => rw [hd', hd] at hid; cases hid
    | existing _ _ hd' => rw [hd', hd] at hid; cases hid
    | duplicate hx _ hd' =>
      rw [hd', hd, if_neg not_mem_nil, nil_append, mem_singleton] at hid
      exact hid ▸ hx
    | owner _ _ _ _ _ _ hd' => rw [hd', hd] at hid; cases hid

theorem Recording.turn (h : Recording cfg isPrefill c₁ done c)
    (hnew : seq.seqId ∉ done.map (·.seqId)) (hready : Ready cfg isPrefill seq c₁)
    (hbelow : belowDevice cfg isPrefill seq c = true) (ht : Turn cfg isPrefill seq c c')
    (hb : Balanced cfg c') : Recording cfg isPrefill c₁ (done ++ [seq]) c' := by
  have hs := h.sameTurn hnew
  obtain ⟨hp, hd⟩ := h.idle _ hnew
  have hne : ∀ k, k ∉ (done ++ [seq]).map (·.seqId) → k ≠ seq.seqId ∧ k ∉ done.map (·.seqId) := by
    intro k hk
    rw [map_append, mem_append, not_or, map_singleton, mem_singleton] at hk
    exact ⟨hk.2, hk.1⟩
  have hold : ∀ s ∈ done, s.seqId ≠ seq.seqId :=
    fun s hs' heq => hnew (heq ▸ mem_map_of_mem hs')
  have hpend : ∀ k, k ≠ seq.seqId → pendings c' k = pendings c k := by
    intro k hk
    unfold pendings
    rw [ht.frame.elsewhere.pending k hk]
  have hdup : ∀ k, k ≠ seq.seqId → duplicates c' k = duplicates c k := by
    intro k hk
    unfold duplicates
    rw [ht.frame.elsewhere.duplicates k hk]
  have hheld : records c seq = true →
      ∀ p, (stateOf c seq).parentBlockId = some p → Holds c seq.seqId p := by
    intro hr p hpar
    rw [hs.records] at hr
    rw [hs.state] at hpar
    exact h.holds _ _ (hready.held hr p hpar)
  refine ⟨ht.frame.holding, hb, fun k x hx => ?_, ?_, fun k hk => ?_, fun k hk => ?_,
    fun k hk => ?_, fun k hk => ?_, fun s hmem => ?_, fun pre s post hsplit id hid => ?_⟩
  · by_cases hk : k = seq.seqId
    · subst hk
      exact ht.frame.mono x (h.holds _ x hx)
    · unfold Holds
      rw [ht.frame.elsewhere.heldBlocks hk]
      exact h.holds k x hx
  · exact ht.frame.elsewhere.prefixBlocks.trans h.prefixBlocks
  · exact (ht.frame.elsewhere.runtime k (hne k hk).1).trans (h.runtime k (hne k hk).2)
  · exact (ht.frame.elsewhere.limited k (hne k hk).1).trans (h.limited k (hne k hk).2)
  · exact (ht.frame.elsewhere.materialized k (hne k hk).1).trans (h.materialized k (hne k hk).2)
  · rw [hpend k (hne k hk).1, hdup k (hne k hk).1]
    exact h.idle k (hne k hk).2
  · rcases mem_append.mp hmem with hmem | hmem
    · exact (h.turns s hmem).elsewhere h.holding ht.frame (hold s hmem)
    · rw [mem_singleton.mp hmem]
      exact ht.after hs hp hd h.holding hheld hbelow
  · rcases eq_nil_or_concat post with rfl | ⟨post', last, rfl⟩
    · -- The new sequence: its duplicate is reserved by one that had its turn.
      obtain ⟨rfl, hlast⟩ := append_inj' hsplit rfl
      cases hlast
      obtain ⟨k, hk⟩ := h.balanced.pending_of_mem (ht.mem_duplicates hd hid)
      have hkdone : k ∈ done.map (·.seqId) := by
        by_contra hno
        rw [(h.idle k hno).1] at hk
        cases hk
      obtain ⟨owner, howner, rfl⟩ := mem_map.mp hkdone
      exact ⟨owner, howner, by rw [hpend _ (hold owner howner)]; exact hk⟩
    · have hsplit' : done ++ [seq] = (pre ++ s :: post') ++ [last] := by
        rw [hsplit, concat_eq_append, append_assoc, cons_append]
      obtain ⟨hdone, -⟩ := append_inj' hsplit' rfl
      have hs' : s ∈ done := hdone ▸ mem_append.mpr (.inr mem_cons_self)
      rw [hdup _ (hold s hs')] at hid
      obtain ⟨owner, howner, hmem⟩ := h.ordered pre s post' hdone id hid
      have howner' : owner ∈ done := hdone ▸ mem_append.mpr (.inl howner)
      exact ⟨owner, howner, by rw [hpend _ (hold owner howner')]; exact hmem⟩

theorem record_loop (hB : 0 < cfg.blockSize) : ∀ (rest done : List (MixedSequence ι))
    (c : PrefixCacheCoordinator ι κ μ), Recording cfg isPrefill c₁ done c →
    ((done ++ rest).map (·.seqId)).Nodup → (∀ seq ∈ rest, Ready cfg isPrefill seq c₁) →
    recordsBelowDevice cfg isPrefill rest c = true →
    wp (recordStepTokens cfg rest isPrefill)
      (fun _ c' => Recording cfg isPrefill c₁ (done ++ rest) c') (fun _ _ => True) c
  | [], done, c, h, _, _, _ => by
    rw [append_nil]
    exact h
  | seq :: rest, done, c, h, hnodup, hready, hbelow => by
    have hnew : seq.seqId ∉ done.map (·.seqId) := by
      rw [map_append, map_cons] at hnodup
      intro hmem
      exact (nodup_append.mp hnodup).2.2 _ hmem _ mem_cons_self rfl
    have hs := h.sameTurn hnew
    have hfirst := hready seq mem_cons_self
    have hfits : Fits cfg isPrefill seq c := fun hr => by
      rw [hs.records] at hr
      rw [hs.state]
      exact hfirst.fits hr
    rw [recordsBelowDevice, Bool.and_eq_true] at hbelow
    have hturn := recordSeqTokens_turn hB h.holding hfirst.bounded hfits
    have hkeep : Balanced cfg (recordSeqTokens cfg isPrefill seq c).2 :=
      recordSeqTokens_keeping isPrefill seq c h.balanced
    unfold recordStepTokens
    rw [PyM.forEach, wp_bind]
    cases hrun : recordSeqTokens cfg isPrefill seq c with
    | mk r c' =>
      rw [hrun] at hkeep hbelow
      cases r with
      | error e => exact (wp_of_error hrun).mpr trivial
      | ok u =>
        have ht := (wp_of_ok hrun).mp hturn
        rw [wp_of_ok hrun]
        have hnext := record_loop hB rest (done ++ [seq]) c'
          (h.turn hnew hfirst hbelow.1 ht hkeep) (by rwa [append_assoc])
          (fun s hmem => hready s (mem_cons_of_mem _ hmem)) hbelow.2
        rw [append_assoc] at hnext
        exact hnext

end

end SparseEngine.PrefixCacheCoordinator
