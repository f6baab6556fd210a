import SparseEngine.Scheduler.Conservation

/-! `_eligible_decode_batch` predicts the batch of the decode phase without touching the queue. -/

namespace SparseEngine

open PyM

structure DecodeAnswers where
  freeSlots : Int
  freeSlotsFor : Nat → Int
  reservationCost : Nat → Int
  budgets : Option Budgets
  allocationCosts : Nat → Int → Budgets

namespace SchedulerState

variable {ω κ ρ α β : Type}

/-- The oracle answers a decode step with `a` and stays as it is. -/
structure Steady (hooks : MemoryOracle ω κ ρ) (a : DecodeAnswers) (w : OracleWorld ω) : Prop where
  freeSlots : hooks.decodeStepFreeSlots w = (.ok a.freeSlots, w)
  freeSlotsFor : ∀ id, hooks.decodeStepFreeSlotsFor id w = (.ok (a.freeSlotsFor id), w)
  reservationCost : ∀ id, hooks.decodeStepReservationCost id w = (.ok (a.reservationCost id), w)
  budgets : hooks.stepAllocationBudgets false w = (.ok a.budgets, w)
  allocationCosts : ∀ id tokens,
    hooks.stepAllocationCosts id tokens w = (.ok (a.allocationCosts id tokens), w)

/-- Whatever the queues are, `m` gives one result and leaves the state alone. -/
def Constant (w : OracleWorld ω) (m : SchedM ω α) (result : Except PyError α) : Prop :=
  ∀ s : SchedulerState ω, s.world = w → m s = (result, s)

variable {w : OracleWorld ω} {cfg : SchedulerConfig} {hooks : MemoryOracle ω κ ρ}
  {a : DecodeAnswers}

theorem constant_pure (x : α) : Constant w (Pure.pure x : SchedM ω α) (.ok x) := fun _ _ => rfl

theorem constant_lift (result : Except PyError α) :
    Constant w (PyM.lift result : SchedM ω α) result := fun _ _ => rfl

theorem constant_hook {m : PyM (OracleWorld ω) α} {result : Except PyError α}
    (h : m w = (result, w)) : Constant w (hook m) result := by
  rintro s rfl
  unfold hook zoom
  rw [h]

theorem constant_bind {m : SchedM ω α} {f : α → SchedM ω β} {result : Except PyError α}
    (hm : Constant w m result) (hf : ∀ x, ∃ result', Constant w (f x) result') :
    ∃ result', Constant w (m >>= f) result' := by
  cases result with
  | error e => exact ⟨.error e, fun s hs => bind_error (hm s hs)⟩
  | ok x =>
    obtain ⟨result', hresult⟩ := hf x
    exact ⟨result', fun s hs => (bind_ok (hm s hs)).trans (hresult s hs)⟩

theorem fitsBudgets_constant (steady : Steady hooks a w) (id : Nat) (budgets : Budgets)
    (tokens : Int) : ∃ result, Constant w (fitsBudgets hooks id budgets tokens) result :=
  constant_bind (constant_hook (steady.allocationCosts id tokens)) fun _ => ⟨_, constant_pure _⟩

theorem searchBudgets_constant (steady : Steady hooks a w) (id : Nat) (budgets : Budgets)
    (low high : Int) : ∃ result, Constant w (searchBudgets hooks id budgets low high) result := by
  induction low, high using searchBudgets.induct with
  | case1 low high more ihFits ihNot =>
    unfold searchBudgets
    rw [dif_pos more]
    obtain ⟨fits, hfits⟩ := fitsBudgets_constant steady id budgets ((low + high + 1) / 2)
    refine constant_bind hfits fun fits => ?_
    cases fits with
    | true => exact ihFits
    | false => exact ihNot
  | case2 low high done =>
    unfold searchBudgets
    rw [dif_neg done]
    exact ⟨_, constant_pure low⟩

theorem maxStepAllocationTokens_constant (steady : Steady hooks a w) (id : Nat) (limit : Int)
    (budgets : Option Budgets) :
    ∃ result, Constant w (maxStepAllocationTokens hooks id limit budgets) result := by
  cases budgets with
  | none => exact ⟨_, constant_pure limit⟩
  | some budgets =>
    simp only [maxStepAllocationTokens]
    split
    · exact ⟨_, constant_pure limit⟩
    · obtain ⟨fits, hfits⟩ := fitsBudgets_constant steady id budgets limit
      refine constant_bind hfits fun fits => ?_
      cases fits with
      | true => exact ⟨_, constant_pure limit⟩
      | false => exact searchBudgets_constant steady id budgets 0 limit

theorem chargeStepAllocations_constant (steady : Steady hooks a w) (id : Nat) (tokens : Int)
    (budgets : Option Budgets) :
    ∃ result, Constant w (chargeStepAllocations hooks id tokens budgets) result := by
  cases budgets with
  | none => exact ⟨_, constant_pure none⟩
  | some budgets =>
    exact constant_bind (constant_hook (steady.allocationCosts id tokens)) fun _ =>
      constant_bind (constant_lift _) fun _ => ⟨_, constant_pure _⟩

theorem decodeBlocked_constant (steady : Steady hooks a w) (id : Nat) (free cost : Int)
    (budgets : Option Budgets) :
    ∃ result, Constant w (decodeBlocked hooks id free cost budgets) result := by
  unfold decodeBlocked
  split
  · exact ⟨_, constant_pure true⟩
  · obtain ⟨tokens, htokens⟩ := maxStepAllocationTokens_constant steady id 1 budgets
    exact constant_bind htokens fun _ => ⟨_, constant_pure _⟩

theorem blockDecode_returns (l : DecodeLocals) (id : Nat) (s : SchedulerState ω) :
    ∃ l' queue, blockDecode l id s =
        (.ok (l', decide (0 < l.free)), { s with decoding := queue }) ∧
      l'.free = l.free ∧ l'.budgets = l.budgets ∧ l'.scheduled = l.scheduled ∧
      (0 < l.free → queue = s.decoding ++ [id]) := by
  unfold blockDecode
  by_cases room : 0 < l.free
  · refine ⟨{ l with blocked := l.blocked.or (some id) }, s.decoding ++ [id], ?_, rfl, rfl, rfl,
      fun _ => rfl⟩
    rw [if_pos room, decide_eq_true room]
    rfl
  · rw [if_neg room, decide_eq_false room]
    by_cases batch : l.scheduled ≠ []
    · refine ⟨{ l with blocked := l.blocked.or (some id) }, s.decoding ++ [id], ?_, rfl, rfl, rfl,
        fun some => absurd some room⟩
      rw [if_pos batch]
      rfl
    · refine ⟨{ l with blocked := some id }, id :: s.decoding, ?_, rfl, rfl, rfl,
        fun some => absurd some room⟩
      rw [if_neg batch]
      rfl

theorem decodeLoop_full {l : DecodeLocals} (full : cfg.maxDecodingSeqs ≤ l.scheduled.length)
    (budget : Nat) (s : SchedulerState ω) : decodeLoop cfg hooks budget l s = (.ok l, s) := by
  cases budget with
  | zero => rfl
  | succ budget =>
    unfold decodeLoop
    refine (bind_ok rfl).trans ?_
    cases s.decoding with
    | nil => rfl
    | cons id rest => exact congrFun (if_neg (not_lt.mpr full)) s

theorem eligibleDecodeLoop_mirrors (steady : Steady hooks a w) :
    ∀ (queue back : List Nat) (l : DecodeLocals) (s : SchedulerState ω), s.world = w →
      s.decoding = queue ++ back → l.scheduled.length < cfg.maxDecodingSeqs →
      Constant w (eligibleDecodeLoop cfg hooks queue l.free l.budgets l.scheduled)
        ((decodeLoop cfg hooks queue.length l s).1.map (·.scheduled))
  | [], _, l, s, _, _, _ => constant_pure l.scheduled
  | id :: rest, back, l, s, world, queued, room => by
    have turn : decodeLoop cfg hooks (id :: rest).length l s =
        (considerDecode hooks l id >>= fun r =>
          if r.2 then decodeLoop cfg hooks rest.length r.1 else Pure.pure r.1)
          { s with decoding := rest ++ back } := by
      rw [List.length_cons, decodeLoop]
      refine (bind_ok rfl).trans ?_
      rw [queued]
      exact congrFun (if_pos room) s
    have later : ∀ (l' : DecodeLocals) (back' : List Nat),
        l'.scheduled.length < cfg.maxDecodingSeqs →
        Constant w (eligibleDecodeLoop cfg hooks rest l'.free l'.budgets l'.scheduled)
          ((decodeLoop cfg hooks rest.length l' { s with decoding := rest ++ back' }).1.map
            (·.scheduled)) := fun l' back' =>
      eligibleDecodeLoop_mirrors steady rest back' l' { s with decoding := rest ++ back' } world rfl
    have world₁ : ({ s with decoding := rest ++ back } : SchedulerState ω).world = w := world
    intro t ht
    have same : (t.seqAt id) = s.seqAt id := by
      unfold seqAt
      rw [ht, world]
    rw [turn, eligibleDecodeLoop]
    refine (bind_ok rfl).trans ?_
    rw [same]
    by_cases pending : outputPending (s.seqAt id) = true
    · have consider : considerDecode hooks l id { s with decoding := rest ++ back } =
          (.ok (l, true), { s with decoding := rest ++ (back ++ [id]) }) := by
        unfold considerDecode
        refine (bind_ok rfl).trans ?_
        refine (congrFun (if_pos pending) _).trans ?_
        rw [← List.append_assoc]
        rfl
      rw [if_pos pending, bind_ok consider, if_pos rfl]
      exact later l (back ++ [id]) room t ht
    · have consider : considerDecode hooks l id { s with decoding := rest ++ back } =
          (decodeBlocked hooks id (min l.free (a.freeSlotsFor id)) (a.reservationCost id) l.budgets >>=
            fun blocked => if blocked then blockDecode l id
              else do
                let budgets ← chargeStepAllocations hooks id 1 l.budgets
                return ({ l with
                  free := l.free - a.reservationCost id
                  budgets := budgets
                  scheduled := l.scheduled ++ [id] }, true)) { s with decoding := rest ++ back } := by
        unfold considerDecode
        refine (bind_ok rfl).trans ?_
        refine (congrFun (if_neg pending) _).trans ?_
        refine (bind_ok (constant_hook (steady.freeSlotsFor id) _ world₁)).trans ?_
        exact bind_ok (constant_hook (steady.reservationCost id) _ world₁)
      rw [if_neg pending, bind_ok (constant_hook (steady.reservationCost id) t ht),
        bind_ok (constant_hook (steady.freeSlotsFor id) t ht)]
      obtain ⟨blocked, hblocked⟩ := decodeBlocked_constant steady id
        (min l.free (a.freeSlotsFor id)) (a.reservationCost id) l.budgets
      cases blocked with
      | error e =>
        rw [bind_error (hblocked t ht), bind_error (consider.trans (bind_error (hblocked _ world₁)))]
        rfl
      | ok blocked =>
        replace consider := consider.trans (bind_ok (hblocked _ world₁))
        rw [bind_ok (hblocked t ht)]
        cases blocked with
        | true =>
          obtain ⟨l', queue, hback, free, budgets, scheduled, goes⟩ :=
            blockDecode_returns l id { s with decoding := rest ++ back }
          rw [if_pos rfl, bind_ok (consider.trans hback)]
          by_cases some : 0 < l.free
          · rw [if_neg (not_le.mpr some), if_pos (decide_eq_true some), goes some, ← free, ← budgets,
              ← scheduled]
            have more := later l' (back ++ [id]) (scheduled ▸ room) t ht
            rw [more, List.append_assoc]
          · rw [if_pos (not_lt.mp some), decide_eq_false some, if_neg Bool.false_ne_true, ← scheduled]
            rfl
        | false =>
          rw [if_neg Bool.false_ne_true]
          obtain ⟨charged, hcharged⟩ := chargeStepAllocations_constant steady id 1 l.budgets
          cases charged with
          | error e =>
            rw [bind_error (hcharged t ht),
              bind_error (consider.trans (bind_error (hcharged _ world₁)))]
            rfl
          | ok budgets =>
            rw [bind_ok (hcharged t ht), bind_ok (consider.trans (bind_ok (hcharged _ world₁)))]
            by_cases full : l.scheduled.length + 1 = cfg.maxDecodingSeqs
            · have batch : cfg.maxDecodingSeqs ≤ (l.scheduled ++ [id]).length := by
                rw [List.length_append, List.length_singleton, full]
              rw [if_pos full, if_pos rfl, decodeLoop_full batch]
              rfl
            · rw [if_neg full, if_pos rfl]
              refine later { l with
                free := l.free - a.reservationCost id
                budgets := budgets
                scheduled := l.scheduled ++ [id] } back ?_ t ht
              show (l.scheduled ++ [id]).length < _
              rw [List.length_append, List.length_singleton]
              omega

variable {s : SchedulerState ω}

theorem eligibleDecodeBatch_mirrors (steady : Steady hooks a w) (capacity : 1 ≤ cfg.maxDecodingSeqs)
    (world : s.world = w) {s' : SchedulerState ω} (world' : s'.world = w)
    (queue : s'.decoding = s.decoding) :
    eligibleDecodeBatch cfg hooks s =
      ((decodeLoop cfg hooks s'.decoding.length
        { free := max 0 a.freeSlots, budgets := a.budgets } s').1.map (·.scheduled), s) := by
  unfold eligibleDecodeBatch
  refine (bind_ok rfl).trans ?_
  rw [queue]
  by_cases none : s.decoding = []
  · rw [none]
    rfl
  · refine (congrFun (if_neg none) s).trans ?_
    refine (bind_ok (constant_hook steady.freeSlots s world)).trans ?_
    refine (bind_ok (constant_hook steady.budgets s world)).trans ?_
    exact eligibleDecodeLoop_mirrors steady s.decoding []
      { free := max 0 a.freeSlots, budgets := a.budgets } s' world'
      (queue.trans (List.append_nil _).symm) capacity s world

theorem preemptDecodeVictim_seqs (victim : Nat) (scheduled preempted : List Nat) :
    wp (preemptDecodeVictim cfg hooks victim scheduled preempted) (fun result _ => result.seqs = [])
      (fun _ _ => True) s := by
  have rejected : ∀ (e : PyError) (s : SchedulerState ω),
      wp (returnVictim victim scheduled e) (fun result _ => result.seqs = []) (fun _ _ => True) s :=
    fun e s => trivial
  unfold preemptDecodeVictim
  rw [wp_bind, wp_get, wp_ite]
  split
  · exact rejected _ s
  · rw [wp_ite]
    split
    · exact rejected _ s
    · rw [wp_bind]
      refine wp_of_forall (fun _ _ => ?_) fun _ _ => trivial
      rw [wp_bind, wp_modify, wp_bind, wp_modify, wp_bind]
      refine wp_of_forall (fun _ _ => ?_) fun _ _ => trivial
      rw [wp_bind]
      refine wp_of_forall (fun _ _ => ?_) fun _ _ => trivial
      rw [wp_bind, wp_modify, wp_bind]
      exact wp_of_forall (fun _ _ => rfl) fun _ _ => trivial

theorem withoutBatch_seqs {flags : ReclaimFlags} {decode : Bool}
    (hdecode : decode = true → flags.decode = true) (l : PrefillLocals ρ) (blocked : Option Nat) :
    wp (withoutBatch cfg hooks flags decode hdecode l blocked)
      (fun outcome _ => ∀ result, outcome = .done result → result.seqs = []) (fun _ _ => True) s := by
  cases blocked with
  | some id =>
    simp only [withoutBatch, wp_bind]
    refine wp_of_forall (fun freed _ => ?_) fun _ _ => trivial
    split
    · simp
    · rw [wp_bind, preemptBlocked, wp_bind, wp_modify]
      refine wp_mono (preemptDecodeVictim_seqs id [] []) (fun result _ none => ?_) fun _ _ _ => trivial
      rintro _ ⟨⟩
      exact none
  | none =>
    simp only [withoutBatch, wp_bind]
    refine wp_of_forall (fun freed _ => ?_) fun _ _ => trivial
    split
    · simp
    · rw [wp_bind, raiseStuck, wp_bind, wp_get, wp_bind, wp_raiseIf]
      refine ⟨fun _ => trivial, fun _ => ?_⟩
      rw [wp_bind, wp_raiseIf]
      refine ⟨fun _ => trivial, fun _ => ?_⟩
      rw [wp_bind, wp_raiseIf]
      refine ⟨fun _ => trivial, fun _ => ?_⟩
      rw [wp_ite]
      split
      · rw [wp_bind]
        exact wp_of_forall (fun _ _ => trivial) fun _ _ => trivial
      · rintro result ⟨⟩
        rfl

/-- The mirror leaves the state as it is. -/
theorem eligible_batch_mirrors_decode (steady : Steady hooks a s.world)
    (capacity : 1 ≤ cfg.maxDecodingSeqs) {flags : ReclaimFlags} {decode : Bool}
    (hdecode : decode = true → flags.decode = true) (l : PrefillLocals ρ) :
    ∃ batch, eligibleDecodeBatch cfg hooks s = (batch, s) ∧
      (∀ e, batch = .error e →
        (decodePhase cfg hooks flags decode hdecode l (max 0 a.freeSlots) s).1 = .error e) ∧
      (∀ ids, batch = .ok ids → ids ≠ [] →
        ∃ s', decodePhase cfg hooks flags decode hdecode l (max 0 a.freeSlots) s =
            (.ok (.done { seqs := ids, isPrefill := false, preempted := [] }), s') ∧
          s'.decoding.Perm s.decoding) ∧
      (batch = .ok [] → ∀ result s',
        decodePhase cfg hooks flags decode hdecode l (max 0 a.freeSlots) s =
          (.ok (.done result), s') → result.seqs = []) := by
  let s₁ : SchedulerState ω :=
    { s with phaseReason := if s.waiting = [] then .noPrefill else .prefillUnavailable }
  let start : DecodeLocals := { free := max 0 a.freeSlots, budgets := a.budgets }
  have phase : decodePhase cfg hooks flags decode hdecode l (max 0 a.freeSlots) s =
      (decodeLoop cfg hooks s₁.decoding.length start >>= fun d =>
        if d.scheduled = [] then withoutBatch cfg hooks flags decode hdecode l d.blocked
        else do
          PyM.modify (requeueDecodes d.scheduled d.blocked)
          return .done { seqs := d.scheduled, isPrefill := false, preempted := [] }) s₁ := by
    unfold decodePhase
    refine (bind_ok rfl).trans ?_
    refine (bind_ok (constant_hook steady.budgets s₁ rfl)).trans ?_
    exact bind_ok rfl
  have mirror : eligibleDecodeBatch cfg hooks s =
      ((decodeLoop cfg hooks s₁.decoding.length start s₁).1.map (·.scheduled), s) :=
    eligibleDecodeBatch_mirrors steady capacity rfl rfl rfl
  have scanned : wp (decodeLoop cfg hooks s₁.decoding.length start)
      (fun d s' => Scanned (fun _ _ => True) s₁ s' d) (fun _ _ => True) s₁ :=
    wp_mono (decodeLoop_scans hooks.frames_true s₁.decoding.length start s₁
      ⟨rfl, fun a => by simp [start], nofun, trivial⟩) (fun _ _ h => h) fun _ _ _ => trivial
  refine ⟨_, mirror, ?_⟩
  rw [phase]
  cases run : decodeLoop cfg hooks s₁.decoding.length start s₁ with
  | mk result s₂ =>
    cases result with
    | error e =>
      rw [bind_error run]
      refine ⟨?_, nofun, nofun⟩
      rintro _ ⟨⟩
      rfl
    | ok d =>
      rw [bind_ok run]
      have kept := (wp_of_ok run).mp scanned
      refine ⟨nofun, ?_, ?_⟩
      · rintro ids ⟨⟩ batch
        rw [if_neg batch]
        exact ⟨_, rfl, List.perm_iff_count.mpr kept.requeued.decoding⟩
      · intro none result s' outcome
        rw [if_pos (Except.ok.inj none)] at outcome
        exact (wp_of_ok outcome).mp (withoutBatch_seqs hdecode l d.blocked) result rfl

def demoAnswers (cost : Int) : DecodeAnswers where
  freeSlots := 0
  freeSlotsFor _ := 0
  reservationCost _ := cost
  budgets := none
  allocationCosts _ _ := .empty

/-- An oracle that asks `cost` slots of every sequence. -/
def starvedOracle (cost : Int) : MemoryOracle Unit Unit Unit :=
  { Custody.demoOracle false with decodeStepReservationCost := fun _ => pure cost }

def demoDecoding : SchedulerState Unit where
  world :=
    { oracle := ()
      seqs := fun id =>
        { Sequence.appendToken 4 (.create id [3] 9) with numPrefilledTokens := 1, status := .running } }
  decoding := [0, 1]

theorem starvedOracle_steady (cost : Int) :
    Steady (starvedOracle cost) (demoAnswers cost) demoDecoding.world :=
  ⟨rfl, fun _ => rfl, fun _ => rfl, rfl, fun _ _ => rfl⟩

/-- Steps that need no slot are scheduled for both sequences. -/
theorem eligible_batch_mirrors_decode_two :
    ∃ s', decodePhase Custody.demoConfig (starvedOracle 0) {} true id { stepFreeCount := 0 } 0
        demoDecoding = (.ok (.done { seqs := [0, 1], isPrefill := false, preempted := [] }), s') ∧
      s'.decoding.Perm [0, 1] := by
  have allowed : true = true → ReclaimFlags.decode {} = true := id
  obtain ⟨batch, picked, -, scheduled, -⟩ := eligible_batch_mirrors_decode (starvedOracle_steady 0)
    (show 1 ≤ Custody.demoConfig.maxDecodingSeqs by decide) allowed { stepFreeCount := 0 }
  have both : (eligibleDecodeBatch Custody.demoConfig (starvedOracle 0) demoDecoding).1 = .ok [0, 1] := by
    decide +kernel
  rw [picked] at both
  exact scheduled [0, 1] both (by decide)

/-- Where no sequence has its slot the mirror picks none and leaves the queue alone, and the decode
phase schedules none and preempts the first. -/
theorem decode_phase_preempts :
    Steady (starvedOracle 1) (demoAnswers 1) demoDecoding.world ∧
      (eligibleDecodeBatch Custody.demoConfig (starvedOracle 1) demoDecoding).1 = .ok [] ∧
      (eligibleDecodeBatch Custody.demoConfig (starvedOracle 1) demoDecoding).2.decoding = [0, 1] ∧
      ∃ s', decodePhase Custody.demoConfig (starvedOracle 1) {} true id { stepFreeCount := 0 } 0
          demoDecoding = (.ok (.done { seqs := [], isPrefill := false, preempted := [0] }), s') ∧
        ¬ s'.decoding.Perm [0, 1] := by
  refine ⟨starvedOracle_steady 1, by decide +kernel, by decide +kernel, _, Prod.ext ?_ rfl, ?_⟩
  · rfl
  · decide +kernel

end SchedulerState

end SparseEngine
