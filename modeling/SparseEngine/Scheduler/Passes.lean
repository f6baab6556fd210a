import SparseEngine.Scheduler.Outcomes

/-! The phases of a pass, one after the other. -/

namespace SparseEngine.SchedulerState

open PyM

variable {ω κ ρ : Type} {R : OracleWorld ω → OracleWorld ω → Prop} [Std.Refl R]
  [IsTrans (OracleWorld ω) R] {cfg : SchedulerConfig} {hooks : MemoryOracle ω κ ρ}
  {s s₁ s' : SchedulerState ω}

theorem prefillCounters_fresh (frames : hooks.Frames R) (free : Int) (s : SchedulerState ω) :
    wp (prefillCounters cfg hooks free)
      (fun l s' => Still R s s' ∧ l.scheduled = [] ∧ l.numBatchedSeqs = 0 ∧ l.numBatchedTokens = 0)
      (fun _ s' => Still R s s') s := by
  have still : wp (prefillCounters cfg hooks free) (fun _ => Still R s) (fun _ => Still R s) s :=
    (prefillCounters_still frames free).wp (fun _ _ h => h) fun _ _ h => h
  have fresh : wp (prefillCounters cfg hooks free)
      (fun l _ => l.scheduled = [] ∧ l.numBatchedSeqs = 0 ∧ l.numBatchedTokens = 0)
      (fun _ _ => True) s := by
    rw [prefillCounters, wp_bind, wp_get, wp_ite]
    split
    · exact ⟨rfl, rfl, rfl⟩
    · simp only [wp_bind, wp_pure]
      refine wp_of_forall (fun _ _ => ?_) fun _ _ => trivial
      refine wp_of_forall (fun _ _ => ?_) fun _ _ => trivial
      refine wp_of_forall (fun _ _ => ?_) fun _ _ => trivial
      refine wp_of_forall (fun _ _ => ?_) fun _ _ => trivial
      exact wp_of_forall (fun _ _ => ⟨trivial, trivial, trivial⟩) fun _ _ => trivial
  exact wp_mono (wp_and still fresh) (fun _ _ h => h) fun _ _ h => h.1

omit [IsTrans (OracleWorld ω) R] in
theorem sortOverdue_shuffles (overdue : Bool) (s : SchedulerState ω) :
    wp (sortOverdue overdue) (fun _ s' => Shuffled R s s') (fun _ s' => Still R s s') s := by
  rw [sortOverdue, wp_bind, wp_get, wp_ite]
  split
  · rw [wp_bind, wp_raiseIf]
    refine ⟨fun _ => refl s, fun _ => ⟨fun a => ?_, fun _ => rfl, refl s.world⟩⟩
    exact (List.perm_insertionSort _ s.waiting).count_eq a
  · exact (refl s : Still R s s).shuffled

section

variable [DecidableEq κ]

theorem bucketsToTry_gates (frames : hooks.Frames R) (s : SchedulerState ω) :
    wp (bucketsToTry cfg hooks)
      (fun buckets s' => Still R s s' ∧
        (buckets ≠ [] → ¬ (s.replayPending = true ∧ s.decoding ≠ [])))
      (fun _ s' => Still R s s') s := by
  rw [bucketsToTry, wp_bind, wp_get, wp_ite]
  split
  · exact ⟨refl s, fun some => absurd rfl some⟩
  · next tries =>
    refine (prefillModeOrder_still frames).wp (fun _ s₁ still => ?_) fun _ _ h => h
    exact ⟨still, fun _ gated => tries (.inr gated)⟩

variable [DecidableEq ρ]

theorem prefillPhase_takes (frames : hooks.Frames R) (updates : CandidateUpdates R) (overdue : Bool)
    (s : SchedulerState ω) :
    wp (prefillPhase cfg hooks overdue)
      (fun r s' => (∀ a, r.1.scheduled.count a + s'.waiting.count a = s.waiting.count a) ∧
        (∀ a, s'.decoding.count a = s.decoding.count a) ∧ R s.world s'.world ∧
        (r.1.scheduled ≠ [] → Gated R s r.1.scheduled))
      (fun _ s' => Failed R s s') s := by
  simp only [prefillPhase, wp_bind, wp_get]
  refine (hook_still frames.numFreeSlots).wp (fun free s₁ h₁ => ?_) fun _ _ h => h.failed
  refine wp_mono (prefillCounters_fresh frames free s₁) (fun counters s₂ h₂ => ?_)
    fun _ _ h => (IsTrans.trans _ _ _ h₁ h).failed
  obtain ⟨h₂, fresh, -⟩ := h₂
  have h₂ := IsTrans.trans _ _ _ h₁ h₂
  refine (hook_still frames.decodeStepFreeSlots).wp (fun decodeFree s₃ h₃ => ?_)
    fun _ _ h => (IsTrans.trans _ _ _ h₂ h).failed
  have h₃ := IsTrans.trans _ _ _ h₂ h₃
  refine (prefillAllocationBudgets_still frames).wp (fun budgets s₄ h₄ => ?_)
    fun _ _ h => (IsTrans.trans _ _ _ h₃ h).failed
  have h₄ := IsTrans.trans _ _ _ h₃ h₄
  refine wp_mono (sortOverdue_shuffles (R := R) overdue s₄) (fun _ s₅ h₅ => ?_)
    fun _ _ h => (IsTrans.trans _ _ _ h₄ h).failed
  have shuffled := h₄.shuffled.trans h₅
  refine wp_mono (bucketsToTry_gates frames s₅) (fun buckets s₆ h₆ => ?_)
    fun _ _ h => shuffled.failed h.failed
  obtain ⟨h₆, gate⟩ := h₆
  have shuffled₆ := shuffled.trans h₆.shuffled
  obtain ⟨l, start, unstarted⟩ : ∃ l : PrefillLocals ρ,
      l = { counters with allocationBudgets := budgets } ∧ l.scheduled = [] := ⟨_, rfl, fresh⟩
  rw [← start]
  cases buckets with
  | nil =>
    refine ⟨fun a => ?_, shuffled₆.decoding, shuffled₆.world, fun some => absurd unstarted some⟩
    rw [unstarted, List.count_nil, Nat.zero_add, shuffled₆.waiting]
  | cons bucket buckets =>
    have line : Line R s₆ l.scheduled (s₆, []) := ⟨fun a => by simp [unstarted], rfl, refl s₆.world⟩
    have batched : ∃ priority, Batched R s₆ priority s₆.replayPending l.scheduled :=
      ⟨0, by rw [unstarted]; exact batched_nil 0⟩
    refine wp_mono (prefillBuckets_batches frames updates _ l s₆ line batched) ?_ ?_
    · rintro l' s₇ ⟨line, priority, batched⟩
      refine ⟨fun a => ?_, fun a => ?_, IsTrans.trans _ _ _ shuffled₆.world line.world, fun _ => ?_⟩
      · have counted := line.waiting a
        rw [shuffled₆.waiting] at counted
        simpa using counted
      · rw [line.decoding, shuffled₆.decoding]
      · exact ⟨⟨s₅, shuffled, gate (by simp)⟩, s₆, priority, shuffled₆, batched⟩
    · rintro e s₇ ⟨held, line⟩
      refine shuffled₆.failed ⟨fun a => by rw [line.decoding], fun a => ?_, .inl line.world⟩
      have counted := line.waiting a
      rw [line.decoding]
      dsimp only at counted
      omega

end

structure Scanned (R : OracleWorld ω → OracleWorld ω → Prop) (s₀ s : SchedulerState ω)
    (l : DecodeLocals) : Prop where
  waiting : s.waiting = s₀.waiting
  decoding : ∀ a, l.scheduled.count a + s.decoding.count a = s₀.decoding.count a
  blocked : ∀ id ∈ l.blocked, id ∈ l.scheduled ++ s.decoding
  world : R s₀.world s.world

variable {s₀ : SchedulerState ω} {l : DecodeLocals}

structure Turn (R : OracleWorld ω → OracleWorld ω → Prop) (s₀ s : SchedulerState ω)
    (l : DecodeLocals) (id : Nat) : Prop where
  waiting : s.waiting = s₀.waiting
  decoding : ∀ a, l.scheduled.count a + [id].count a + s.decoding.count a = s₀.decoding.count a
  blocked : ∀ b ∈ l.blocked, b = id ∨ b ∈ l.scheduled ++ s.decoding
  world : R s₀.world s.world

variable {id : Nat}

omit [Std.Refl R] in
theorem Turn.still (h : Turn R s₀ s l id) (still : Still R s s') : Turn R s₀ s' l id where
  waiting := still.waiting.trans h.waiting
  decoding a := by rw [still.decoding]; exact h.decoding a
  blocked b member := by rw [still.decoding]; exact h.blocked b member
  world := IsTrans.trans _ _ _ h.world still.world

omit [Std.Refl R] [IsTrans (OracleWorld ω) R] in
theorem Turn.failed (h : Turn R s₀ s l id) : Failed R s₀ s where
  decoding a := by
    have counted := h.decoding a
    omega
  total a := by
    have counted := h.decoding a
    rw [h.waiting]
    omega
  world := .inl h.world

omit [Std.Refl R] [IsTrans (OracleWorld ω) R] in
theorem Turn.back (h : Turn R s₀ s l id) {queue : List Nat}
    (queued : queue = s.decoding ++ [id] ∨ queue = id :: s.decoding) {l' : DecodeLocals}
    (scheduled : l'.scheduled = l.scheduled) (blocked : ∀ b ∈ l'.blocked, b = id ∨ b ∈ l.blocked) :
    Scanned R s₀ { s with decoding := queue } l' := by
  have member : ∀ b, b ∈ queue ↔ b = id ∨ b ∈ s.decoding := by
    rcases queued with rfl | rfl <;> simp [or_comm]
  have count : ∀ a, queue.count a = [id].count a + s.decoding.count a := by
    intro a
    rcases queued with rfl | rfl
    · rw [List.count_append, Nat.add_comm]
    · rw [List.count_cons, Nat.add_comm]
      simp [List.count_cons]
  refine ⟨h.waiting, fun a => ?_, fun b here => ?_, h.world⟩
  · have counted := h.decoding a
    have queued_count := count a
    rw [scheduled]
    dsimp only
    omega
  · have known : b = id ∨ b ∈ l.scheduled ++ s.decoding := by
      rcases blocked b here with rfl | old
      · exact .inl rfl
      · exact h.blocked b old
    rw [List.mem_append, scheduled, member]
    rcases known with rfl | inside
    · exact .inr (.inl rfl)
    · exact (List.mem_append.mp inside).imp_right .inr

omit [Std.Refl R] [IsTrans (OracleWorld ω) R] in
theorem blockDecode_scans (h : Turn R s₀ s l id) :
    wp (blockDecode l id) (fun r s' => Scanned R s₀ s' r.1) (fun _ s' => Failed R s₀ s') s := by
  have first : ∀ b ∈ l.blocked.or (some id), b = id ∨ b ∈ l.blocked := by
    intro b here
    cases blocked : l.blocked with
    | none =>
      rw [blocked] at here
      exact .inl (Option.some.inj here).symm
    | some b' =>
      rw [blocked] at here
      exact .inr here
  rw [blockDecode, wp_ite]
  split
  · exact h.back (.inl rfl) rfl first
  · rw [wp_ite]
    split
    · exact h.back (.inl rfl) rfl first
    · exact h.back (.inr rfl) rfl fun b here => .inl (Option.some.inj here).symm

theorem considerDecode_scans (frames : hooks.Frames R) (h : Turn R s₀ s l id) :
    wp (considerDecode hooks l id) (fun r s' => Scanned R s₀ s' r.1) (fun _ s' => Failed R s₀ s')
      s := by
  rw [considerDecode, wp_bind, wp_get, wp_ite]
  split
  · exact h.back (.inl rfl) rfl fun _ here => .inr here
  · simp only [wp_bind]
    refine (hook_still (frames.decodeStepFreeSlotsFor id)).wp (fun own s₁ h₁ => ?_)
      fun _ _ still => (h.still still).failed
    have h₁ := h.still h₁
    refine (hook_still (frames.decodeStepReservationCost id)).wp (fun cost s₂ h₂ => ?_)
      fun _ _ still => (h₁.still still).failed
    have h₂ := h₁.still h₂
    refine (decodeBlocked_still frames id _ cost _).wp (fun blocked s₃ h₃ => ?_)
      fun _ _ still => (h₂.still still).failed
    have h₃ := h₂.still h₃
    rw [wp_ite]
    split
    · exact blockDecode_scans h₃
    · rw [wp_bind]
      refine (chargeStepAllocations_still frames id 1 _).wp (fun budgets s₄ h₄ => ?_)
        fun _ _ still => (h₃.still still).failed
      have h₄ := h₃.still h₄
      refine ⟨h₄.waiting, fun a => ?_, fun b here => ?_, h₄.world⟩
      · have counted := h₄.decoding a
        rw [List.count_append]
        exact counted
      · have known := h₄.blocked b here
        simp only [List.mem_append, List.mem_singleton] at known ⊢
        exact known.elim (fun same => .inl (.inr same)) (Or.imp_left .inl)

theorem decodeLoop_scans (frames : hooks.Frames R) :
    ∀ (budget : Nat) (l : DecodeLocals) (s : SchedulerState ω), Scanned R s₀ s l →
      wp (decodeLoop cfg hooks budget l) (fun l' s' => Scanned R s₀ s' l')
        (fun _ s' => Failed R s₀ s') s
  | 0, _, _, h => h
  | budget + 1, l, s, h => by
    rw [decodeLoop, wp_bind, wp_get]
    dsimp only
    split
    · exact h
    · next id rest queue =>
      rw [wp_ite]
      split
      · simp only [wp_bind, wp_modify]
        have turn : Turn R s₀ { s with decoding := rest } l id := by
          refine ⟨h.waiting, fun a => ?_, fun b here => ?_, h.world⟩
          · have counted := h.decoding a
            rw [queue, List.count_cons] at counted
            rw [List.count_singleton]
            dsimp only
            omega
          · have known := h.blocked b here
            rw [queue] at known
            simp only [List.mem_append, List.mem_cons] at known ⊢
            exact known.elim (fun batch => .inr (.inl batch))
              fun queued => queued.imp_right .inr
        refine wp_mono (considerDecode_scans frames turn) ?_ fun _ _ h => h
        rintro ⟨l', more⟩ s₁ scanned
        dsimp only
        rw [wp_ite]
        split
        · exact decodeLoop_scans frames budget l' s₁ scanned
        · exact scanned
      · exact h

omit [Std.Refl R] [IsTrans (OracleWorld ω) R] in
theorem Scanned.requeued (h : Scanned R s₀ s l) :
    Shuffled R s₀ (requeueDecodes l.scheduled l.blocked s) := by
  have total : ∀ a, (l.scheduled ++ s.decoding).count a = s₀.decoding.count a := fun a => by
    rw [List.count_append]
    exact h.decoding a
  refine ⟨fun a => congrArg (List.count a) h.waiting, fun a => ?_, h.world⟩
  cases here : l.blocked with
  | none => exact total a
  | some id =>
    have member := h.blocked id here
    have kept := (List.perm_cons_erase member).count_eq a
    exact kept.symm.trans (total a)

variable {victim : Nat}

omit [Std.Refl R] [IsTrans (OracleWorld ω) R] in
theorem Taken.failed (h : Taken R s₀ s victim) : Failed R s₀ s where
  decoding a := by
    have counted := h.decoding a
    omega
  total a := by
    have counted := h.decoding a
    rw [h.waiting]
    omega
  world := .inl h.world

theorem removeDecoding_takes (h : Shuffled R s₀ s) :
    wp (removeDecoding victim) (fun _ s' => Taken R s₀ s' victim) (fun _ s' => Failed R s₀ s') s := by
  rw [removeDecoding, wp_bind, wp_get, wp_bind, wp_raiseIf]
  refine ⟨fun _ => h.failed (refl s : Still R s s).failed, fun present => ?_⟩
  refine ⟨h.waiting, fun a => ?_, h.world⟩
  have kept := (List.perm_cons_erase (not_not.mp present)).count_eq a
  rw [h.decoding, List.count_cons] at kept
  rw [List.count_singleton]
  exact kept.symm

omit [Std.Refl R] [IsTrans (OracleWorld ω) R] in
theorem returnVictim_fails (h : Taken R s₀ s victim) (e : PyError) :
    wp (returnVictim victim [] e) (fun _ _ => False) (fun _ s' => Failed R s₀ s') s := by
  rw [returnVictim, wp_bind, wp_modify, wp_raise]
  refine ⟨fun a => ?_, fun a => ?_, .inl h.world⟩
  · have counted := h.decoding a
    simp only [List.nil_append, List.count_cons, List.count_nil] at counted ⊢
    omega
  · have counted := h.decoding a
    have waiting := h.waiting a
    simp only [List.nil_append, List.count_cons, List.count_nil] at counted ⊢
    omega

theorem resetVictim_queues (victim : Nat) (s : SchedulerState ω) :
    (resetVictim victim s).waiting = s.waiting ∧ (resetVictim victim s).decoding = s.decoding := by
  rw [resetVictim]
  split <;> exact ⟨rfl, rfl⟩

theorem checkpointSurvivors_queues (s : SchedulerState ω) :
    (checkpointSurvivors s).waiting = s.waiting ∧ (checkpointSurvivors s).decoding = s.decoding := by
  have fold : ∀ (ids : List Nat) (s : SchedulerState ω),
      (ids.foldl (fun s id => updateSeq id Sequence.checkpointProgress s) s).waiting = s.waiting ∧
        (ids.foldl (fun s id => updateSeq id Sequence.checkpointProgress s) s).decoding =
          s.decoding := by
    intro ids
    induction ids with
    | nil => exact fun _ => ⟨rfl, rfl⟩
    | cons id ids ih => exact fun s => ih _
  exact fold s.decoding s

theorem preemptDecodeVictim_preempts (frames : hooks.Frames R) (h : Taken R s₀ s victim) :
    wp (preemptDecodeVictim cfg hooks victim [] []) (fun r s' => Outcome R s₀ s' r)
      (fun _ s' => Failed R s₀ s') s := by
  have rejected : ∀ e, wp (returnVictim victim [] e) (fun r s' => Outcome R s₀ s' r)
      (fun _ s' => Failed R s₀ s') s := fun e =>
    wp_mono (returnVictim_fails h e) (fun _ _ no => no.elim) fun _ _ failed => failed
  simp only [preemptDecodeVictim, wp_bind, wp_get, wp_ite]
  split
  · exact rejected _
  · split
    · exact rejected _
    · next other =>
      have sole : soleDecode s victim = false := by simpa using other
      refine (debugHook_still frames.numFreeSlots).wp (fun _ s₁ h₁ => ?_)
        fun _ _ still => (h.still still).failed
      simp only [wp_modify]
      let s₂ := checkpointSurvivors (resetVictim victim s₁)
      have taken := h.still h₁
      have waiting : ∀ a, s₂.waiting.count a = s₀.waiting.count a := by
        intro a
        rw [(checkpointSurvivors_queues _).1, (resetVictim_queues _ _).1, taken.waiting]
      have decoding : ∀ a, s₂.decoding.count a + [victim].count a = s₀.decoding.count a := by
        intro a
        rw [(checkpointSurvivors_queues _).2, (resetVictim_queues _ _).2, taken.decoding]
      have restarted : ∀ s', R s₂.world s'.world → Restarted R s₀ s' victim := fun s' moved =>
        ⟨s, s₁, h, sole, h₁, moved⟩
      have fails : ∀ s', Still R s₂ s' → Failed R s₀ s' := by
        refine fun s' still => ⟨fun a => ?_, fun a => ?_, .inr ⟨victim, restarted s' still.world⟩⟩
        · have counted := decoding a
          rw [still.decoding]
          omega
        · have counted := decoding a
          rw [still.decoding, still.waiting, waiting]
          omega
      refine (hook_still (frames.clearPrefixCacheHit victim)).wp (fun _ s₃ h₃ => ?_)
        fun _ s' still => fails s' still
      refine (hook_still (frames.resetPrefillExecutionState victim)).wp (fun _ s₄ h₄ => ?_)
        fun _ s' still => fails s' (IsTrans.trans _ _ _ h₃ still)
      have h₄ := IsTrans.trans _ _ _ h₃ h₄
      have outcome : ∀ s' : SchedulerState ω, s'.waiting = s₄.waiting ++ [victim] →
          s'.decoding = [] ++ s₄.decoding → R s₄.world s'.world →
          Outcome R s₀ s' ⟨[], false, [victim]⟩ := by
        intro s' waiting' decoding' world
        refine .preempt (fun a => ?_) (fun a => ?_)
          (restarted s' (IsTrans.trans _ _ _ h₄.world world))
        · rw [waiting', List.count_append, h₄.waiting, waiting]
        · rw [decoding', List.nil_append, h₄.decoding, decoding]
      refine (hook_still frames.freeSlotStats).wp (fun _ s₅ h₅ => ?_) fun _ s₅ h₅ => ?_
      · exact outcome s₅ h₅.waiting h₅.decoding h₅.world
      · exact (outcome s₅ h₅.waiting h₅.decoding h₅.world).failed

theorem preemptFailed_preempts (frames : hooks.Frames R) (h : Shuffled R s₀ s) :
    wp (preemptFailed cfg hooks victim) (fun r s' => Outcome R s₀ s' r)
      (fun _ s' => Failed R s₀ s') s := by
  rw [preemptFailed, wp_bind]
  refine wp_mono (removeDecoding_takes h) (fun _ s₁ taken => ?_) fun _ _ failed => failed
  exact preemptDecodeVictim_preempts frames taken

theorem preemptCrowded_preempts (frames : hooks.Frames R) (h : Shuffled R s₀ s) :
    wp (preemptCrowded cfg hooks victim) (fun r s' => Outcome R s₀ s' r)
      (fun _ s' => Failed R s₀ s') s := by
  simp only [preemptCrowded, wp_bind]
  refine wp_mono (removeDecoding_takes h) (fun _ s₁ taken => ?_) fun _ _ failed => failed
  refine (hook_still frames.numFreeSlots).wp (fun _ s₂ h₂ => ?_)
    fun _ _ still => (taken.still still).failed
  have taken := taken.still h₂
  refine (reservedPrefillTokens_still frames).wp (fun _ s₃ h₃ => ?_)
    fun _ _ still => (taken.still still).failed
  exact preemptDecodeVictim_preempts frames (taken.still h₃)

theorem preemptBlocked_preempts (frames : hooks.Frames R) (h : Shuffled R s₀ s)
    (present : victim ∈ s.decoding) :
    wp (preemptBlocked cfg hooks victim) (fun r s' => Outcome R s₀ s' r)
      (fun _ s' => Failed R s₀ s') s := by
  rw [preemptBlocked, wp_bind, wp_modify]
  refine preemptDecodeVictim_preempts frames ⟨h.waiting, fun a => ?_, h.world⟩
  have kept := (List.perm_cons_erase present).count_eq a
  rw [h.decoding, List.count_cons] at kept
  rw [List.count_singleton]
  exact kept.symm

def Passed (R : OracleWorld ω → OracleWorld ω → Prop) (s₀ : SchedulerState ω) {flags : ReclaimFlags} :
    PassOutcome flags → SchedulerState ω → Prop
  | .done result, s' => Outcome R s₀ s' result
  | .again _ _, s' => Shuffled R s₀ s'

omit [Std.Refl R] in
theorem Shuffled.idle (h : Shuffled R s₀ s) (still : Still R s s') :
    Outcome R s₀ s' ⟨[], false, []⟩ :=
  .decode (h.trans still.shuffled) fun _ => Nat.zero_le _

theorem raiseStuck_idle (frames : hooks.Frames R) (l : PrefillLocals ρ) (h : Shuffled R s₀ s) :
    wp (raiseStuck cfg hooks l) (fun r s' => Outcome R s₀ s' r) (fun _ s' => Failed R s₀ s') s := by
  have still : wp (raiseStuck cfg hooks l) (fun _ => Still R s) (fun _ => Still R s) s :=
    (raiseStuck_still frames l).wp (fun _ _ h => h) fun _ _ h => h
  have idle : wp (raiseStuck cfg hooks l) (fun r _ => r = ⟨[], false, []⟩) (fun _ _ => True) s := by
    rw [raiseStuck, wp_bind, wp_get]
    simp only [wp_bind, wp_raiseIf, wp_ite, wp_raise, wp_pure]
    refine ⟨fun _ => trivial, fun _ => ⟨fun _ => trivial, fun _ => ⟨fun _ => trivial, fun _ => ?_⟩⟩⟩
    split
    · exact wp_of_forall (fun _ _ => trivial) fun _ _ => trivial
    · trivial
  refine wp_mono (wp_and still idle) ?_ fun _ _ failed => h.failed failed.1.failed
  rintro result s₁ ⟨still, rfl⟩
  exact h.idle still

variable {flags : ReclaimFlags} {decode : Bool}

theorem withoutBatch_passes (frames : hooks.Frames R)
    (hdecode : decode = true → flags.decode = true) (l : PrefillLocals ρ) {blocked : Option Nat}
    (h : Shuffled R s₀ s) (present : ∀ id ∈ blocked, id ∈ s.decoding) :
    wp (withoutBatch cfg hooks flags decode hdecode l blocked) (Passed R s₀)
      (fun _ s' => Failed R s₀ s') s := by
  cases blocked with
  | some id =>
    rw [withoutBatch, wp_bind]
    refine (reclaimBlocked_still frames decode id).wp (fun freed s₁ still => ?_)
      fun _ _ still => h.failed still.failed
    have shuffled := h.trans still.shuffled
    split
    · exact shuffled
    · rw [wp_bind]
      refine preemptBlocked_preempts frames shuffled ?_
      rw [still.decoding]
      exact present id rfl
  | none =>
    rw [withoutBatch, wp_bind]
    refine (reclaimPrefill_still frames flags l).wp (fun freed s₁ still => ?_)
      fun _ _ still => h.failed still.failed
    have shuffled := h.trans still.shuffled
    split
    · exact shuffled
    · rw [wp_bind]
      exact raiseStuck_idle frames l shuffled

theorem decodePhase_passes (frames : hooks.Frames R) (hdecode : decode = true → flags.decode = true)
    (l : PrefillLocals ρ) (free : Int) (h : Shuffled R s₀ s) :
    wp (decodePhase cfg hooks flags decode hdecode l free) (Passed R s₀)
      (fun _ s' => Failed R s₀ s') s := by
  simp only [decodePhase, wp_bind, wp_modify, wp_get]
  refine (hook_still (frames.stepAllocationBudgets false)).wp (fun budgets s₁ still => ?_)
    fun _ s' still => h.failed (Still.failed (s := s) ⟨still.waiting, still.decoding, still.world⟩)
  have still : Still R s s₁ := ⟨still.waiting, still.decoding, still.world⟩
  have shuffled := h.trans still.shuffled
  have start : Scanned R s₁ s₁ { free := free, budgets := budgets } :=
    ⟨rfl, fun a => by simp, (by simp), refl s₁.world⟩
  refine wp_mono (decodeLoop_scans frames s₁.decoding.length _ s₁ start) (fun d s₂ scanned => ?_)
    fun _ _ failed => shuffled.failed failed
  rw [wp_ite]
  split
  · next empty =>
    refine withoutBatch_passes frames hdecode l (shuffled.trans ⟨fun a => ?_, fun a => ?_, scanned.world⟩)
      fun id here => ?_
    · rw [scanned.waiting]
    · have counted := scanned.decoding a
      simpa [empty] using counted
    · simpa [empty] using scanned.blocked id here
  · refine .decode (shuffled.trans scanned.requeued) fun a => ?_
    have counted := scanned.decoding a
    rw [shuffled.decoding] at counted
    omega

variable [DecidableEq κ] [DecidableEq ρ]

theorem passBody_passes (frames : hooks.Frames R) (updates : CandidateUpdates R)
    (hdecode : decode = true → flags.decode = true) (failure : Option Nat) (h : Shuffled R s₀ s) :
    wp (passBody cfg hooks flags decode hdecode failure) (Passed R s₀)
      (fun _ s' => Failed R s₀ s') s := by
  simp only [passBody, wp_bind]
  refine (findOverdue_still (R := R)).wp (fun overdue s₁ h₁ => ?_)
    fun _ _ still => h.failed still.failed
  have shuffled₁ := h.trans h₁.shuffled
  refine wp_mono (affinityBatch_picks frames overdue failure.isSome s₁) ?_
    fun _ _ still => shuffled₁.failed still.failed
  rintro batch s₂ ⟨h₂, picked⟩
  have shuffled₂ := shuffled₁.trans h₂.shuffled
  cases batch with
  | some batch =>
    refine .decode shuffled₂ fun a => ?_
    rw [← shuffled₁.decoding]
    exact (picked batch rfl).count_le a
  | none =>
    simp only [wp_bind]
    refine wp_mono (prefillPhase_takes frames updates overdue s₂) ?_
      fun _ _ failed => shuffled₂.failed failed
    rintro ⟨l, free⟩ s₃ ⟨waiting, decoding, world, gated⟩
    dsimp only at waiting gated ⊢
    have reordered : l.scheduled = [] → Shuffled R s₀ s₃ := by
      intro empty
      refine shuffled₂.trans ⟨fun a => ?_, decoding, world⟩
      simpa [empty] using waiting a
    cases scheduled : l.scheduled with
    | nil =>
      cases failure with
      | none => exact decodePhase_passes frames hdecode l free (reordered scheduled)
      | some id =>
        simp only [wp_bind]
        exact preemptFailed_preempts frames (reordered scheduled)
    | cons first rest =>
      rw [scheduled] at waiting gated
      cases failure with
      | none => exact shuffled₂.outcome (.prefill waiting decoding world (gated (by simp)))
      | some id => exact shuffled₂.outcome (.prefill waiting decoding world (gated (by simp)))

theorem schedulePass_passes (frames : hooks.Frames R) (updates : CandidateUpdates R)
    (flags : ReclaimFlags) (s : SchedulerState ω) :
    wp (schedulePass cfg hooks flags) (Passed R s) (fun _ s' => Failed R s s') s := by
  simp only [schedulePass, wp_bind, wp_get]
  refine (reserveWindows_still frames flags).wp (fun reserved s₁ still => ?_)
    fun _ _ still => still.failed
  obtain ⟨failure, reclaimed⟩ := reserved
  dsimp only
  split
  · rw [wp_bind]
    exact preemptCrowded_preempts frames still.shuffled
  · exact passBody_passes frames updates _ _ still.shuffled

theorem scheduleImpl_outcome (frames : hooks.Frames R) (updates : CandidateUpdates R)
    (flags : ReclaimFlags) (s : SchedulerState ω) :
    wp (scheduleImpl cfg hooks flags) (fun r s' => Outcome R s s' r) (fun _ s' => Failed R s s')
      s := by
  rw [scheduleImpl, wp_bind]
  refine wp_mono (schedulePass_passes frames updates flags s) (fun outcome s₁ passed => ?_)
    fun _ _ failed => failed
  cases outcome with
  | done result => exact passed
  | again next fewer =>
    have shuffled : Shuffled R s s₁ := passed
    exact wp_mono (scheduleImpl_outcome frames updates next s₁)
      (fun _ _ outcome => shuffled.outcome outcome) fun _ _ failed => shuffled.failed failed
termination_by flags.number

omit [Std.Refl R] [DecidableEq κ] [DecidableEq ρ] in
theorem Outcome.still {result : ScheduleResult} (h : Outcome R s s₁ result) (still : Still R s₁ s') :
    Outcome R s s' result := by
  cases h with
  | prefill waiting decoding world gated =>
    refine .prefill (fun a => ?_) (fun a => ?_) (IsTrans.trans _ _ _ world still.world) gated
    · rw [still.waiting]
      exact waiting a
    · rw [still.decoding]
      exact decoding a
  | decode shuffled batch => exact .decode (shuffled.trans still.shuffled) batch
  | preempt waiting decoding restarted =>
    refine .preempt (fun a => ?_) (fun a => ?_) (restarted.moved still.world)
    · rw [still.waiting]
      exact waiting a
    · rw [still.decoding]
      exact decoding a

omit [Std.Refl R] [DecidableEq κ] [DecidableEq ρ] in
theorem Failed.still (h : Failed R s s₁) (still : Still R s₁ s') : Failed R s s' where
  decoding a := by rw [still.decoding]; exact h.decoding a
  total a := by rw [still.waiting, still.decoding]; exact h.total a
  world := by
    rcases h.world with moved | ⟨victim, restarted⟩
    · exact .inl (IsTrans.trans _ _ _ moved still.world)
    · exact .inr ⟨victim, restarted.moved still.world⟩

def Once (s : SchedulerState ω) : Prop := ∀ a, s.waiting.count a + s.decoding.count a ≤ 1

theorem count_filter (p : Nat → Bool) (ids : List Nat) (a : Nat) :
    (ids.filter p).count a = if p a then ids.count a else 0 := by
  split
  · next here => exact List.count_filter here
  · next gone =>
    exact List.count_eq_zero_of_not_mem fun member => gone (List.mem_filter.mp member).2

omit [Std.Refl R] [IsTrans (OracleWorld ω) R] [DecidableEq κ] [DecidableEq ρ] in
theorem restoreQueues_restores (once : s.Once) (failed : Failed R s s') :
    Failed R s (restoreQueues s.waiting s.decoding s') ∧
      ∀ a, (restoreQueues s.waiting s.decoding s').waiting.count a +
        (restoreQueues s.waiting s.decoding s').decoding.count a =
          s.waiting.count a + s.decoding.count a := by
  have counts : ∀ a, (restoreQueues s.waiting s.decoding s').decoding.count a ≤
      s.decoding.count a ∧
      (restoreQueues s.waiting s.decoding s').waiting.count a +
        (restoreQueues s.waiting s.decoding s').decoding.count a =
          s.waiting.count a + s.decoding.count a := by
    intro a
    have one := once a
    have within := failed.total a
    have decoding := failed.decoding a
    simp only [restoreQueues, List.count_append, count_filter, decide_eq_true_eq,
      Bool.and_eq_true, ← List.count_pos_iff]
    split_ifs <;> omega
  refine ⟨⟨fun a => (counts a).1, fun a => (counts a).2.le, ?_⟩, fun a => (counts a).2⟩
  exact failed.world.imp_right fun ⟨victim, restarted⟩ => ⟨victim, ⟨restarted.reset⟩⟩

omit [IsTrans (OracleWorld ω) R] [DecidableEq κ] [DecidableEq ρ] in
theorem noteWaiting_still (now : Int) (ids : List Nat) :
    ∀ s : SchedulerState ω, Still R s (ids.foldl (fun s id => noteWaiting now id s) s) := by
  induction ids with
  | nil => exact fun s => refl s
  | cons id ids ih =>
    intro s
    have later := ih (noteWaiting now id s)
    exact ⟨later.waiting, later.decoding, later.world⟩

omit [IsTrans (OracleWorld ω) R] [DecidableEq κ] [DecidableEq ρ] in
theorem recordPhase_still (now : Int) (result : ScheduleResult) (s : SchedulerState ω) :
    Still R s (recordPhase now result s) := by
  rw [recordPhase]
  split
  · exact refl s
  · exact ⟨rfl, rfl, refl s.world⟩

theorem schedule_outcome (frames : hooks.Frames R) (updates : CandidateUpdates R) (once : s.Once) :
    wp (schedule cfg hooks) (fun r s' => Outcome R s s' r)
      (fun _ s' => Failed R s s' ∧ ∀ a, s'.waiting.count a + s'.decoding.count a =
        s.waiting.count a + s.decoding.count a) s := by
  have noted := noteWaiting_still (R := R) (s.now hooks) s.waiting s
  simp only [schedule, wp_bind, wp_get, wp_modify, wp_tryExcept, wp_tryFinally, wp_raise]
  refine (hook_still frames.enterCapacitySnapshot).wp (fun _ s₁ entered => ?_)
    fun _ s₁ entered => restoreQueues_restores once (IsTrans.trans _ _ _ noted entered).failed
  have entered := IsTrans.trans _ _ _ noted entered
  refine wp_mono (scheduleImpl_outcome frames updates {} s₁) (fun result s₂ outcome => ?_)
    fun _ s₂ failed => ?_
  · have outcome := entered.shuffled.outcome outcome
    refine (hook_still frames.exitCapacitySnapshot).wp (fun _ s₃ exited => ?_) fun _ s₃ exited => ?_
    · exact (outcome.still exited).still (recordPhase_still _ result s₃)
    · exact restoreQueues_restores once (outcome.failed.still exited)
  · have failed := entered.shuffled.failed failed
    refine (hook_still frames.exitCapacitySnapshot).wp (fun _ s₃ exited => ?_) fun _ s₃ exited => ?_
    · exact restoreQueues_restores once (failed.still exited)
    · exact restoreQueues_restores once (failed.still exited)

end SparseEngine.SchedulerState
