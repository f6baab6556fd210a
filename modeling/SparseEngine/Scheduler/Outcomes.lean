import SparseEngine.Scheduler.StillQueues

/-! A call returns a prefill batch, which left the waiting queue, or a decode batch. -/

namespace SparseEngine

open PyM

theorem PyM.wp_of_forall {σ α : Type} {m : PyM σ α} {Q : α → σ → Prop} {E : PyError → σ → Prop}
    {s : σ} (hQ : ∀ a s', Q a s') (hE : ∀ e s', E e s') : wp m Q E s :=
  wp_mono ((keeps_iff (I := fun _ => True)).mpr trivial) (fun a s' _ => hQ a s')
    fun e s' _ => hE e s'

namespace SchedulerState

variable {ω κ ρ : Type} {R : OracleWorld ω → OracleWorld ω → Prop} {cfg : SchedulerConfig}
  {hooks : MemoryOracle ω κ ρ}

structure Shuffled (R : OracleWorld ω → OracleWorld ω → Prop) (s s' : SchedulerState ω) : Prop where
  waiting : ∀ a, s'.waiting.count a = s.waiting.count a
  decoding : ∀ a, s'.decoding.count a = s.decoding.count a
  world : R s.world s'.world

theorem Still.shuffled {s s' : SchedulerState ω} (h : Still R s s') : Shuffled R s s' :=
  ⟨fun a => by rw [h.waiting], fun a => by rw [h.decoding], h.world⟩

structure Taken (R : OracleWorld ω → OracleWorld ω → Prop) (s s' : SchedulerState ω) (victim : Nat) :
    Prop where
  waiting : ∀ a, s'.waiting.count a = s.waiting.count a
  decoding : ∀ a, s'.decoding.count a + [victim].count a = s.decoding.count a
  world : R s.world s'.world

structure Restarted (R : OracleWorld ω → OracleWorld ω → Prop) (s s' : SchedulerState ω)
    (victim : Nat) : Prop where
  reset : ∃ before chosen, Taken R s before victim ∧ soleDecode before victim = false ∧
    Still R before chosen ∧ R (checkpointSurvivors (resetVictim victim chosen)).world s'.world

structure Failed (R : OracleWorld ω → OracleWorld ω → Prop) (s s' : SchedulerState ω) : Prop where
  decoding : ∀ a, s'.decoding.count a ≤ s.decoding.count a
  total : ∀ a, s'.waiting.count a + s'.decoding.count a ≤ s.waiting.count a + s.decoding.count a
  world : R s.world s'.world ∨ ∃ victim, Restarted R s s' victim

/-- How the sequences of a prefill batch were chosen. -/
structure Batched (R : OracleWorld ω → OracleWorld ω → Prop) (s : SchedulerState ω)
    (priority : Nat) (pending : Bool) (batch : List Nat) : Prop where
  chosen : ∀ id ∈ batch, ∃ s', R s.world s'.world ∧
    prefillPriority (SchedulerState.seqAt s' id) pending = priority
  alone : batch.length ≤ 1 ∨ ∃ s' : SchedulerState ω, R s.world s'.world ∧
    (batch.head?.any fun first => (s'.seqAt first).isRecomputeReplay) = false

structure Gated (R : OracleWorld ω → OracleWorld ω → Prop) (s : SchedulerState ω)
    (batch : List Nat) : Prop where
  drained : ∃ s', Shuffled R s s' ∧ ¬ (s'.replayPending = true ∧ s'.decoding ≠ [])
  batched : ∃ s' priority, Shuffled R s s' ∧ Batched R s' priority s'.replayPending batch

inductive Outcome (R : OracleWorld ω → OracleWorld ω → Prop) (s s' : SchedulerState ω) :
    ScheduleResult → Prop
  | prefill {batch : List Nat} :
      (∀ a, batch.count a + s'.waiting.count a = s.waiting.count a) →
      (∀ a, s'.decoding.count a = s.decoding.count a) → R s.world s'.world → Gated R s batch →
      Outcome R s s' ⟨batch, true, []⟩
  | decode {batch : List Nat} : Shuffled R s s' → (∀ a, batch.count a ≤ s.decoding.count a) →
      Outcome R s s' ⟨batch, false, []⟩
  | preempt {victim : Nat} :
      (∀ a, s'.waiting.count a = s.waiting.count a + [victim].count a) →
      (∀ a, s'.decoding.count a + [victim].count a = s.decoding.count a) →
      Restarted R s s' victim → Outcome R s s' ⟨[], false, [victim]⟩

variable {s s₁ s' : SchedulerState ω}

theorem Outcome.failed {result : ScheduleResult} (h : Outcome R s s' result) : Failed R s s' := by
  cases h with
  | prefill waiting decoding world _ =>
    refine ⟨fun a => (decoding a).le, fun a => ?_, .inl world⟩
    have := waiting a
    have := decoding a
    omega
  | decode shuffled _ =>
    refine ⟨fun a => (shuffled.decoding a).le, fun a => ?_, .inl shuffled.world⟩
    rw [shuffled.waiting, shuffled.decoding]
  | @preempt victim waiting decoding restarted =>
    refine ⟨fun a => ?_, fun a => ?_, .inr ⟨victim, restarted⟩⟩
    · have := decoding a
      omega
    · have := waiting a
      have := decoding a
      omega

theorem Still.failed (h : Still R s s') : Failed R s s' where
  decoding a := by rw [h.decoding]
  total a := by rw [h.decoding, h.waiting]
  world := .inl h.world

section

variable [IsTrans (OracleWorld ω) R]

theorem Shuffled.trans (h : Shuffled R s s₁) (h' : Shuffled R s₁ s') : Shuffled R s s' where
  waiting a := (h'.waiting a).trans (h.waiting a)
  decoding a := (h'.decoding a).trans (h.decoding a)
  world := IsTrans.trans _ _ _ h.world h'.world

theorem Taken.still {victim : Nat} (h : Taken R s s₁ victim) (h' : Still R s₁ s') :
    Taken R s s' victim where
  waiting a := by rw [h'.waiting, h.waiting]
  decoding a := by rw [h'.decoding, h.decoding]
  world := IsTrans.trans _ _ _ h.world h'.world

theorem Shuffled.taken {victim : Nat} (h : Shuffled R s s₁) (h' : Taken R s₁ s' victim) :
    Taken R s s' victim where
  waiting a := (h'.waiting a).trans (h.waiting a)
  decoding a := (h'.decoding a).trans (h.decoding a)
  world := IsTrans.trans _ _ _ h.world h'.world

theorem Shuffled.restarted {victim : Nat} (h : Shuffled R s s₁) (h' : Restarted R s₁ s' victim) :
    Restarted R s s' victim := by
  obtain ⟨before, chosen, taken, sole, still, moved⟩ := h'.reset
  exact ⟨before, chosen, h.taken taken, sole, still, moved⟩

theorem Restarted.moved {victim : Nat} {s'' : SchedulerState ω} (h : Restarted R s s' victim)
    (moved : R s'.world s''.world) : Restarted R s s'' victim := by
  obtain ⟨before, chosen, taken, sole, still, restarted⟩ := h.reset
  exact ⟨before, chosen, taken, sole, still, IsTrans.trans _ _ _ restarted moved⟩

theorem Shuffled.failed (h : Shuffled R s s₁) (h' : Failed R s₁ s') : Failed R s s' where
  decoding a := by rw [← h.decoding]; exact h'.decoding a
  total a := by rw [← h.decoding, ← h.waiting]; exact h'.total a
  world := by
    rcases h'.world with moved | ⟨victim, restarted⟩
    · exact .inl (IsTrans.trans _ _ _ h.world moved)
    · exact .inr ⟨victim, h.restarted restarted⟩

theorem Shuffled.gated {batch : List Nat} (h : Shuffled R s s₁) (h' : Gated R s₁ batch) :
    Gated R s batch := by
  obtain ⟨⟨s₂, shuffled, open_⟩, s₃, priority, shuffled', batched⟩ := h'
  exact ⟨⟨s₂, h.trans shuffled, open_⟩, s₃, priority, h.trans shuffled', batched⟩

theorem Shuffled.outcome {result : ScheduleResult} (h : Shuffled R s s₁)
    (h' : Outcome R s₁ s' result) : Outcome R s s' result := by
  cases h' with
  | prefill waiting decoding world gated =>
    exact .prefill (fun a => (waiting a).trans (h.waiting a))
      (fun a => (decoding a).trans (h.decoding a)) (IsTrans.trans _ _ _ h.world world)
      (h.gated gated)
  | decode shuffled batch =>
    exact .decode (h.trans shuffled) fun a => (batch a).trans (h.decoding a).le
  | preempt waiting decoding restarted =>
    refine .preempt (fun a => ?_) (fun a => (decoding a).trans (h.decoding a)) (h.restarted restarted)
    rw [waiting a, h.waiting a]

end

variable [Std.Refl R] [IsTrans (OracleWorld ω) R]

theorem acceptCandidate_joins (frames : hooks.Frames R) (updates : CandidateUpdates R)
    (l : PrefillLocals ρ) (id : Nat) (chunk : Int) (s : SchedulerState ω) :
    wp (acceptCandidate hooks l id chunk)
      (fun l' s' => Still R s s' ∧ l'.scheduled = l.scheduled ++ [id]) (fun _ s' => Still R s s')
      s := by
  have still := (acceptCandidate_still frames updates l id chunk).wp (s := s)
    (Q := fun _ => Still R s) (E := fun _ => Still R s) (fun _ _ h => h) fun _ _ h => h
  have joins : wp (acceptCandidate hooks l id chunk)
      (fun l' _ => l'.scheduled = l.scheduled ++ [id]) (fun _ _ => True) s := by
    simp only [acceptCandidate, wp_bind, wp_modify, wp_pure]
    refine wp_of_forall (fun cost s₁ => ?_) fun _ _ => trivial
    exact wp_of_forall (fun _ _ => trivial) fun _ _ => trivial
  exact wp_mono (wp_and still joins) (fun _ _ h => h) fun _ _ h => h.1

theorem admitPrompt_keeps [DecidableEq ρ] (frames : hooks.Frames R) (updates : CandidateUpdates R)
    (l : PrefillLocals ρ) (id : Nat) (raw costs : Budgets) (shared : List (String × List (ρ × Int)))
    (s : SchedulerState ω) :
    wp (admitPrompt hooks l id raw costs shared)
      (fun l' s' => Still R s s' ∧ l'.scheduled = l.scheduled) (fun _ s' => Still R s s') s := by
  have still := (admitPrompt_still frames updates l id raw costs shared).wp (s := s)
    (Q := fun _ => Still R s) (E := fun _ => Still R s) (fun _ _ h => h) fun _ _ h => h
  have keeps : wp (admitPrompt hooks l id raw costs shared)
      (fun l' _ => l'.scheduled = l.scheduled) (fun _ _ => True) s := by
    simp only [admitPrompt, wp_bind, wp_modify, wp_pure]
    refine wp_of_forall (fun _ s₁ => ?_) fun _ _ => trivial
    refine wp_of_forall (fun logical s₂ => ?_) fun _ _ => trivial
    exact wp_of_forall (fun _ _ => trivial) fun _ _ => trivial
  exact wp_mono (wp_and still keeps) (fun _ _ h => h) fun _ _ h => h.1

def Considered (R : OracleWorld ω → OracleWorld ω → Prop) (l : PrefillLocals ρ) (id : Nat)
    (s : SchedulerState ω) : CandidateOutcome ρ → SchedulerState ω → Prop
  | .requeued l', s' => l'.scheduled = l.scheduled ∧ s'.waiting = s.waiting ++ [id] ∧
      s'.decoding = s.decoding ∧ R s.world s'.world
  | .joined l', s' => l'.scheduled = l.scheduled ++ [id] ∧ Still R s s'

omit [Std.Refl R] [IsTrans (OracleWorld ω) R] in
theorem rejectCandidate_requeues (frames : hooks.Frames R) (mode : Scheduler.PrefillExecution)
    (l : PrefillLocals ρ) (id : Nat) (c : CandidateChunk) (s : SchedulerState ω) :
    wp (rejectCandidate hooks mode l id c) (fun l' => Considered R l id s (.requeued l'))
      (fun _ s' => Still R s s') s := by
  simp only [rejectCandidate, wp_bind, wp_modify, wp_pure]
  refine (hook_still (frames.minFinalPrefillChunkSize id)).wp (fun minFinal s₁ still => ?_)
    fun _ _ h => h
  exact ⟨rfl, congrArg (· ++ [id]) still.waiting, still.decoding, still.world⟩

theorem failAdmission_requeues (frames : hooks.Frames R) (l : PrefillLocals ρ) (id : Nat)
    (s : SchedulerState ω) :
    wp (failAdmission cfg hooks l id) (fun l' => Considered R l id s (.requeued l'))
      (fun _ s' => Still R s s') s := by
  rw [failAdmission, wp_bind]
  refine (hook_still frames.promptAdmissionFailureAction).wp (fun action s₁ still => ?_)
    fun _ _ h => h
  rw [wp_ite]
  split
  · rw [wp_bind]
    refine (debugDeferred_still frames id).wp (fun _ s₂ still₂ => ?_)
      fun _ _ h => IsTrans.trans _ _ _ still h
    have still₂ := IsTrans.trans _ _ _ still still₂
    exact ⟨rfl, congrArg (· ++ [id]) still₂.waiting, still₂.decoding, still₂.world⟩
  · exact still

theorem considerFresh_considered [DecidableEq ρ] (frames : hooks.Frames R)
    (updates : CandidateUpdates R) (l : PrefillLocals ρ) (id : Nat) (chunk : Int)
    (s : SchedulerState ω) :
    wp (considerFresh cfg hooks l id chunk) (Considered R l id s) (fun _ s' => Still R s s') s := by
  simp only [considerFresh, wp_bind]
  refine (hook_still (frames.promptAdmissionCosts id)).wp (fun raw s₁ h₁ => ?_) fun _ _ h => h
  refine (hook_still (frames.promptAdmissionSharedCosts id)).wp (fun shared s₂ h₂ => ?_)
    fun _ _ h => IsTrans.trans _ _ _ h₁ h
  have h₂ := IsTrans.trans _ _ _ h₁ h₂
  rw [wp_lift]
  split
  · next costs adjusted =>
    split
    · rw [wp_bind]
      refine wp_mono (failAdmission_requeues frames l id s₂) (fun l' s₃ h₃ => ?_)
        fun _ _ h => IsTrans.trans _ _ _ h₂ h
      obtain ⟨scheduled, waiting, decoding, world⟩ := h₃
      exact ⟨scheduled, by rw [waiting, h₂.waiting], by rw [decoding, h₂.decoding],
        IsTrans.trans _ _ _ h₂.world world⟩
    · simp only [wp_bind]
      refine wp_mono (admitPrompt_keeps frames updates l id raw costs _ s₂) (fun l₁ s₃ h₃ => ?_)
        fun _ _ h => IsTrans.trans _ _ _ h₂ h
      have still₃ := IsTrans.trans _ _ _ h₂ h₃.1
      refine wp_mono (acceptCandidate_joins frames updates l₁ id chunk s₃) (fun l₂ s₄ h₄ => ?_)
        fun _ _ h => IsTrans.trans _ _ _ still₃ h
      exact ⟨by rw [h₄.2, h₃.2], IsTrans.trans _ _ _ still₃ h₄.1⟩
  · exact h₂

theorem considerCandidate_considered [DecidableEq ρ] (frames : hooks.Frames R)
    (updates : CandidateUpdates R) (mode : Scheduler.PrefillExecution) (l : PrefillLocals ρ)
    (id : Nat) (s : SchedulerState ω) :
    wp (considerCandidate cfg hooks mode l id) (Considered R l id s) (fun _ s' => Still R s s')
      s := by
  simp only [considerCandidate, wp_bind, wp_get, wp_ite]
  refine (candidateChunk_still frames mode l id).wp (fun c s₁ h₁ => ?_) fun _ _ h => h
  split
  · refine wp_mono (rejectCandidate_requeues frames mode l id c s₁) (fun l' s₂ h₂ => ?_)
      fun _ _ h => IsTrans.trans _ _ _ h₁ h
    obtain ⟨scheduled, waiting, decoding, world⟩ := h₂
    exact ⟨scheduled, by rw [waiting, h₁.waiting], by rw [decoding, h₁.decoding],
      IsTrans.trans _ _ _ h₁.world world⟩
  · split
    · refine wp_mono (considerFresh_considered frames updates l id c.chunk s₁)
        (fun outcome s₂ h₂ => ?_) fun _ _ h => IsTrans.trans _ _ _ h₁ h
      cases outcome with
      | requeued l' =>
        obtain ⟨scheduled, waiting, decoding, world⟩ := h₂
        exact ⟨scheduled, by rw [waiting, h₁.waiting], by rw [decoding, h₁.decoding],
          IsTrans.trans _ _ _ h₁.world world⟩
      | joined l' => exact ⟨h₂.1, IsTrans.trans _ _ _ h₁ h₂.2⟩
    · refine wp_mono (acceptCandidate_joins frames updates l id c.chunk s₁) (fun l' s₂ h₂ => ?_)
        fun _ _ h => IsTrans.trans _ _ _ h₁ h
      exact ⟨h₂.2, IsTrans.trans _ _ _ h₁ h₂.1⟩

/-- The waiting queue of `s₀` without the sequences that the prefill phase holds: the batch, and
those it passed over. -/
structure Line (R : OracleWorld ω → OracleWorld ω → Prop) (s₀ : SchedulerState ω) (held : List Nat)
    (t : SchedulerState ω × List Nat) : Prop where
  waiting : ∀ a, held.count a + t.2.count a + t.1.waiting.count a = s₀.waiting.count a
  decoding : t.1.decoding = s₀.decoding
  world : R s₀.world t.1.world

variable {s₀ : SchedulerState ω} {held : List Nat} {t : SchedulerState ω × List Nat}

omit [Std.Refl R] in
theorem Line.still (h : Line R s₀ held t) (still : Still R t.1 s') : Line R s₀ held (s', t.2) where
  waiting a := by rw [still.waiting]; exact h.waiting a
  decoding := still.decoding.trans h.decoding
  world := IsTrans.trans _ _ _ h.world still.world

def CandidateOutcome.locals : CandidateOutcome ρ → PrefillLocals ρ
  | .requeued l | .joined l => l

omit [Std.Refl R] in
theorem Line.considered {l : PrefillLocals ρ} {id : Nat} (h : Line R s₀ (l.scheduled ++ [id]) t)
    {outcome : CandidateOutcome ρ} (considered : Considered R l id t.1 outcome s') :
    Line R s₀ outcome.locals.scheduled (s', t.2) := by
  cases outcome with
  | requeued l' =>
    obtain ⟨scheduled, waiting, decoding, world⟩ := considered
    refine ⟨fun a => ?_, decoding.trans h.decoding, IsTrans.trans _ _ _ h.world world⟩
    have counted := h.waiting a
    simp only [List.count_append] at counted
    simp only [CandidateOutcome.locals, scheduled, waiting, List.count_append]
    omega
  | joined l' =>
    obtain ⟨scheduled, still⟩ := considered
    rw [CandidateOutcome.locals, scheduled]
    exact h.still still

variable [DecidableEq κ] {bucket : PrefillBucket κ} {pending : Bool}

theorem belongsTo_priority (frames : hooks.Frames R) (id : Nat) (s : SchedulerState ω) :
    wp (belongsTo cfg hooks bucket pending id)
      (fun eligible s' => Still R s s' ∧
        (eligible = true → prefillPriority (s.seqAt id) pending = bucket.priority))
      (fun _ s' => Still R s s') s := by
  rw [belongsTo, wp_bind, wp_get, wp_ite]
  split
  · next belongs =>
    rw [wp_bind]
    refine (prefillBatchKey_still frames id).wp (fun key s₁ still => ?_) fun _ _ h => h
    exact ⟨still, fun _ => belongs.1⟩
  · exact ⟨refl s, nofun⟩

theorem popNextPrefillSeq_pops (frames : hooks.Frames R) :
    ∀ (queue : List Nat) (t : SchedulerState ω × List Nat), Line R s₀ held t → t.1.waiting = queue →
      wp (popNextPrefillSeq cfg hooks bucket pending queue)
        (fun next t' => Line R s₀ (held ++ next.toList) t' ∧ ∀ id ∈ next, ∃ s' : SchedulerState ω,
          R s₀.world s'.world ∧ prefillPriority (s'.seqAt id) pending = bucket.priority)
        (fun _ t' => Line R s₀ held t') t
  | [], t, line, _ => ⟨by simpa using line, nofun⟩
  | id :: rest, t, line, front => by
    rw [popNextPrefillSeq, wp_bind, wp_outer]
    refine wp_mono (belongsTo_priority frames id t.1) (fun eligible s₁ h₁ => ?_)
      fun _ _ h => line.still h
    obtain ⟨still, priority⟩ := h₁
    have line₁ := line.still still
    have front₁ : s₁.waiting = id :: rest := still.waiting.trans front
    rw [wp_ite]
    split
    · next belongs =>
      refine ⟨⟨fun a => ?_, line₁.decoding, line₁.world⟩, fun id' chosen => ?_⟩
      · have counted := line₁.waiting a
        simp only [front₁, List.count_cons] at counted
        simp only [front₁, List.tail_cons, List.count_append, Option.toList_some, List.count_cons,
          List.count_nil]
        omega
      · obtain rfl := Option.some.inj chosen
        exact ⟨t.1, line.world, priority belongs⟩
    · rw [wp_bind, wp_modify]
      refine popNextPrefillSeq_pops frames rest _ ⟨fun a => ?_, line₁.decoding, line₁.world⟩ ?_
      · have counted := line₁.waiting a
        simp only [front₁, List.count_cons] at counted
        simp only [front₁, List.tail_cons, List.count_append, List.count_cons, List.count_nil]
        omega
      · simp [front₁]

omit [Std.Refl R] [IsTrans (OracleWorld ω) R] [DecidableEq κ] in
theorem Batched.join {priority : Nat} {batch : List Nat} {id : Nat}
    (h : Batched R s₀ priority pending batch)
    (chosen : ∃ s' : SchedulerState ω, R s₀.world s'.world ∧
      prefillPriority (s'.seqAt id) pending = priority)
    {s₁ : SchedulerState ω} (world : R s₀.world s₁.world)
    (open_ : (batch.head?.any fun first => (s₁.seqAt first).isRecomputeReplay) = false) :
    Batched R s₀ priority pending (batch ++ [id]) where
  chosen id' member := by
    rcases List.mem_append.mp member with old | new
    · exact h.chosen id' old
    · rw [List.mem_singleton.mp new]
      exact chosen
  alone := by
    cases batch with
    | nil => exact .inl (by simp)
    | cons first rest => exact .inr ⟨s₁, world, open_⟩

omit [Std.Refl R] [IsTrans (OracleWorld ω) R] [DecidableEq κ] in
theorem batched_nil (priority : Nat) : Batched R s₀ priority pending [] :=
  ⟨nofun, .inl (Nat.zero_le _)⟩

theorem canContinue_head {mode : Scheduler.PrefillExecution} {l : PrefillLocals ρ}
    (h : canContinuePrefillBatch cfg mode l s = true) :
    (l.scheduled.head?.any fun first => (s.seqAt first).isRecomputeReplay) = false := by
  simp only [canContinuePrefillBatch, Bool.and_eq_true, Bool.not_eq_true'] at h
  exact h.1.2

variable [DecidableEq ρ]

theorem prefillBucketLoop_batches (frames : hooks.Frames R) (updates : CandidateUpdates R) :
    ∀ (budget : Nat) (l : PrefillLocals ρ) (t : SchedulerState ω × List Nat),
      Line R s₀ l.scheduled t → Batched R s₀ bucket.priority pending l.scheduled →
      wp (prefillBucketLoop cfg hooks bucket pending budget l)
        (fun l' t' => Line R s₀ l'.scheduled t' ∧
          Batched R s₀ bucket.priority pending l'.scheduled)
        (fun _ t' => ∃ held, Line R s₀ held t') t
  | 0, _, _, line, batched => ⟨line, batched⟩
  | budget + 1, l, t, line, batched => by
    rw [prefillBucketLoop, wp_bind, wp_get, wp_ite]
    split
    · next continues =>
      rw [wp_bind]
      refine wp_mono (popNextPrefillSeq_pops frames t.1.waiting t line rfl) ?_
        fun _ _ h => ⟨_, h⟩
      rintro next t₁ ⟨line₁, chosen⟩
      cases next with
      | none => exact ⟨by simpa using line₁, batched⟩
      | some id =>
        have joined := batched.join (chosen id rfl) line.world (canContinue_head continues)
        simp only [wp_bind, wp_outer]
        refine wp_mono (considerCandidate_considered frames updates bucket.mode l id t₁.1)
          (fun outcome s₂ h₂ => ?_) fun _ _ h => ⟨_, line₁.still h⟩
        have line₂ := line₁.considered h₂
        cases outcome with
        | requeued l' =>
          exact prefillBucketLoop_batches frames updates budget l' _ line₂ (by rwa [h₂.1])
        | joined l' =>
          rw [← h₂.1] at joined
          dsimp only
          rw [wp_ite]
          split
          · exact ⟨line₂, joined⟩
          · exact prefillBucketLoop_batches frames updates budget l' _ line₂ joined
    · exact ⟨line, batched⟩

omit [Std.Refl R] [IsTrans (OracleWorld ω) R] [DecidableEq κ] [DecidableEq ρ] in
theorem Line.restored (h : Line R s₀ held t) :
    Line R s₀ held ({ t.1 with waiting := t.2 ++ t.1.waiting }, []) where
  __ := h
  waiting a := by
    have counted := h.waiting a
    simp only [List.count_append, List.count_nil]
    omega

theorem prefillBuckets_batches (frames : hooks.Frames R) (updates : CandidateUpdates R) :
    ∀ (buckets : List (PrefillBucket κ)) (l : PrefillLocals ρ) (s : SchedulerState ω),
      Line R s₀ l.scheduled (s, []) → (∃ priority, Batched R s₀ priority pending l.scheduled) →
      wp (prefillBuckets cfg hooks pending buckets l)
        (fun l' s' => Line R s₀ l'.scheduled (s', []) ∧
          ∃ priority, Batched R s₀ priority pending l'.scheduled)
        (fun _ s' => ∃ held, Line R s₀ held (s', [])) s
  | [], _, _, line, batched => ⟨line, batched⟩
  | bucket :: buckets, l, s, line, batched => by
    rw [prefillBuckets, wp_ite]
    split
    · exact ⟨line, batched⟩
    · next fresh =>
      have unstarted : l.scheduled = [] := not_not.mp fresh
      simp only [wp_bind, wp_get, wp_withLocals, wp_tryFinally]
      refine wp_mono (prefillBucketLoop_batches frames updates s.waiting.length l (s, []) line
        (by rw [unstarted]; exact batched_nil bucket.priority)) ?_ ?_
      · rintro l' t' ⟨line', batched'⟩
        exact prefillBuckets_batches frames updates buckets l' _ line'.restored ⟨_, batched'⟩
      · rintro e t' ⟨held, line'⟩
        exact ⟨held, line'.restored⟩

end SchedulerState

end SparseEngine
