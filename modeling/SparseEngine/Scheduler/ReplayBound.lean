import SparseEngine.Scheduler.Conservation
import SparseEngine.Scheduler.Replay

/-! A preempted sequence with accepted tokens replays them. -/

namespace SparseEngine

open PyM List Sequence Custody

variable {ω κ ρ : Type}

def SameProgress (w w' : OracleWorld ω) : Prop :=
  ∀ id, (w'.seqs id).numTokens = (w.seqs id).numTokens ∧
    (w'.seqs id).numPromptTokens = (w.seqs id).numPromptTokens ∧
    (w'.seqs id).recomputeReplayCursor = (w.seqs id).recomputeReplayCursor ∧
    (w'.seqs id).decodeProgressCheckpoint = (w.seqs id).decodeProgressCheckpoint

instance : Std.Refl (SameProgress (ω := ω)) := ⟨fun _ _ => ⟨rfl, rfl, rfl, rfl⟩⟩

instance : IsTrans (OracleWorld ω) SameProgress where
  trans _ _ _ h h' id := by
    obtain ⟨tokens, prompt, cursor, checkpoint⟩ := h id
    obtain ⟨tokens', prompt', cursor', checkpoint'⟩ := h' id
    exact ⟨tokens'.trans tokens, prompt'.trans prompt, cursor'.trans cursor,
      checkpoint'.trans checkpoint⟩

def Sequence.CaughtUp (seq : Sequence) : Prop :=
  0 < seq.numCompletionTokens ∧ seq.decodeProgressCheckpoint = seq.numCompletionTokens

namespace SchedulerState

variable {cfg : SchedulerConfig} {hooks : MemoryOracle ω κ ρ} {s s' s'' : SchedulerState ω}
  {id x : Nat}

variable {f : Sequence → Sequence}

theorem sameProgress_update (same : ∀ seq, (f seq).numTokens = seq.numTokens ∧
      (f seq).numPromptTokens = seq.numPromptTokens ∧
      (f seq).recomputeReplayCursor = seq.recomputeReplayCursor ∧
      (f seq).decodeProgressCheckpoint = seq.decodeProgressCheckpoint) :
    SameProgress s.world (updateSeq id f s).world := by
  intro other
  by_cases here : other = id
  · subst here
    have changed : (updateSeq other f s).world.seqs other = f (s.seqAt other) :=
      seqAt_updateSeq_self f
    rw [changed]
    exact same _
  · have kept : (updateSeq id f s).world.seqs other = s.world.seqs other :=
      seqAt_updateSeq_ne f here
    rw [kept]
    exact ⟨rfl, rfl, rfl, rfl⟩

theorem candidateUpdates_progress : CandidateUpdates (SameProgress (ω := ω)) where
  chunk _ _ _ := sameProgress_update fun _ => ⟨rfl, rfl, rfl, rfl⟩
  adopt _ _ := sameProgress_update fun seq => by
    rw [adoptHit]
    split <;> exact ⟨rfl, rfl, rfl, rfl⟩
  running _ _ := sameProgress_update fun _ => ⟨rfl, rfl, rfl, rfl⟩

theorem SameProgress.completion (h : SameProgress s.world s'.world) (id : Nat) :
    (s'.seqAt id).numCompletionTokens = (s.seqAt id).numCompletionTokens := by
  obtain ⟨tokens, prompt, -, -⟩ := h id
  exact congrArg₂ (· - ·) tokens prompt

theorem SameProgress.replay (h : SameProgress s.world s'.world) (id : Nat) :
    (s'.seqAt id).isRecomputeReplay = (s.seqAt id).isRecomputeReplay := by
  obtain ⟨-, -, cursor, -⟩ := h id
  exact congrArg Option.isSome cursor

theorem SameProgress.caughtUp (h : SameProgress s.world s'.world) (caught : (s.seqAt x).CaughtUp) :
    (s'.seqAt x).CaughtUp := by
  obtain ⟨-, -, -, checkpoint⟩ := h x
  have completion := SameProgress.completion h x
  exact ⟨by rw [completion]; exact caught.1, by rw [completion]; exact checkpoint.trans caught.2⟩

theorem caughtUp_update (keeps : ∀ seq, seq.CaughtUp → (f seq).CaughtUp)
    (caught : (s.seqAt x).CaughtUp) : ((updateSeq id f s).seqAt x).CaughtUp := by
  by_cases here : x = id
  · subst here
    rw [seqAt_updateSeq_self]
    exact keeps _ caught
  · rw [seqAt_updateSeq_ne f here]
    exact caught

theorem resetVictim_caughtUp (victim : Nat) (caught : (s.seqAt x).CaughtUp) :
    ((resetVictim victim s).seqAt x).CaughtUp := by
  rw [resetVictim]
  split
  · exact caughtUp_update (f := startRecomputeReplay) (fun seq here => ⟨here.1, rfl⟩) caught
  · exact caughtUp_update (f := restartPrefill) (fun seq here => here) caught

theorem checkpointSurvivors_caughtUp (caught : (s.seqAt x).CaughtUp) :
    ((checkpointSurvivors s).seqAt x).CaughtUp := by
  have fold : ∀ (ids : List Nat) (s : SchedulerState ω), (s.seqAt x).CaughtUp →
      ((ids.foldl (fun s id => updateSeq id checkpointProgress s) s).seqAt x).CaughtUp := by
    intro ids
    induction ids with
    | nil => exact fun _ caught => caught
    | cons id ids ih =>
      exact fun s caught => ih _ (caughtUp_update (fun seq here => ⟨here.1, rfl⟩) caught)
  exact fold s.decoding s caught

theorem resetVictim_victim (victim : Nat) (accepted : 0 < (s.seqAt victim).numCompletionTokens) :
    ((resetVictim victim s).seqAt victim).CaughtUp := by
  rw [(resetVictim_becomes victim s).self, if_pos accepted]
  exact ⟨accepted, rfl⟩

theorem resetVictim_tokens (victim id : Nat) :
    ((resetVictim victim s).seqAt id).numTokens = (s.seqAt id).numTokens ∧
      ((resetVictim victim s).seqAt id).numPromptTokens = (s.seqAt id).numPromptTokens := by
  have becomes := resetVictim_becomes victim s
  by_cases here : id = victim
  · subst here
    rw [becomes.self]
    split <;> exact ⟨rfl, rfl⟩
  · rw [becomes.others id here]
    exact ⟨rfl, rfl⟩

theorem checkpointSurvivors_tokens (s : SchedulerState ω) (id : Nat) :
    ((checkpointSurvivors s).seqAt id).numTokens = (s.seqAt id).numTokens ∧
      ((checkpointSurvivors s).seqAt id).numPromptTokens = (s.seqAt id).numPromptTokens := by
  have update : ∀ (other : Nat) (s : SchedulerState ω),
      ((updateSeq other checkpointProgress s).seqAt id).numTokens =
          (s.seqAt id).numTokens ∧
        ((updateSeq other checkpointProgress s).seqAt id).numPromptTokens =
          (s.seqAt id).numPromptTokens := by
    intro other s
    by_cases here : id = other
    · subst here
      rw [seqAt_updateSeq_self]
      exact ⟨rfl, rfl⟩
    · rw [seqAt_updateSeq_ne _ here]
      exact ⟨rfl, rfl⟩
  have fold : ∀ (ids : List Nat) (s : SchedulerState ω),
      ((ids.foldl (fun s id => updateSeq id checkpointProgress s) s).seqAt
        id).numTokens = (s.seqAt id).numTokens ∧
      ((ids.foldl (fun s id => updateSeq id checkpointProgress s) s).seqAt
        id).numPromptTokens = (s.seqAt id).numPromptTokens := by
    intro ids
    induction ids with
    | nil => exact fun _ => ⟨rfl, rfl⟩
    | cons other ids ih =>
      intro s
      exact ⟨(ih _).1.trans (update other s).1, (ih _).2.trans (update other s).2⟩
  exact fold s.decoding s

variable {victim : Nat}

theorem Restarted.tokens (h : Restarted SameProgress s s' victim) (id : Nat) :
    (s'.seqAt id).numTokens = (s.seqAt id).numTokens ∧
      (s'.seqAt id).numPromptTokens = (s.seqAt id).numPromptTokens := by
  obtain ⟨before, chosen, taken, -, still, moved⟩ := h.reset
  obtain ⟨tokens₁, prompt₁, -, -⟩ := taken.world id
  obtain ⟨tokens₂, prompt₂, -, -⟩ := still.world id
  have reset := resetVictim_tokens (s := chosen) victim id
  have survivors := checkpointSurvivors_tokens (resetVictim victim chosen) id
  obtain ⟨tokens₃, prompt₃, -, -⟩ := moved id
  exact ⟨tokens₃.trans (survivors.1.trans (reset.1.trans (tokens₂.trans tokens₁))),
    prompt₃.trans (survivors.2.trans (reset.2.trans (prompt₂.trans prompt₁)))⟩

theorem Restarted.completion (h : Restarted SameProgress s s' victim) (id : Nat) :
    (s'.seqAt id).numCompletionTokens = (s.seqAt id).numCompletionTokens :=
  congrArg₂ (· - ·) (h.tokens id).1 (h.tokens id).2

theorem Restarted.caughtUp (h : Restarted SameProgress s s' victim)
    (caught : (s.seqAt x).CaughtUp) : (s'.seqAt x).CaughtUp := by
  obtain ⟨before, chosen, taken, -, still, moved⟩ := h.reset
  have caught := SameProgress.caughtUp still.world (SameProgress.caughtUp taken.world caught)
  exact SameProgress.caughtUp moved
    (checkpointSurvivors_caughtUp (resetVictim_caughtUp victim caught))

theorem Restarted.victim_caughtUp (h : Restarted SameProgress s s' victim)
    (accepted : 0 < (s.seqAt victim).numCompletionTokens) : (s'.seqAt victim).CaughtUp := by
  obtain ⟨before, chosen, taken, -, still, moved⟩ := h.reset
  have accepted : 0 < (chosen.seqAt victim).numCompletionTokens := by
    rw [SameProgress.completion still.world, SameProgress.completion taken.world]
    exact accepted
  exact SameProgress.caughtUp moved
    (checkpointSurvivors_caughtUp (resetVictim_victim victim accepted))

theorem Restarted.not_caughtUp (h : Restarted SameProgress s s' victim)
    (alone : ∀ a, s.decoding.count a = [victim].count a) : ¬ (s.seqAt victim).CaughtUp := by
  intro caught
  obtain ⟨before, chosen, taken, other, still, moved⟩ := h.reset
  have empty : before.decoding = [] := by
    refine eq_nil_iff_forall_not_mem.mpr fun a member => ?_
    have some : 0 < before.decoding.count a := count_pos_iff.mpr member
    have counted := taken.decoding a
    rw [alone] at counted
    omega
  obtain ⟨accepted, checkpoint⟩ := SameProgress.caughtUp taken.world caught
  have sole : soleDecode before victim = true := by
    simp [soleDecode, empty, accepted, checkpoint]
  rw [sole] at other
  cases other

theorem prefillPriority_replay {seq : Sequence} (replay : seq.isRecomputeReplay = true) :
    prefillPriority seq true = 1 ∨ prefillPriority seq true = 2 := by
  simp only [prefillPriority, replay]
  split_ifs <;> simp_all

theorem prefillPriority_normal {seq : Sequence} (normal : seq.isRecomputeReplay = false) :
    prefillPriority seq true = 0 ∨ prefillPriority seq true = 3 := by
  simp only [prefillPriority, normal]
  split_ifs <;> simp_all

theorem replayPending_of_mem (member : id ∈ s.waiting)
    (replay : (s.seqAt id).isRecomputeReplay = true) : s.replayPending = true :=
  any_eq_true.mpr ⟨id, member, replay⟩

theorem Gated.replay_alone {batch : List Nat} (h : Gated SameProgress s batch)
    (inside : ∀ a, batch.count a ≤ s.waiting.count a) (member : id ∈ batch)
    (replay : (s.seqAt id).isRecomputeReplay = true) :
    batch = [id] ∧ ∀ a, s.decoding.count a = 0 := by
  have queued : 0 < s.waiting.count id := (count_pos_iff.mpr member).trans_le (inside id)
  have pending : ∀ s', Shuffled SameProgress s s' → s'.replayPending = true := by
    intro s' shuffled
    have waits : id ∈ s'.waiting := by
      rw [← count_pos_iff, shuffled.waiting]
      exact queued
    exact replayPending_of_mem waits ((SameProgress.replay shuffled.world id).trans replay)
  obtain ⟨s₁, shuffled₁, drained⟩ := h.drained
  have empty : s₁.decoding = [] := not_not.mp fun some => drained ⟨pending s₁ shuffled₁, some⟩
  refine ⟨?_, fun a => by rw [← shuffled₁.decoding, empty, count_nil]⟩
  obtain ⟨s₂, priority, shuffled₂, batched⟩ := h.batched
  rw [pending s₂ shuffled₂] at batched
  have replay₂ : (s₂.seqAt id).isRecomputeReplay = true := by
    rw [SameProgress.replay shuffled₂.world]
    exact replay
  cases batch with
  | nil => cases member
  | cons first rest =>
    rcases batched.alone with short | ⟨s₃, world, normal⟩
    · have none_left : rest = [] := length_eq_zero_iff.mp (by simpa using short)
      subst none_left
      rw [mem_singleton.mp member]
    · -- the first of the batch is no replay, so its priority is not that of one
      have first_normal : (s₂.seqAt first).isRecomputeReplay = false := by
        rw [← SameProgress.replay world]
        exact normal
      obtain ⟨s₄, world₄, priority₄⟩ := batched.chosen first mem_cons_self
      obtain ⟨s₅, world₅, priority₅⟩ := batched.chosen id member
      have low := prefillPriority_normal ((SameProgress.replay world₄ first).trans first_normal)
      have high := prefillPriority_replay ((SameProgress.replay world₅ id).trans replay₂)
      omega

structure Calm (w w' : OracleWorld ω) : Prop where
  tokens : ∀ i, (w'.seqs i).numTokens = (w.seqs i).numTokens
  caughtUp : ∀ i, (w.seqs i).CaughtUp → (w'.seqs i).CaughtUp
  replay : ∀ i, (w'.seqs i).isRecomputeReplay = true → (w.seqs i).isRecomputeReplay = true

theorem Calm.refl (w : OracleWorld ω) : Calm w w := ⟨fun _ => rfl, fun _ h => h, fun _ h => h⟩

theorem Calm.trans {w w' w'' : OracleWorld ω} (h : Calm w w') (h' : Calm w' w'') : Calm w w'' where
  tokens i := (h'.tokens i).trans (h.tokens i)
  caughtUp i caught := h'.caughtUp i (h.caughtUp i caught)
  replay i replay := h.replay i (h'.replay i replay)

theorem SameProgress.calm (h : SameProgress s.world s'.world) : Calm s.world s'.world where
  tokens i := (h i).1
  caughtUp _ caught := SameProgress.caughtUp h caught
  replay i replay := (SameProgress.replay h i).symm.trans replay

theorem calm_update (id : Nat) (s : SchedulerState ω)
    (tokens : ∀ seq, (f seq).numTokens = seq.numTokens)
    (keeps : ∀ seq, seq.CaughtUp → (f seq).CaughtUp)
    (replay : (f (s.seqAt id)).isRecomputeReplay = true → (s.seqAt id).isRecomputeReplay = true) :
    Calm s.world (updateSeq id f s).world where
  tokens i := by
    show ((updateSeq id f s).seqAt i).numTokens = _
    by_cases here : i = id
    · subst here
      rw [seqAt_updateSeq_self, tokens]
      rfl
    · rw [seqAt_updateSeq_ne f here]
      rfl
  caughtUp _ caught := caughtUp_update keeps caught
  replay i replays := by
    by_cases here : i = id
    · subst here
      have changed : (updateSeq i f s).seqAt i = f (s.seqAt i) := seqAt_updateSeq_self f
      exact replay ((congrArg isRecomputeReplay changed).symm.trans replays)
    · have kept : (updateSeq id f s).seqAt i = s.seqAt i := seqAt_updateSeq_ne f here
      exact (congrArg isRecomputeReplay kept).symm.trans replays

structure Fed (s s' : SchedulerState ω) : Prop where
  grows : ∀ i, (s.seqAt i).numTokens ≤ (s'.seqAt i).numTokens
  more : ∃ i, (s.seqAt i).numTokens < (s'.seqAt i).numTokens

structure Quietly (isPrefill : Bool) (ids : List Nat) (s s' : SchedulerState ω) : Prop where
  calm : Calm s.world s'.world
  decoding : ∀ a, s'.decoding.count a ≤ s.decoding.count a +
    if isPrefill = true ∧ (s.seqAt a).isRecomputeReplay = true then ids.count a else 0
  queued : ∀ a, s'.queued a ≤ s.queued a + if isPrefill then ids.count a else 0

variable {isPrefill : Bool}

theorem Quietly.of_still {ids : List Nat} (calm : Calm s.world s'.world)
    (waiting : s'.waiting = s.waiting) (decoding : s'.decoding = s.decoding) :
    Quietly isPrefill ids s s' := by
  refine ⟨calm, fun a => ?_, fun a => ?_⟩
  · rw [decoding]
    exact Nat.le_add_right _ _
  · rw [SchedulerState.queued, SchedulerState.queued, waiting, decoding]
    exact Nat.le_add_right _ _

theorem publishToken_feeds (retain : Bool) (token : Int) (calm : Calm s.world s'.world) :
    wp (publishToken cfg retain id token) (fun _ s'' => Fed s s'') (fun _ _ => False) s' := by
  refine wp_mono (publishToken_becomes cfg retain token (.refl s' id)) (fun _ s'' becomes => ?_)
    fun _ _ no => no
  have published : ((s'.seqAt id).published cfg.eosTokenIds token).numTokens =
      (s'.seqAt id).numTokens + 1 := by
    simp only [Sequence.published]
    split <;> rfl
  have tokens : ∀ i, (s'.seqAt i).numTokens = (s.seqAt i).numTokens := calm.tokens
  have fed : (s''.seqAt id).numTokens = (s.seqAt id).numTokens + 1 := by
    rw [becomes.self, published, tokens]
  refine ⟨fun i => ?_, id, by omega⟩
  by_cases here : i = id
  · subst here
    omega
  · rw [becomes.others i here, tokens]

theorem postprocessDecode_quiet (retain : Bool) (token : Int) (ids : List Nat)
    (s : SchedulerState ω) :
    wp (postprocessDecode cfg retain id token) (fun _ s' => Fed s s' ∨ Quietly false ids s s')
      (fun _ _ => False) s := by
  simp only [postprocessDecode, wp_bind, wp_get, wp_ite, wp_modify]
  split
  · next replays =>
    refine .inr (.of_still (calm_update id s (fun seq => ?_) (fun seq caught => ?_) fun _ => ?_) rfl rfl)
    · simp only [advanceRecomputeReplay]
      split <;> rfl
    · simp only [advanceRecomputeReplay]
      split
      · exact ⟨caught.1, rfl⟩
      · exact caught
    · simp only [isRecomputeDecode, Bool.and_eq_true] at replays
      exact replays.1
  · exact wp_mono (publishToken_feeds retain token (.refl s.world)) (fun _ _ fed => .inl fed)
      fun _ _ no => no

theorem Quietly.of_joined (calm : Calm s.world s'.world) (waiting : s'.waiting = s.waiting)
    (decoding : s'.decoding = s.decoding ++ [id])
    (replay : (s.seqAt id).isRecomputeReplay = true) : Quietly true [id] s s' := by
  refine ⟨calm, fun a => ?_, fun a => ?_⟩
  · rw [decoding, count_append]
    by_cases here : a = id
    · subst here
      rw [if_pos ⟨rfl, replay⟩]
    · rw [Custody.count_other here]
      exact Nat.le_add_right _ _
  · rw [SchedulerState.queued, SchedulerState.queued, waiting, decoding, count_append,
      if_pos rfl, Nat.add_assoc]

theorem replayOrPublish_quiet (retain : Bool) (token : Int) (calm : Calm s.world s'.world)
    (waiting : s'.waiting = s.waiting) (decoding : s'.decoding = s.decoding ++ [id]) :
    wp (do
        let s ← PyM.get
        if (s.seqAt id).isRecomputeReplay then
          PyM.modify fun s =>
            if (s.seqAt id).replayDecodeTokenCount = 0 then
              updateSeq id finishRecomputeReplay s
            else s
        else publishToken cfg retain id token)
      (fun _ s'' => Fed s s'' ∨ Quietly true [id] s s'') (fun _ _ => False) s' := by
  simp only [wp_bind, wp_get, wp_ite, wp_modify]
  split
  · next replays =>
    have replay : (s.seqAt id).isRecomputeReplay = true := calm.replay id replays
    split
    · have finished : Calm s'.world (updateSeq id finishRecomputeReplay s').world :=
        calm_update id s' (fun _ => rfl) (fun _ caught => ⟨caught.1, rfl⟩) fun _ => replays
      exact .inr (.of_joined (calm.trans finished) waiting decoding replay)
    · exact .inr (.of_joined calm waiting decoding replay)
  · exact wp_mono (publishToken_feeds retain token calm) (fun _ _ fed => .inl fed) fun _ _ no => no

theorem postprocessPrefill_quiet (frames : hooks.Frames SameProgress) (retain : Bool) (token : Int)
    (s : SchedulerState ω) :
    wp (postprocessPrefill cfg hooks retain id token)
      (fun _ s' => Fed s s' ∨ Quietly true [id] s s') (fun _ s' => Quietly true [id] s s') s := by
  have advanced : Calm s.world (updateSeq id advancePrefill s).world :=
    calm_update id s (fun _ => rfl) (fun _ caught => caught) fun replay => replay
  simp only [postprocessPrefill, wp_bind, wp_get, wp_ite, wp_modify]
  split
  · have waits : Calm s.world (updateSeq id (fun seq => { seq with status := .waiting })
        (updateSeq id advancePrefill s)).world :=
      advanced.trans (calm_update id _ (fun _ => rfl) (fun _ caught => caught) fun replay => replay)
    refine .inr ⟨waits, fun a => Nat.le_add_right _ _, fun a => ?_⟩
    show (id :: s.waiting).count a + s.decoding.count a ≤
      s.waiting.count a + s.decoding.count a + [id].count a
    simp only [count_cons, count_nil]
    omega
  · rw [startDecoding, wp_bind]
    refine (hook_still (frames.completePrefillExecution id)).wp (fun _ s₂ still => ?_)
      fun _ s₂ still => .of_still (advanced.trans (SameProgress.calm still.world)) still.waiting
        still.decoding
    have running : Calm s.world
        (updateSeq id (fun seq => { seq with status := .running }) s₂).world :=
      (advanced.trans (SameProgress.calm still.world)).trans
        (calm_update id s₂ (fun _ => rfl) (fun _ caught => caught) fun replay => replay)
    rw [wp_bind, wp_modify]
    refine wp_mono (replayOrPublish_quiet retain token running still.waiting ?_)
      (fun _ _ outcome => outcome) fun _ _ no => no.elim
    exact congrArg (· ++ [id]) still.decoding

theorem Quietly.trans {ids more : List Nat} (h : Quietly isPrefill ids s s')
    (h' : Quietly isPrefill more s' s'') : Quietly isPrefill (ids ++ more) s s'' where
  calm := h.calm.trans h'.calm
  decoding a := by
    have first := h.decoding a
    have second := h'.decoding a
    have replay := h.calm.replay a
    rw [count_append]
    by_cases now : isPrefill = true ∧ (s.seqAt a).isRecomputeReplay = true
    · rw [if_pos now] at first ⊢
      split_ifs at second <;> omega
    · have later : ¬ (isPrefill = true ∧ (s'.seqAt a).isRecomputeReplay = true) :=
        fun here => now ⟨here.1, replay here.2⟩
      rw [if_neg now] at first ⊢
      rw [if_neg later] at second
      omega
  queued a := by
    have first := h.queued a
    have second := h'.queued a
    rw [count_append]
    split_ifs at first second ⊢ <;> omega

theorem Quietly.weaken {ids : List Nat} (h : Quietly isPrefill ids s s') (more : List Nat) :
    Quietly isPrefill (ids ++ more) s s' :=
  h.trans (.of_still (.refl _) rfl rfl)

theorem Fed.after (fed : Fed s s') (h : Fed s' s'' ∨ Calm s'.world s''.world) : Fed s s'' := by
  obtain ⟨i, more⟩ := fed.more
  have grows : ∀ i, (s'.seqAt i).numTokens ≤ (s''.seqAt i).numTokens := by
    rcases h with later | calm
    · exact later.grows
    · exact fun i => (calm.tokens i).ge
  exact ⟨fun i => (fed.grows i).trans (grows i), i, more.trans_le (grows i)⟩

theorem Calm.fed (calm : Calm s.world s'.world) (h : Fed s' s'') : Fed s s'' := by
  have tokens : ∀ i, (s'.seqAt i).numTokens = (s.seqAt i).numTokens := calm.tokens
  obtain ⟨i, more⟩ := h.more
  exact ⟨fun i => (tokens i).ge.trans (h.grows i), i, (tokens i).symm.trans_lt more⟩

theorem postprocessOne_quiet (frames : hooks.Frames SameProgress) (isPrefill retain : Bool)
    (p : Nat × Int) (s : SchedulerState ω) :
    wp (postprocessOne cfg hooks isPrefill retain p)
      (fun _ s' => Fed s s' ∨ Quietly isPrefill [p.1] s s')
      (fun _ s' => Quietly isPrefill [p.1] s s') s := by
  rw [postprocessOne, wp_ite]
  cases isPrefill with
  | true => exact postprocessPrefill_quiet frames retain p.2 s
  | false =>
    exact wp_mono (postprocessDecode_quiet retain p.2 [p.1] s) (fun _ _ h => h) fun _ _ no => no.elim

theorem postprocess_quiet (frames : hooks.Frames SameProgress) (isPrefill retain : Bool) :
    ∀ (pairs : List (Nat × Int)) (s : SchedulerState ω),
      Keeps (fun s' => Fed s s' ∨ Quietly isPrefill (pairs.map (·.1)) s s')
        (forEach (postprocessOne cfg hooks isPrefill retain) pairs) s
  | [], s => .inr (.of_still (.refl _) rfl rfl)
  | p :: rest, s => by
    rw [forEach, Keeps, wp_bind]
    refine wp_mono (postprocessOne_quiet frames isPrefill retain p s) (fun _ s₁ first => ?_)
      fun _ s₁ quiet => .inr (quiet.weaken (rest.map fun q : Nat × Int => q.1))
    have later : ∀ s', Fed s₁ s' ∨ Quietly isPrefill (rest.map (·.1)) s₁ s' →
        Fed s s' ∨ Quietly isPrefill ((p :: rest).map (·.1)) s s' := by
      intro s' second
      rcases first with fed | quiet
      · exact .inl (fed.after (second.imp_right Quietly.calm))
      · exact second.imp quiet.calm.fed quiet.trans
    exact wp_mono (postprocess_quiet frames isPrefill retain rest s₁) (fun _ s' h => later s' h)
      fun _ s' h => later s' h

def replayPreemptions (s : SchedulerState ω) (result : ScheduleResult) : List Nat :=
  result.preempted.filter fun id => decide (0 < (s.seqAt id).numCompletionTokens)

section

variable [DecidableEq κ] [DecidableEq ρ]

/-- A step. -/
inductive Stepped (cfg : SchedulerConfig) (hooks : MemoryOracle ω κ ρ) (s : SchedulerState ω) :
    Nat → SchedulerState ω → Prop
  | raised {e : PyError} {s' : SchedulerState ω} :
      schedule cfg hooks s = (.error e, s') → Stepped cfg hooks s 0 s'
  | ran {result : ScheduleResult} {s₁ : SchedulerState ω} {world : OracleWorld ω}
      (tokenIds : List Int) (retain : Bool) :
      schedule cfg hooks s = (.ok result, s₁) → SameProgress s₁.world world →
      Stepped cfg hooks s (replayPreemptions s₁ result).length
        (postprocess cfg hooks result.seqs tokenIds result.isPrefill retain
          { s₁ with world := world }).2

/-- Steps in a row that accept no token, with the number of their preemptions. -/
inductive Stretch (cfg : SchedulerConfig) (hooks : MemoryOracle ω κ ρ) (s₀ : SchedulerState ω) :
    Nat → SchedulerState ω → Prop
  | start : Stretch cfg hooks s₀ 0 s₀
  | step {n k : Nat} {s s' : SchedulerState ω} : Stretch cfg hooks s₀ n s →
      Stepped cfg hooks s k s' → (∀ id, (s'.seqAt id).numTokens = (s.seqAt id).numTokens) →
      Stretch cfg hooks s₀ (n + k) s'

end

/-- The sequences that were preempted in a stretch. -/
structure Preempted (s₀ s : SchedulerState ω) (ids : List Nat) : Prop where
  nodup : ids.Nodup
  caughtUp : ∀ x ∈ ids, (s.seqAt x).CaughtUp
  alone : ∀ x ∈ ids, x ∈ s.decoding → ∀ a, s.decoding.count a = [x].count a
  known : ∀ x ∈ ids, 0 < s₀.queued x
  within : ∀ a, s.queued a ≤ s₀.queued a

variable {s₀ : SchedulerState ω} {ids : List Nat}

theorem Preempted.once (h : Preempted s₀ s ids) (once : s₀.Once) : s.Once :=
  fun a => (h.within a).trans (once a)

theorem Preempted.keep (h : Preempted s₀ s ids)
    (caughtUp : ∀ x, (s.seqAt x).CaughtUp → (s'.seqAt x).CaughtUp)
    (decoding : ∀ a, s'.decoding.count a ≤ s.decoding.count a)
    (within : ∀ a, s'.queued a ≤ s.queued a) : Preempted s₀ s' ids where
  __ := h
  caughtUp x member := caughtUp x (h.caughtUp x member)
  alone x member here a := by
    have present : 0 < s'.decoding.count x := count_pos_iff.mpr here
    have before : x ∈ s.decoding := count_pos_iff.mp (present.trans_le (decoding x))
    have alone := h.alone x member before a
    have below := decoding a
    by_cases same : a = x
    · subst same
      rw [count_singleton_self] at alone ⊢
      omega
    · rw [Custody.count_other same] at alone ⊢
      omega
  within a := (within a).trans (h.within a)

theorem Preempted.failed (h : Preempted s₀ s ids) (failed : Failed SameProgress s s') :
    Preempted s₀ s' ids := by
  refine h.keep (fun x caught => ?_) failed.decoding failed.total
  rcases failed.world with same | ⟨victim, restarted⟩
  · exact SameProgress.caughtUp same caught
  · exact restarted.caughtUp caught

theorem Preempted.preempt (h : Preempted s₀ s ids) (once : s₀.Once)
    (waiting : ∀ a, s'.waiting.count a = s.waiting.count a + [victim].count a)
    (decoding : ∀ a, s'.decoding.count a + [victim].count a = s.decoding.count a)
    (restarted : Restarted SameProgress s s' victim) :
    ∃ ids', ids'.length = ids.length + (replayPreemptions s' ⟨[], false, [victim]⟩).length ∧
      Preempted s₀ s' ids' := by
  have decodes : 0 < s.decoding.count victim := by
    have counted := decoding victim
    rw [count_singleton_self] at counted
    omega
  have new : victim ∉ ids := by
    intro member
    exact restarted.not_caughtUp (h.alone victim member (count_pos_iff.mp decodes))
      (h.caughtUp victim member)
  have gone : ∀ x ∈ ids, x ∉ s'.decoding := by
    intro x member here
    have below := decoding x
    have present : 0 < s'.decoding.count x := count_pos_iff.mpr here
    have alone := h.alone x member (count_pos_iff.mp (by omega)) victim
    have same : victim = x := by
      by_contra differ
      rw [Custody.count_other differ] at alone
      omega
    exact new (same ▸ member)
  have within : ∀ a, s'.queued a ≤ s₀.queued a := by
    intro a
    have := waiting a
    have := decoding a
    have := h.within a
    simp only [queued] at *
    omega
  by_cases accepted : 0 < (s'.seqAt victim).numCompletionTokens
  · have counted : (replayPreemptions s' ⟨[], false, [victim]⟩).length = 1 := by
      simp [replayPreemptions, accepted]
    rw [restarted.completion] at accepted
    refine ⟨victim :: ids, by rw [counted]; rfl, nodup_cons.mpr ⟨new, h.nodup⟩,
      fun x member => ?_, fun x member here => ?_, fun x member => ?_, within⟩
    · rcases mem_cons.mp member with rfl | old
      · exact restarted.victim_caughtUp accepted
      · exact restarted.caughtUp (h.caughtUp x old)
    · rcases mem_cons.mp member with rfl | old
      · have one := h.once once x
        have counted := decoding x
        have present : 0 < s'.decoding.count x := count_pos_iff.mpr here
        rw [count_singleton_self] at counted
        omega
      · exact absurd here (gone x old)
    · rcases mem_cons.mp member with rfl | old
      · have := h.within x
        simp only [queued] at *
        omega
      · exact h.known x old
  · have counted : (replayPreemptions s' ⟨[], false, [victim]⟩).length = 0 := by
      simp [replayPreemptions, accepted]
    exact ⟨ids, by omega, h.nodup, fun x member => restarted.caughtUp (h.caughtUp x member),
      fun x member here => absurd here (gone x member), h.known, within⟩

theorem count_zip_le (a : Nat) :
    ∀ (seqs : List Nat) (tokenIds : List Int),
      ((seqs.zip tokenIds).map (·.1)).count a ≤ seqs.count a
  | [], _ => le_refl _
  | _ :: _, [] => Nat.zero_le _
  | id :: seqs, _ :: tokenIds => by
    have rest := count_zip_le a seqs tokenIds
    simp only [zip_cons_cons, map_cons, count_cons]
    omega

theorem Preempted.prefilled (h : Preempted s₀ s ids) {batch fed : List Nat}
    (waiting : ∀ a, batch.count a + s'.waiting.count a = s.waiting.count a)
    (decoding : ∀ a, s'.decoding.count a = s.decoding.count a)
    (same : SameProgress s.world s'.world) (gated : Gated SameProgress s batch)
    (inside : ∀ a, fed.count a ≤ batch.count a) (quiet : Quietly true fed s' s'') :
    Preempted s₀ s'' ids := by
  have caughtUp : ∀ x, (s.seqAt x).CaughtUp → (s''.seqAt x).CaughtUp :=
    fun x caught => quiet.calm.caughtUp x (SameProgress.caughtUp same caught)
  have within : ∀ a, s''.queued a ≤ s.queued a := by
    intro a
    have := quiet.queued a
    have := inside a
    have := waiting a
    have := decoding a
    simp only [queued, if_true] at *
    omega
  by_cases replays : ∃ id ∈ batch, (s.seqAt id).isRecomputeReplay = true
  · obtain ⟨id, member, replay⟩ := replays
    obtain ⟨rfl, empty⟩ := gated.replay_alone (fun a => by have := waiting a; omega) member replay
    have joined : ∀ a, s''.decoding.count a ≤ [id].count a := by
      intro a
      have below := quiet.decoding a
      have := inside a
      rw [decoding, empty] at below
      split_ifs at below <;> omega
    refine ⟨h.nodup, fun x here => caughtUp x (h.caughtUp x here), fun x _ here a => ?_, h.known,
      fun a => (within a).trans (h.within a)⟩
    have present : 0 < s''.decoding.count x := count_pos_iff.mpr here
    have same_id : x = id := by
      by_contra differ
      have none_joined := joined x
      rw [Custody.count_other differ] at none_joined
      omega
    subst same_id
    have below := joined a
    by_cases other : a = x
    · subst other
      rw [count_singleton_self] at below ⊢
      omega
    · rw [Custody.count_other other] at below ⊢
      omega
  · refine h.keep caughtUp (fun a => ?_) within
    have below := quiet.decoding a
    rw [decoding] at below
    refine below.trans ?_
    split
    · next joins =>
      have replay : (s.seqAt a).isRecomputeReplay = true :=
        (SameProgress.replay same a).symm.trans joins.2
      have absent : batch.count a = 0 :=
        count_eq_zero_of_not_mem fun member => replays ⟨a, member, replay⟩
      have := inside a
      omega
    · exact le_refl _

theorem preemptFailed_rejects (alone : s.decoding = [victim]) (caught : (s.seqAt victim).CaughtUp) :
    wp (preemptFailed cfg hooks victim) (fun _ _ => False) (fun _ s' => s'.decoding = [victim]) s := by
  have rejected : ∀ e, wp (returnVictim victim [] e) (fun _ _ => False)
      (fun (_ : PyError) (s' : SchedulerState ω) => s'.decoding = [victim])
      { s with decoding := s.decoding.erase victim } := by
    intro e
    rw [returnVictim, wp_bind, wp_modify, wp_raise]
    simp [alone]
  have sole : soleDecode { s with decoding := s.decoding.erase victim } victim = true := by
    have accepted : 0 < (s.seqAt victim).numCompletionTokens := caught.1
    have checkpoint := caught.2
    simp only [seqAt] at accepted checkpoint
    simp [soleDecode, seqAt, alone, accepted, checkpoint]
  simp only [preemptFailed, removeDecoding, wp_bind, wp_get, wp_raiseIf, wp_modify]
  refine ⟨fun absent => absurd absent (by simp [alone]), fun _ => ?_⟩
  simp only [preemptDecodeVictim, wp_bind, wp_get, wp_ite, sole, if_true]
  split <;> exact rejected _

section

variable [DecidableEq κ] [DecidableEq ρ]

theorem Preempted.step (frames : hooks.Frames SameProgress) (h : Preempted s₀ s ids)
    (once : s₀.Once) {k : Nat} (stepped : Stepped cfg hooks s k s')
    (no_token : ∀ id, (s'.seqAt id).numTokens = (s.seqAt id).numTokens) :
    ∃ ids', ids'.length = ids.length + k ∧ Preempted s₀ s' ids' := by
  have outcome : wp (schedule cfg hooks) _ _ s :=
    schedule_outcome frames candidateUpdates_progress (h.once once)
  cases stepped with
  | raised ran => exact ⟨ids, rfl, h.failed ((wp_of_error ran).mp outcome).1⟩
  | @ran result s₁ world tokenIds retain ran same =>
    have outcome := (wp_of_ok ran).mp outcome
    have moved : SameProgress s₁.world ({ s₁ with world := world } : SchedulerState ω).world := same
    obtain ⟨s₂, stays⟩ : ∃ s₂ : SchedulerState ω, s₂ = { s₁ with world := world } := ⟨_, rfl⟩
    rw [← stays] at moved no_token ⊢
    have waiting₂ : s₂.waiting = s₁.waiting := by rw [stays]
    have decoding₂ : s₂.decoding = s₁.decoding := by rw [stays]
    have post : Keeps _ (postprocess cfg hooks result.seqs tokenIds result.isPrefill retain) s₂ :=
      postprocess_quiet frames result.isPrefill retain (result.seqs.zip tokenIds) s₂
    have post := keeps_iff.mp post
    have quiet : SameProgress s.world s₁.world →
        Quietly result.isPrefill ((result.seqs.zip tokenIds).map (·.1)) s₂
          (postprocess cfg hooks result.seqs tokenIds result.isPrefill retain s₂).2 := by
      intro before
      refine post.resolve_left fun fed => ?_
      obtain ⟨i, more⟩ := fed.more
      have tokens : (s₂.seqAt i).numTokens = (s.seqAt i).numTokens :=
        (IsTrans.trans (r := SameProgress) _ _ _ before moved i).1
      have none_new := no_token i
      exact absurd (tokens.symm.trans_lt more) (by rw [← none_new]; exact lt_irrefl _)
    cases outcome with
    | prefill waiting decoding world gated =>
      rw [← waiting₂] at waiting
      rw [← decoding₂] at decoding
      exact ⟨ids, rfl, h.prefilled waiting decoding (IsTrans.trans _ _ _ world moved) gated
        (fun a => count_zip_le a _ tokenIds) (quiet world)⟩
    | decode shuffled _ =>
      have quiet := quiet shuffled.world
      refine ⟨ids, rfl, h.keep (fun x caught => ?_) (fun a => ?_) fun a => ?_⟩
      · exact quiet.calm.caughtUp x
          (SameProgress.caughtUp (IsTrans.trans _ _ _ shuffled.world moved) caught)
      · refine (quiet.decoding a).trans ?_
        rw [decoding₂, shuffled.decoding, if_neg (by simp), Nat.add_zero]
      · refine (quiet.queued a).trans ?_
        rw [queued, waiting₂, decoding₂, shuffled.waiting, shuffled.decoding]
        exact le_refl _
    | preempt waiting decoding restarted =>
      obtain ⟨ids', counted, preempted⟩ := h.preempt once waiting decoding restarted
      refine ⟨ids', counted, preempted.keep (fun x caught => ?_) (fun a => ?_) fun a => ?_⟩
      · exact SameProgress.caughtUp moved caught
      · show s₂.decoding.count a ≤ _
        rw [decoding₂]
      · show s₂.queued a ≤ _
        rw [queued, queued, waiting₂, decoding₂]

theorem Stretch.preempted (frames : hooks.Frames SameProgress) (once : s₀.Once) {n : Nat}
    (stretch : Stretch cfg hooks s₀ n s) : ∃ ids, ids.length = n ∧ Preempted s₀ s ids := by
  induction stretch with
  | start => exact ⟨[], rfl, nodup_nil, nofun, nofun, nofun, fun _ => le_refl _⟩
  | step _ stepped no_token ih =>
    obtain ⟨ids, rfl, preempted⟩ := ih
    exact preempted.step frames once stepped no_token

/-- The number of replay preemptions of a stretch without progress is bounded by the sequences in
the queues at its start. -/
theorem replay_preemptions_bounded (frames : hooks.Frames SameProgress) (once : s₀.Once) {n : Nat}
    (stretch : Stretch cfg hooks s₀ n s) :
    n ≤ s₀.decoding.length + s₀.waiting.length ∧
      wp (schedule cfg hooks)
        (fun result _ => ∀ victim ∈ result.preempted, s.decoding = [victim] →
          ¬ (s.seqAt victim).CaughtUp)
        (fun _ _ => True) s ∧
      ∀ victim, s.decoding = [victim] → (s.seqAt victim).CaughtUp →
        wp (preemptFailed cfg hooks victim) (fun _ _ => False) (fun _ s' => s'.decoding = [victim])
          s := by
  obtain ⟨ids, rfl, preempted⟩ := stretch.preempted frames once
  refine ⟨?_, ?_, fun victim => preemptFailed_rejects⟩
  · have subset : ids ⊆ s₀.decoding ++ s₀.waiting := by
      intro x member
      have := preempted.known x member
      rw [← count_pos_iff, count_append]
      simp only [queued] at this
      omega
    rw [← length_append]
    exact (preempted.nodup.subperm subset).length_le
  · refine wp_mono (schedule_outcome frames candidateUpdates_progress (preempted.once once))
      (fun result s' outcome victim member alone => ?_) fun _ _ _ => trivial
    cases outcome with
    | prefill => cases member
    | decode => cases member
    | preempt _ _ restarted =>
      obtain rfl := mem_singleton.mp member
      exact restarted.not_caughtUp fun a => by rw [alone]

end

def crowdedOracle : MemoryOracle Unit Unit Unit :=
  { Custody.demoOracle false with
    reserveDecodeWindows := fun decoding _ => pure decoding.head? }

theorem crowdedOracle_frames : crowdedOracle.Frames SameProgress := by
  constructor <;> first
    | exact along_pure _
    | exact fun _ => along_pure _
    | exact fun _ _ => along_pure _
    | exact nofun

def crowded : SchedulerState Unit where
  world :=
    { oracle := ()
      seqs := fun id =>
        { appendToken 4 (.create id [3] 9) with numPrefilledTokens := 1, status := .running } }
  decoding := [0, 1]

def crowdedNext : SchedulerState Unit := (schedule demoConfig crowdedOracle crowded).2

theorem crowded_step : schedule demoConfig crowdedOracle crowded =
    (.ok ⟨[], false, [0]⟩, crowdedNext) := by
  refine Prod.ext ?_ rfl
  decide +kernel

theorem crowded_once : crowded.Once := by
  intro a
  have nodup : [0, 1].Nodup := by decide
  have one := nodup_iff_count_le_one.mp nodup a
  simpa [crowded] using one

theorem crowded_stretch : Stretch demoConfig crowdedOracle crowded 1 crowdedNext := by
  have called : wp (schedule demoConfig crowdedOracle) _ _ crowded :=
    schedule_outcome crowdedOracle_frames candidateUpdates_progress crowded_once
  have outcome := (wp_of_ok crowded_step).mp called
  have tokens : ∀ id, (crowdedNext.seqAt id).numTokens = (crowded.seqAt id).numTokens := by
    cases outcome with
    | preempt _ _ restarted => exact fun id => (restarted.tokens id).1
  have preempts : (replayPreemptions crowdedNext ⟨[], false, [0]⟩).length = 1 := by decide +kernel
  have stretch : Stretch demoConfig crowdedOracle crowded
      (0 + (replayPreemptions crowdedNext ⟨[], false, [0]⟩).length) crowdedNext :=
    .step .start (.ran [] false crowded_step (refl crowdedNext.world)) tokens
  rw [preempts] at stretch
  exact stretch

theorem replay_preemptions_bounded_crowded :
    1 ≤ crowded.decoding.length + crowded.waiting.length :=
  (replay_preemptions_bounded crowdedOracle_frames crowded_once crowded_stretch).1

end SchedulerState

end SparseEngine
