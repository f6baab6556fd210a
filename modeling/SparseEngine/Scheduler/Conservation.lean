import SparseEngine.Scheduler.Passes

/-! `Custody` follows a scheduler through any order of its calls, with what is not yet post-processed
of the prefill batch that it returned last. -/

namespace SparseEngine

open PyM

structure Custody (ω : Type) where
  state : SchedulerState ω
  /-- The sequences of the prefill batch returned last whose post-processing has not returned. -/
  batch : List Nat := []
  added : List Nat := []
  /-- The sequences that were added and neither finished nor aborted. -/
  live : List Nat := []

inductive SchedulerOp (ω : Type)
  | add (id : Nat)
  | schedule (inflight : Nat)
  | postprocess (seqs : List Nat) (tokenIds : List Int) (isPrefill retain : Bool)
  | abortMany (requested : List Nat)
  | engine (world : OracleWorld ω)

namespace SchedulerState

variable {ω κ ρ : Type}

def queued (s : SchedulerState ω) (id : Nat) : Nat := s.waiting.count id + s.decoding.count id

variable (cfg : SchedulerConfig) (hooks : MemoryOracle ω κ ρ)

/-- The body of the loop of `postprocess`. -/
def postprocessOne (isPrefill retain : Bool) (p : Nat × Int) : SchedM ω Unit :=
  if isPrefill then postprocessPrefill cfg hooks retain p.1 p.2
  else postprocessDecode cfg retain p.1 p.2

end SchedulerState

namespace Custody

open SchedulerState

variable {ω κ ρ : Type} [DecidableEq κ] [DecidableEq ρ] (cfg : SchedulerConfig)
  (hooks : MemoryOracle ω κ ρ)

def held (c : Custody ω) (id : Nat) : Nat := c.state.queued id + c.batch.count id

omit [DecidableEq κ] [DecidableEq ρ] in
/-- `postprocess`. -/
def settle (isPrefill retain : Bool) : List (Nat × Int) → Custody ω → Custody ω
  | [], c => c
  | p :: rest, c =>
    match postprocessOne cfg hooks isPrefill retain p c.state with
    | (.error _, s) => { c with state := s }
    | (.ok _, s) => settle isPrefill retain rest
        { c with
          state := s
          batch := if isPrefill then c.batch.erase p.1 else c.batch
          live := if (s.seqAt p.1).status = .finished then c.live.filter (· ≠ p.1) else c.live }

/-- The prefill batch returned last, after a call of `schedule`. -/
def lastBatch (batch : List Nat) : Except PyError ScheduleResult → List Nat
  | .ok result => if result.isPrefill then result.seqs else batch
  | .error _ => batch

def apply (op : SchedulerOp ω) (c : Custody ω) : Custody ω :=
  match op with
  | .add id => { c with
      state := (add hooks id c.state).2
      added := id :: c.added
      live := id :: c.live }
  | .schedule inflight =>
    let out := schedule cfg hooks { c.state with asyncInflight := inflight }
    { c with state := out.2, batch := lastBatch c.batch out.1 }
  | .postprocess seqs tokenIds isPrefill retain =>
    settle cfg hooks isPrefill retain (seqs.zip tokenIds) c
  | .abortMany requested =>
    let s := (abortMany hooks requested c.state).2
    { c with
      state := s
      live := c.live.filter fun id =>
        !(decide (id ∈ requested) && decide (0 < c.state.queued id) && decide (s.queued id = 0)) }
  | .engine world => { c with state := { c.state with world := world } }

def Allowed (op : SchedulerOp ω) (c : Custody ω) : Prop :=
  match op with
  | .add id => id ∉ c.added
  | .postprocess seqs tokenIds true _ =>
    ∀ id, ((seqs.zip tokenIds).map (·.1)).count id ≤ c.batch.count id
  | _ => True

def Run (condition : SchedulerOp ω → Custody ω → Prop) : Custody ω → Custody ω → Prop :=
  Relation.ReflTransGen fun c c' => ∃ op, Allowed op c ∧ condition op c ∧ c' = apply cfg hooks op c

end Custody

namespace SchedulerState

variable {ω κ ρ : Type} (hooks : MemoryOracle ω κ ρ)

def finishIn (id : Nat) (world : OracleWorld ω) : OracleWorld ω :=
  { world with
    seqs := Function.update world.seqs id { world.seqs id with status := .finished } }

/-- The reset hooks of the requested sequences of a queue. -/
def resetRequested (requested : List Nat) :
    List Nat → OracleWorld ω → Except (List Nat) (OracleWorld ω)
  | [], world => .ok world
  | id :: rest, world =>
    if id ∈ requested then
      match hooks.resetPrefillExecutionState id (finishIn id world) with
      | (.ok _, world) => (resetRequested requested rest world).mapError (id :: ·)
      | (.error _, _) => .error []
    else (resetRequested requested rest world).mapError (id :: ·)

def AbortKeeps (requested : List Nat) (s : SchedulerState ω) : Prop :=
  match resetRequested hooks requested s.waiting s.world with
  | .error before => ∀ id ∈ before, id ∈ requested
  | .ok world =>
    match resetRequested hooks requested s.decoding world with
    | .error before => ∀ id ∈ before, id ∈ requested
    | .ok _ => True

variable {hooks} {requested : List Nat} {s : SchedulerState ω}

theorem abortLoop_spec (name : QueueName) :
    ∀ (ids retained : List Nat) (removed : Dict Nat Bool) (s : SchedulerState ω),
      s.queue name = ids →
      wp (abortLoop hooks name requested ids retained removed)
        (fun r s' => resetRequested hooks requested ids s.world = .ok s'.world ∧
          r.1 = retained ++ ids.filter (fun id => decide (id ∉ requested)) ∧ s'.queue name = [] ∧
          ∀ other ≠ name, s'.queue other = s.queue other)
        (fun _ s' => ∃ before id post, resetRequested hooks requested ids s.world = .error before ∧
          ids = before ++ id :: post ∧ id ∈ requested ∧ s'.queue name = post ∧
          ∀ other ≠ name, s'.queue other = s.queue other) s
  | [], retained, removed, s, front => ⟨rfl, by simp, front, fun _ _ => rfl⟩
  | id :: rest, retained, removed, s, front => by
    have taken : (setQueue name rest s).queue name = rest := by cases name <;> rfl
    have others : ∀ other ≠ name, (setQueue name rest s).queue other = s.queue other := by
      intro other differ
      cases name <;> cases other <;> first | rfl | exact absurd rfl differ
    have same_world : (setQueue name rest s).world = s.world := by cases name <;> rfl
    rw [abortLoop, wp_bind, wp_modify, wp_ite]
    split
    · next asked =>
      simp only [wp_bind, wp_get, wp_modify, hook, wp_zoom]
      have world : (updateSeq id (fun seq => { seq with status := .finished })
          { setQueue name rest s with
            admissionDeferWarned := (setQueue name rest s).admissionDeferWarned.erase id }).world =
          finishIn id s.world := by
        rw [finishIn, ← same_world]
        rfl
      rw [world]
      cases ran : hooks.resetPrefillExecutionState id (finishIn id s.world) with
      | mk result w =>
        cases result with
        | error e =>
          refine (wp_of_error ran).mpr ⟨[], id, rest, ?_, rfl, asked, ?_, fun other differ => ?_⟩
          · rw [resetRequested, if_pos asked, ran]
          · cases name <;> rfl
          · rw [← others other differ]
            cases name <;> cases other <;> rfl
        | ok u =>
          refine (wp_of_ok ran).mpr ?_
          let s₁ : SchedulerState ω :=
            { updateSeq id (fun seq => { seq with status := .finished })
                { setQueue name rest s with
                  admissionDeferWarned :=
                    (setQueue name rest s).admissionDeferWarned.erase id } with world := w }
          have front₁ : s₁.queue name = rest := by cases name <;> rfl
          have others₁ : ∀ other ≠ name, s₁.queue other = s.queue other := by
            intro other differ
            rw [← others other differ]
            cases name <;> cases other <;> rfl
          have resets : resetRequested hooks requested (id :: rest) s.world =
              (resetRequested hooks requested rest w).mapError (id :: ·) := by
            rw [resetRequested, if_pos asked, ran]
          refine wp_mono (abortLoop_spec name rest retained _ s₁ front₁) ?_ ?_
          · rintro r s₂ ⟨reset, kept, queue, same⟩
            refine ⟨?_, ?_, queue, fun other differ => (same other differ).trans (others₁ other differ)⟩
            · rw [resets, show w = s₁.world from rfl, reset]
              rfl
            · rw [kept, List.filter_cons_of_neg (by simpa using asked)]
          · rintro e s₂ ⟨before, id', post, reset, split, asked', queue, same⟩
            refine ⟨id :: before, id', post, ?_, by rw [split]; rfl, asked', queue,
              fun other differ => (same other differ).trans (others₁ other differ)⟩
            rw [resets, show w = s₁.world from rfl, reset]
            rfl
    · next unasked =>
      have resets : resetRequested hooks requested (id :: rest) s.world =
          (resetRequested hooks requested rest (setQueue name rest s).world).mapError (id :: ·) := by
        rw [resetRequested, if_neg unasked, same_world]
      refine wp_mono (abortLoop_spec name rest (retained ++ [id]) removed _ taken) ?_ ?_
      · rintro r s₂ ⟨reset, kept, queue, same⟩
        refine ⟨?_, ?_, queue, fun other differ => (same other differ).trans (others other differ)⟩
        · rw [resets, reset]
          rfl
        · rw [kept, List.filter_cons_of_pos (by simpa using unasked)]
          simp
      · rintro e s₂ ⟨before, id', post, reset, split, asked', queue, same⟩
        refine ⟨id :: before, id', post, ?_, by rw [split]; rfl, asked', queue,
          fun other differ => (same other differ).trans (others other differ)⟩
        rw [resets, reset]
        rfl

theorem abortQueue_spec (name : QueueName) (removed : Dict Nat Bool) (s : SchedulerState ω) :
    wp (abortQueue hooks name requested removed)
      (fun _ s' => resetRequested hooks requested (s.queue name) s.world = .ok s'.world ∧
        s'.queue name = (s.queue name).filter (fun id => decide (id ∉ requested)) ∧
        ∀ other ≠ name, s'.queue other = s.queue other)
      (fun _ s' => ∃ before id post,
        resetRequested hooks requested (s.queue name) s.world = .error before ∧
        s.queue name = before ++ id :: post ∧ id ∈ requested ∧ s'.queue name = post ∧
        ∀ other ≠ name, s'.queue other = s.queue other) s := by
  simp only [abortQueue, wp_bind, wp_get]
  refine wp_mono (abortLoop_spec name (s.queue name) [] removed s rfl) ?_ fun _ _ h => h
  rintro ⟨retained, removed'⟩ s₁ ⟨reset, kept, empty, same⟩
  dsimp only at kept ⊢
  rw [wp_modify, wp_pure, empty, kept]
  refine ⟨?_, ?_, fun other differ => ?_⟩
  · rw [reset]
    cases name <;> rfl
  · cases name <;> rfl
  · rw [← same other differ]
    cases name <;> cases other <;> first | rfl | exact absurd rfl differ

structure Aborted (requested : List Nat) (s s' : SchedulerState ω) : Prop where
  within : ∀ a, s'.queued a ≤ s.queued a
  kept : ∀ a, a ∉ requested → s'.queued a = s.queued a

theorem count_post {before : List Nat} {id : Nat} (asked : id ∈ requested)
    (requested_before : ∀ i ∈ before, i ∈ requested) (post : List Nat) (a : Nat) :
    post.count a ≤ (before ++ id :: post).count a ∧
      (a ∉ requested → post.count a = (before ++ id :: post).count a) := by
  rw [List.count_append, List.count_cons]
  refine ⟨by omega, fun unasked => ?_⟩
  have gone : before.count a = 0 :=
    List.count_eq_zero_of_not_mem fun member => unasked (requested_before a member)
  have other : ¬ (id == a) = true := by
    intro same
    exact unasked (eq_of_beq same ▸ asked)
  rw [gone, if_neg other]
  omega

theorem count_kept (requested ids : List Nat) (a : Nat) :
    (ids.filter fun id => decide (id ∉ requested)).count a ≤ ids.count a ∧
      (a ∉ requested → (ids.filter fun id => decide (id ∉ requested)).count a = ids.count a) := by
  rw [count_filter]
  refine ⟨?_, fun unasked => ?_⟩
  · split <;> omega
  · simp [unasked]

theorem abortMany_aborted (keeps : AbortKeeps hooks requested s) :
    wp (abortMany hooks requested) (fun _ s' => Aborted requested s s')
      (fun _ s' => Aborted requested s s') s := by
  rw [abortMany, wp_ite]
  split
  · exact ⟨fun _ => le_refl _, fun _ _ => rfl⟩
  · simp only [wp_bind, wp_modify]
    refine wp_mono (abortQueue_spec .waiting .empty _) ?_ ?_
    · rintro removed s₁ ⟨reset, waiting, same⟩
      have decoding : s₁.decoding = s.decoding := same .decoding (by simp)
      have waiting : s₁.waiting = s.waiting.filter fun id => decide (id ∉ requested) := waiting
      have world : resetRequested hooks requested s.waiting s.world = .ok s₁.world := reset
      rw [AbortKeeps, world] at keeps
      dsimp only at keeps
      refine wp_mono (abortQueue_spec .decoding removed s₁) ?_ ?_
      · rintro removed' s₂ ⟨-, decoding', same'⟩
        have waiting' : s₂.waiting = s₁.waiting := same' .waiting (by simp)
        have decoding' : s₂.decoding = s₁.decoding.filter fun id => decide (id ∉ requested) :=
          decoding'
        refine ⟨fun a => ?_, fun a unasked => ?_⟩
        · have first := (count_kept requested s.waiting a).1
          have second := (count_kept requested s.decoding a).1
          rw [queued, queued, waiting', waiting, decoding', decoding]
          omega
        · rw [queued, queued, waiting', waiting, decoding', decoding,
            (count_kept requested s.waiting a).2 unasked, (count_kept requested s.decoding a).2 unasked]
      · rintro e s₂ ⟨before, id, post, raised, split, asked, queue, same'⟩
        have waiting' : s₂.waiting = s₁.waiting := same' .waiting (by simp)
        have split : s.decoding = before ++ id :: post := decoding.symm.trans split
        have raised : resetRequested hooks requested s.decoding s₁.world = .error before := by
          rw [← decoding]
          exact raised
        rw [raised] at keeps
        have queue : s₂.decoding = post := queue
        refine ⟨fun a => ?_, fun a unasked => ?_⟩
        · have first := (count_kept requested s.waiting a).1
          have second := (count_post asked keeps post a).1
          rw [queued, queued, waiting', waiting, queue, split]
          omega
        · rw [queued, queued, waiting', waiting, queue, split,
            (count_kept requested s.waiting a).2 unasked, (count_post asked keeps post a).2 unasked]
    · rintro e s₁ ⟨before, id, post, raised, split, asked, queue, same⟩
      have decoding : s₁.decoding = s.decoding := same .decoding (by simp)
      have split : s.waiting = before ++ id :: post := split
      have raised : resetRequested hooks requested s.waiting s.world = .error before := raised
      rw [AbortKeeps, raised] at keeps
      have queue : s₁.waiting = post := queue
      refine ⟨fun a => ?_, fun a unasked => ?_⟩
      · have first := (count_post asked keeps post a).1
        rw [queued, queued, queue, decoding, split]
        omega
      · rw [queued, queued, queue, decoding, split, (count_post asked keeps post a).2 unasked]

structure Settles (s s' : SchedulerState ω) (id : Nat) (gained : Nat → Nat) : Prop where
  within : ∀ a, s'.queued a ≤ s.queued a + gained a
  kept : ∀ a, (a = id → (s'.seqAt id).status ≠ .finished) → s'.queued a = s.queued a + gained a

variable {cfg : SchedulerConfig} {id : Nat}

theorem publishToken_settles (retain : Bool) (token : Int) (s : SchedulerState ω) :
    wp (publishToken cfg retain id token) (fun _ s' => Settles s s' id fun _ => 0)
      (fun _ _ => False) s := by
  simp only [publishToken, wp_bind, wp_modify, wp_get, wp_ite, wp_pure]
  split
  · refine ⟨fun a => ?_, fun a unfinished => ?_⟩
    · have erased := (List.erase_sublist (a := id) (l := s.decoding)).count_le a
      cases retain with
      | true => exact le_refl _
      | false => exact Nat.add_le_add_left erased _
    · have finished : a ≠ id := by
        rintro rfl
        refine unfinished rfl ?_
        cases retain <;> simp [updateSeq, seqAt]
      cases retain with
      | true => rfl
      | false => exact congrArg (s.waiting.count a + ·) (List.count_erase_of_ne finished)
  · exact ⟨fun _ => le_refl _, fun _ _ => rfl⟩

theorem postprocessDecode_settles (retain : Bool) (token : Int) (s : SchedulerState ω) :
    wp (postprocessDecode cfg retain id token) (fun _ s' => Settles s s' id fun _ => 0)
      (fun _ _ => False) s := by
  simp only [postprocessDecode, wp_bind, wp_get, wp_ite, wp_modify]
  split
  · exact ⟨fun _ => le_refl _, fun _ _ => rfl⟩
  · exact publishToken_settles retain token s

theorem postprocessPrefill_settles (retain : Bool) (token : Int) (s : SchedulerState ω) :
    wp (postprocessPrefill cfg hooks retain id token)
      (fun _ s' => Settles s s' id fun a => [id].count a)
      (fun _ s' => ∀ a, s'.queued a = s.queued a) s := by
  simp only [postprocessPrefill, wp_bind, wp_get, wp_ite, wp_modify]
  split
  · have gains : ∀ a, (id :: s.waiting).count a + s.decoding.count a =
        s.waiting.count a + s.decoding.count a + [id].count a := by
      intro a
      simp only [List.count_cons, List.count_nil]
      omega
    exact ⟨fun a => (gains a).le, fun a _ => gains a⟩
  · simp only [startDecoding, wp_bind, wp_modify, wp_get, wp_ite, hook, wp_zoom]
    refine wp_of_forall (fun _ world => ?_) fun _ world a => rfl
    have gains : ∀ a, s.waiting.count a + (s.decoding ++ [id]).count a =
        s.waiting.count a + s.decoding.count a + [id].count a := by
      intro a
      rw [List.count_append, Nat.add_assoc]
    split
    · split
      · exact ⟨fun a => (gains a).le, fun a _ => gains a⟩
      · exact ⟨fun a => (gains a).le, fun a _ => gains a⟩
    · refine wp_mono (publishToken_settles retain token _) (fun _ s' settles => ?_)
        fun _ _ no => no.elim
      exact ⟨fun a => (settles.within a).trans (gains a).le,
        fun a unfinished => (settles.kept a unfinished).trans (gains a)⟩

end SchedulerState

namespace Custody

open SchedulerState

variable {ω κ ρ : Type} {cfg : SchedulerConfig} {hooks : MemoryOracle ω κ ρ} {c : Custody ω}

/-- A live sequence is in one place, once. -/
structure Conserved (c : Custody ω) : Prop where
  once : ∀ id, c.held id ≤ 1
  live : ∀ id ∈ c.live, c.held id = 1
  added : ∀ id, c.held id ≠ 0 → id ∈ c.added

theorem Conserved.move (h : c.Conserved) {c' : Custody ω} (within : ∀ id, c'.held id ≤ c.held id)
    (kept : ∀ id ∈ c'.live, id ∈ c.live ∧ c'.held id = c.held id) (added : c'.added = c.added) :
    c'.Conserved where
  once id := (within id).trans (h.once id)
  live id member := (kept id member).2.trans (h.live id (kept id member).1)
  added id here := by
    rw [added]
    refine h.added id fun gone => here ?_
    have := within id
    omega

theorem Conserved.state_once (h : c.Conserved) : c.state.Once := fun a => by
  have one := h.once a
  simp only [held, queued] at one
  omega

theorem add_queued (id a : Nat) (s : SchedulerState ω) :
    (add hooks id s).2.queued a = s.queued a + [id].count a := by
  have fresh : ∀ s' : SchedulerState ω, s'.waiting = s.waiting → s'.decoding = s.decoding →
      (s'.waiting ++ [id]).count a + s'.decoding.count a = s.queued a + [id].count a := by
    intro s' waiting decoding
    rw [waiting, decoding, List.count_append, queued]
    omega
  by_cases idle : s.waiting = [] ∧ s.decoding = []
  · have added : (add hooks id s).2.queued a = (([] : List Nat) ++ [id]).count a +
        ([] : List Nat).count a := by
      simp [add, bind_run, noteWaiting, queued, idle]
    rw [added, queued, idle.1, idle.2]
    simp
  · have added : (add hooks id s).2.queued a = (s.waiting ++ [id]).count a + s.decoding.count a := by
      simp [add, bind_run, noteWaiting, queued, idle]
    rw [added]
    exact fresh s rfl rfl

theorem count_other {id a : Nat} (differ : a ≠ id) : [id].count a = 0 :=
  List.count_eq_zero_of_not_mem (by simpa using differ)

theorem add_conserved (h : c.Conserved) {id : Nat} (fresh : id ∉ c.added) :
    Conserved { c with
      state := (add hooks id c.state).2
      added := id :: c.added
      live := id :: c.live } := by
  have unheld : c.held id = 0 := not_not.mp fun here => fresh (h.added id here)
  have held : ∀ a, (add hooks id c.state).2.queued a + c.batch.count a =
      c.held a + [id].count a := by
    intro a
    rw [add_queued, Custody.held]
    omega
  refine ⟨fun a => ?_, fun a member => ?_, fun a here => ?_⟩
  · refine (held a).le.trans ?_
    by_cases same : a = id
    · rw [same, unheld, List.count_singleton_self]
    · rw [count_other same]
      exact h.once a
  · refine (held a).trans ?_
    by_cases same : a = id
    · rw [same, unheld, List.count_singleton_self]
    · rw [count_other same]
      exact h.live a ((List.mem_cons.mp member).resolve_left same)
  · by_cases same : a = id
    · exact same ▸ List.mem_cons_self
    · refine List.mem_cons_of_mem _ (h.added a fun gone => here ?_)
      refine (held a).trans ?_
      rw [gone, count_other same]

theorem settleOne_conserved (h : c.Conserved) {isPrefill retain : Bool} {p : Nat × Int}
    (given : isPrefill = true → p.1 ∈ c.batch) :
    wp (postprocessOne cfg hooks isPrefill retain p)
      (fun _ s' => Conserved { c with
        state := s'
        batch := if isPrefill then c.batch.erase p.1 else c.batch
        live := if (s'.seqAt p.1).status = .finished then c.live.filter (· ≠ p.1) else c.live })
      (fun _ s' => Conserved { c with state := s' }) c.state := by
  have batch : ∀ a, (if isPrefill then c.batch.erase p.1 else c.batch).count a +
      (if isPrefill then [p.1].count a else 0) = c.batch.count a := by
    intro a
    cases isPrefill with
    | false => rfl
    | true =>
      have kept := (List.perm_cons_erase (given rfl)).count_eq a
      rw [List.count_cons] at kept
      simp only [if_true, List.count_singleton]
      exact kept.symm
  have settled : ∀ s', Settles c.state s' p.1 (fun a => if isPrefill then [p.1].count a else 0) →
      Conserved { c with
        state := s'
        batch := if isPrefill then c.batch.erase p.1 else c.batch
        live := if (s'.seqAt p.1).status = .finished then c.live.filter (· ≠ p.1) else c.live } := by
    intro s' settles
    refine h.move (fun a => ?_) (fun a member => ?_) rfl
    · have := settles.within a
      have := batch a
      simp only [held]
      omega
    · have alive : a ∈ c.live ∧ (a = p.1 → (s'.seqAt p.1).status ≠ .finished) := by
        dsimp only at member
        split at member
        · have kept := List.mem_filter.mp member
          exact ⟨kept.1, fun same => absurd same (by simpa using kept.2)⟩
        · next unfinished => exact ⟨member, fun _ => unfinished⟩
      have := settles.kept a fun same => same ▸ alive.2 same
      have := batch a
      refine ⟨alive.1, ?_⟩
      simp only [held]
      omega
  rw [postprocessOne, wp_ite]
  cases isPrefill with
  | true =>
    refine wp_mono (postprocessPrefill_settles retain p.2 c.state) (fun _ s' settles => settled s' settles)
      fun _ s' same => h.move (fun a => ?_) (fun a member => ⟨member, ?_⟩) rfl
    · simp only [held, same a, le_refl]
    · simp only [held, same a]
  | false =>
    exact wp_mono (postprocessDecode_settles retain p.2 c.state)
      (fun _ s' settles => settled s' settles) fun _ _ no => no.elim

theorem settle_conserved {isPrefill retain : Bool} :
    ∀ (pairs : List (Nat × Int)) (c : Custody ω), c.Conserved →
      (isPrefill = true → ∀ a, (pairs.map (·.1)).count a ≤ c.batch.count a) →
      (settle cfg hooks isPrefill retain pairs c).Conserved
  | [], _, h, _ => h
  | p :: rest, c, h, given => by
    have first : isPrefill = true → p.1 ∈ c.batch := by
      intro prefill
      have counted := given prefill p.1
      rw [List.map_cons, List.count_cons_self] at counted
      exact List.count_pos_iff.mp (by omega)
    have one : wp (postprocessOne cfg hooks isPrefill retain p) _ _ c.state :=
      settleOne_conserved h first
    rw [settle]
    cases ran : postprocessOne cfg hooks isPrefill retain p c.state with
    | mk result s =>
      cases result with
      | error e => exact (wp_of_error ran).mp one
      | ok u =>
        refine settle_conserved rest _ ((wp_of_ok ran).mp one) fun prefill a => ?_
        have counted := given prefill a
        rw [List.map_cons, List.count_cons] at counted
        simp only [prefill, if_true, List.count_erase]
        omega

instance : Std.Refl fun _ _ : OracleWorld ω => True := ⟨fun _ => trivial⟩

instance : IsTrans (OracleWorld ω) fun _ _ => True := ⟨fun _ _ _ _ _ => trivial⟩

variable [DecidableEq κ] [DecidableEq ρ]

theorem schedule_held (h : c.Conserved) (settled : c.batch = []) (inflight : Nat) (a : Nat) :
    (apply cfg hooks (.schedule inflight) c).held a = c.held a := by
  have once : SchedulerState.Once { c.state with asyncInflight := inflight } := h.state_once
  have outcome : wp (schedule cfg hooks) _ _ { c.state with asyncInflight := inflight } :=
    schedule_outcome hooks.frames_true candidateUpdates_true once
  simp only [apply, held, settled]
  cases ran : schedule cfg hooks { c.state with asyncInflight := inflight } with
  | mk result s' =>
    cases result with
    | error e =>
      have same := ((wp_of_error ran).mp outcome).2 a
      simp only [lastBatch, queued, List.count_nil] at same ⊢
      omega
    | ok result =>
      have outcome := (wp_of_ok ran).mp outcome
      cases outcome with
      | prefill waiting decoding _ _ =>
        have := waiting a
        have := decoding a
        simp only [lastBatch, queued, if_true, List.count_nil] at *
        omega
      | decode shuffled _ =>
        have := shuffled.waiting a
        have := shuffled.decoding a
        simp only [lastBatch, queued, Bool.false_eq_true, if_false, List.count_nil] at *
        omega
      | preempt waiting decoding _ =>
        have := waiting a
        have := decoding a
        simp only [lastBatch, queued, Bool.false_eq_true, if_false, List.count_nil] at *
        omega

/-- No abort loses what it keeps, and a prefill batch is post-processed before the next `schedule`:
its sequences leave `batch` when `complete_prefill_execution` returns. -/
def Spared (hooks : MemoryOracle ω κ ρ) (op : SchedulerOp ω) (c : Custody ω) : Prop :=
  match op with
  | .abortMany requested => AbortKeeps hooks requested c.state
  | .schedule _ => c.batch = []
  | _ => True

omit [DecidableEq κ] [DecidableEq ρ] in
theorem abort_conserved (h : c.Conserved) {requested : List Nat} {s : SchedulerState ω}
    (aborted : Aborted requested c.state s) :
    Conserved { c with
      state := s
      live := c.live.filter fun id =>
        !(decide (id ∈ requested) && decide (0 < c.state.queued id) && decide (s.queued id = 0)) } := by
  refine h.move (fun a => ?_) (fun a member => ?_) rfl
  · exact Nat.add_le_add_right (aborted.within a) _
  · obtain ⟨alive, stays⟩ := List.mem_filter.mp member
    refine ⟨alive, ?_⟩
    have same : s.queued a = c.state.queued a := by
      by_cases asked : a ∈ requested
      · have within := aborted.within a
        have one := h.once a
        simp only [asked, decide_true, Bool.true_and, Bool.not_eq_true', Bool.and_eq_false_iff,
          decide_eq_false_iff_not] at stays
        simp only [held] at one
        omega
      · exact aborted.kept a asked
    simp only [held, same]

theorem apply_conserved (h : c.Conserved) {op : SchedulerOp ω} (allowed : Allowed op c)
    (spared : Spared hooks op c) : (apply cfg hooks op c).Conserved := by
  cases op with
  | add id => exact add_conserved h allowed
  | schedule inflight =>
    exact h.move (fun a => (schedule_held h spared inflight a).le)
      (fun a member => ⟨member, schedule_held h spared inflight a⟩) rfl
  | postprocess seqs tokenIds isPrefill retain =>
    refine settle_conserved _ _ h fun prefill => ?_
    subst prefill
    exact allowed
  | abortMany requested =>
    have aborted := abortMany_aborted spared
    refine abort_conserved h ?_
    exact keeps_iff.mp aborted
  | engine world => exact ⟨h.once, h.live, h.added⟩

theorem run_conserved {c₀ : Custody ω} (h : c₀.Conserved)
    (run : Run cfg hooks (Spared hooks) c₀ c) : c.Conserved := by
  induction run with
  | refl => exact h
  | tail _ step ih =>
    obtain ⟨op, allowed, spared, rfl⟩ := step
    exact apply_conserved ih allowed spared

omit [DecidableEq κ] [DecidableEq ρ] in
theorem start_conserved {s : SchedulerState ω} (waiting : s.waiting = [])
    (decoding : s.decoding = []) : Conserved { state := s } := by
  have unheld : ∀ id, held { state := s } id = 0 := fun id => by
    simp [held, queued, waiting, decoding]
  exact ⟨fun id => (unheld id).le.trans (Nat.zero_le _), nofun, fun id here => absurd (unheld id) here⟩

/-- A live sequence is exactly once in a queue or in the prefill batch returned last, a failed
`schedule` leaves every sequence in one queue, and a decode batch is a part of the decoding
queue. -/
theorem scheduler_conserves {s : SchedulerState ω} (waiting : s.waiting = [])
    (decoding : s.decoding = []) (run : Run cfg hooks (Spared hooks) { state := s } c) :
    (∀ id ∈ c.live,
      c.state.waiting.count id + c.state.decoding.count id + c.batch.count id = 1) ∧
    ∀ inflight,
      wp (schedule cfg hooks)
        (fun result s' => result.isPrefill = false →
          result.seqs.Nodup ∧ ∀ id ∈ result.seqs, id ∈ s'.decoding)
        (fun _ s' => ∀ id ∈ c.state.waiting ++ c.state.decoding,
          s'.waiting.count id + s'.decoding.count id = 1)
        { c.state with asyncInflight := inflight } := by
  have conserved := run_conserved (start_conserved waiting decoding) run
  refine ⟨conserved.live, fun inflight => ?_⟩
  have once : SchedulerState.Once { c.state with asyncInflight := inflight } := conserved.state_once
  refine wp_mono (schedule_outcome hooks.frames_true candidateUpdates_true once) ?_ ?_
  · intro result s' outcome decodes
    cases outcome with
    | prefill => cases decodes
    | @decode batch shuffled inside =>
      refine ⟨List.nodup_iff_count_le_one.mpr fun a => ?_, fun id member => ?_⟩
      · have := inside a
        have := once a
        show batch.count a ≤ 1
        omega
      · have some : 0 < batch.count id := List.count_pos_iff.mpr member
        have := inside id
        rw [← shuffled.decoding] at this
        exact List.count_pos_iff.mp (by omega)
    | preempt => exact ⟨List.nodup_nil, nofun⟩
  · rintro e s' ⟨-, same⟩ id member
    have some : 0 < List.count id (c.state.waiting ++ c.state.decoding) :=
      List.count_pos_iff.mpr member
    have := same id
    have := once id
    rw [List.count_append] at some
    dsimp only at *
    omega

def demoOracle (raises : Bool) : MemoryOracle Unit Unit Unit where
  monotonic _ := 0
  numFreeSlots := pure 0
  reserveDecodeWindows _ _ := pure none
  prefillBatchedTokensMargin := pure 0
  remainingPrefillTokens _ := pure 1
  prefillExecutionMode _ := pure .chunked
  prefillBatchCompatibilityKey _ := pure ()
  resetPrefillExecutionState _ := if raises then raise (.runtimeError "reset") else pure ()
  completePrefillExecution _ := pure ()
  reservedPrefillSlots _ _ := pure 0
  shouldScheduleFullPrefill _ := pure false
  prefillStepFreeSlots := pure 0
  prefillStepFreeSlotsFor _ := pure 0
  prefillPrivateSlotsFor _ := pure 0
  minFinalPrefillChunkSize _ := pure 0
  prefillStepReservationCost _ _ := pure 0
  decodeStepFreeSlots := pure 0
  decodeStepFreeSlotsFor _ := pure 0
  decodeStepReservationCost _ := pure 0
  stepAllocationBudgets _ := pure none
  stepAllocationCosts _ _ := pure .empty
  promptAdmissionFreeSlots := pure 0
  promptAdmissionBudgets _ _ := pure .empty
  promptAdmissionCosts _ := pure .empty
  promptAdmissionSharedCosts _ := pure .empty
  promptLogicalReservationCost _ := pure 0
  promptAdmissionFailureAction := pure "raise"
  onPromptAdmitted _ _ := pure ()
  clearPrefixCacheHit _ := pure ()
  enterCapacitySnapshot := pure ()
  exitCapacitySnapshot := pure ()
  freeSlotStats := pure ()
  debugLiveSeqSlots := pure ()
  prefixCacheHitRefresher _ := pure ()
  prefixCacheHitsRefresher := none
  decodeCapacityReclaimer := none
  prefillCapacityReclaimer := none

def demoConfig : SchedulerConfig where
  maxNumSeqsInBatch := 4
  maxNumBatchedTokens := 8
  maxDecodingSeqs := 4
  enginePrefillChunkSize := 8

def demoStart : Custody Unit :=
  { state := { world := { oracle := (), seqs := fun id => .create id [3] 4 } } }

def demoAdded (raises : Bool) : Custody Unit :=
  [.add 0, .add 1].foldl (fun c op => apply demoConfig (demoOracle raises) op c) demoStart

theorem demoAdded_run (raises : Bool)
    (condition : SchedulerOp Unit → Custody Unit → Prop)
    (holds : ∀ id c, condition (.add id) c) :
    Run demoConfig (demoOracle raises) condition demoStart (demoAdded raises) := by
  have first : Run demoConfig (demoOracle raises) condition demoStart
      (apply demoConfig (demoOracle raises) (.add 0) demoStart) :=
    .single ⟨.add 0, nofun, holds 0 _, rfl⟩
  refine first.tail ⟨.add 1, ?_, holds 1 _, rfl⟩
  show 1 ∉ [0]
  decide

theorem scheduler_conserves_demo :
    (demoAdded false).state.waiting.count 0 + (demoAdded false).state.decoding.count 0 +
      (demoAdded false).batch.count 0 = 1 := by
  have run := demoAdded_run false (Spared (demoOracle false)) fun _ _ => trivial
  exact (scheduler_conserves rfl rfl run).1 0 (by decide +kernel)

/-- The abort of a request behind another one, when its reset raises: the other is in no queue. -/
theorem abortMany_loses_kept :
    ∃ c, Run demoConfig (demoOracle true) (fun _ _ => True) demoStart c ∧
      0 ∈ c.live ∧ c.state.waiting = [] ∧ c.state.decoding = [] ∧ c.batch = [] := by
  refine ⟨apply demoConfig (demoOracle true) (.abortMany [1]) (demoAdded true), ?_, ?_⟩
  · exact (demoAdded_run true _ fun _ _ => trivial).tail ⟨.abortMany [1], trivial, trivial, rfl⟩
  · decide +kernel

end Custody

end SparseEngine
