import SparseEngine.Router.Forwarding

/-! A step changes `local_inflight` by as much as the number of requests still being forwarded,
except where a unit is left behind. -/

namespace SparseEngine.Router

open PyM

variable {ω : Type} [DecidableEq ω]

def leavesUnit : Phase → Step ω → Bool
  | .unstarted, .close _ _ => true
  | .json, .wakeJson _ wake => !wake.requestDone && wake.closed.toOption.isNone
  | _, _ => false

def leakAt (s : RouterState ω) (event : Step ω) : Option ω := do
  let request ← event.request
  let r ← s.requests[request]?
  if leavesUnit r.phase event then some r.worker else none

/-- No step of the run closes a body that never started, and no `close` of an unfinished JSON
request raises. -/
def NoLeak (s : RouterState ω) : List (Step ω) → Prop
  | [] => True
  | event :: events => leakAt s event = none ∧ ∀ s', step s event = some s' → NoLeak s' events

/-- Each counter is the number of requests of the worker still being forwarded, so it is not
negative and is `0` when they have all ended. -/
structure Accounted (s : RouterState ω) : Prop where
  equal : ∀ worker, s.localInflight worker = s.forwarding worker
  nonneg : ∀ worker, 0 ≤ s.localInflight worker
  idle : ∀ worker, (∀ r ∈ s.requests, r.worker = worker → r.phase = .finished) →
    s.localInflight worker = 0

theorem accounted_iff {s : RouterState ω} :
    Accounted s ↔ ∀ worker, s.localInflight worker = s.forwarding worker := by
  refine ⟨Accounted.equal, fun equal => ⟨equal, fun worker => ?_, fun worker ended => ?_⟩⟩
  · rw [equal]
    exact Int.natCast_nonneg _
  · rw [equal, RouterState.forwarding, List.countP_eq_zero.mpr]
    · rfl
    · intro r member busy
      simp only [Request.forwardedTo, decide_eq_true_eq] at busy
      exact busy.2 (ended r member busy.1)

theorem enter_run (inflight : Int) : enter inflight = (.ok (), inflight + 1) := rfl

omit [DecidableEq ω] in
theorem forwardJsonResume_inflight (wake : JsonWake) (request : Nat) (inflight : Int) :
    (forwardJsonResume wake inflight).2 =
      if leavesUnit .json (.wakeJson (ω := ω) request wake) then inflight else inflight - 1 := by
  obtain ⟨result, done, closed⟩ := wake
  cases result <;> cases done <;> cases closed <;> rfl

theorem forwardStreamResume_inflight (wake : OpenWake) (inflight : Int) :
    (forwardStreamResume wake inflight).2 =
      if (forwardStreamResume wake inflight).1.toOption = some true then inflight
      else inflight - 1 := by
  rcases wake with (_ | _) | _ | ⟨_ | _, _ | _⟩ <;> rfl

theorem streamEnd_inflight (result closed : Outcome) (inflight : Int) :
    (streamEnd result closed inflight).2 = inflight - 1 := by
  cases result <;> cases closed <;> rfl

def excess (s : RouterState ω) (worker : ω) : Int := s.localInflight worker - s.forwarding worker

variable {s s' : RouterState ω} {request : Nat} {r : Request ω}

theorem forwarding_begin (s : RouterState ω) (worker other : ω) (phase : Phase)
    (busy : phase ≠ .finished) :
    (beginRequest s worker phase).forwarding other =
      s.forwarding other + if worker = other then 1 else 0 := by
  simp only [RouterState.forwarding, beginRequest, onWorker, List.countP_append,
    List.countP_singleton]
  by_cases same : worker = other <;> simp [Request.forwardedTo, same, busy]

theorem excess_begin (s : RouterState ω) (worker other : ω) (phase : Phase)
    (busy : phase ≠ .finished) : excess (beginRequest s worker phase) other = excess s other := by
  rw [excess, excess, forwarding_begin s worker other phase busy]
  by_cases same : worker = other
  · subst same
    simp only [beginRequest, onWorker, enter_run, Function.update_self, if_true]
    push_cast
    ring
  · simp [beginRequest, onWorker, Function.update_of_ne (Ne.symm same), same]

theorem forwarding_setPhase (found : s.requests[request]? = some r) (busy : r.phase ≠ .finished)
    (phase : Phase) (worker : ω) :
    (setPhase s request r phase).forwarding worker +
        (if r.worker = worker ∧ phase = .finished then 1 else 0) = s.forwarding worker := by
  obtain ⟨bound, rfl⟩ := List.getElem?_eq_some_iff.mp found
  have counted := List.countP_set (p := Request.forwardedTo worker)
    (a := { s.requests[request] with phase := phase }) bound
  have before : s.requests[request].forwardedTo worker = decide (s.requests[request].worker = worker) := by
    simp [Request.forwardedTo, busy]
  rw [RouterState.forwarding, RouterState.forwarding, setPhase]
  dsimp only
  rw [counted, before]
  by_cases mine : s.requests[request].worker = worker
  · have positive : 0 < s.requests.countP (Request.forwardedTo worker) :=
      List.countP_pos_iff.mpr ⟨_, List.getElem_mem bound, by simpa [mine] using before⟩
    by_cases ended : phase = .finished
    · simp only [mine, ended, Request.forwardedTo, ne_eq, not_true_eq_false, and_false,
        decide_true, decide_false, if_true, and_self, Bool.false_eq_true, if_false]
      omega
    · simp only [mine, ended, Request.forwardedTo, ne_eq, not_false_eq_true, and_true, and_false,
        decide_true, if_true, if_false]
      omega
  · simp [mine, Request.forwardedTo]

theorem onWorker_inflight {α : Type} (s : RouterState ω) (m : PyM Int α) (worker other : ω) :
    (onWorker s worker m).2.localInflight other =
      if worker = other then (m (s.localInflight worker)).2 else s.localInflight other := by
  by_cases same : worker = other
  · subst same
    simp [onWorker]
  · simp [onWorker, same, Function.update_of_ne (Ne.symm same)]

theorem excess_move {α : Type} (found : s.requests[request]? = some r) (busy : r.phase ≠ .finished)
    (m : PyM Int α) (kept : Bool)
    (ran : (m (s.localInflight r.worker)).2 =
      if kept then s.localInflight r.worker else s.localInflight r.worker - 1)
    (phase : Phase) (worker : ω) :
    excess (setPhase (onWorker s r.worker m).2 request r phase) worker =
      excess s worker + if r.worker = worker then
        (if kept then 0 else -1) + (if phase = .finished then 1 else 0) else 0 := by
  have same : (onWorker s r.worker m).2.requests[request]? = some r := found
  have moved := forwarding_setPhase same busy phase worker
  have requests : (onWorker s r.worker m).2.forwarding worker = s.forwarding worker := rfl
  have counter : (setPhase (onWorker s r.worker m).2 request r phase).localInflight worker =
      (onWorker s r.worker m).2.localInflight worker := rfl
  rw [requests] at moved
  rw [excess, excess, counter, onWorker_inflight, ran]
  by_cases mine : r.worker = worker
  · subst mine
    by_cases ended : phase = .finished <;> cases kept <;> simp [ended] at moved ⊢ <;> omega
  · simp only [mine, false_and, if_false, add_zero] at moved ⊢
    rw [moved]

theorem excess_stay (found : s.requests[request]? = some r) (busy : r.phase ≠ .finished)
    (phase : Phase) (stays : phase ≠ .finished) (worker : ω) :
    excess (setPhase s request r phase) worker = excess s worker := by
  have moved := forwarding_setPhase found busy phase worker
  simp only [stays, and_false, if_false, add_zero] at moved
  rw [excess, excess, moved]
  rfl

theorem excess_abandon (found : s.requests[request]? = some r) (busy : r.phase ≠ .finished)
    (worker : ω) : excess (setPhase s request r .finished) worker =
      excess s worker + if r.worker = worker then 1 else 0 := by
  have moved := forwarding_setPhase found busy .finished worker
  have counter : (setPhase s request r .finished).localInflight worker = s.localInflight worker := rfl
  rw [excess, excess, counter]
  by_cases mine : r.worker = worker <;> simp [mine] at moved ⊢ <;> omega

theorem excess_resumeOpen (found : s.requests[request]? = some r) (busy : r.phase ≠ .finished)
    (wake : OpenWake) (worker : ω) :
    excess (resumeOpen s request r wake) worker = excess s worker := by
  have ran := forwardStreamResume_inflight wake (s.localInflight r.worker)
  by_cases handoff :
      (forwardStreamResume wake (s.localInflight r.worker)).1.toOption = some true
  · have moved : resumeOpen s request r wake =
        setPhase (onWorker s r.worker (forwardStreamResume wake)).2 request r .unstarted := by
      simp [resumeOpen, onWorker, handoff]
    rw [moved, excess_move found busy _ true (by simpa [handoff] using ran)]
    simp
  · have moved : resumeOpen s request r wake =
        setPhase (onWorker s r.worker (forwardStreamResume wake)).2 request r .finished := by
      simp [resumeOpen, onWorker, handoff]
    rw [moved, excess_move found busy _ false (by simpa [handoff] using ran)]
    simp

theorem excess_endBody (found : s.requests[request]? = some r) (busy : r.phase ≠ .finished)
    (result closed : Outcome) (worker : ω) :
    excess (endBody s request r result closed) worker = excess s worker := by
  rw [endBody, excess_move found busy _ false (streamEnd_inflight result closed _)]
  simp

theorem excess_stepRequest {event : Step ω} (found : s.requests[request]? = some r)
    (stepped : stepRequest s request r r.phase event = some s') (worker : ω) :
    excess s' worker = excess s worker +
      if leavesUnit r.phase event ∧ r.worker = worker then 1 else 0 := by
  have busy : r.phase ≠ .finished := by
    intro ended
    cases event <;> simp [ended, stepRequest] at stepped
  cases phase : r.phase with
  | json =>
    cases event <;> simp only [phase, stepRequest, Option.some.injEq, reduceCtorEq] at stepped
    next request' wake =>
      subst stepped
      rw [excess_move found busy _ _ (forwardJsonResume_inflight (ω := ω) wake request' _)]
      by_cases left : leavesUnit .json (.wakeJson (ω := ω) request' wake) = true <;> simp [left]
  | opening =>
    cases event <;> simp only [phase, stepRequest, Option.some.injEq, reduceCtorEq] at stepped
    subst stepped
    rw [excess_resumeOpen found busy]
    simp [leavesUnit]
  | unstarted =>
    cases event <;> simp only [phase, stepRequest, Option.some.injEq, reduceCtorEq] at stepped
    · subst stepped
      rw [excess_stay found busy .fetching nofun]
      simp [leavesUnit]
    · subst stepped
      rw [excess_abandon found busy]
      simp [leavesUnit]
  | fetching =>
    cases event <;> simp only [phase, stepRequest, reduceCtorEq] at stepped
    next request' wake =>
      cases wake <;> simp only [Option.some.injEq] at stepped <;> subst stepped
      · rw [excess_stay found busy .yielded nofun]
        simp [leavesUnit]
      · rw [excess_endBody found busy]
        simp [leavesUnit]
  | yielded =>
    cases event <;> simp only [phase, stepRequest, Option.some.injEq, reduceCtorEq] at stepped
    · subst stepped
      rw [excess_stay found busy .fetching nofun]
      simp [leavesUnit]
    · subst stepped
      rw [excess_endBody found busy]
      simp [leavesUnit]
  | finished => exact absurd phase busy

theorem excess_step {event : Step ω} (stepped : step s event = some s') (worker : ω) :
    excess s' worker = excess s worker + if leakAt s event = some worker then 1 else 0 := by
  have of_request {request : Nat} (about : event.request = some request)
      (ran : (s.requests[request]?).bind (fun r => stepRequest s request r r.phase event) =
        some s') :
      excess s' worker = excess s worker + if leakAt s event = some worker then 1 else 0 := by
    obtain ⟨r, found, moved⟩ := Option.bind_eq_some_iff.mp ran
    rw [excess_stepRequest found moved]
    by_cases left : leavesUnit r.phase event = true <;> simp [leakAt, about, found, left]
  cases event with
  | beginJson w =>
    obtain rfl := Option.some.inj stepped
    rw [excess_begin s w worker .json nofun]
    simp [leakAt, Step.request]
  | beginStream w =>
    obtain rfl := Option.some.inj stepped
    rw [excess_begin s w worker .opening nofun]
    simp [leakAt, Step.request]
  | wakeJson | wakeOpen | next | wakeBody | close => exact of_request rfl stepped

def leaked (s : RouterState ω) : List (Step ω) → List ω
  | [] => []
  | event :: events => (leakAt s event).toList ++
      match step s event with
      | none => []
      | some s' => leaked s' events

theorem excess_run {events : List (Step ω)} :
    ∀ {s s' : RouterState ω}, run s events = some s' → ∀ worker,
      excess s' worker = excess s worker + (leaked s events).count worker := by
  induction events with
  | nil =>
    rintro s s' ⟨⟩ worker
    simp [leaked]
  | cons event events ih =>
    intro s s' ran worker
    obtain ⟨s₁, stepped, rest⟩ := Option.bind_eq_some_iff.mp ran
    have first := excess_step stepped worker
    have later := ih rest worker
    rw [later, first, leaked, stepped, List.count_append]
    by_cases left : leakAt s event = some worker
    · simp [left]
      ring
    · cases here : leakAt s event with
      | none => simp
      | some other =>
        have differ : other ≠ worker := fun same => left (here.trans (congrArg some same))
        simp [differ]

theorem leaked_eq_nil_iff {events : List (Step ω)} :
    ∀ {s s' : RouterState ω}, run s events = some s' → (leaked s events = [] ↔ NoLeak s events) := by
  induction events with
  | nil => intro s s' _; simp [leaked, NoLeak]
  | cons event events ih =>
    intro s s' ran
    obtain ⟨s₁, stepped, rest⟩ := Option.bind_eq_some_iff.mp ran
    simp [leaked, NoLeak, stepped, ih rest]

/-- After every run of any number of requests over any workers, the counters are exact, not
negative and `0` for idle workers if and only if no step of the run left a unit behind. -/
theorem router_inflight_accounting (events : List (Step ω)) (s : RouterState ω)
    (ran : run .start events = some s) : Accounted s ↔ NoLeak .start events := by
  rw [accounted_iff, ← leaked_eq_nil_iff ran, List.eq_nil_iff_forall_not_mem]
  refine forall_congr' fun worker => ?_
  have excess_eq := excess_run ran worker
  have start : excess (.start : RouterState ω) worker = 0 := by
    simp [excess, RouterState.start, RouterState.forwarding]
  rw [start, zero_add, excess] at excess_eq
  rw [← List.count_eq_zero]
  omega

def demoSteps : List (Step Bool) :=
  [.beginStream true, .beginJson true, .wakeOpen 0 (.opened (.ok ()) (.ok ())), .next 0,
    .wakeBody 0 .chunk, .wakeJson 1 ⟨.ok (), true, .ok ()⟩, .next 0,
    .wakeBody 0 (.ended (.ok ()) (.ok ()))]

theorem router_inflight_accounting_demo :
    ∃ s, run .start demoSteps = some s ∧ (Accounted s ↔ NoLeak .start demoSteps) :=
  ⟨_, rfl, router_inflight_accounting demoSteps _ rfl⟩

def unstartedSteps : List (Step Bool) :=
  [.beginStream true, .wakeOpen 0 (.opened (.ok ()) (.ok ())), .close 0 (.ok ())]

/-- The counter of the worker keeps its unit although every request has ended. -/
theorem router_inflight_leak :
    ∃ s, run .start unstartedSteps = some s ∧ (∀ r ∈ s.requests, r.phase = .finished) ∧
      s.localInflight true = 1 ∧ ¬ Accounted s := by
  have ended : ∀ r ∈ [(⟨true, .finished⟩ : Request Bool)], r.phase = .finished := by simp
  refine ⟨_, rfl, ended, rfl, fun accounted => ?_⟩
  have none_left := accounted.idle true fun r member _ => ended r member
  exact absurd none_left (by decide)

end SparseEngine.Router
