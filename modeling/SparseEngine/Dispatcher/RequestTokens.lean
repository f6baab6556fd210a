import SparseEngine.Lib.Dict

/-! The dispatcher's side of a request's life. -/

namespace SparseEngine.Dispatcher

open List Function Dict

inductive Notice
  | token
  | final
  | error
deriving DecidableEq, Repr

def Notice.isTerminal : Notice → Bool
  | token => false
  | _ => true

/-- `RequestHandle`. -/
structure RequestHandle where
  seqId : Option Nat := none
  cancelled : Bool := false
  terminal : Bool := false
  notices : List Notice := []

structure AbortRequest where
  seqId : Nat
  requestToken : Nat
  force : Bool

structure DispatcherState where
  handles : Nat → RequestHandle := fun _ => {}
  submitted : List Nat := []
  pending : List Nat := []
  aborts : List AbortRequest := []
  /-- The request token of the active request of a sequence. -/
  active : Dict Nat Nat := .empty
  latestRequestTokens : Dict Nat Nat := .empty
  closing : Bool := false
  failed : Bool := false
  ended : Bool := false
  /-- The sequences that `engine.abort_request` was called for. -/
  engineAborts : List Nat := []

namespace DispatcherState

variable (token seqId : Nat) (s : DispatcherState)

def updateHandle (f : RequestHandle → RequestHandle) : DispatcherState :=
  { s with handles := Function.update s.handles token (f (s.handles token)) }

def put (notice : Notice) : DispatcherState :=
  s.updateHandle token fun h => { h with notices := h.notices ++ [notice] }

/-- `terminal.set()`. -/
def setTerminal : DispatcherState := s.updateHandle token fun h => { h with terminal := true }

/-- `_latest_request_tokens` without the sequence. -/
def forgetLatest : DispatcherState :=
  if s.latestRequestTokens.get? seqId = some token then
    { s with latestRequestTokens := s.latestRequestTokens.erase seqId }
  else s

def markRequestTerminal : DispatcherState := (s.setTerminal token).forgetLatest token seqId

/-- `active.pop(seq_id, None)`. -/
def popActive : DispatcherState := { s with active := s.active.erase seqId }

def abortRequest : DispatcherState := { s with engineAborts := s.engineAborts ++ [seqId] }

/-- An exception leaves the loop of the dispatcher. -/
def fail : DispatcherState := { s with failed := true }

/-- `_put`, which raises when the event loop of the client is closed. -/
def putOrFail (closed : Bool) (notice : Notice) : DispatcherState :=
  if closed then s.fail else s.put token notice

/-- `if ...: put(notice)`. -/
def putIf (sent : Bool) (notice : Notice) : DispatcherState :=
  if sent then s.put token notice else s

end DispatcherState

inductive Admission
  /-- An error before the request is active. -/
  | setupRaises (seqId : Option Nat)
  /-- The client cancels before the engine has answered. -/
  | cancelled (seqId : Nat) (abortRaises : Bool)
  | admitted (seqId : Nat)

/-- How `_publish_token_deltas` goes for one request. -/
inductive DeltaOutcome
  | tokens (sent : Bool)
  /-- An error while the request is active. -/
  | raises (aborted sent : Bool)
  /-- A stop string. -/
  | stops (sent putRaises : Bool)

/-- How `_publish_finished` goes for one request. -/
inductive FinishOutcome
  | finishes (aborted sent putRaises : Bool)
  /-- An error in `detokenizer.finish`. -/
  | raisesActive
  /-- An error after the request was taken from the active ones. -/
  | raisesPopped (aborted sent : Bool)

inductive DispatcherOp
  | submit (token : Nat)
  | cancel (token : Nat)
  | discard (token : Nat)
  | close
  /-- Whether the retry of the abort in the handler raises, and the client's event loop is closed. -/
  | admitNext (admission : Admission) (retryRaises closed : Bool)
  /-- The next abort; whether the engine raises. -/
  | drainAbort (engineRaises : Bool)
  | publishDelta (seqId : Nat) (outcome : DeltaOutcome)
  | publishFinished (seqId : Nat) (outcome : FinishOutcome)
  /-- An error anywhere else in the loop. -/
  | loopRaises
  /-- The `finally` of the loop, with the requests whose client's event loop is closed. -/
  | conclude (closed : List Nat)

namespace DispatcherState

/-- `submit`. -/
def submit (token : Nat) (s : DispatcherState) : DispatcherState :=
  let s := { s with submitted := token :: s.submitted }
  if s.failed || s.closing || s.ended then (s.setTerminal token).put token .error
  else { s with pending := s.pending ++ [token] }

def cancel (token : Nat) (s : DispatcherState) : DispatcherState :=
  if (s.handles token).terminal then s
  else
    let s := s.updateHandle token fun h => { h with cancelled := true }
    match (s.handles token).seqId with
    | none => s
    | some seqId => { s with aborts := s.aborts ++ [⟨seqId, token, false⟩] }

def discard (token : Nat) (s : DispatcherState) : DispatcherState :=
  let s := s.updateHandle token fun h => { h with cancelled := true }
  match (s.handles token).seqId with
  | none => s
  | some seqId =>
    if s.failed || s.closing || s.ended then s
    else { s with aborts := s.aborts ++ [⟨seqId, token, true⟩] }

/-- `item.handle.seq_id = seq_id`. -/
def assign (token seqId : Nat) (s : DispatcherState) : DispatcherState :=
  s.updateHandle token fun h => { h with seqId := some seqId }

/-- The handler of `_admit`. -/
def failAdmission (token : Nat) (retryRaises closed : Bool) (s : DispatcherState) :
    DispatcherState :=
  match (s.handles token).seqId with
  | none => (s.setTerminal token).putOrFail token closed .error
  | some seqId =>
    let s := s.abortRequest seqId
    -- the call in `except TypeError` is guarded by no other handler
    if retryRaises then s.fail
    else ((s.setTerminal token).forgetLatest token seqId).putOrFail token closed .error

/-- `_admit`. -/
def admitRequest (token : Nat) (admission : Admission) (retryRaises closed : Bool)
    (s : DispatcherState) : DispatcherState :=
  if (s.handles token).cancelled then
    if closed then (s.setTerminal token).fail else s.setTerminal token
  else if s.closing || s.failed then (s.setTerminal token).putOrFail token closed .error
  else
    match admission with
    | .setupRaises none => s.failAdmission token retryRaises closed
    | .setupRaises (some seqId) => (s.assign token seqId).failAdmission token retryRaises closed
    | .cancelled seqId abortRaises =>
      let s := (s.assign token seqId).updateHandle token fun h => { h with cancelled := true }
      let s := s.abortRequest seqId
      if abortRaises then s.failAdmission token retryRaises closed
      else if closed then (s.setTerminal token).failAdmission token retryRaises closed
      else s.setTerminal token
    | .admitted seqId =>
      let s := s.assign token seqId
      let s :=
        { s with
          active := s.active.set seqId token
          latestRequestTokens := s.latestRequestTokens.set seqId token }
      if closed then s.failAdmission token retryRaises closed else s

/-- One round of `_drain_aborts`. -/
def drainAbort (abort : AbortRequest) (engineRaises : Bool) (s : DispatcherState) :
    DispatcherState :=
  let latest := s.latestRequestTokens.get? abort.seqId
  if (s.handles abort.requestToken).terminal && !abort.force then s
  else if latest.any (· ≠ abort.requestToken) then s.setTerminal abort.requestToken
  else
    match s.active.get? abort.seqId with
    | some requestToken =>
      if abort.requestToken ≠ requestToken then s.setTerminal abort.requestToken
      else
        let s := s.abortRequest abort.seqId
        if engineRaises then s.fail
        else (s.popActive abort.seqId).markRequestTerminal requestToken abort.seqId
    | none =>
      -- a forced abort only discards the chain, and answers with the error if that raises
      if abort.force then s
      else
        let s := s.abortRequest abort.seqId
        if engineRaises then s.fail
        else (s.forgetLatest abort.requestToken abort.seqId).setTerminal abort.requestToken

/-- `_publish_token_deltas`. -/
def publishDelta (seqId : Nat) (outcome : DeltaOutcome) (s : DispatcherState) : DispatcherState :=
  match s.active.get? seqId with
  | none => s
  | some token =>
    match outcome with
    | .tokens sent => s.putIf token sent .token
    | .raises aborted sent =>
      ((if aborted then s.abortRequest seqId else s).putIf token sent .token).fail
    | .stops sent putRaises =>
      let s := (((s.abortRequest seqId).putIf token sent .token).popActive seqId)
        |>.markRequestTerminal token seqId
      if putRaises then s.fail else s.put token .final

/-- `_publish_finished`. -/
def publishFinished (seqId : Nat) (outcome : FinishOutcome) (s : DispatcherState) :
    DispatcherState :=
  match s.active.get? seqId with
  | none => s
  | some token =>
    match outcome with
    | .raisesActive => s.fail
    | .raisesPopped aborted sent =>
      let s := s.popActive seqId
      ((if aborted then s.abortRequest seqId else s).putIf token sent .token).fail
    | .finishes aborted sent putRaises =>
      let s := s.popActive seqId
      let s := ((if aborted then s.abortRequest seqId else s).putIf token sent .token)
        |>.markRequestTerminal token seqId
      if putRaises then s.fail else s.put token .final

/-- `_fail_active_requests`. -/
def failActiveRequests (closed : List Nat) : List (Nat × Nat) → DispatcherState → DispatcherState
  | [], s => s
  | (seqId, token) :: rest, s =>
    failActiveRequests closed rest
      ((((s.popActive seqId).markRequestTerminal token seqId).putIf token
        (decide (token ∉ closed)) .error).abortRequest seqId)

/-- The first loop of `_drain_queued_requests`. -/
def drainQueuedRequests (closed : List Nat) : List Nat → DispatcherState → DispatcherState
  | [], s => s
  | token :: rest, s =>
    let s := { s with pending := rest }
    drainQueuedRequests closed rest
      -- the admission is resolved first, and what that raises is only logged
      (if token ∈ closed then s else (s.setTerminal token).put token .error)

def failPendingAborts (closed : List Nat) : List AbortRequest → DispatcherState → DispatcherState
  | [], s => s
  | abort :: rest, s =>
    let s := { s with aborts := rest }.setTerminal abort.requestToken
    if abort.force && decide (abort.requestToken ∈ closed) then s else failPendingAborts closed rest s

/-- The `finally` of `_run`. -/
def conclude (closed : List Nat) (s : DispatcherState) : DispatcherState :=
  let s := s.failActiveRequests closed s.active.entries
  let s := s.drainQueuedRequests closed s.pending
  { s.failPendingAborts closed s.aborts with ended := true }

def apply (op : DispatcherOp) (s : DispatcherState) : DispatcherState :=
  match op with
  | .submit token => s.submit token
  | .cancel token => s.cancel token
  | .discard token => s.discard token
  | .close => { s with closing := true }
  | .admitNext admission retryRaises closed =>
    match s.pending with
    | [] => s
    | token :: rest =>
      { s with pending := rest }.admitRequest token admission retryRaises closed
  | .drainAbort engineRaises =>
    match s.aborts with
    | [] => s
    | abort :: rest => { s with aborts := rest }.drainAbort abort engineRaises
  | .publishDelta seqId outcome => s.publishDelta seqId outcome
  | .publishFinished seqId outcome => s.publishFinished seqId outcome
  | .loopRaises => s.fail
  | .conclude closed => s.conclude closed

/-- Which operations can come next. -/
def Allowed (op : DispatcherOp) (s : DispatcherState) : Prop :=
  match op with
  | .submit token => token ∉ s.submitted
  | .cancel token | .discard token => token ∈ s.submitted
  | .close => True
  | .admitNext (.admitted seqId) _ _ =>
    s.failed = false ∧ s.ended = false ∧ s.active.get? seqId = none
  | .admitNext .. | .drainAbort _ | .publishDelta .. | .publishFinished .. | .loopRaises =>
    s.failed = false ∧ s.ended = false
  | .conclude _ => (s.failed = true ∨ s.closing = true) ∧ s.ended = false

/-- No event loop of a client is closed before its request has ended, the retry of an abort does not
raise, and nothing raises between `active.pop` and `_mark_request_terminal`. -/
def Reliable : DispatcherOp → Prop
  | .admitNext _ retryRaises closed => retryRaises = false ∧ closed = false
  | .publishDelta _ (.stops _ putRaises) => putRaises = false
  | .publishFinished _ (.finishes _ _ putRaises) => putRaises = false
  | .publishFinished _ (.raisesPopped _ _) => False
  | .conclude closed => closed = []
  | _ => True

def Run (condition : DispatcherOp → Prop) : DispatcherState → DispatcherState → Prop :=
  Relation.ReflTransGen fun s s' => ∃ op, s.Allowed op ∧ condition op ∧ s' = s.apply op

end DispatcherState

open DispatcherState (setTerminal updateHandle forgetLatest assign popActive markRequestTerminal)

def TokensOnly (notices : List Notice) : Prop := ∀ notice ∈ notices, notice.isTerminal = false

def Ended (notices : List Notice) : Prop :=
  ∃ before last, notices = before ++ [last] ∧ TokensOnly before ∧ last.isTerminal = true

/-- No terminal notice before the end of a request, exactly one at its end unless the client
cancelled, never two, and nothing after it. -/
structure Told (h : RequestHandle) : Prop where
  running : h.terminal = false → TokensOnly h.notices
  once : TokensOnly h.notices ∨ Ended h.notices
  ended : h.terminal = true → h.cancelled = false → Ended h.notices

variable {s s' : DispatcherState} {token seqId : Nat} {h : RequestHandle}

variable {notices : List Notice}

theorem TokensOnly.put (tokens : TokensOnly notices) : TokensOnly (notices ++ [.token]) := by
  intro notice member
  obtain old | new := mem_append.mp member
  · exact tokens notice old
  · rw [mem_singleton.mp new]
    rfl

theorem TokensOnly.ended (tokens : TokensOnly notices) {last : Notice}
    (terminal : last.isTerminal = true) : Ended (notices ++ [last]) :=
  ⟨notices, last, rfl, tokens, terminal⟩

/-- Every submitted request is pending, active or told how it ended. -/
structure Kept (s : DispatcherState) : Prop where
  told : ∀ token, Told (s.handles token)
  fresh : ∀ token, token ∉ s.submitted → s.handles token = {}
  latest : ∀ seqId, s.latestRequestTokens.get? seqId = s.active.get? seqId
  pending : ∀ token ∈ s.pending, token ∈ s.submitted ∧ (s.handles token).seqId = none ∧
    (s.handles token).terminal = false ∧ (s.handles token).notices = []
  nodup : s.pending.Nodup
  active : ∀ seqId token, s.active.get? seqId = some token → token ∈ s.submitted ∧
    (s.handles token).seqId = some seqId ∧ (s.handles token).terminal = false
  placed : ∀ token ∈ s.submitted, token ∈ s.pending ∨
    (∃ seqId, s.active.get? seqId = some token) ∨ (s.handles token).terminal = true
  aborts : ∀ abort ∈ s.aborts, abort.requestToken ∈ s.submitted ∧
    (s.handles abort.requestToken).seqId = some abort.seqId ∧
    (s.handles abort.requestToken).cancelled = true
  concluded : s.ended = true →
    s.pending = [] ∧ (∀ seqId, s.active.get? seqId = none) ∧ (s.failed = true ∨ s.closing = true)

theorem updateHandle_self {f : RequestHandle → RequestHandle} :
    (s.updateHandle token f).handles token = f (s.handles token) := update_self _ _ _

theorem Kept.update (k : Kept s) (token : Nat) {f : RequestHandle → RequestHandle}
    (known : token ∈ s.submitted) (told : Told (f (s.handles token)))
    (seqId : (f (s.handles token)).seqId = (s.handles token).seqId)
    (terminal : (f (s.handles token)).terminal = (s.handles token).terminal)
    (cancelled : (s.handles token).cancelled = true → (f (s.handles token)).cancelled = true)
    (quiet : token ∈ s.pending → (f (s.handles token)).notices = (s.handles token).notices) :
    Kept (s.updateHandle token f) := by
  have self : (s.updateHandle token f).handles token = f (s.handles token) := updateHandle_self
  have others : ∀ t ≠ token, (s.updateHandle token f).handles t = s.handles t :=
    fun t differ => update_of_ne differ _ _
  refine ⟨fun t => ?_, fun t unknown => ?_, k.latest, fun t member => ?_, k.nodup,
    fun seq t here => ?_, fun t member => ?_, fun abort member => ?_, k.concluded⟩
  · by_cases same : t = token
    · subst same
      rw [self]
      exact told
    · rw [others t same]
      exact k.told t
  · rw [others t fun same => unknown (same ▸ known)]
    exact k.fresh t unknown
  · obtain ⟨submitted, none, running, notices⟩ := k.pending t member
    by_cases same : t = token
    · subst same
      rw [self, seqId, terminal, quiet member]
      exact ⟨submitted, none, running, notices⟩
    · rw [others t same]
      exact ⟨submitted, none, running, notices⟩
  · obtain ⟨submitted, assigned, running⟩ := k.active seq t here
    by_cases same : t = token
    · subst same
      rw [self, seqId, terminal]
      exact ⟨submitted, assigned, running⟩
    · rw [others t same]
      exact ⟨submitted, assigned, running⟩
  · by_cases same : t = token
    · subst same
      rw [self, terminal]
      exact k.placed t member
    · rw [others t same]
      exact k.placed t member
  · obtain ⟨submitted, assigned, gone⟩ := k.aborts abort member
    by_cases same : abort.requestToken = token
    · rw [same, self, seqId]
      rw [same] at assigned gone submitted
      exact ⟨submitted, assigned, cancelled gone⟩
    · rw [others _ same]
      exact ⟨submitted, assigned, gone⟩

theorem Kept.abortRequest (k : Kept s) (seqId : Nat) : Kept (s.abortRequest seqId) :=
  { k with }

theorem Kept.fail (k : Kept s) : Kept s.fail :=
  { k with concluded := fun ended => ⟨(k.concluded ended).1, (k.concluded ended).2.1, .inl rfl⟩ }

theorem Kept.not_pending (k : Kept s) (here : s.active.get? seqId = some token) :
    token ∉ s.pending := by
  intro member
  obtain ⟨-, none, -⟩ := k.pending token member
  obtain ⟨-, some, -⟩ := k.active seqId token here
  exact nomatch none.symm.trans some

theorem Kept.terminal_of_idle (k : Kept s) {seq : Nat} (known : token ∈ s.submitted)
    (assigned : (s.handles token).seqId = some seq) (idle : s.active.get? seq ≠ some token) :
    (s.handles token).terminal = true := by
  obtain queued | ⟨seq', here⟩ | ended := k.placed token known
  · exact nomatch (k.pending token queued).2.1.symm.trans assigned
  · obtain ⟨-, assigned', -⟩ := k.active seq' token here
    obtain rfl := Option.some.inj (assigned'.symm.trans assigned)
    exact (idle here).elim
  · exact ended

theorem setTerminal_eq_self (ended : (s.handles token).terminal = true) :
    s.setTerminal token = s := by
  have same : { s.handles token with terminal := true } = s.handles token := by
    cases held : s.handles token with
    | mk seqId cancelled terminal notices =>
      rw [held] at ended
      obtain rfl : terminal = true := ended
      rfl
  rw [setTerminal, updateHandle, same, update_eq_self]

theorem forgetLatest_eq_self (unnamed : s.latestRequestTokens.get? seqId ≠ some token) :
    s.forgetLatest token seqId = s := if_neg unnamed

theorem Kept.putToken (k : Kept s) (here : s.active.get? seqId = some token) (sent : Bool) :
    Kept (s.putIf token sent .token) := by
  cases sent with
  | false => exact k
  | true =>
    obtain ⟨known, -, running⟩ := k.active seqId token here
    have told := k.told token
    refine k.update token (f := fun h => { h with notices := h.notices ++ [.token] }) known
      ⟨fun _ => (told.running running).put, .inl (told.running running).put, fun ended => ?_⟩
      rfl rfl (fun gone => gone) fun queued => (k.not_pending here queued).elim
    exact nomatch running.symm.trans ended

theorem Kept.move (k : Kept s) (known : token ∈ s.submitted) (going : s.ended = false)
    (handle : s'.handles = Function.update s.handles token h) (told : Told h)
    (latest : ∀ seq, s'.latestRequestTokens.get? seq = s'.active.get? seq)
    (pending : ∀ t ∈ s'.pending, t ∈ s.pending ∧ t ≠ token) (nodup : s'.pending.Nodup)
    (active : ∀ seq t, s'.active.get? seq = some t →
      (t ≠ token ∧ s.active.get? seq = some t) ∨
        (t = token ∧ h.seqId = some seq ∧ h.terminal = false))
    (placed : (∃ seq, s'.active.get? seq = some token) ∨ h.terminal = true)
    (others : ∀ t ≠ token, (t ∈ s.pending → t ∈ s'.pending) ∧
      ∀ seq, s.active.get? seq = some t → s'.active.get? seq = some t)
    (named : ∀ abort ∈ s.aborts, abort.requestToken = token →
      h.seqId = (s.handles token).seqId ∧ ((s.handles token).cancelled = true → h.cancelled = true))
    (submitted : s'.submitted = s.submitted) (aborts : s'.aborts = s.aborts)
    (ended : s'.ended = s.ended) : Kept s' := by
  have self : s'.handles token = h := by rw [handle, update_self]
  have kept : ∀ t ≠ token, s'.handles t = s.handles t := fun t differ => by
    rw [handle, update_of_ne differ]
  refine ⟨fun t => ?_, fun t unknown => ?_, latest, fun t member => ?_, nodup,
    fun seq t here => ?_, fun t member => ?_, fun abort member => ?_, fun ended' => ?_⟩
  · by_cases same : t = token
    · rw [same, self]
      exact told
    · rw [kept t same]
      exact k.told t
  · rw [submitted] at unknown
    rw [kept t fun same => unknown (same ▸ known)]
    exact k.fresh t unknown
  · obtain ⟨queued, differ⟩ := pending t member
    rw [submitted, kept t differ]
    exact k.pending t queued
  · rw [submitted]
    obtain ⟨differ, old⟩ | ⟨rfl, assigned, running⟩ := active seq t here
    · rw [kept t differ]
      exact k.active seq t old
    · rw [self]
      exact ⟨known, assigned, running⟩
  · rw [submitted] at member
    by_cases same : t = token
    · rw [same, self]
      exact .inr placed
    · obtain ⟨queue, still⟩ := others t same
      rw [kept t same]
      exact (k.placed t member).imp queue (Or.imp_left fun ⟨seq, old⟩ => ⟨seq, still seq old⟩)
  · rw [aborts] at member
    obtain ⟨known', assigned, gone⟩ := k.aborts abort member
    rw [submitted]
    by_cases same : abort.requestToken = token
    · obtain ⟨seqId, cancelled⟩ := named abort member same
      rw [same] at assigned gone ⊢
      rw [self]
      exact ⟨known, seqId.trans assigned, cancelled gone⟩
    · rw [kept _ same]
      exact ⟨known', assigned, gone⟩
  · rw [ended, going] at ended'
    exact nomatch ended'

theorem Kept.finish (k : Kept s) (here : s.active.get? seqId = some token)
    (handle : s'.handles = Function.update s.handles token h) (terminal : h.terminal = true)
    (told : Told h) (assigned : h.seqId = (s.handles token).seqId)
    (cancelled : (s.handles token).cancelled = true → h.cancelled = true)
    (active : s'.active = s.active.erase seqId)
    (latest : s'.latestRequestTokens = s.latestRequestTokens.erase seqId)
    (submitted : s'.submitted = s.submitted) (pending : s'.pending = s.pending)
    (aborts : s'.aborts = s.aborts) (ended : s'.ended = s.ended) : Kept s' := by
  obtain ⟨known, first, -⟩ := k.active seqId token here
  have going : s.ended = false := by
    by_contra ended'
    have inactive := (k.concluded (by simpa using ended')).2.1 seqId
    exact nomatch inactive.symm.trans here
  refine k.move known going handle told (fun seq => ?_) (fun t member => ?_) (pending ▸ k.nodup)
    (fun seq t here' => ?_) (.inr terminal) (fun t differ => ⟨fun queued => ?_, fun seq here' => ?_⟩)
    (fun _ _ _ => ⟨assigned, cancelled⟩) submitted aborts ended
  · rw [latest, active, get?_erase, get?_erase, k.latest]
  · rw [pending] at member
    exact ⟨member, fun same => k.not_pending here (same ▸ member)⟩
  · rw [active, get?_erase] at here'
    split at here'
    · exact nomatch here'
    · next differ =>
      refine .inl ⟨fun same => ?_, here'⟩
      obtain ⟨-, second, -⟩ := k.active seq t here'
      rw [same] at second
      exact differ (Option.some.inj (second.symm.trans first))
  · rw [pending]
    exact queued
  · rw [active, get?_erase_ne]
    · exact here'
    · rintro rfl
      exact differ (Option.some.inj (here'.symm.trans here))

variable {rest : List Nat}

theorem Kept.head (k : Kept s) (queue : s.pending = token :: rest) :
    token ∈ s.submitted ∧ s.ended = false ∧ rest.Nodup ∧
      (∀ t ∈ rest, t ∈ s.pending ∧ t ≠ token) ∧
      (∀ seq t, s.active.get? seq = some t → t ≠ token) ∧
      (∀ t ≠ token, t ∈ s.pending → t ∈ rest) ∧
      ∀ abort ∈ s.aborts, abort.requestToken ≠ token := by
  have queued : token ∈ s.pending := queue ▸ mem_cons_self
  obtain ⟨known, unassigned, -⟩ := k.pending token queued
  have nodup : (token :: rest).Nodup := queue ▸ k.nodup
  refine ⟨known, ?_, (nodup_cons.mp nodup).2, fun t member => ⟨?_, ?_⟩, ?_, ?_, ?_⟩
  · by_contra ended
    exact nomatch (k.concluded (by simpa using ended)).1.symm.trans queue
  · exact queue ▸ mem_cons_of_mem _ member
  · rintro rfl
    exact (nodup_cons.mp nodup).1 member
  · rintro seq t here rfl
    exact k.not_pending here queued
  · intro t differ member
    rw [queue] at member
    exact (mem_cons.mp member).resolve_left differ
  · intro abort member same
    obtain ⟨-, assigned, -⟩ := k.aborts abort member
    rw [same] at assigned
    exact nomatch unassigned.symm.trans assigned

theorem Kept.dequeue (k : Kept s) (queue : s.pending = token :: rest)
    (handle : s'.handles = Function.update s.handles token h) (terminal : h.terminal = true)
    (told : Told h) (active : s'.active = s.active)
    (latest : s'.latestRequestTokens = s.latestRequestTokens)
    (submitted : s'.submitted = s.submitted) (pending : s'.pending = rest)
    (aborts : s'.aborts = s.aborts) (ended : s'.ended = s.ended) : Kept s' := by
  obtain ⟨known, going, nodup, behind, inactive, others, unnamed⟩ := k.head queue
  refine k.move known going handle told (fun seq => ?_) (pending ▸ behind) (pending ▸ nodup)
    (fun seq t here => ?_) (.inr terminal) (fun t differ => ⟨?_, fun seq here => ?_⟩)
    (fun abort member same => (unnamed abort member same).elim) submitted aborts ended
  · rw [latest, active, k.latest]
  · rw [active] at here
    exact .inl ⟨inactive seq t here, here⟩
  · rw [pending]
    exact others t differ
  · rw [active]
    exact here

theorem Kept.admit (k : Kept s) (queue : s.pending = token :: rest)
    (free : s.active.get? seqId = none) (handle : s'.handles = Function.update s.handles token
      { s.handles token with seqId := some seqId }) (active : s'.active = s.active.set seqId token)
    (latest : s'.latestRequestTokens = s.latestRequestTokens.set seqId token)
    (submitted : s'.submitted = s.submitted) (pending : s'.pending = rest)
    (aborts : s'.aborts = s.aborts) (ended : s'.ended = s.ended) : Kept s' := by
  obtain ⟨known, going, nodup, behind, inactive, others, unnamed⟩ := k.head queue
  obtain ⟨-, -, running, -⟩ := k.pending token (queue ▸ mem_cons_self)
  have told := k.told token
  refine k.move known going handle ⟨told.running, told.once, told.ended⟩ (fun seq => ?_)
    (pending ▸ behind) (pending ▸ nodup) (fun seq t here => ?_)
    (.inl ⟨seqId, by rw [active, Dict.get?_set_self]⟩)
    (fun t differ => ⟨?_, fun seq here => ?_⟩)
    (fun abort member same => (unnamed abort member same).elim) submitted aborts ended
  · rw [latest, active, get?_set, get?_set, k.latest]
  · by_cases same : seq = seqId
    · subst same
      rw [active, Dict.get?_set_self] at here
      exact .inr ⟨(Option.some.inj here).symm, rfl, running⟩
    · rw [active, Dict.get?_set_ne _ _ same] at here
      exact .inl ⟨inactive seq t here, here⟩
  · rw [pending]
    exact others t differ
  · rw [active, Dict.get?_set_ne]
    · exact here
    · rintro rfl
      exact nomatch free.symm.trans here

theorem Told.answered (tokens : TokensOnly notices) {last : Notice}
    (terminal : last.isTerminal = true) (seqId : Option Nat) (cancelled : Bool) :
    Told ⟨seqId, cancelled, true, notices ++ [last]⟩ :=
  ⟨nofun, .inr (tokens.ended terminal), fun _ _ => tokens.ended terminal⟩

theorem Told.unanswered (tokens : TokensOnly notices) (seqId : Option Nat) :
    Told ⟨seqId, true, true, notices⟩ :=
  ⟨nofun, .inl tokens, nofun⟩

variable {abort : AbortRequest}

theorem Kept.addAbort (k : Kept s) (known : abort.requestToken ∈ s.submitted)
    (assigned : (s.handles abort.requestToken).seqId = some abort.seqId)
    (cancelled : (s.handles abort.requestToken).cancelled = true) :
    Kept { s with aborts := s.aborts ++ [abort] } := by
  refine { k with aborts := fun other member => ?_ }
  obtain old | new := mem_append.mp member
  · exact k.aborts other old
  · rw [mem_singleton.mp new]
    exact ⟨known, assigned, cancelled⟩

theorem Kept.dropAbort (k : Kept s) {rest : List AbortRequest} (queue : s.aborts = abort :: rest) :
    Kept { s with aborts := rest } :=
  { k with aborts := fun other member => k.aborts other (queue ▸ mem_cons_of_mem _ member) }

theorem Kept.submit (k : Kept s) (fresh : token ∉ s.submitted) : Kept (s.submit token) := by
  have empty := k.fresh token fresh
  have unqueued : token ∉ s.pending := fun queued => fresh (k.pending token queued).1
  have inactive : ∀ seq t, s.active.get? seq = some t → t ≠ token := by
    rintro seq t here rfl
    exact fresh (k.active seq t here).1
  have unnamed : ∀ abort ∈ s.aborts, abort.requestToken ≠ token := by
    rintro abort member rfl
    exact fresh (k.aborts abort member).1
  rw [DispatcherState.submit]
  dsimp only
  split
  · have handles : ∀ t, (({ s with submitted := token :: s.submitted }.setTerminal token).put token
        .error).handles t = if t = token then ⟨none, false, true, [.error]⟩ else s.handles t := by
      intro t
      simp only [DispatcherState.put, setTerminal, updateHandle, update_idem, update_self, empty,
        update_apply]
      rfl
    refine ⟨fun t => ?_, fun t unknown => ?_, k.latest, fun t member => ?_, k.nodup,
      fun seq t here => ?_, fun t member => ?_, fun abort member => ?_, k.concluded⟩
    · rw [handles]
      split
      · exact Told.answered (show TokensOnly [] from nofun) rfl none false
      · exact k.told t
    · have unknown : t ∉ token :: s.submitted := unknown
      rw [mem_cons, not_or] at unknown
      rw [handles, if_neg unknown.1]
      exact k.fresh t unknown.2
    · obtain ⟨known, rest⟩ := k.pending t member
      rw [handles, if_neg (show t ≠ token from fun same => unqueued (same ▸ member))]
      exact ⟨mem_cons_of_mem _ known, rest⟩
    · obtain ⟨known, rest⟩ := k.active seq t here
      rw [handles, if_neg (inactive seq t here)]
      exact ⟨mem_cons_of_mem _ known, rest⟩
    · rw [handles]
      split
      · exact .inr (.inr rfl)
      · next differ => exact k.placed t ((mem_cons.mp member).resolve_left differ)
    · obtain ⟨known, rest⟩ := k.aborts abort member
      rw [handles, if_neg (unnamed abort member)]
      exact ⟨mem_cons_of_mem _ known, rest⟩
  · next open' =>
    refine ⟨k.told, fun t unknown => ?_, k.latest, fun t member => ?_, ?_, fun seq t here => ?_,
      fun t member => ?_, fun abort member => ?_, fun ended => ?_⟩
    · exact k.fresh t fun known => unknown (mem_cons_of_mem _ known)
    · obtain old | new := mem_append.mp member
      · obtain ⟨known, rest⟩ := k.pending t old
        exact ⟨mem_cons_of_mem _ known, rest⟩
      · rw [mem_singleton.mp new]
        dsimp only
        rw [empty]
        exact ⟨mem_cons_self, rfl, rfl, rfl⟩
    · exact nodup_append.mpr ⟨k.nodup, nodup_singleton _, fun t member t' member' same => by
        rw [mem_singleton.mp member'] at same
        exact unqueued (same ▸ member)⟩
    · obtain ⟨known, rest⟩ := k.active seq t here
      exact ⟨mem_cons_of_mem _ known, rest⟩
    · obtain rfl | known := mem_cons.mp member
      · exact .inl (mem_append_right _ (mem_singleton_self _))
      · exact (k.placed t known).imp (mem_append_left _) id
    · obtain ⟨known, rest⟩ := k.aborts abort member
      exact ⟨mem_cons_of_mem _ known, rest⟩
    · -- a dispatcher that ended queues nothing
      have ended : s.ended = true := ended
      rw [ended] at open'
      exact (open' (Bool.or_true _)).elim

theorem Kept.cancelHandle (k : Kept s) (known : token ∈ s.submitted) :
    Kept (s.updateHandle token fun h => { h with cancelled := true }) :=
  k.update token (f := fun h => { h with cancelled := true }) known
    ⟨(k.told token).running, (k.told token).once, nofun⟩ rfl rfl (fun _ => rfl) fun _ => rfl

theorem Kept.cancel (k : Kept s) (known : token ∈ s.submitted) : Kept (s.cancel token) := by
  rw [DispatcherState.cancel]
  split
  · exact k
  · dsimp only
    split
    · exact k.cancelHandle known
    · next seq assigned =>
      refine (k.cancelHandle known).addAbort known assigned ?_
      exact congrArg RequestHandle.cancelled updateHandle_self

theorem Kept.discard (k : Kept s) (known : token ∈ s.submitted) : Kept (s.discard token) := by
  rw [DispatcherState.discard]
  split
  · exact k.cancelHandle known
  · next seq assigned =>
    split
    · exact k.cancelHandle known
    · refine (k.cancelHandle known).addAbort known assigned ?_
      exact congrArg RequestHandle.cancelled updateHandle_self

theorem markRequestTerminal_eq (k : Kept s) (here : s.active.get? seqId = some token)
    (s' : DispatcherState) (latest : s'.latestRequestTokens = s.latestRequestTokens) :
    s'.markRequestTerminal token seqId =
      { s'.setTerminal token with
        latestRequestTokens := s'.latestRequestTokens.erase seqId } := by
  have named : (s'.setTerminal token).latestRequestTokens.get? seqId = some token := by
    rw [show (s'.setTerminal token).latestRequestTokens = s'.latestRequestTokens from rfl, latest,
      k.latest, here]
  rw [markRequestTerminal, forgetLatest, if_pos named]
  rfl

theorem Kept.endActive (k : Kept s) (here : s.active.get? seqId = some token) (last : Notice)
    (terminal : last.isTerminal = true) :
    Kept (((s.popActive seqId).markRequestTerminal token seqId).put token last) := by
  obtain ⟨-, -, running⟩ := k.active seqId token here
  rw [markRequestTerminal_eq k here (s.popActive seqId) rfl]
  refine k.finish (h := ⟨(s.handles token).seqId, (s.handles token).cancelled, true,
    (s.handles token).notices ++ [last]⟩) here ?_ rfl
    (Told.answered ((k.told token).running running) terminal _ _) rfl (fun gone => gone)
    rfl rfl rfl rfl rfl rfl
  simp only [DispatcherState.put, setTerminal, updateHandle, popActive, update_idem, update_self]

theorem Kept.endCancelled (k : Kept s) (here : s.active.get? seqId = some token)
    (cancelled : (s.handles token).cancelled = true) :
    Kept ((s.popActive seqId).markRequestTerminal token seqId) := by
  obtain ⟨-, -, running⟩ := k.active seqId token here
  rw [markRequestTerminal_eq k here (s.popActive seqId) rfl]
  refine k.finish (h := ⟨(s.handles token).seqId, true, true, (s.handles token).notices⟩) here ?_
    rfl (Told.unanswered ((k.told token).running running) _) rfl (fun _ => rfl)
    rfl rfl rfl rfl rfl rfl
  simp only [setTerminal, updateHandle, popActive, cancelled]

theorem Kept.admitRequest (k : Kept s) (queue : s.pending = token :: rest) {admission : Admission}
    (allowed : s.Allowed (.admitNext admission false false)) :
    Kept ({ s with pending := rest }.admitRequest token admission false false) := by
  obtain ⟨known, unassigned, running, quiet⟩ := k.pending token (queue ▸ mem_cons_self)
  have unnamed : ∀ seq, s.latestRequestTokens.get? seq ≠ some token := by
    intro seq named
    rw [k.latest] at named
    exact k.not_pending named (queue ▸ mem_cons_self)
  have error : Notice.error.isTerminal = true := rfl
  have tokens : TokensOnly (s.handles token).notices := (k.told token).running running
  -- every answer but an admission takes the request out of the queue and ends it
  have answered : ∀ (s' : DispatcherState) (seqId : Option Nat) (cancelled : Bool),
      s'.handles = Function.update s.handles token
        ⟨seqId, cancelled, true, (s.handles token).notices ++ [.error]⟩ →
      s'.active = s.active → s'.latestRequestTokens = s.latestRequestTokens →
      s'.submitted = s.submitted → s'.pending = rest → s'.aborts = s.aborts →
      s'.ended = s.ended → Kept s' := fun s' seqId cancelled handle =>
    k.dequeue queue handle rfl (Told.answered tokens error seqId cancelled)
  have unanswered : ∀ (s' : DispatcherState) (seqId : Option Nat),
      s'.handles = Function.update s.handles token
        ⟨seqId, true, true, (s.handles token).notices⟩ →
      s'.active = s.active → s'.latestRequestTokens = s.latestRequestTokens →
      s'.submitted = s.submitted → s'.pending = rest → s'.aborts = s.aborts →
      s'.ended = s.ended → Kept s' := fun s' seqId handle =>
    k.dequeue queue handle rfl (Told.unanswered tokens seqId)
  have failing : ∀ (s' : DispatcherState) (seqId : Nat),
      (s'.handles token).seqId = some seqId →
      s'.latestRequestTokens = s.latestRequestTokens →
      s'.failAdmission token false false =
        ((s'.abortRequest seqId).setTerminal token).put token .error := by
    intro s' seqId assigned latest
    have other : ((s'.abortRequest seqId).setTerminal token).latestRequestTokens.get? seqId ≠
        some token := by
      rw [show ((s'.abortRequest seqId).setTerminal token).latestRequestTokens =
        s'.latestRequestTokens from rfl, latest]
      exact unnamed seqId
    rw [DispatcherState.failAdmission, assigned]
    dsimp only
    rw [if_neg Bool.false_ne_true, forgetLatest, if_neg other]
    rfl
  have starting : ∀ s' : DispatcherState, (s'.handles token).seqId = none →
      s'.failAdmission token false false = (s'.setTerminal token).put token .error := by
    intro s' unassigned
    rw [DispatcherState.failAdmission, unassigned]
    rfl
  rw [DispatcherState.admitRequest.eq_def]
  simp only [DispatcherState.putOrFail, Bool.false_eq_true, if_false]
  split
  · next cancelled =>
    refine unanswered _ (s.handles token).seqId ?_ rfl rfl rfl rfl rfl rfl
    have cancelled : (s.handles token).cancelled = true := cancelled
    simp only [setTerminal, updateHandle, cancelled]
  · split
    · refine answered _ (s.handles token).seqId (s.handles token).cancelled ?_
        rfl rfl rfl rfl rfl rfl
      simp only [DispatcherState.put, setTerminal, updateHandle, update_idem, update_self]
    · cases admission with
      | setupRaises seqId =>
        cases seqId with
        | none =>
          dsimp only
          rw [starting { s with pending := rest } unassigned]
          refine answered _ (s.handles token).seqId (s.handles token).cancelled ?_
            rfl rfl rfl rfl rfl rfl
          simp only [DispatcherState.put, setTerminal, updateHandle, update_idem, update_self]
        | some seqId =>
          dsimp only
          rw [failing (assign token seqId { s with pending := rest }) seqId
            (congrArg RequestHandle.seqId updateHandle_self) rfl]
          refine answered _ (some seqId) (s.handles token).cancelled ?_ rfl rfl rfl rfl rfl rfl
          simp only [DispatcherState.put, setTerminal, assign, DispatcherState.abortRequest,
            updateHandle, update_idem, update_self]
      | cancelled seqId abortRaises =>
        dsimp only
        split
        · rw [failing _ seqId]
          · refine answered _ (some seqId) true ?_ rfl rfl rfl rfl rfl rfl
            simp only [DispatcherState.put, setTerminal, assign, DispatcherState.abortRequest,
              updateHandle, update_idem, update_self]
          · simp only [assign, DispatcherState.abortRequest, updateHandle, update_idem, update_self]
          · rfl
        · refine unanswered _ (some seqId) ?_ rfl rfl rfl rfl rfl rfl
          simp only [setTerminal, assign, DispatcherState.abortRequest, updateHandle, update_idem,
            update_self]
      | admitted seqId =>
        exact k.admit queue allowed.2.2 rfl rfl rfl rfl rfl rfl rfl

theorem Kept.drainAbort (k : Kept s) {rest : List AbortRequest} (queue : s.aborts = abort :: rest)
    (engineRaises : Bool) : Kept ({ s with aborts := rest }.drainAbort abort engineRaises) := by
  obtain ⟨known, assigned, cancelled⟩ := k.aborts abort (queue ▸ mem_cons_self)
  have dropped := k.dropAbort queue
  -- an abort that is not for the active request of its sequence is for a request that ended
  have idle : s.active.get? abort.seqId ≠ some abort.requestToken →
      Kept ({ s with aborts := rest }.setTerminal abort.requestToken) := by
    intro other
    rw [setTerminal_eq_self (s := { s with aborts := rest })
      (k.terminal_of_idle known assigned other)]
    exact dropped
  rw [DispatcherState.drainAbort]
  dsimp only
  split
  · exact dropped
  · split
    · next stale =>
      refine idle fun here => ?_
      rw [k.latest, here] at stale
      simp at stale
    · cases here : s.active.get? abort.seqId with
      | some requestToken =>
        dsimp only
        split
        · next differ =>
          refine idle fun same => ?_
          exact differ (Option.some.inj (same.symm.trans here))
        · next same =>
          rw [not_not] at same
          subst same
          split
          · exact (dropped.abortRequest _).fail
          · exact (dropped.abortRequest _).endCancelled here cancelled
      | none =>
        dsimp only
        split
        · exact dropped
        · split
          · exact (dropped.abortRequest _).fail
          · have unnamed : s.latestRequestTokens.get? abort.seqId ≠ some abort.requestToken := by
              rw [k.latest, here]
              simp
            have kept : (DispatcherState.abortRequest abort.seqId
                { s with aborts := rest }).forgetLatest abort.requestToken abort.seqId =
                DispatcherState.abortRequest abort.seqId { s with aborts := rest } :=
              forgetLatest_eq_self unnamed
            rw [kept, setTerminal_eq_self]
            · exact dropped.abortRequest _
            · exact k.terminal_of_idle known assigned (here ▸ (by simp))

theorem Kept.publishDelta (k : Kept s) (seqId : Nat) {outcome : DeltaOutcome}
    (reliable : DispatcherState.Reliable (.publishDelta seqId outcome)) :
    Kept (s.publishDelta seqId outcome) := by
  rw [DispatcherState.publishDelta]
  cases here : s.active.get? seqId with
  | none => exact k
  | some token =>
    cases outcome with
    | tokens sent => exact k.putToken here sent
    | raises aborted sent =>
      cases aborted with
      | false => exact (k.putToken here sent).fail
      | true => exact ((k.abortRequest seqId).putToken here sent).fail
    | stops sent putRaises =>
      obtain rfl : putRaises = false := reliable
      have put := (k.abortRequest seqId).putToken here sent
      refine put.endActive ?_ .final rfl
      cases sent <;> exact here

theorem Kept.publishFinished (k : Kept s) (seqId : Nat) {outcome : FinishOutcome}
    (reliable : DispatcherState.Reliable (.publishFinished seqId outcome)) :
    Kept (s.publishFinished seqId outcome) := by
  rw [DispatcherState.publishFinished]
  cases here : s.active.get? seqId with
  | none => exact k
  | some token =>
    cases outcome with
    | raisesActive => exact k.fail
    | raisesPopped aborted sent =>
      -- neither active nor ended: no later step would tell the client
      exact reliable.elim
    | finishes aborted sent putRaises =>
      obtain rfl : putRaises = false := reliable
      cases aborted with
      | false =>
        have ended := (k.putToken here sent).endActive
          (by cases sent <;> exact here) .final rfl
        cases sent <;> exact ended
      | true =>
        have ended := ((k.abortRequest seqId).putToken here sent).endActive
          (by cases sent <;> exact here) .final rfl
        cases sent <;> exact ended

theorem failActiveRequests_kept : ∀ (entries : List (Nat × Nat)) (s : DispatcherState), Kept s →
    s.active.entries = entries →
    Kept (s.failActiveRequests [] entries) ∧
      (∀ seqId, (s.failActiveRequests [] entries).active.get? seqId = none) ∧
      (s.failActiveRequests [] entries).failed = s.failed ∧
      (s.failActiveRequests [] entries).closing = s.closing
  | [], s, k, all => by
    refine ⟨k, fun seqId => ?_, rfl, rfl⟩
    rw [DispatcherState.failActiveRequests, get?, all]
    rfl
  | (seqId, token) :: rest, s, k, all => by
    have here : s.active.get? seqId = some token := by
      rw [get?, all, lookupEntry, if_pos rfl]
    have marked := markRequestTerminal_eq k here (s.popActive seqId) rfl
    have ended := (k.endActive here .error rfl).abortRequest seqId
    have entries : ((((s.popActive seqId).markRequestTerminal token seqId).put token
        .error).abortRequest seqId).active.entries = rest := by
      rw [marked]
      show eraseEntry seqId s.active.entries = rest
      rw [all, eraseEntry, if_pos rfl]
    obtain ⟨kept, empty, failed, closing⟩ := failActiveRequests_kept rest _ ended entries
    refine ⟨kept, empty, failed.trans ?_, closing.trans ?_⟩
    · rw [marked]
      rfl
    · rw [marked]
      rfl

theorem drainQueuedRequests_kept : ∀ (queue : List Nat) (s : DispatcherState), Kept s →
    s.pending = queue →
    Kept (s.drainQueuedRequests [] queue) ∧ (s.drainQueuedRequests [] queue).pending = [] ∧
      (s.drainQueuedRequests [] queue).active = s.active ∧
      (s.drainQueuedRequests [] queue).failed = s.failed ∧
      (s.drainQueuedRequests [] queue).closing = s.closing
  | [], _, k, all => ⟨k, all, rfl, rfl, rfl⟩
  | token :: rest, s, k, all => by
    obtain ⟨-, -, running, -⟩ := k.pending token (all ▸ mem_cons_self)
    have kept : Kept ((setTerminal token { s with pending := rest }).put token
        .error) := by
      refine k.dequeue (h := ⟨(s.handles token).seqId, (s.handles token).cancelled, true,
        (s.handles token).notices ++ [.error]⟩) all ?_ rfl
        (Told.answered ((k.told token).running running) rfl _ _) rfl rfl rfl rfl rfl rfl
      simp only [DispatcherState.put, setTerminal, updateHandle, update_idem, update_self]
    exact drainQueuedRequests_kept rest _ kept rfl

theorem failPendingAborts_kept : ∀ (queue : List AbortRequest) (s : DispatcherState), Kept s →
    s.aborts = queue → (∀ seqId, s.active.get? seqId = none) →
    Kept (s.failPendingAborts [] queue) ∧
      (s.failPendingAborts [] queue).pending = s.pending ∧
      (s.failPendingAborts [] queue).active = s.active ∧
      (s.failPendingAborts [] queue).failed = s.failed ∧
      (s.failPendingAborts [] queue).closing = s.closing
  | [], _, k, _, _ => ⟨k, rfl, rfl, rfl, rfl⟩
  | abort :: rest, s, k, all, empty => by
    obtain ⟨known, assigned, -⟩ := k.aborts abort (all ▸ mem_cons_self)
    have ended := k.terminal_of_idle known assigned (by rw [empty]; exact nofun)
    have same : setTerminal abort.requestToken { s with aborts := rest } =
        { s with aborts := rest } := setTerminal_eq_self ended
    rw [DispatcherState.failPendingAborts, same, if_neg (by simp)]
    exact failPendingAborts_kept rest _ (k.dropAbort all) rfl empty

theorem Kept.conclude (k : Kept s) (stopped : s.failed = true ∨ s.closing = true) :
    Kept (s.conclude []) := by
  obtain ⟨k₁, empty₁, failed₁, closing₁⟩ := failActiveRequests_kept _ s k rfl
  obtain ⟨k₂, queue₂, active₂, failed₂, closing₂⟩ := drainQueuedRequests_kept _ _ k₁ rfl
  obtain ⟨k₃, queue₃, active₃, failed₃, closing₃⟩ :=
    failPendingAborts_kept _ _ k₂ rfl (by rw [active₂]; exact empty₁)
  refine { k₃ with concluded := fun _ => ⟨queue₃.trans queue₂, fun seqId => ?_, ?_⟩ }
  · exact (congrArg (get? · seqId) (active₃.trans active₂)).trans (empty₁ seqId)
  · exact stopped.imp (fun failed => failed₃.trans (failed₂.trans (failed₁.trans failed)))
      fun closing => closing₃.trans (closing₂.trans (closing₁.trans closing))

theorem Kept.apply (k : Kept s) {op : DispatcherOp} (allowed : s.Allowed op)
    (reliable : DispatcherState.Reliable op) : Kept (s.apply op) := by
  cases op with
  | submit token => exact k.submit allowed
  | cancel token => exact k.cancel allowed
  | discard token => exact k.discard allowed
  | close =>
    exact { k with
        concluded := fun ended => ⟨(k.concluded ended).1, (k.concluded ended).2.1, .inr rfl⟩ }
  | admitNext admission retryRaises closed =>
    obtain ⟨rfl, rfl⟩ : retryRaises = false ∧ closed = false := reliable
    rw [DispatcherState.apply]
    cases queue : s.pending with
    | nil => exact k
    | cons token rest => exact k.admitRequest queue allowed
  | drainAbort engineRaises =>
    rw [DispatcherState.apply]
    cases queue : s.aborts with
    | nil => exact k
    | cons abort rest => exact k.drainAbort queue engineRaises
  | publishDelta seqId outcome => exact k.publishDelta seqId reliable
  | publishFinished seqId outcome => exact k.publishFinished seqId reliable
  | loopRaises => exact k.fail
  | conclude closed =>
    obtain rfl : closed = [] := reliable
    exact k.conclude allowed.1

theorem drainAbort_spares (abort : AbortRequest) (engineRaises : Bool)
    (here : s.active.get? seqId = some token) (other : token ≠ abort.requestToken) :
    (s.drainAbort abort engineRaises).active.get? seqId = some token ∧
      (s.drainAbort abort engineRaises).engineAborts.count seqId = s.engineAborts.count seqId ∧
      (s.drainAbort abort engineRaises).handles token = s.handles token := by
  have untouched : ∀ (s' : DispatcherState) (f : RequestHandle → RequestHandle),
      (s'.updateHandle abort.requestToken f).handles token = s'.handles token :=
    fun s' f => update_of_ne other _ _
  have counts : abort.seqId ≠ seqId →
      (s.engineAborts ++ [abort.seqId]).count seqId = s.engineAborts.count seqId := by
    intro differ
    rw [count_append, count_singleton, if_neg (by simpa using differ), Nat.add_zero]
  rw [DispatcherState.drainAbort]
  dsimp only
  split
  · exact ⟨here, rfl, rfl⟩
  · split
    · exact ⟨here, rfl, untouched s _⟩
    · cases found : s.active.get? abort.seqId with
      | some requestToken =>
        dsimp only
        split
        · exact ⟨here, rfl, untouched s _⟩
        · next same =>
          rw [not_not] at same
          subst same
          have differ : abort.seqId ≠ seqId := by
            rintro rfl
            exact other (Option.some.inj (here.symm.trans found))
          split
          · exact ⟨here, counts differ, rfl⟩
          · have active : (s.active.erase abort.seqId).get? seqId = some token := by
              rw [get?_erase_ne _ differ.symm]
              exact here
            rw [markRequestTerminal, forgetLatest]
            have told := untouched ((s.abortRequest abort.seqId).popActive abort.seqId)
              fun h => { h with terminal := true }
            split
            · exact ⟨active, counts differ, told⟩
            · exact ⟨active, counts differ, told⟩
      | none =>
        dsimp only
        have differ : abort.seqId ≠ seqId := by
          rintro rfl
          cases found.symm.trans here
        split
        · exact ⟨here, rfl, rfl⟩
        · split
          · exact ⟨here, counts differ, rfl⟩
          · rw [forgetLatest]
            split
            · exact ⟨here, counts differ, untouched _ _⟩
            · exact ⟨here, counts differ, untouched _ _⟩

structure TokenSafe (s : DispatcherState) : Prop where
  latest : ∀ seqId, s.latestRequestTokens.get? seqId = s.active.get? seqId
  placed : ∀ token ∈ s.submitted, token ∈ s.pending ∨
    (∃ seqId, s.active.get? seqId = some token) ∨ (s.handles token).terminal = true
  ended : s.ended = true → ∀ token ∈ s.submitted, (s.handles token).terminal = true
  told : ∀ token, Told (s.handles token)
  spares : ∀ abort rest engineRaises seqId token, s.aborts = abort :: rest →
    s.active.get? seqId = some token → token ≠ abort.requestToken →
    (s.apply (.drainAbort engineRaises)).active.get? seqId = some token ∧
      (s.apply (.drainAbort engineRaises)).engineAborts.count seqId =
        s.engineAborts.count seqId ∧
      (s.apply (.drainAbort engineRaises)).handles token = s.handles token

theorem Kept.tokenSafe (k : Kept s) : TokenSafe s where
  __ := k
  ended ended token known := by
    obtain ⟨queue, inactive, -⟩ := k.concluded ended
    obtain queued | ⟨seqId, here⟩ | terminal := k.placed token known
    · rw [queue] at queued
      exact nomatch queued
    · exact nomatch (inactive seqId).symm.trans here
    · exact terminal
  spares abort rest engineRaises seqId token queue here other := by
    rw [DispatcherState.apply, queue]
    exact drainAbort_spares (s := { s with aborts := rest }) abort engineRaises here other

theorem kept_start : Kept {} where
  told _ := ⟨fun _ => nofun, .inl nofun, nofun⟩
  fresh _ _ := rfl
  latest _ := rfl
  pending := nofun
  nodup := nodup_nil
  active := nofun
  placed := nofun
  aborts := nofun
  concluded := nofun

/-- In every run without an error in one of the bad places, every state is safe. -/
theorem request_tokens_safe (run : DispatcherState.Run DispatcherState.Reliable {} s) :
    TokenSafe s := by
  suffices kept : Kept s from kept.tokenSafe
  induction run with
  | refl => exact kept_start
  | tail _ step ih =>
    obtain ⟨op, allowed, reliable, rfl⟩ := step
    exact ih.apply allowed reliable

def afterOps (ops : List DispatcherOp) : DispatcherState :=
  ops.foldl (fun s op => s.apply op) {}

theorem request_tokens_safe_demo :
    TokenSafe (afterOps [.submit 0, .admitNext (.admitted 7) false false,
      .publishFinished 7 (.finishes false true false), .close, .conclude []]) := by
  refine request_tokens_safe ?_
  refine .head ⟨.submit 0, not_mem_nil, trivial, rfl⟩ ?_
  refine .head ⟨.admitNext (.admitted 7) false false, ⟨rfl, rfl, rfl⟩, ⟨rfl, rfl⟩, rfl⟩ ?_
  refine .head ⟨.publishFinished 7 (.finishes false true false), ⟨rfl, rfl⟩, rfl, rfl⟩ ?_
  refine .head ⟨.close, trivial, trivial, rfl⟩ ?_
  exact .head ⟨.conclude [], ⟨.inr rfl, rfl⟩, rfl, rfl⟩ .refl

/-- An error of `_publish_finished` behind `active.pop` leaves a request whose client is never told. -/
theorem finished_request_forgotten :
    ¬ ∀ s, DispatcherState.Run (fun _ => True) {} s → TokenSafe s := by
  intro safe
  have run : DispatcherState.Run (fun _ => True) {} (afterOps [.submit 0,
      .admitNext (.admitted 7) false false, .publishFinished 7 (.raisesPopped false false), .conclude []]) := by
    refine .head ⟨.submit 0, not_mem_nil, trivial, rfl⟩ ?_
    refine .head ⟨.admitNext (.admitted 7) false false, ⟨rfl, rfl, rfl⟩, trivial, rfl⟩ ?_
    refine .head ⟨.publishFinished 7 (.raisesPopped false false), ⟨rfl, rfl⟩, trivial, rfl⟩ ?_
    exact .head ⟨.conclude [], ⟨.inl rfl, rfl⟩, trivial, rfl⟩ .refl
  have terminal := (safe _ run).ended rfl 0 mem_cons_self
  exact absurd terminal (by decide)

end SparseEngine.Dispatcher
