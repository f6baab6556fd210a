import SparseEngine.Lib.Py

/-! `forward_json` and `forward_stream` are coroutines and the body of a streamed response is an
async generator. -/

namespace SparseEngine.Router

open PyM

/-- `worker.local_inflight += 1`. -/
def enter : PyM Int Unit := modify fun inflight => inflight + 1

/-- `worker.local_inflight -= 1`. -/
def leave : PyM Int Unit := modify fun inflight => inflight - 1

abbrev Outcome : Type := Except PyError Unit

/-- How `forward_json` wakes up from `_wait_for_any_or_disconnect`. -/
structure JsonWake where
  result : Outcome
  requestDone : Bool
  closed : Outcome

/-- `if not request_task.done(): request.close()`. -/
def closeUnlessDone (wake : JsonWake) : PyM Int Unit :=
  if wake.requestDone then pure () else lift wake.closed

/-- The `finally` of `forward_json`. -/
def forwardJsonFinally (wake : JsonWake) : PyM Int Unit := do
  closeUnlessDone wake
  leave

/-- `forward_json` from its wait to its end. -/
def forwardJsonResume (wake : JsonWake) : PyM Int Unit :=
  tryFinally (lift wake.result) (forwardJsonFinally wake)

/-- How `forward_stream` wakes up from `_open_stream_response`. -/
inductive OpenWake
  /-- The worker answered with an error, which is returned to the client. -/
  | upstreamError (result : Outcome)
  /-- The open failed, timed out or was cancelled. -/
  | raised (error : PyError)
  /-- The stream is open. `build` makes the headers and the `StreamingResponse`. -/
  | opened (build : Outcome) (closed : Outcome)

/-- The `finally` of `forward_stream` without a handoff. -/
def forwardStreamFinally : OpenWake → PyM Int Unit
  | .opened _ closed => tryFinally (lift closed) leave
  | _ => leave

/-- `forward_stream` from the open of the upstream to its end. -/
def forwardStreamResume : OpenWake → PyM Int Bool
  | .upstreamError result =>
    tryFinally (do lift result; return false) (forwardStreamFinally (.upstreamError result))
  | .raised error => tryFinally (raise error) (forwardStreamFinally (.raised error))
  | .opened (.error error) closed =>
    tryFinally (raise error) (forwardStreamFinally (.opened (.error error) closed))
  | .opened (.ok ()) _ => pure true

/-- How the generator goes on from a suspension point. -/
inductive BodyWake
  | chunk
  | ended (result : Outcome) (closed : Outcome)

/-- The `finally` of the generator. -/
def streamFinally (closed : Outcome) : PyM Int Unit := tryFinally (lift closed) leave

def streamEnd (result closed : Outcome) : PyM Int Unit :=
  tryFinally (lift result) (streamFinally closed)

inductive Phase
  /-- `forward_json` waits for the upstream. -/
  | json
  /-- `forward_stream` opens the upstream. -/
  | opening
  /-- The response was returned. Its generator has not run yet. -/
  | unstarted
  /-- The generator waits for a chunk. -/
  | fetching
  /-- The generator yielded a chunk. -/
  | yielded
  | finished
deriving DecidableEq, Repr

structure Request (ω : Type) where
  worker : ω
  phase : Phase

structure RouterState (ω : Type) where
  localInflight : ω → Int
  requests : List (Request ω)

inductive Step (ω : Type)
  | beginJson (worker : ω)
  | beginStream (worker : ω)
  | wakeJson (request : Nat) (wake : JsonWake)
  | wakeOpen (request : Nat) (wake : OpenWake)
  /-- `__anext__` of the body. -/
  | next (request : Nat)
  | wakeBody (request : Nat) (wake : BodyWake)
  /-- `aclose` of the body. -/
  | close (request : Nat) (closed : Outcome)

section

variable {ω : Type} [DecidableEq ω]

def RouterState.start : RouterState ω := ⟨fun _ => 0, []⟩

def onWorker {α : Type} (s : RouterState ω) (worker : ω) (m : PyM Int α) :
    Option α × RouterState ω :=
  let (result, inflight) := m (s.localInflight worker)
  (result.toOption, { s with localInflight := Function.update s.localInflight worker inflight })

def beginRequest (s : RouterState ω) (worker : ω) (phase : Phase) : RouterState ω :=
  let s' := (onWorker s worker enter).2
  { s' with requests := s'.requests ++ [⟨worker, phase⟩] }

def setPhase (s : RouterState ω) (request : Nat) (r : Request ω) (phase : Phase) :
    RouterState ω :=
  { s with requests := s.requests.set request { r with phase := phase } }

/-- `forward_stream` of a request goes on. -/
def resumeOpen (s : RouterState ω) (request : Nat) (r : Request ω) (wake : OpenWake) :
    RouterState ω :=
  let (handoff, s') := onWorker s r.worker (forwardStreamResume wake)
  setPhase s' request r (if handoff = some true then .unstarted else .finished)

def endBody (s : RouterState ω) (request : Nat) (r : Request ω) (result closed : Outcome) :
    RouterState ω :=
  setPhase (onWorker s r.worker (streamEnd result closed)).2 request r .finished

def stepRequest (s : RouterState ω) (request : Nat) (r : Request ω) :
    Phase → Step ω → Option (RouterState ω)
  | .json, .wakeJson _ wake =>
    some (setPhase (onWorker s r.worker (forwardJsonResume wake)).2 request r .finished)
  | .opening, .wakeOpen _ wake => some (resumeOpen s request r wake)
  | .unstarted, .next _ => some (setPhase s request r .fetching)
  | .unstarted, .close _ _ => some (setPhase s request r .finished)
  | .fetching, .wakeBody _ .chunk => some (setPhase s request r .yielded)
  | .fetching, .wakeBody _ (.ended result closed) => some (endBody s request r result closed)
  | .yielded, .next _ => some (setPhase s request r .fetching)
  | .yielded, .close _ closed => some (endBody s request r (.ok ()) closed)
  | _, _ => none

def Step.request : Step ω → Option Nat
  | beginJson _ | beginStream _ => none
  | wakeJson request _ | wakeOpen request _ | next request | wakeBody request _
  | close request _ => some request

def step (s : RouterState ω) : Step ω → Option (RouterState ω)
  | .beginJson worker => some (beginRequest s worker .json)
  | .beginStream worker => some (beginRequest s worker .opening)
  | event => do
    let request ← event.request
    let r ← s.requests[request]?
    stepRequest s request r r.phase event

def run (s : RouterState ω) : List (Step ω) → Option (RouterState ω)
  | [] => some s
  | event :: events => do
    let s' ← step s event
    run s' events

def Request.forwardedTo (worker : ω) (r : Request ω) : Bool :=
  r.worker = worker ∧ r.phase ≠ .finished

def RouterState.forwarding (s : RouterState ω) (worker : ω) : Nat :=
  s.requests.countP (Request.forwardedTo worker)

end

end SparseEngine.Router
