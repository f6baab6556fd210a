import SparseEngine.Lib.Dict
import SparseEngine.Lib.Py

/-! `DecodeReservations` keeps for each decoding sequence the output count up to which its decode
steps have capacity. -/

namespace SparseEngine

abbrev Costs := Dict String Int

structure WindowSeq where
  numCompletionTokens : Int
  numPendingOutputs : Int
  maxTokens : Int
  isRecomputeReplay : Bool
deriving DecidableEq, Repr

/-- `_submitted_output_count`. -/
def WindowSeq.submitted (seq : WindowSeq) : Int := seq.numCompletionTokens + seq.numPendingOutputs

structure WindowHooks where
  decodeWindowCosts : Int → Int → Costs
  decodeWindowBudgets : Costs

structure DecodeReservations where
  window : Int
  positive : 0 < window
  requests : Dict Int Int

/-- What `costs` charges to a resource. -/
def Costs.amount (costs : Costs) (name : String) : Int := (costs.get? name).getD 0

/-- `total[name] = total.get(name, 0) + cost` for every cost. -/
def addCosts (total costs : Costs) : Costs :=
  costs.entries.foldl (fun total e => total.set e.1 (total.amount e.1 + e.2)) total

namespace DecodeReservations

def create (window : Int) : Except PyError DecodeReservations :=
  if h : 0 < window then .ok ⟨window, h, .empty⟩
  else .error (.valueError "Decode reservation window must be a positive integer.")

def release (r : DecodeReservations) (seqId : Int) : DecodeReservations :=
  { r with requests := r.requests.erase seqId }

section

variable (hooks : WindowHooks) (seqs : Int → WindowSeq)

/-- The window that is left. -/
def remaining (seqId stop : Int) : Int := max 0 (stop - (seqs seqId).submitted)

def outstanding (exclude : Option Int) (r : DecodeReservations) : Costs :=
  r.requests.entries.foldl (fun total e =>
    if exclude = some e.1 then total
    else if remaining seqs e.1 e.2 = 0 then total
    else addCosts total (hooks.decodeWindowCosts e.1 (remaining seqs e.1 e.2))) .empty

variable (r : DecodeReservations)

variable (seqId : Int)

def needsAcquisition : Bool :=
  if ∃ stop ∈ r.requests.get? seqId, (seqs seqId).submitted < stop then false
  else decide ((seqs seqId).submitted < (seqs seqId).maxTokens) && !(seqs seqId).isRecomputeReplay

/-- `fits` of `_acquire`. -/
def fits (outstanding budgets prefillReserve : Costs) : List (String × Int) → Except PyError Bool
  | [] => .ok true
  | (name, cost) :: costs =>
    match budgets.get? name with
    | none => .error (.keyError name)
    | some budget =>
      if cost + outstanding.amount name + prefillReserve.amount name ≤ budget then
        fits outstanding budgets prefillReserve costs
      else .ok false

/-- The binary search of `_acquire`. -/
def search (seqId : Int) (outstanding budgets prefillReserve : Costs) (lo hi : Int) :
    Except PyError Int :=
  if _h : lo < hi then
    match fits outstanding budgets prefillReserve
        (hooks.decodeWindowCosts seqId ((lo + hi + 1) / 2)).entries with
    | .error e => .error e
    | .ok true => search seqId outstanding budgets prefillReserve ((lo + hi + 1) / 2) hi
    | .ok false => search seqId outstanding budgets prefillReserve lo ((lo + hi + 1) / 2 - 1)
  else .ok lo
termination_by (hi - lo).toNat
decreasing_by all_goals omega

def fullWindow : Int :=
  min r.window ((seqs seqId).maxTokens - (seqs seqId).submitted)

/-- The tokens that `_acquire` grants, if any. -/
def grantedTokens (outstanding budgets prefillReserve : Costs)
    (allowShort : Bool) : Except PyError (Option Int) := do
  let tokens := r.fullWindow seqs seqId
  let whole ← fits outstanding budgets prefillReserve (hooks.decodeWindowCosts seqId tokens).entries
  if whole then pure (some tokens)
  else if !allowShort then pure none
  else do
    let one ← fits outstanding budgets prefillReserve (hooks.decodeWindowCosts seqId 1).entries
    if !one then pure none
    else do
      let lo ← search hooks seqId outstanding budgets prefillReserve 1 tokens
      pure (some lo)

def grant (seqId tokens : Int) : DecodeReservations :=
  { r with requests := r.requests.set seqId ((seqs seqId).submitted + tokens) }

open PyM in
/-- `_acquire`. -/
def acquireOne (outstanding budgets prefillReserve : Costs) (allowShort : Bool) :
    PyM DecodeReservations (Option Costs) := do
  let r ← get
  let granted ← lift (grantedTokens hooks seqs r seqId outstanding budgets prefillReserve allowShort)
  match granted with
  | none => pure none
  | some tokens => do
    modify fun r => r.grant seqs seqId tokens
    pure (some (addCosts outstanding (hooks.decodeWindowCosts seqId tokens)))

open PyM in
/-- The loop of `acquire_many`. -/
def acquireLoop (budgets prefillReserve : Costs) (allowShort : Bool) :
    List Int → Option Costs → PyM DecodeReservations (Option Int)
  | [], _ => pure none
  | seqId :: seqIds, out => do
    let r ← get
    if !r.needsAcquisition seqs seqId then acquireLoop budgets prefillReserve allowShort seqIds out
    else do
      let out := out.getD (outstanding hooks seqs none r)
      let next ← acquireOne hooks seqs seqId out budgets prefillReserve allowShort
      match next with
      | none => pure (some seqId)
      | some out => acquireLoop budgets prefillReserve allowShort seqIds (some out)

/-- `acquire_many`. -/
def acquireMany (seqIds : List Int) (allowShort : Bool) (prefillReserve : Costs)
    (budgets : Option Costs) : PyM DecodeReservations (Option Int) :=
  acquireLoop hooks seqs (budgets.getD hooks.decodeWindowBudgets) prefillReserve allowShort seqIds none

end

end DecodeReservations

/-- What `RuntimeState.reserve_decode_windows` asks the cache manager and the chain coordinator. -/
structure ReserveHooks extends WindowHooks where
  promptAdmissionBudgets : Costs
  reservedPrefillSlots : Int
  chainSlots : Option (List Int)
  chainCapacityKeys : Option (List String)
  kvTransformerLayerIndices : List Int
  mixedPrefixStepReclaimableSlots : Int

namespace ReserveHooks

variable (h : ReserveHooks)

/-- `pending` before the promises of the chains. -/
def pendingPrefill : Costs :=
  h.decodeWindowBudgets.entries.foldl (fun pending e => pending.set e.1
    (match h.promptAdmissionBudgets.get? e.1 with
      | some free => max 0 (e.2 - free)
      | none => if e.1.startsWith "layer_" then h.reservedPrefillSlots else 0)) .empty

/-- `if name in pending: pending[name] += slots`. -/
def addPending (pending : Costs) (name : String) (slots : Int) : Costs :=
  match pending.get? name with
  | none => pending
  | some value => pending.set name (value + slots)

/-- `pending` with the promises of the chains. -/
def pendingWithChains : Costs :=
  match h.chainSlots with
  | none => h.pendingPrefill
  | some slots =>
    match h.chainCapacityKeys with
    | some keys => (keys.zip slots).foldl (fun p e => addPending p e.1 e.2) h.pendingPrefill
    | none =>
      addPending
        ((h.kvTransformerLayerIndices.zip slots).foldl
          (fun p e => addPending p ("layer_" ++ toString e.1) e.2) h.pendingPrefill)
        "slots" (slots.foldl max (slots.headD 0))

open PyM in
def reserveDecodeWindows (seqs : Int → WindowSeq) (decoding : List Int) :
    PyM DecodeReservations (Option Int) := do
  let r ← get
  if decoding.all fun seqId => !r.needsAcquisition seqs seqId then pure none
  else do
    let extra := h.mixedPrefixStepReclaimableSlots
    let pending := h.pendingWithChains
    if extra > 0 then
      match h.decodeWindowBudgets.get? "slots" with
      | none => raise (.runtimeError "Mixed prefix decode reservations require a slots budget.")
      | some slots =>
        DecodeReservations.acquireMany h.toWindowHooks seqs decoding (decoding.length = 1)
          (pending.set "slots" (max (pending.amount "slots") h.reservedPrefillSlots))
          (some (h.decodeWindowBudgets.set "slots" (slots + extra)))
    else
      DecodeReservations.acquireMany h.toWindowHooks seqs decoding (decoding.length = 1) pending
        (some h.decodeWindowBudgets)

end ReserveHooks

end SparseEngine
