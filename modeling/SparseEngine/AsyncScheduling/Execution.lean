import SparseEngine.AsyncScheduling.OutputPool
import SparseEngine.Lib.RowTables

/-! `AsyncExecution` keeps a row of a feedback buffer for each request in flight. -/

namespace SparseEngine

structure SubmittedSeq where
  seqId : Nat
  isLastChunkPrefill : Bool
  decodeInputToken : Except PyError Int
  repetitionPenalty : Rat
  presencePenalty : Rat
  promptTokenIds : List Int
  completionTokenIds : List Int

def SubmittedSeq.hasSamplingPenalty (q : SubmittedSeq) : Bool :=
  q.presencePenalty ≠ 0 || q.repetitionPenalty ≠ 1

structure SubmittedBatch where
  seqs : List SubmittedSeq
  nodup : (seqs.map SubmittedSeq.seqId).Nodup

/-- The rows of `_step_metadata`. -/
structure StepMetadata where
  slots : List Nat
  seeds : List Int
  ready : List Bool
  penalties : List (Option Nat)
  publish : List Bool

/-- `AsyncExecution`. A cell is `none` until it is written. -/
structure AsyncExecution where
  results : Dict Nat (List Nat) := .empty
  requests : RowTable Nat := {}
  penalties : RowTable Nat := {}
  feedbackReady : Finset Nat := ∅
  lastBatchIds : Option (List Nat) := none
  feedback : List (Option Int) := []
  penaltyFlags : List (List (Option Nat)) := [[none]]
  vocab : Nat := 1
  penaltyParameters : Option (List (Option (Rat × Rat))) := none
  stepMetadata : Option StepMetadata := none
  metadataCache : Dict (List Nat × List Bool) StepMetadata := .empty
  metadataLimit : Nat := 2
  isPrefill : Bool := false

namespace AsyncExecution

open PyM

abbrev ExecM := PyM AsyncExecution

/-- A buffer of `capacity` cells that starts with the old one. -/
def grow {α : Type} (previous : List α) (capacity : Nat) (cell : α) : List α :=
  previous ++ List.replicate (capacity - previous.length) cell

/-- `1 << (count - 1).bit_length()`. -/
def capacityFor (count : Nat) : Nat := 1 <<< bitLength ((count : Int) - 1)

def ensureFeedback (ids : List Nat) (s : AsyncExecution) : AsyncExecution :=
  let requests := ids.foldl RowTable.assign s.requests
  { s with
    requests := requests
    feedback :=
      if requests.rows.size > s.feedback.length then
        grow s.feedback (capacityFor requests.rows.size) none
      else s.feedback }

/-- `rows[seq_id]` of a request that has a row. -/
def rowOf (t : RowTable Nat) (id : Nat) : Nat := (t.rows.get? id).getD 0

/-- `self._metadata_cache[key] = metadata`. -/
def cacheMetadata (key : List Nat × List Bool) (m : StepMetadata) (s : AsyncExecution) :
    AsyncExecution :=
  let cache := s.metadataCache.set key m
  { s with
    metadataCache := ⟨cache.entries.drop (cache.size - s.metadataLimit),
      cache.nodup.sublist ((List.drop_sublist _ _).map _)⟩ }

variable (seqs : List SubmittedSeq)

def uploadMetadata (publish : List Bool) : ExecM StepMetadata := do
  let ids := seqs.map SubmittedSeq.seqId
  PyM.modify (ensureFeedback ids)
  let s ← PyM.get
  let seeds ← PyM.lift (seqs.mapM SubmittedSeq.decodeInputToken)
  let m : StepMetadata :=
    { slots := ids.map (rowOf s.requests)
      seeds := seeds
      ready := ids.map fun id => id ∈ s.feedbackReady
      penalties := ids.map s.penalties.rows.get?
      publish := publish }
  PyM.modify fun s => { s with stepMetadata := some m }
  return m

def metadata : ExecM StepMetadata := do
  let s ← PyM.get
  match s.stepMetadata with
  | some m => return m
  | none =>
    let ids := seqs.map SubmittedSeq.seqId
    let publish := seqs.map fun q => !s.isPrefill || q.isLastChunkPrefill
    let reusable := ids.all fun id => id ∈ s.feedbackReady
    match if reusable then s.metadataCache.get? (ids, publish) else none with
    | some m =>
      PyM.modify fun s =>
        { s with
          stepMetadata := some m
          metadataCache := (s.metadataCache.erase (ids, publish)).set (ids, publish) m }
      return m
    | none =>
      let m ← uploadMetadata seqs publish
      if reusable then PyM.modify (cacheMetadata (ids, publish) m)
      return m

/-- `prepare_inputs`. -/
def prepareInputs (capacity : Nat) (seqs : List SubmittedSeq) : ExecM Unit := do
  raiseIf (capacity < seqs.length ∨ seqs = [])
    (.valueError "Async feedback needs a nonempty batch fitting the input capacity")
  let s ← PyM.get
  if some (seqs.map SubmittedSeq.seqId) ≠ s.lastBatchIds then
    let _ ← metadata seqs

def placePenalties (vocab : Nat) (ids : List Nat) (s : AsyncExecution) : AsyncExecution :=
  let penalties := ids.foldl RowTable.place s.penalties
  let capacity := capacityFor penalties.rows.size
  let cells : List (Option Nat) := List.replicate vocab none
  match s.penaltyParameters with
  | none =>
    { s with
      penalties := penalties
      penaltyFlags := List.replicate capacity cells
      vocab := vocab
      penaltyParameters := some (List.replicate capacity none) }
  | some parameters =>
    if penalties.rows.size > s.penaltyFlags.length then
      { s with
        penalties := penalties
        penaltyFlags := grow s.penaltyFlags capacity cells
        vocab := vocab
        penaltyParameters := some (grow parameters capacity none) }
    else { s with penalties := penalties }

/-- The `index_fill_` and the `index_copy_` for one new request. -/
def resetRow (s : AsyncExecution) (q : SubmittedSeq) : AsyncExecution :=
  let row := rowOf s.penalties q.seqId
  { s with
    penaltyFlags := s.penaltyFlags.set row (List.replicate s.vocab (some 0))
    penaltyParameters := s.penaltyParameters.map fun parameters =>
      parameters.set row (some (q.repetitionPenalty, q.presencePenalty)) }

/-- `flag` at the tokens of a request. -/
def markRow (flag : Nat) (source : SubmittedSeq → List Int) (s : AsyncExecution)
    (q : SubmittedSeq) : AsyncExecution :=
  { s with
    penaltyFlags := s.penaltyFlags.modify (rowOf s.penalties q.seqId) fun cells =>
      (source q).foldl (fun cells t => cells.set t.toNat (some flag)) cells }

def markTokens (vocab flag : Nat) (source : SubmittedSeq → List Int) (new : List SubmittedSeq) :
    ExecM Unit := do
  raiseIf (∃ q ∈ new, ∃ t ∈ source q, t < 0 ∨ t ≥ vocab)
    (.valueError "Sampling penalty history contains an out-of-vocabulary token")
  PyM.modify fun s => new.foldl (markRow flag source) s

def newPenalties (s : AsyncExecution) (seqs : List SubmittedSeq) : List SubmittedSeq :=
  seqs.filter fun q => q.hasSamplingPenalty && !s.penalties.rows.contains q.seqId

def ensurePenalties (vocab : Nat) (seqs : List SubmittedSeq) : ExecM Unit := do
  let s ← PyM.get
  let new := newPenalties s seqs
  if new ≠ [] then do
    raiseIf (s.penaltyParameters.isSome ∧ vocab ≠ s.vocab)
      (.valueError "Async penalty vocabulary changed within one runner")
    PyM.modify (placePenalties vocab (new.map SubmittedSeq.seqId))
    PyM.modify fun s => new.foldl resetRow s
    markTokens vocab 1 SubmittedSeq.promptTokenIds new
    markTokens vocab 3 SubmittedSeq.completionTokenIds new
    PyM.modify fun s => { s with stepMetadata := none, metadataCache := .empty }

/-- `apply_penalties`. -/
def applyPenalties (rows vocab : Nat) (seqs : List SubmittedSeq) : ExecM Unit := do
  if seqs.any SubmittedSeq.hasSamplingPenalty then do
    raiseIf (rows ≠ seqs.length)
      (.valueError "Sampling penalties require one logits row per request")
    ensurePenalties vocab seqs
    let _ ← metadata seqs
    let s ← PyM.get
    raiseIf (s.vocab ≠ vocab)
      (.valueError "Async penalties require floating logits, byte token flags and FP32 output")

/-- What the kernel of `commit` writes for one row of the batch. -/
def commitRow (s : AsyncExecution) (token : Int) (slot : Nat) (penalty : Option Nat)
    (publish : Bool) : AsyncExecution :=
  if publish then
    { s with
      feedback := s.feedback.set slot (some token)
      penaltyFlags :=
        match penalty with
        | some row => s.penaltyFlags.modify row fun cells => cells.set token.toNat (some 3)
        | none => s.penaltyFlags }
  else s

def commit (tokens : List Int) (m : StepMetadata) (s : AsyncExecution) : AsyncExecution :=
  ((tokens.zip m.slots).zip (m.penalties.zip m.publish)).foldl
    (fun s e => commitRow s e.1.1 e.1.2 e.2.1 e.2.2) s

variable (ticket : Nat)

def beginSubmit (isPrefill : Bool) : ExecM Unit := do
  let s ← PyM.get
  raiseIf (s.results.contains ticket = true)
    (.runtimeError s!"Duplicate asynchronous submission {ticket}")
  PyM.modify fun s => { s with stepMetadata := none, isPrefill := isPrefill }

/-- `submit` after the model has run. -/
def finishSubmit (seqs : List SubmittedSeq) (isPrefill : Bool)
    (tokens : List Int) : ExecM Unit := do
  let m ← metadata seqs
  PyM.modify (commit tokens m)
  let publishes := fun q : SubmittedSeq => !isPrefill || q.isLastChunkPrefill
  let ids := seqs.map SubmittedSeq.seqId
  PyM.modify fun s =>
    { s with
      feedbackReady := s.feedbackReady ∪ ((seqs.filter publishes).map SubmittedSeq.seqId).toFinset
      lastBatchIds := if seqs.all publishes then some ids else none
      results := s.results.set ticket ids }

inductive RunnerCall
  | prepareInputs (capacity : Nat)
  | applyPenalties (rows vocab : Nat)

def RunnerCall.run : RunnerCall → ExecM Unit
  | .prepareInputs capacity => AsyncExecution.prepareInputs capacity seqs
  | .applyPenalties rows vocab => AsyncExecution.applyPenalties rows vocab seqs

def submit (batch : SubmittedBatch) (isPrefill : Bool) (calls : List RunnerCall)
    (outcome : Except PyError (List Int)) : ExecM Unit := do
  beginSubmit ticket isPrefill
  forEach (RunnerCall.run batch.seqs) calls
  let tokens ← PyM.lift outcome
  finishSubmit ticket batch.seqs isPrefill tokens

/-- `collect`, for what it does to the tickets. -/
def collect : ExecM Unit := do
  let s ← PyM.get
  raiseIf (s.results.contains ticket = false) (.keyError s!"{ticket}")
  PyM.modify fun s => { s with results := s.results.erase ticket }

def prepareSynchronousExecution : ExecM Unit := do
  let s ← PyM.get
  raiseIf (s.results.entries ≠ [])
    (.runtimeError "Synchronous execution requires all asynchronous results to retire")
  PyM.modify fun s =>
    { s with
      requests := {}
      penalties := {}
      feedbackReady := ∅
      lastBatchIds := none
      stepMetadata := none
      metadataCache := .empty }

def assertReleasable (ids : List Nat) : ExecM Unit := do
  let s ← PyM.get
  match s.results.entries.find? fun e => e.2.any fun id => id ∈ ids with
  | some (ticket, _) =>
    PyM.raise (.runtimeError s!"Cache release requires asynchronous ticket {ticket} to retire.")
  | none => return ()

def forget (ids : List Nat) : ExecM Unit := do
  assertReleasable ids
  PyM.modify fun s =>
    { s with
      lastBatchIds := none
      requests := ids.foldl RowTable.drop s.requests
      penalties := ids.foldl RowTable.drop s.penalties
      feedbackReady := s.feedbackReady \ ids.toFinset
      stepMetadata := none
      metadataCache := .empty }

inductive Step (s : AsyncExecution) : AsyncExecution → Prop
  | beginSubmit (ticket : Nat) (isPrefill : Bool) : Step s (beginSubmit ticket isPrefill s).2
  | runnerCall (batch : SubmittedBatch) (call : RunnerCall) : Step s (call.run batch.seqs s).2
  | finishSubmit (ticket : Nat) (batch : SubmittedBatch) (isPrefill : Bool) (tokens : List Int) :
      Step s (finishSubmit ticket batch.seqs isPrefill tokens s).2
  | collect (ticket : Nat) : Step s (collect ticket s).2
  | prepareSynchronousExecution : Step s (prepareSynchronousExecution s).2
  | forget (ids : List Nat) : Step s (forget ids s).2

def Reachable (s : AsyncExecution) : Prop :=
  ∃ metadataLimit, Relation.ReflTransGen Step { metadataLimit := metadataLimit } s

structure RowsHold (s : AsyncExecution) : Prop where
  requests : s.requests.Packed s.feedback.length
  penalties : s.penalties.Packed s.penaltyFlags.length
  parameters : ∀ ps, s.penaltyParameters = some ps → ps.length = s.penaltyFlags.length
  unset : s.penaltyParameters = none → s.penalties.Packed 0

structure SameShape (s s' : AsyncExecution) : Prop where
  requests : s'.requests = s.requests
  feedback : s'.feedback.length = s.feedback.length
  penalties : s'.penalties = s.penalties
  flags : s'.penaltyFlags.length = s.penaltyFlags.length
  parameters : s'.penaltyParameters.map List.length = s.penaltyParameters.map List.length

theorem SameShape.refl (s : AsyncExecution) : SameShape s s := ⟨rfl, rfl, rfl, rfl, rfl⟩

theorem SameShape.trans {s s' s'' : AsyncExecution} (h : SameShape s s') (h' : SameShape s' s'') :
    SameShape s s'' :=
  ⟨h'.requests.trans h.requests, h'.feedback.trans h.feedback, h'.penalties.trans h.penalties,
    h'.flags.trans h.flags, h'.parameters.trans h.parameters⟩

theorem RowsHold.sameShape {s s' : AsyncExecution} (h : RowsHold s) (same : SameShape s s') :
    RowsHold s' where
  requests := by rw [same.requests, same.feedback]; exact h.requests
  penalties := by rw [same.penalties, same.flags]; exact h.penalties
  parameters := by
    intro ps hps
    have hlength := same.parameters
    rw [hps] at hlength
    cases hold : s.penaltyParameters with
    | none => simp [hold] at hlength
    | some old =>
      have heq : ps.length = old.length := by simpa [hold] using hlength
      rw [heq, same.flags, h.parameters old hold]
  unset := by
    intro hnone
    have hlength := same.parameters
    rw [hnone, Option.map_none] at hlength
    rw [same.penalties]
    exact h.unset (Option.map_eq_none_iff.mp hlength.symm)

theorem sameShape_foldl {β : Type} {f : AsyncExecution → β → AsyncExecution}
    (hf : ∀ s b, SameShape s (f s b)) (l : List β) (s : AsyncExecution) :
    SameShape s (l.foldl f s) :=
  List.foldlRecOn l f (motive := SameShape s) (SameShape.refl s) fun _ h b _ => h.trans (hf _ b)

theorem sameShape_resetRow (s : AsyncExecution) (q : SubmittedSeq) :
    SameShape s (resetRow s q) where
  requests := rfl
  feedback := rfl
  penalties := rfl
  flags := List.length_set
  parameters := by cases h : s.penaltyParameters <;> simp [resetRow, h]

theorem sameShape_markRow (flag : Nat) (source : SubmittedSeq → List Int) (s : AsyncExecution)
    (q : SubmittedSeq) : SameShape s (markRow flag source s q) :=
  ⟨rfl, rfl, rfl, List.length_modify .., rfl⟩

theorem sameShape_commitRow (s : AsyncExecution) (token : Int) (slot : Nat)
    (penalty : Option Nat) (publish : Bool) :
    SameShape s (commitRow s token slot penalty publish) := by
  unfold commitRow
  split
  · refine ⟨rfl, List.length_set, rfl, ?_, rfl⟩
    cases penalty with
    | none => rfl
    | some row => exact List.length_modify ..
  · exact .refl s

theorem le_capacityFor (count : Nat) : count ≤ capacityFor count :=
  HostOutputPool.le_two_pow_bitLength count

theorem length_grow {α : Type} (previous : List α) (capacity : Nat) (cell : α) :
    (grow previous capacity cell).length = max previous.length capacity := by
  simp only [grow, List.length_append, List.length_replicate]
  omega

theorem getElem?_grow {α : Type} {previous : List α} {row : Nat} (h : row < previous.length)
    (capacity : Nat) (cell : α) : (grow previous capacity cell)[row]? = previous[row]? :=
  List.getElem?_append_left h

section

variable {s : AsyncExecution}

theorem RowsHold.ensureFeedback (h : RowsHold s) (ids : List Nat) :
    RowsHold (ensureFeedback ids s) := by
  refine ⟨(h.requests.foldl_assign ids).mono ?_, h.penalties, h.parameters, h.unset⟩
  simp only [AsyncExecution.ensureFeedback]
  split
  · have hcapacity := le_capacityFor (ids.foldl RowTable.assign s.requests).rows.size
    rw [length_grow]
    omega
  · omega

theorem RowsHold.ensureFeedback_keeps (h : RowsHold s) (ids : List Nat) {id row : Nat}
    (hrow : s.requests.rows.get? id = some row) :
    (AsyncExecution.ensureFeedback ids s).requests.rows.get? id = some row ∧
      (AsyncExecution.ensureFeedback ids s).feedback[row]? = s.feedback[row]? := by
  refine ⟨RowTable.get?_foldl_assign_of_some ids hrow, ?_⟩
  simp only [AsyncExecution.ensureFeedback]
  split
  · exact getElem?_grow (h.requests.lt hrow) _ _
  · rfl

def penaltyRow (s : AsyncExecution) (row : Nat) :
    Option (List (Option Nat)) × Option (Option (Rat × Rat)) :=
  (s.penaltyFlags[row]?, s.penaltyParameters.bind (·[row]?))

def KeepsPenalties (s s' : AsyncExecution) : Prop :=
  ∀ id row, s.penalties.rows.get? id = some row →
    s'.penalties.rows.get? id = some row ∧ s'.penaltyRow row = s.penaltyRow row

theorem RowsHold.placePenalties (h : RowsHold s) (vocab : Nat) {ids : List Nat}
    (hnodup : ids.Nodup) (hnew : ∀ id ∈ ids, s.penalties.rows.get? id = none) :
    RowsHold (placePenalties vocab ids s) ∧
      KeepsPenalties s (AsyncExecution.placePenalties vocab ids s) := by
  have hplace := RowTable.foldl_place_eq ids hnodup hnew
  have hkeep := fun id row (hrow : s.penalties.rows.get? id = some row) =>
    RowTable.get?_foldl_assign_of_some ids hrow
  have hcapacity := le_capacityFor (ids.foldl RowTable.assign s.penalties).rows.size
  unfold AsyncExecution.placePenalties
  rw [hplace]
  cases hparams : s.penaltyParameters with
  | none =>
    have hzero := h.unset hparams
    refine ⟨⟨h.requests, (hzero.foldl_assign ids).mono ?_, ?_, ?_⟩, ?_⟩
    · simpa using hcapacity
    · intro ps hps
      cases hps
      simp
    · simp
    · intro id row hrow
      exact absurd (hzero.lt hrow) (Nat.not_lt_zero row)
  | some ps =>
    have hlength := h.parameters ps hparams
    simp only
    split
    · refine ⟨⟨h.requests, (h.penalties.foldl_assign ids).mono ?_, ?_, ?_⟩, ?_⟩
      · simp only [length_grow]
        omega
      · intro ps' hps'
        cases hps'
        simp only [length_grow, hlength]
      · simp
      · intro id row hrow
        have hlt := h.penalties.lt hrow
        refine ⟨hkeep id row hrow, ?_⟩
        simp only [penaltyRow, hparams, Option.bind_some]
        rw [getElem?_grow hlt, getElem?_grow (hlength ▸ hlt)]
    · refine ⟨⟨h.requests, (h.penalties.foldl_assign ids).mono ?_, ?_, ?_⟩, ?_⟩
      · show max s.penaltyFlags.length _ ≤ s.penaltyFlags.length
        omega
      · intro ps' hps'
        cases hps'
        exact hlength
      · simp
      · exact fun id row hrow => ⟨hkeep id row hrow, by simp [penaltyRow, hparams]⟩

end

section

variable {s : AsyncExecution} {new : List SubmittedSeq} {row : Nat}

theorem penaltyRow_resetRow {q : SubmittedSeq} (h : rowOf s.penalties q.seqId ≠ row) :
    (resetRow s q).penaltyRow row = s.penaltyRow row := by
  cases hparams : s.penaltyParameters <;>
    simp [penaltyRow, resetRow, hparams, List.getElem?_set_ne h]

theorem penaltyRow_markRow {flag : Nat} {source : SubmittedSeq → List Int} {q : SubmittedSeq}
    (h : rowOf s.penalties q.seqId ≠ row) :
    (markRow flag source s q).penaltyRow row = s.penaltyRow row := by
  simp [penaltyRow, markRow, h]

theorem penaltyRow_foldl {f : AsyncExecution → SubmittedSeq → AsyncExecution}
    (hshape : ∀ s q, SameShape s (f s q))
    (hrow : ∀ {s q}, rowOf s.penalties q.seqId ≠ row → (f s q).penaltyRow row = s.penaltyRow row) :
    ∀ (new : List SubmittedSeq) (s : AsyncExecution),
      (∀ q ∈ new, rowOf s.penalties q.seqId ≠ row) →
      (new.foldl f s).penaltyRow row = s.penaltyRow row
  | [], _, _ => rfl
  | q :: new, s, h => by
    refine (penaltyRow_foldl hshape hrow new (f s q) fun q' hq' => ?_).trans
      (hrow (h q List.mem_cons_self))
    rw [(hshape s q).penalties]
    exact h q' (List.mem_cons_of_mem q hq')

/-- Only the rows of `new` change between the states. -/
def Touches (new : List SubmittedSeq) (s s' : AsyncExecution) : Prop :=
  SameShape s s' ∧
    ∀ row, (∀ q ∈ new, rowOf s.penalties q.seqId ≠ row) → s'.penaltyRow row = s.penaltyRow row

theorem Touches.trans {s' s'' : AsyncExecution} (h : Touches new s s') (h' : Touches new s' s'') :
    Touches new s s'' := by
  refine ⟨h.1.trans h'.1, fun row hrow => ?_⟩
  exact (h'.2 row fun q hq => h.1.penalties ▸ hrow q hq).trans (h.2 row hrow)

theorem touches_markTokens (vocab flag : Nat) (source : SubmittedSeq → List Int)
    {s₀ : AsyncExecution} (h : Touches new s₀ s) :
    Keeps (Touches new s₀) (markTokens vocab flag source new) s := by
  simp only [Keeps, markTokens, wp_bind, wp_raiseIf, wp_modify]
  refine ⟨fun _ => h, fun _ => h.trans ⟨sameShape_foldl (sameShape_markRow flag source) _ _, ?_⟩⟩
  exact fun row => penaltyRow_foldl (sameShape_markRow flag source) penaltyRow_markRow new s

theorem rowOf_ne (h : RowsHold s) {vocab id : Nat} {ids : List Nat} {id' : Nat}
    (hnodup : ids.Nodup) (hnew : ∀ id ∈ ids, s.penalties.rows.get? id = none)
    (hrow : s.penalties.rows.get? id = some row) (hmem : id' ∈ ids) :
    rowOf (placePenalties vocab ids s).penalties id' ≠ row := by
  have hplaced := h.placePenalties vocab hnodup hnew
  have hrows : (placePenalties vocab ids s).penalties = ids.foldl RowTable.assign s.penalties := by
    unfold placePenalties
    rw [RowTable.foldl_place_eq ids hnodup hnew]
    split
    · rfl
    · simp only
      split <;> rfl
  obtain ⟨row', hrow'⟩ := RowTable.exists_get?_foldl_assign ids s.penalties hmem
  rw [← hrows] at hrow'
  rintro heq
  have hrow'' : row' = row := by simpa [rowOf, hrow'] using heq
  subst hrow''
  have hid := hplaced.1.penalties.inj hrow' (hplaced.2 id row' hrow).1
  rw [← hid, hnew id' hmem] at hrow
  cases hrow

theorem RowsHold.ensurePenalties (h : RowsHold s) (vocab : Nat) (batch : SubmittedBatch) :
    Keeps (fun s' => RowsHold s' ∧ KeepsPenalties s s') (ensurePenalties vocab batch.seqs) s := by
  have hrefl : RowsHold s ∧ KeepsPenalties s s := ⟨h, fun _ _ hrow => ⟨hrow, rfl⟩⟩
  obtain ⟨new, hnew⟩ : ∃ new, new = newPenalties s batch.seqs := ⟨_, rfl⟩
  have hids : (new.map SubmittedSeq.seqId).Nodup :=
    hnew ▸ batch.nodup.sublist (List.filter_sublist.map _)
  have hnone : ∀ id ∈ new.map SubmittedSeq.seqId, s.penalties.rows.get? id = none := by
    intro id hid
    obtain ⟨q, hq, rfl⟩ := List.mem_map.mp hid
    rw [hnew] at hq
    have hfilter := (List.mem_filter.mp hq).2
    rw [Bool.and_eq_true, Bool.not_eq_true'] at hfilter
    exact Dict.contains_eq_false.mp hfilter.2
  obtain ⟨placed, hplaced⟩ : ∃ placed,
      placed = AsyncExecution.placePenalties vocab (new.map SubmittedSeq.seqId) s := ⟨_, rfl⟩
  obtain ⟨hhold, hkeeps⟩ := hplaced ▸ h.placePenalties vocab hids hnone
  -- whatever touches only the rows of `new` after they are placed is harmless
  have hdone : ∀ s', Touches new placed s' → RowsHold s' ∧ KeepsPenalties s s' := by
    rintro s' ⟨hshape, hothers⟩
    refine ⟨hhold.sameShape hshape, fun id row hrow => ?_⟩
    obtain ⟨hrow', hcells⟩ := hkeeps id row hrow
    rw [hshape.penalties]
    refine ⟨hrow', (hothers row fun q hq => ?_).trans hcells⟩
    rw [hplaced]
    exact rowOf_ne h hids hnone hrow (List.mem_map_of_mem hq)
  have hreset : Touches new placed (new.foldl resetRow placed) :=
    ⟨sameShape_foldl sameShape_resetRow _ _,
      fun row => penaltyRow_foldl sameShape_resetRow penaltyRow_resetRow new placed⟩
  simp only [Keeps, AsyncExecution.ensurePenalties, wp_bind, wp_get, wp_ite, ← hnew]
  split
  · simp only [wp_raiseIf, wp_modify, ← hplaced]
    refine ⟨fun _ => hrefl, fun _ => ?_⟩
    refine wp_mono (touches_markTokens vocab 1 _ hreset) (fun _ s' h' => ?_) fun _ => hdone
    refine wp_mono (touches_markTokens vocab 3 _ h') (fun _ s'' h'' => ?_) fun _ => hdone
    obtain ⟨hhold'', hkeeps''⟩ := hdone s'' h''
    exact ⟨{ hhold'' with }, hkeeps''⟩
  · exact hrefl

end

section

def KeepsRows {α : Type} (m : ExecM α) : Prop := Along (fun s s' => RowsHold s → RowsHold s') m

instance : Std.Refl fun s s' : AsyncExecution => RowsHold s → RowsHold s' := ⟨fun _ h => h⟩

instance : IsTrans AsyncExecution fun s s' => RowsHold s → RowsHold s' :=
  ⟨fun _ _ _ h h' hs => h' (h hs)⟩

theorem keepsRows_metadata (seqs : List SubmittedSeq) : KeepsRows (metadata seqs) := by
  have hupload : ∀ publish, KeepsRows (uploadMetadata seqs publish) := fun publish =>
    along_bind (along_modify fun _ h => h.ensureFeedback _) fun _ =>
      along_bind along_get fun _ => along_bind (along_lift _) fun _ =>
        along_bind (along_modify fun _ h => { h with }) fun _ => along_pure _
  refine along_bind along_get fun s => ?_
  split
  · exact along_pure _
  · simp only
    split
    · exact along_bind (along_modify fun _ h => { h with }) fun _ => along_pure _
    · exact along_bind (hupload _) fun m => along_ite
        (along_bind (along_modify fun _ h => { h with }) fun _ => along_pure _)
        (along_pure _)

theorem keepsRows_call (batch : SubmittedBatch) (call : RunnerCall) :
    KeepsRows (call.run batch.seqs) := by
  cases call with
  | prepareInputs capacity =>
    refine along_bind (along_raiseIf _ _) fun _ => along_bind along_get fun s => ?_
    split
    · exact along_bind (keepsRows_metadata _) fun _ => along_pure _
    · exact along_pure _
  | applyPenalties rows vocab =>
    refine along_ite ?_ (along_pure _)
    refine along_bind (along_raiseIf _ _) fun _ => along_bind (fun s h => ?_) fun _ =>
      along_bind (keepsRows_metadata _) fun _ => along_bind along_get fun _ => along_raiseIf _ _
    exact (keeps_iff.mp (h.ensurePenalties vocab batch)).1

theorem keepsRows_finishSubmit (ticket : Nat) (seqs : List SubmittedSeq) (isPrefill : Bool)
    (tokens : List Int) : KeepsRows (finishSubmit ticket seqs isPrefill tokens) :=
  along_bind (keepsRows_metadata seqs) fun _ =>
    along_bind
      (along_modify fun _ h => h.sameShape
        (sameShape_foldl (fun _ _ => sameShape_commitRow _ _ _ _ _) _ _))
      fun _ => along_modify fun _ h => { h with }

theorem keepsRows_forget (ids : List Nat) : KeepsRows (forget ids) := by
  refine along_bind (along_bind along_get fun s => ?_) fun _ => along_modify fun _ h =>
    ⟨h.requests.foldl_drop ids, h.penalties.foldl_drop ids, h.parameters,
      fun hnone => (h.unset hnone).foldl_drop ids⟩
  split
  · exact along_raise _
  · exact along_pure _

theorem RowsHold.step {s s' : AsyncExecution} (h : RowsHold s) (step : Step s s') :
    RowsHold s' := by
  cases step with
  | beginSubmit ticket isPrefill =>
    have hcall : KeepsRows (AsyncExecution.beginSubmit ticket isPrefill) :=
      along_bind along_get fun _ => along_bind (along_raiseIf _ _) fun _ =>
        along_modify fun _ h => { h with }
    exact hcall s h
  | runnerCall batch call => exact keepsRows_call batch call s h
  | finishSubmit ticket batch isPrefill tokens =>
    exact keepsRows_finishSubmit ticket batch.seqs isPrefill tokens s h
  | collect ticket =>
    have hcall : KeepsRows (AsyncExecution.collect ticket) :=
      along_bind along_get fun _ => along_bind (along_raiseIf _ _) fun _ =>
        along_modify fun _ h => { h with }
    exact hcall s h
  | prepareSynchronousExecution =>
    have hcall : KeepsRows AsyncExecution.prepareSynchronousExecution :=
      along_bind along_get fun _ => along_bind (along_raiseIf _ _) fun _ => along_modify fun _ h =>
        ⟨RowTable.packed_empty, RowTable.packed_empty, h.3, fun _ => RowTable.packed_empty⟩
    exact hcall s h
  | forget ids => exact keepsRows_forget ids s h

theorem rowsHold_of_reachable {s : AsyncExecution} (h : Reachable s) : RowsHold s := by
  obtain ⟨metadataLimit, hrun⟩ := h
  induction hrun with
  | refl =>
    exact ⟨RowTable.packed_empty, RowTable.packed_empty, by simp, fun _ => RowTable.packed_empty⟩
  | tail _ step ih => exact ih.step step

theorem steps_submit (ticket : Nat) (batch : SubmittedBatch) (isPrefill : Bool)
    (calls : List RunnerCall) (outcome : Except PyError (List Int)) :
    Along (Relation.ReflTransGen Step) (submit ticket batch isPrefill calls outcome) :=
  along_bind (fun _ => .single (.beginSubmit ticket isPrefill)) fun _ =>
    along_bind (along_forEach fun call _ _ => .single (.runnerCall batch call)) fun _ =>
      along_bind (along_lift _) fun tokens =>
        fun _ => .single (.finishSubmit ticket batch isPrefill tokens)

variable {s : AsyncExecution}

/-- In every state that calls lead to, also within a submission, the rows of both tables are
exact below the sizes of their buffers, and making room for a batch keeps the contents of every
assigned row. -/
theorem reachable_rows_exact (h : Reachable s) :
    s.requests.Exact s.feedback.length ∧ s.penalties.Exact s.penaltyFlags.length ∧
    (∀ ids id row, s.requests.rows.get? id = some row →
      (ensureFeedback ids s).requests.rows.get? id = some row ∧
        (ensureFeedback ids s).feedback[row]? = s.feedback[row]?) ∧
    (∀ vocab (batch : SubmittedBatch),
      KeepsPenalties s (ensurePenalties vocab batch.seqs s).2) ∧
    ∀ ticket batch isPrefill calls outcome,
      Reachable (submit ticket batch isPrefill calls outcome s).2 := by
  have hrows := rowsHold_of_reachable h
  refine ⟨hrows.requests.exact, hrows.penalties.exact, fun ids id row hrow =>
    hrows.ensureFeedback_keeps ids hrow, fun vocab batch =>
    (keeps_iff.mp (hrows.ensurePenalties vocab batch)).2, ?_⟩
  obtain ⟨metadataLimit, hrun⟩ := h
  intro ticket batch isPrefill calls outcome
  exact ⟨metadataLimit, hrun.trans (steps_submit ticket batch isPrefill calls outcome s)⟩

def oneToken (seqId : Nat) : SubmittedBatch :=
  ⟨[⟨seqId, true, .ok 3, 2, 0, [3], []⟩], List.nodup_singleton _⟩

/-- Request 8 takes the rows that request 7 gave back. -/
theorem reachable_rows_exact_recycled :
    let s := (submit 1 (oneToken 8) true [.applyPenalties 1 5] (.ok [4]) (forget [7] (collect 0
      (submit 0 (oneToken 7) true [.applyPenalties 1 5] (.ok [4]) {}).2).2).2).2
    s.requests.rows.entries = [(8, 0)] ∧ s.penalties.rows.entries = [(8, 0)] ∧
      s.requests.Exact s.feedback.length := by
  refine ⟨by decide, by decide, ?_⟩
  have hfirst := steps_submit 0 (oneToken 7) true [.applyPenalties 1 5] (.ok [4]) {}
  have hforget := (hfirst.tail (.collect 0)).tail (.forget [7])
  exact (reachable_rows_exact ⟨2, hforget.trans (steps_submit 1 (oneToken 8) true
    [.applyPenalties 1 5] (.ok [4]) _)⟩).1

end

end AsyncExecution

end SparseEngine
