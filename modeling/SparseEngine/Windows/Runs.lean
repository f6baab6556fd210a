import SparseEngine.Windows.Renewals

/-! A sequence waits for its prefill, decodes, and finishes. -/

namespace SparseEngine

open DecodeReservations

inductive WindowPhase where
  | waiting
  | decoding
  | finished
deriving DecidableEq, Repr

structure WindowWorld where
  seqs : Int → Option (WindowSeq × WindowPhase)
  ledger : DecodeReservations

namespace WindowWorld

def seqAt (w : WindowWorld) (seqId : Int) : WindowSeq :=
  (w.seqs seqId).elim ⟨0, 0, 0, false⟩ Prod.fst

def update (w : WindowWorld) (seqId : Int) (seq : WindowSeq) (phase : WindowPhase) : WindowWorld :=
  { w with seqs := fun s => if s = seqId then some (seq, phase) else w.seqs s }

/-- One more output of every sequence of `scheduled` is in flight. -/
def submit (w : WindowWorld) (scheduled : List Int) : WindowWorld :=
  { w with
    seqs := fun s =>
      if s ∈ scheduled then
        (w.seqs s).map fun e => ({ e.1 with numPendingOutputs := e.1.numPendingOutputs + 1 }, e.2)
      else w.seqs s }

inductive Step : WindowWorld → WindowWorld → Prop
  | arrive {w : WindowWorld} (seqId maxTokens : Int) : w.seqs seqId = none →
      Step w (w.update seqId ⟨0, 0, maxTokens, false⟩ .waiting)
  | prefill {w : WindowWorld} {seqId : Int} {seq : WindowSeq} : w.seqs seqId = some (seq, .waiting) →
      Step w (w.update seqId
        { seq with
          numPendingOutputs :=
            if seq.isRecomputeReplay then seq.numPendingOutputs else seq.numPendingOutputs + 1 }
        .decoding)
  | reserve {w : WindowWorld} {ledger : DecodeReservations} {res : Except PyError (Option Int)}
      (h : ReserveHooks) (decoding : List Int) : h.toWindowHooks.Monotone →
      (∀ s ∈ decoding, ∃ seq, w.seqs s = some (seq, .decoding)) →
      h.reserveDecodeWindows w.seqAt decoding w.ledger = (res, ledger) →
      Step w { w with ledger := ledger }
  | decode {w : WindowWorld} {ledger : DecodeReservations} (h : ReserveHooks)
      (decoding scheduled : List Int) : h.toWindowHooks.Monotone →
      (∀ s ∈ decoding, ∃ seq, w.seqs s = some (seq, .decoding)) →
      h.reserveDecodeWindows w.seqAt decoding w.ledger = (.ok none, ledger) →
      (∀ s ∈ scheduled, s ∈ decoding ∧ (w.seqAt s).isRecomputeReplay = false ∧
        (w.seqAt s).submitted < (w.seqAt s).maxTokens) →
      Step w ({ w with ledger := ledger }.submit scheduled)
  | collect {w : WindowWorld} {seqId : Int} {seq : WindowSeq} {phase : WindowPhase} :
      w.seqs seqId = some (seq, phase) → 0 < seq.numPendingOutputs →
      Step w (w.update seqId
        { seq with
          numPendingOutputs := seq.numPendingOutputs - 1
          numCompletionTokens := seq.numCompletionTokens + 1 } phase)
  | discard {w : WindowWorld} {seqId : Int} {seq : WindowSeq} {phase : WindowPhase} :
      w.seqs seqId = some (seq, phase) → 0 < seq.numPendingOutputs →
      Step w (w.update seqId { seq with numPendingOutputs := seq.numPendingOutputs - 1 } phase)
  | preempt {w : WindowWorld} {seqId : Int} {seq : WindowSeq} :
      w.seqs seqId = some (seq, .decoding) → seq.numPendingOutputs = 0 →
      Step w ({ w with ledger := w.ledger.release seqId }.update seqId
        { seq with isRecomputeReplay := decide (0 < seq.numCompletionTokens) } .waiting)
  | finishReplay {w : WindowWorld} {seqId : Int} {seq : WindowSeq} :
      w.seqs seqId = some (seq, .decoding) →
      Step w (w.update seqId { seq with isRecomputeReplay := false } .decoding)
  | release {w : WindowWorld} {seqId : Int} {seq : WindowSeq} {phase : WindowPhase} :
      w.seqs seqId = some (seq, phase) →
      Step w ({ w with ledger := w.ledger.release seqId }.update seqId seq .finished)

inductive Reachable : WindowWorld → Prop
  | start {ledger : DecodeReservations} {window : Int} : DecodeReservations.create window = .ok ledger →
      Reachable ⟨fun _ => none, ledger⟩
  | step {w w' : WindowWorld} : Reachable w → Step w w' → Reachable w'

def Held (w : WindowWorld) : Prop :=
  ∀ s stop, w.ledger.requests.get? s = some stop → ∃ seq, w.seqs s = some (seq, .decoding) ∧
    seq.submitted ≤ stop ∧ stop ≤ seq.maxTokens

variable {w : WindowWorld}

theorem Held.update (h : w.Held) {seqId : Int} {seq : WindowSeq} {phase : WindowPhase}
    (hseq : ∀ stop, w.ledger.requests.get? seqId = some stop →
      phase = .decoding ∧ seq.submitted ≤ stop ∧ stop ≤ seq.maxTokens) :
    (w.update seqId seq phase).Held := by
  intro s stop hstop
  simp only [WindowWorld.update]
  by_cases hs : s = seqId
  · subst hs
    obtain ⟨rfl, hbounds⟩ := hseq stop hstop
    exact ⟨seq, if_pos rfl, hbounds⟩
  · rw [if_neg hs]
    exact h s stop hstop

theorem Held.release (h : w.Held) (seqId : Int) (seq : WindowSeq) (phase : WindowPhase) :
    ({ w with ledger := w.ledger.release seqId }.update seqId seq phase).Held := by
  intro s stop hstop
  simp only [WindowWorld.update, DecodeReservations.release, Dict.get?_erase] at hstop ⊢
  split at hstop
  · cases hstop
  · next hs =>
    rw [if_neg hs]
    exact h s stop hstop

variable {hooks : WindowHooks} {budgets reserve : Costs} {allowShort : Bool}
  {seqIds : List Int} {res : Option Int} {r r' : DecodeReservations}

variable {seqs : Int → WindowSeq}

theorem granted_windows (h : Granted hooks seqs budgets reserve allowShort r seqIds res r')
    {s stop : Int} (hstop : r'.requests.get? s = some stop) : r.requests.get? s = some stop ∨
      s ∈ seqIds ∧ (seqs s).submitted ≤ stop ∧ stop ≤ (seqs s).maxTokens := by
  induction h with
  | done => exact .inl hstop
  | pass _ _ ih => exact (ih hstop).imp id fun hh => ⟨List.mem_cons_of_mem _ hh.1, hh.2⟩
  | @grant r r' seqId tokens seqIds res hneeds hwindow hrest ih =>
    rcases ih hstop with hold | hh
    · simp only [DecodeReservations.grant, Dict.get?_set] at hold
      split at hold
      · next heq =>
        cases hold
        subst heq
        have hpos := hwindow.positive
        have hle : tokens ≤ r.fullWindow seqs s := by
          rcases hwindow.length with heq | hh
          · exact le_of_eq heq
          · exact le_of_lt hh.2.1
        have hmax : r.fullWindow seqs s ≤ (seqs s).maxTokens - (seqs s).submitted := min_le_right _ _
        exact .inr ⟨List.mem_cons_self, by omega, by omega⟩
      · exact .inl hold
    · exact .inr ⟨List.mem_cons_of_mem _ hh.1, hh.2⟩
  | refuse => exact .inl hstop

variable {outcome : Except PyError (Option Int)}

theorem acquireMany_windows (hmono : hooks.Monotone) {budgets : Option Costs}
    (hrun : acquireMany hooks seqs seqIds allowShort reserve budgets r = (outcome, r')) :
    (∀ s stop, r'.requests.get? s = some stop → r.requests.get? s = some stop ∨
      s ∈ seqIds ∧ (seqs s).submitted ≤ stop ∧ stop ≤ (seqs s).maxTokens) ∧
    (outcome = .ok none → ∀ s ∈ seqIds, r'.needsAcquisition seqs s = false) := by
  have hspec := @acquireLoop_spec hooks seqs (budgets.getD hooks.decodeWindowBudgets) reserve hmono
    allowShort seqIds none r (fun o ho => by cases ho)
  unfold acquireMany at hrun
  rw [hrun] at hspec
  cases outcome with
  | error e =>
    obtain ⟨done, seqId, rest, hsplit, hpass, -⟩ := hspec
    refine ⟨fun s stop hstop => (granted_windows hpass hstop).imp id fun hh => ?_, fun h => by cases h⟩
    exact ⟨hsplit ▸ List.mem_append_left _ hh.1, hh.2⟩
  | ok res =>
    refine ⟨fun s stop hstop => granted_windows hspec hstop, fun h s hs => ?_⟩
    cases h
    exact Granted.satisfied hspec hs

variable {h : ReserveHooks} {decoding : List Int}

theorem reserveDecodeWindows_windows (hmono : h.toWindowHooks.Monotone)
    (hrun : h.reserveDecodeWindows seqs decoding r = (outcome, r')) :
    (∀ s stop, r'.requests.get? s = some stop → r.requests.get? s = some stop ∨
      s ∈ decoding ∧ (seqs s).submitted ≤ stop ∧ stop ≤ (seqs s).maxTokens) ∧
    (outcome = .ok none → ∀ s ∈ decoding, r'.needsAcquisition seqs s = false) := by
  unfold ReserveHooks.reserveDecodeWindows at hrun
  rw [PyM.bind_ok PyM.get_run] at hrun
  split at hrun
  · next hall =>
    cases hrun
    refine ⟨fun s stop hstop => .inl hstop, fun _ s hs => ?_⟩
    have := List.all_eq_true.1 hall s hs
    simpa using this
  · simp only at hrun
    by_cases hextra : h.mixedPrefixStepReclaimableSlots > 0
    · rw [if_pos hextra] at hrun
      cases hslots : h.decodeWindowBudgets.get? "slots" with
      | none =>
        simp only [hslots] at hrun
        cases hrun
        exact ⟨fun s stop hstop => .inl hstop, fun h => by cases h⟩
      | some slots =>
        simp only [hslots] at hrun
        exact acquireMany_windows hmono hrun
    · rw [if_neg hextra] at hrun
      exact acquireMany_windows hmono hrun

theorem seqAt_of {seqId : Int} {seq : WindowSeq} {phase : WindowPhase}
    (h : w.seqs seqId = some (seq, phase)) : w.seqAt seqId = seq := by
  rw [seqAt, h]
  rfl

theorem Held.reserved (hw : w.Held) (hmono : h.toWindowHooks.Monotone) {ledger : DecodeReservations}
    (hdecoding : ∀ s ∈ decoding, ∃ seq, w.seqs s = some (seq, .decoding))
    (hrun : h.reserveDecodeWindows w.seqAt decoding w.ledger = (outcome, ledger)) :
    { w with ledger := ledger }.Held := by
  intro s stop hstop
  rcases (reserveDecodeWindows_windows hmono hrun).1 s stop hstop with hold | ⟨hin, hbounds⟩
  · exact hw s stop hold
  · obtain ⟨seq, hseq⟩ := hdecoding s hin
    rw [seqAt_of hseq] at hbounds
    exact ⟨seq, hseq, hbounds⟩

theorem Held.decode (hw : w.Held) (hmono : h.toWindowHooks.Monotone) {scheduled : List Int}
    {ledger : DecodeReservations}
    (hdecoding : ∀ s ∈ decoding, ∃ seq, w.seqs s = some (seq, .decoding))
    (hrun : h.reserveDecodeWindows w.seqAt decoding w.ledger = (.ok none, ledger))
    (hscheduled : ∀ s ∈ scheduled, s ∈ decoding ∧ (w.seqAt s).isRecomputeReplay = false ∧
      (w.seqAt s).submitted < (w.seqAt s).maxTokens) :
    ({ w with ledger := ledger }.submit scheduled).Held := by
  have hafter := hw.reserved hmono hdecoding hrun
  have hneeds := (reserveDecodeWindows_windows hmono hrun).2 rfl
  intro s stop hstop
  obtain ⟨seq, hseq, hle, hmax⟩ := hafter s stop hstop
  simp only at hseq
  by_cases hs : s ∈ scheduled
  · obtain ⟨hin, hreplay, hlt⟩ := hscheduled s hs
    have hnone := hneeds s hin
    -- the sequence needs no window, so the one that it has is not used up
    have hroom : seq.submitted < stop := by
      by_contra hfull
      rw [seqAt_of hseq] at hlt hreplay
      have : ledger.needsAcquisition w.seqAt s = true := by
        rw [needsAcquisition, seqAt_of hseq, if_neg]
        · simp [hlt, hreplay]
        · rintro ⟨stop', hstop', hlt'⟩
          have heq : stop' = stop := Option.some.inj ((Option.mem_def.1 hstop').symm.trans hstop)
          omega
      rw [hnone] at this
      cases this
    refine ⟨{ seq with numPendingOutputs := seq.numPendingOutputs + 1 }, ?_, ?_, hmax⟩
    · simp only [submit, if_pos hs, hseq, Option.map_some]
    · simp only [WindowSeq.submitted] at hroom ⊢
      omega
  · exact ⟨seq, by simp only [submit, if_neg hs, hseq], hle, hmax⟩

theorem Held.step {w' : WindowWorld} (hw : w.Held) (hstep : Step w w') : w'.Held := by
  have hown : ∀ {seqId : Int} {seq : WindowSeq} {phase : WindowPhase} {stop : Int},
      w.seqs seqId = some (seq, phase) → w.ledger.requests.get? seqId = some stop →
      phase = .decoding ∧ seq.submitted ≤ stop ∧ stop ≤ seq.maxTokens := fun hseq hstop => by
    obtain ⟨seq', hseq', hbounds⟩ := hw _ _ hstop
    rw [hseq] at hseq'
    cases hseq'
    exact ⟨rfl, hbounds⟩
  cases hstep with
  | arrive seqId maxTokens hnew =>
    refine hw.update fun stop hstop => ?_
    obtain ⟨seq, hseq, -⟩ := hw seqId stop hstop
    rw [hnew] at hseq
    cases hseq
  | prefill hseq =>
    refine hw.update fun stop hstop => ?_
    cases (hown hseq hstop).1
  | reserve h decoding hmono hdecoding hrun => exact hw.reserved hmono hdecoding hrun
  | decode h decoding scheduled hmono hdecoding hrun hscheduled =>
    exact hw.decode hmono hdecoding hrun hscheduled
  | collect hseq _ =>
    refine hw.update fun stop hstop => ?_
    obtain ⟨hphase, hle, hmax⟩ := hown hseq hstop
    simp only [WindowSeq.submitted] at hle ⊢
    exact ⟨hphase, by omega, hmax⟩
  | discard hseq _ =>
    refine hw.update fun stop hstop => ?_
    obtain ⟨hphase, hle, hmax⟩ := hown hseq hstop
    simp only [WindowSeq.submitted] at hle ⊢
    exact ⟨hphase, by omega, hmax⟩
  | preempt hseq _ => exact hw.release _ _ _
  | finishReplay hseq =>
    refine hw.update fun stop hstop => ?_
    obtain ⟨hphase, hle, hmax⟩ := hown hseq hstop
    exact ⟨rfl, hle, hmax⟩
  | release hseq => exact hw.release _ _ _

theorem Reachable.held (h : Reachable w) : w.Held := by
  induction h with
  | start hcreate =>
    unfold DecodeReservations.create at hcreate
    split at hcreate
    · cases hcreate
      intro s stop hstop
      cases hstop
    · cases hcreate
  | step _ hstep ih => exact ih.step hstep

/-- With a monotone cost hook: a renewal keeps the running total a fresh one. -/
theorem decode_window_ledger (hmono : hooks.Monotone) (seqs : Int → WindowSeq) (budgets : Costs)
    (reserve : Costs) (allowShort : Bool) :
    (∀ r seqId out out' r', r.needsAcquisition seqs seqId = true →
      SameCosts out (outstanding hooks seqs none r) →
      acquireOne hooks seqs seqId out budgets reserve allowShort r = (.ok (some out'), r') →
      SameCosts out' (outstanding hooks seqs none r')) ∧
    (∀ seqIds r, match acquireMany hooks seqs seqIds allowShort reserve (some budgets) r with
      | (.ok res, r') => Granted hooks seqs budgets reserve allowShort r seqIds res r' ∧
          (∀ s, r.needsAcquisition seqs s = false ∨ s ∉ seqIds ∨ res = some s →
            r'.requests.get? s = r.requests.get? s)
      | (.error _, r') => ∃ done seqId rest, seqIds = done ++ seqId :: rest ∧
          Granted hooks seqs budgets reserve allowShort r done none r' ∧
          Misnamed hooks seqs budgets r' seqId) ∧
    ∀ w, Reachable w → ∀ s stop, w.ledger.requests.get? s = some stop →
      0 ≤ stop - (w.seqAt s).submitted ∧
        stop - (w.seqAt s).submitted ≤ (w.seqAt s).maxTokens - (w.seqAt s).submitted := by
  refine ⟨fun r seqId out out' r' hneeds hout hrun => ?_, fun seqIds r => ?_, fun w hw s stop hstop => ?_⟩
  · have hspec := @acquireOne_spec hooks seqs r seqId out budgets reserve hmono hneeds hout allowShort
    rw [hrun] at hspec
    obtain ⟨tokens, -, -, hsame⟩ := hspec
    exact hsame
  · have hspec := @acquireLoop_spec hooks seqs budgets reserve hmono allowShort seqIds none r
      (fun o ho => by cases ho)
    simp only [acquireMany, Option.getD_some]
    generalize acquireLoop hooks seqs budgets reserve allowShort seqIds none r = x at hspec ⊢
    obtain ⟨e | res, r'⟩ := x
    · obtain ⟨done, seqId, rest, hsplit, hpass, -, hmis⟩ := hspec
      exact ⟨done, seqId, rest, hsplit, hpass, hmis⟩
    · refine ⟨hspec, fun s hs => ?_⟩
      rcases hs with hs | hs | hs
      · exact Granted.kept hspec (.inl hs)
      · exact Granted.kept hspec (.inr hs)
      · subst hs
        exact (Granted.refused hspec).2.1
  · obtain ⟨seq, hseq, hle, hmax⟩ := hw.held s stop hstop
    rw [seqAt_of hseq]
    omega

def demoHooks : WindowHooks := ⟨fun _ tokens => Dict.empty.set "slots" tokens, Dict.empty.set "slots" 6⟩

theorem demoHooks_monotone : demoHooks.Monotone := by
  intro seqId n m hnm name cost hcost
  simp only [demoHooks, Dict.get?_set, Dict.get?_empty] at hcost ⊢
  split at hcost
  · next hname =>
    cases hcost
    exact ⟨m, if_pos hname, hnm⟩
  · cases hcost

def demoSeqs (s : Int) : WindowSeq := ⟨1, 0, if s = 0 then 4 else 20, false⟩

def demoLedger : DecodeReservations := ⟨5, by decide, .empty⟩

def demoReserveHooks : ReserveHooks :=
  { demoHooks with
    promptAdmissionBudgets := .empty
    reservedPrefillSlots := 0
    chainSlots := none
    chainCapacityKeys := none
    kvTransformerLayerIndices := []
    mixedPrefixStepReclaimableSlots := 0 }

/-- A sequence ends its prefill, gets a window of three tokens and decodes one of them. -/
theorem demoWorld_reachable : ∃ w, Reachable w ∧ w.ledger.requests.get? 0 = some 4 ∧
    w.seqAt 0 = ⟨0, 2, 4, false⟩ := by
  have arrived : Reachable (.update ⟨fun _ => none, demoLedger⟩ 0 ⟨0, 0, 4, false⟩ .waiting) :=
    .step (@Reachable.start demoLedger 5 rfl) (.arrive 0 4 rfl)
  have prefilled := arrived.step (@Step.prefill _ 0 _ rfl)
  refine ⟨_, prefilled.step (.decode demoReserveHooks [0] [0] demoHooks_monotone
    (List.forall_mem_singleton.mpr ⟨_, rfl⟩) rfl
    (List.forall_mem_singleton.mpr ⟨List.mem_singleton_self _, rfl, by decide⟩)), rfl, rfl⟩

theorem decode_window_ledger_two :
    (∃ r', acquireMany demoHooks demoSeqs [0, 1] false .empty
        (some demoHooks.decodeWindowBudgets) demoLedger = (.ok (some 1), r') ∧
      Granted demoHooks demoSeqs demoHooks.decodeWindowBudgets .empty false demoLedger [0, 1]
        (some 1) r') ∧
    ∃ w, Reachable w ∧ w.ledger.requests.get? 0 = some 4 ∧ 0 ≤ 4 - (w.seqAt 0).submitted := by
  obtain ⟨-, calls, runs⟩ :=
    decode_window_ledger demoHooks_monotone demoSeqs demoHooks.decodeWindowBudgets .empty false
  refine ⟨?_, ?_⟩
  · have hrun : acquireMany demoHooks demoSeqs [0, 1] false .empty
        (some demoHooks.decodeWindowBudgets) demoLedger =
          (.ok (some 1), ⟨5, by decide, Dict.empty.set 0 4⟩) := rfl
    have h := calls [0, 1] demoLedger
    rw [hrun] at h
    exact ⟨_, hrun, h.1⟩
  · obtain ⟨w, reachable, stop, -⟩ := demoWorld_reachable
    exact ⟨w, reachable, stop, (runs w reachable 0 4 stop).1⟩

end WindowWorld

end SparseEngine
