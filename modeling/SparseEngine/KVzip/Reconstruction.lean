import SparseEngine.KVzip.HeadRows
import SparseEngine.KVzip.SharedRows

/-! Both storages keep the laws of the lifecycle. -/

namespace SparseEngine.KVzip

open HeadRows

variable {State Keep : Type} {S : ReplayStore State Keep} {Same : State → State → Prop}
  {cfg : KVzipConfig} {template : ReconstructionPrompt} {m : Machine State} {start : State}

/-- The rows, their slots and the free slots are those of `s`. -/
structure SameRows (s s' : HeadSlotAllocator) : Prop where
  seqRows : s'.seqRows = s.seqRows
  freeRows : s'.freeRows = s.freeRows
  lengths : ∀ l < s.layers, ∀ r, ∀ h < s.heads, s'.lengths l r h = s.lengths l r h
  cells : ∀ l < s.layers, ∀ r, ∀ h < s.heads, s'.cells l r h = s.cells l r h
  livePositions : ∀ l < s.layers, ∀ r, ∀ h < s.heads, s'.livePositions l r h = s.livePositions l r h
  free : ∀ l < s.layers, (s'.freeIds l : Multiset Int) = s.freeIds l

theorem SameRows.of_view {s s' : HeadSlotAllocator} (h : viewOf s' = viewOf s) :
    SameRows s s' := by
  have hlayers : s'.layers = s.layers := congrArg HeadView.layers h
  have hheads : s'.heads = s.heads := congrArg HeadView.heads h
  have hpairs : ∀ l < s.layers, ∀ r, ∀ k < s.heads, s'.livePairs l r k = s.livePairs l r k := by
    intro l hl r k hk
    have := congrFun (congrFun (congrFun (congrArg HeadView.pairs h) l) r) k
    simpa only [viewOf, hlayers, hheads, hl, hk, and_self, if_true] using this
  refine ⟨congrArg HeadView.seqRows h, congrArg HeadView.freeRows h,
    fun l hl r k hk => ?_, fun l hl r k hk => ?_, fun l hl r k hk => ?_, fun l hl => ?_⟩
  · rw [HeadSlotAllocator.lengths_eq, HeadSlotAllocator.lengths_eq, hpairs l hl r k hk]
  · rw [HeadSlotAllocator.cells_eq, HeadSlotAllocator.cells_eq, hpairs l hl r k hk]
  · rw [HeadSlotAllocator.livePositions_eq, HeadSlotAllocator.livePositions_eq, hpairs l hl r k hk]
  · have := congrFun (congrArg HeadView.free h) l
    simpa only [viewOf, hlayers, hl, if_true] using this

/-- The replays of `q`. -/
structure ReplaysFit (S : ReplayStore State Keep) (Same : State → State → Prop) (cfg : KVzipConfig)
    (template : ReconstructionPrompt) (m : Machine State) (sid : Int) (left : List Replay)
    (q : KVzipSequence) (length : Nat) : Prop where
  request : m.sequences sid = some q
  compressible : q.Compressible cfg length
  next : left <:+ replays cfg template q.contextPrefixLength length (q.tokenIds.take length)
  cover : ((replays cfg template q.contextPrefixLength length (q.tokenIds.take length)).flatMap fun r =>
    List.range' r.chunkStart (r.chunkEnd - r.chunkStart)) =
      List.range' q.contextPrefixLength (length - q.contextPrefixLength)
  attained : ∃ r ∈ replays cfg template q.contextPrefixLength length (q.tokenIds.take length),
    r.tokens.length = replayEstimate cfg template (length - q.contextPrefixLength)
  largest : ∀ r ∈ replays cfg template q.contextPrefixLength length (q.tokenIds.take length),
    r.tokens.length ≤ replayEstimate cfg template (length - q.contextPrefixLength)
  room : ∀ r ∈ replays cfg template q.contextPrefixLength length (q.tokenIds.take length),
    ∀ l < S.layers, r.tokens.length * S.slotsPerToken ≤ S.freeSlots m.store l
  /-- A replay raises what its forward raises. -/
  traceless : ∀ r ∈ replays cfg template q.contextPrefixLength length (q.tokenIds.take length),
    ∀ o, ∃ s, reconstructionChunk S cfg sid q length r o m.store =
        ((S.forward sid length r.tokens.length o m.store).1, s) ∧ Same m.store s

theorem Reachable.replaysFit {L : ReplayLaws S (reconstructionSlotReserve cfg)}
    (hsame : ∀ s s', L.view s' = L.view s → Same s s') (hgood : L.Good start)
    (hempty : ∀ sid, L.Holds start sid 0) (htemplate : setReconstructionPrompt cfg template = .ok template)
    (h : Reachable S cfg template start m) {sid : Int} {left : List Replay}
    {rest : List (Int × List Replay)} (hpending : m.pending = (sid, left) :: rest) :
    ∃ q length, ReplaysFit S Same cfg template m sid left q length := by
  obtain ⟨q, length, hq, hc, hnext, hcover, hattained, hall⟩ :=
    h.replays_sound hgood hempty htemplate hpending
  refine ⟨q, length, hq, hc, hnext, hcover, hattained, fun r hr => (hall r hr).1,
    fun r hr => (hall r hr).2.1, fun r hr o => ?_⟩
  obtain ⟨s, hrun, hview⟩ := (hall r hr).2.2 o
  exact ⟨s, hrun, hsame _ _ hview⟩

/-- With an accepted template, whenever a request of either storage is at its boundary its replays
cover the context, the longest is the estimate, each finds its slots and leaves the rows as they
were. -/
theorem replays_fit (htemplate : setReconstructionPrompt cfg template = .ok template) :
    (∀ (layers slots rows : Nat) (m : Machine SharedRows) (sid : Int) (left : List Replay)
      (rest : List (Int × List Replay)),
      Reachable (SharedRows.replayStore layers cfg.maxModelLen (reconstructionSlotReserve cfg)) cfg
        template (SharedRows.fresh slots rows) m → m.pending = (sid, left) :: rest →
      ∃ q length, ReplaysFit
        (SharedRows.replayStore layers cfg.maxModelLen (reconstructionSlotReserve cfg))
        (fun s s' => s' = s) cfg template m sid left q length) ∧
    ∀ (capacities : List Nat) (heads rows : Nat) (start : HeadSlotAllocator)
      (m : Machine HeadSlotAllocator) (sid : Int) (left : List Replay) (rest : List (Int × List Replay)),
      HeadSlotAllocator.create capacities heads cfg.maxModelLen rows = .ok start →
      Reachable (HeadRows.replayStore capacities.length heads (reconstructionSlotReserve cfg)) cfg
        template start m → m.pending = (sid, left) :: rest →
      ∃ q length, ReplaysFit
        (HeadRows.replayStore capacities.length heads (reconstructionSlotReserve cfg))
        SameRows cfg template m sid left q length := by
  refine ⟨fun layers slots rows m sid left rest hm hpending => ?_,
    fun capacities heads rows start m sid left rest hcreate hm hpending => ?_⟩
  · refine Reachable.replaysFit (L := SharedRows.laws layers cfg.maxModelLen (reconstructionSlotReserve cfg))
      (fun _ _ h => h) (fun l _ => ?_) (fun sid l _ => rfl) htemplate hm hpending
    exact ⟨fun sid sid' row h => by simp [SharedRows.fresh] at h, List.nodup_range,
      fun sid row h => by simp [SharedRows.fresh] at h⟩
  · obtain ⟨hi, hcapacities, -⟩ := HeadSlotAllocator.inv_create hcreate
    have hstart : start = HeadSlotAllocator.fresh capacities heads cfg.maxModelLen rows := by
      unfold HeadSlotAllocator.create at hcreate
      split at hcreate
      · cases hcreate
      · exact (Except.ok.inj hcreate).symm
    refine Reachable.replaysFit (L := HeadRows.laws capacities.length heads (reconstructionSlotReserve cfg))
      (fun _ _ h => .of_view h) ⟨hi, congrArg List.length hcapacities, by rw [hstart]; rfl⟩
      (fun sid => ?_) htemplate hm hpending
    rw [hstart]
    rfl

def demoConfig : KVzipConfig := ⟨8, 4, 1, 1, 1, Nat.one_pos⟩

def demoPrompt : ReconstructionPrompt := ⟨[1], [2], [3]⟩

def demoSequence : KVzipSequence := ⟨[10, 11, 12, 13], some 3, 1, 0⟩

def demoAdmitted (start : State) : Machine State :=
  ⟨start, fun x => if x = 0 then some demoSequence else none, .empty, []⟩

def demoBoundary (S : ReplayStore State Keep) (start : State) : Machine State :=
  { demoAdmitted start with
    store := (S.prefill [(0, 0, 3)] start).2
    sequences := (demoAdmitted start).advance [(0, 3)]
    pending := [(0, [⟨1, 2, [1, 3, 11]⟩, ⟨2, 3, [2, 11, 3, 12]⟩])] }

theorem demoBoundary_reachable (hroom : 3 ≤ S.prefillStepFreeSlots start 0)
    (hrun : (S.prefill [(0, 0, 3)] start).1 = .ok ()) :
    Reachable S demoConfig demoPrompt start (demoBoundary S start) := by
  have hadmission : promptAdmissionCosts demoConfig (some demoPrompt) demoSequence 0 = .ok 0 := rfl
  have hadmit : Reachable S demoConfig demoPrompt start (demoAdmitted start) := by
    refine .admitPrompt 0 demoSequence 0 .start rfl ?_ rfl hadmission
    rintro length hlength
    obtain rfl := Option.some.inj hlength
    decide
  refine hadmit.prefill [(0, 3)] rfl (by decide) ?_ hroom (Prod.ext hrun rfl)
  intro c hc
  obtain rfl := List.mem_singleton.mp hc
  exact ⟨demoSequence, rfl, by decide, by decide⟩

theorem replays_fit_demo :
    (∃ q length, ReplaysFit
      (SharedRows.replayStore 1 demoConfig.maxModelLen (reconstructionSlotReserve demoConfig))
      (fun s s' => s' = s) demoConfig demoPrompt (demoBoundary (SharedRows.replayStore 1
        demoConfig.maxModelLen (reconstructionSlotReserve demoConfig)) (SharedRows.fresh 7 1)) 0
      [⟨1, 2, [1, 3, 11]⟩, ⟨2, 3, [2, 11, 3, 12]⟩] q length) ∧
    ∃ q length, ReplaysFit
      (HeadRows.replayStore [14].length 2 (reconstructionSlotReserve demoConfig)) SameRows demoConfig
      demoPrompt (demoBoundary (HeadRows.replayStore [14].length 2 (reconstructionSlotReserve demoConfig))
        (HeadSlotAllocator.fresh [14] 2 8 1)) 0
      [⟨1, 2, [1, 3, 11]⟩, ⟨2, 3, [2, 11, 3, 12]⟩] q length :=
  ⟨(replays_fit rfl).1 1 7 1 _ 0 _ [] (demoBoundary_reachable (by decide) rfl) rfl,
    (replays_fit rfl).2 [14] 2 1 _ _ 0 _ [] rfl (demoBoundary_reachable (by decide) rfl) rfl⟩

end SparseEngine.KVzip
