import SparseEngine.KVzip.Replays
import SparseEngine.Lib.Dict

/-! The shared-row and the independent-head storage of KVzip run the same lifecycle. -/

namespace SparseEngine.KVzip

open PyM Prod

theorem get_bind_run {σ α : Type} {f : σ → PyM σ α} {s : σ} : (PyM.get >>= f) s = f s s := rfl

theorem raiseIf_bind_run {σ α : Type} {c : Prop} [Decidable c] {e : PyError} {m : PyM σ α} {s : σ} :
    (raiseIf c e >>= fun _ => m) s = if c then (.error e, s) else m s := by
  by_cases hc : c
  · simp only [bind_run, raiseIf, if_pos hc]
  · simp only [bind_run, raiseIf, if_neg hc]

structure ForwardOutcome where
  appends : Nat → Bool
  error : Option PyError

/-- The end of the body of `reconstruction_chunk`. -/
def ForwardOutcome.finish {State : Type} (o : ForwardOutcome) (layers : Nat) : PyM State Unit :=
  match o.error with
  | some e => raise e
  | none =>
    raiseIf (¬ ∀ l < layers, o.appends l = true)
      (.runtimeError "KVzip reconstruction did not score every KV layer.")

theorem ForwardOutcome.finish_state {State : Type} (o : ForwardOutcome) (layers : Nat) (s : State) :
    (o.finish layers s).2 = s := by
  rw [finish]
  cases o.error with
  | some e => rfl
  | none =>
    by_cases hall : ∀ l < layers, o.appends l = true
    · simp only [raiseIf, if_neg (not_not.mpr hall)]
    · simp only [raiseIf, if_pos hall]

structure ReplayStore (State Keep : Type) where
  layers : Nat
  /-- The slots that a token takes in a layer. -/
  slotsPerToken : Nat
  freeSlots : State → Nat → Nat
  /-- The capacity of a prefill step. -/
  prefillStepFreeSlots : State → Nat → Nat
  decodeWindowBudget : State → Nat → Nat
  prefill : List (Int × Nat × Nat) → PyM State Unit
  decode : List (Int × Nat) → PyM State Unit
  /-- The auxiliary forward. -/
  forward : Int → Nat → Nat → ForwardOutcome → PyM State Unit
  /-- `_release_reconstruction_suffix`. -/
  releaseSuffix : Int → Nat → PyM State Unit
  /-- `compact_reconstruction`. -/
  compact : Int → Keep → PyM State Unit
  freeSeq : Int → PyM State Unit

structure ReplayLaws {State Keep : Type} (S : ReplayStore State Keep) (reserve : Nat) where
  Good : State → Prop
  Holds : State → Int → Nat → Prop
  View : Type
  view : State → View
  prefill_spec : ∀ {s s' : State} {batch : List (Int × Nat × Nat)} {outstanding : Nat}, Good s →
    S.prefill batch s = (.ok (), s') → (batch.map fst).Nodup →
    (batch.map fun b => b.2.2).sum ≤ S.prefillStepFreeSlots s outstanding →
    Good s' ∧ (∀ b ∈ batch, ∀ n, Holds s b.1 n → Holds s' b.1 (n + b.2.2)) ∧
      (∀ sid ∉ batch.map fst, ∀ n, Holds s sid n → Holds s' sid n) ∧
      (0 < (batch.map fun b => b.2.2).sum →
        ∀ l < S.layers, reserve * S.slotsPerToken ≤ S.freeSlots s' l)
  decode_spec : ∀ {s s' : State} {batch : List (Int × Nat)}, Good s →
    S.decode batch s = (.ok (), s') → (batch.map fst).Nodup →
    Good s' ∧ ∀ sid ∉ batch.map fst, ∀ n, Holds s sid n → Holds s' sid n
  replay_restores : ∀ {s : State} {sid : Int} {length : Nat} (size : Nat) (o : ForwardOutcome),
    Good s → Holds s sid length → 0 < length →
    ∃ r s₁ s₂, S.forward sid length size o s = (r, s₁) ∧ S.releaseSuffix sid length s₁ = (.ok (), s₂) ∧
      view s₂ = view s ∧ Good s₂ ∧ (∀ x n, Holds s x n → Holds s₂ x n) ∧
      ∀ l < S.layers, S.freeSlots s₂ l = S.freeSlots s l
  compact_spec : ∀ {s s' : State} {sid : Int} {keep : Keep}, Good s →
    S.compact sid keep s = (.ok (), s') →
    Good s' ∧ (∀ x ≠ sid, ∀ n, Holds s x n → Holds s' x n) ∧
      ∀ l < S.layers, S.freeSlots s l ≤ S.freeSlots s' l
  freeSeq_spec : ∀ {s s' : State} {sid : Int}, Good s → S.freeSeq sid s = (.ok (), s') →
    Good s' ∧ Holds s' sid 0 ∧ ∀ x ≠ sid, ∀ n, Holds s x n → Holds s' x n

namespace KVzipSequence

variable (q : KVzipSequence)

/-- The checks of `Sequence(...)`. -/
def WellFormed : Prop :=
  ∀ length, q.contextLength = some length →
    0 < length ∧ length < q.tokenIds.length ∧ q.contextPrefixLength < length

def prefillStageRemaining : Nat :=
  match q.contextLength with
  | some length =>
    (if q.numPrefilledTokens < length then length else q.tokenIds.length) - q.numPrefilledTokens
  | none => q.tokenIds.length - q.numPrefilledTokens

def Compressible (cfg : KVzipConfig) (length : Nat) : Prop :=
  q.contextLength = some length ∧ cfg.kvzipTokenBudget < length - q.contextPrefixLength

/-- After `n` more tokens. -/
def advanced (n : Nat) : KVzipSequence := { q with numPrefilledTokens := q.numPrefilledTokens + n }

end KVzipSequence

variable {State Keep : Type} {S : ReplayStore State Keep}

/-- `reconstruction_chunk` around the auxiliary forward. -/
def reconstructionChunk (S : ReplayStore State Keep) (cfg : KVzipConfig) (sid : Int)
    (seq : KVzipSequence) (length : Nat) (r : Replay) (o : ForwardOutcome) : PyM State Unit := do
  raiseIf (¬ (0 < seq.contextPrefixLength ∧ seq.contextPrefixLength ≤ r.chunkStart ∧
      r.chunkStart < r.chunkEnd ∧ r.chunkEnd ≤ length))
    (.valueError "KVzip score chunk must lie inside the unprotected context.")
  raiseIf (cfg.maxModelLen < length + r.tokens.length)
    (.valueError "KVzip reconstruction exceeds max_model_len.")
  PyM.tryFinally (S.forward sid length r.tokens.length o) (S.releaseSuffix sid length)

/-- A run: the storage, the requests, the tokens of the granted decode windows, and the boundary
requests of the running prefill step with the replays that are left. -/
structure Machine (State : Type) where
  store : State
  sequences : Int → Option KVzipSequence
  windows : Dict Int Nat
  pending : List (Int × List Replay)

namespace Machine

variable (m : Machine State)

/-- `outstanding`. -/
def outstanding : Nat := m.windows.values.sum

def spend (batch : List (Int × Nat)) : Dict Int Nat :=
  batch.foldl (fun windows b => match windows.get? b.1 with
    | none => windows
    | some tokens => windows.set b.1 (tokens - 1)) m.windows

def starts (chunks : List (Int × Nat)) : List (Int × Nat × Nat) :=
  chunks.map fun c => (c.1, ((m.sequences c.1).map (·.numPrefilledTokens)).getD 0, c.2)

def advance (chunks : List (Int × Nat)) : Int → Option KVzipSequence := fun sid =>
  (m.sequences sid).map fun q => q.advanced ((chunks.lookup sid).getD 0)

/-- The requests of a prefill batch that `finish_step` replays. -/
def boundaries (cfg : KVzipConfig) (template : ReconstructionPrompt) (chunks : List (Int × Nat)) :
    List (Int × List Replay) :=
  chunks.filterMap fun c =>
    match m.sequences c.1 with
    | none => none
    | some q =>
      match q.contextLength with
      | none => none
      | some length =>
        if q.numPrefilledTokens < length ∧ q.numPrefilledTokens + c.2 = length ∧
            cfg.kvzipTokenBudget < length - q.contextPrefixLength then
          some (c.1, replays cfg template q.contextPrefixLength length (q.tokenIds.take length))
        else none

def afterReplay (S : ReplayStore State Keep) (cfg : KVzipConfig) (sid : Int) (q : KVzipSequence)
    (length : Nat) (r : Replay) (o : ForwardOutcome) (left : List Replay)
    (rest : List (Int × List Replay)) : Machine State :=
  match reconstructionChunk S cfg sid q length r o m.store with
  | (.ok _, s) => { m with store := s, pending := (sid, left) :: rest }
  | (.error _, s) => { m with store := s, pending := [] }

end Machine

/-- The states of all runs from the store `start`. -/
inductive Reachable (S : ReplayStore State Keep) (cfg : KVzipConfig)
    (template : ReconstructionPrompt) (start : State) : Machine State → Prop
  | start : Reachable S cfg template start ⟨start, fun _ => none, .empty, []⟩
  | admitPrompt {m : Machine State} {costs : Nat} (sid : Int) (q : KVzipSequence) (storageCosts : Nat) :
      Reachable S cfg template start m → m.sequences sid = none → q.WellFormed →
      q.numPrefilledTokens = 0 →
      promptAdmissionCosts cfg (some template) q storageCosts = .ok costs →
      Reachable S cfg template start
        { m with sequences := fun x => if x = sid then some q else m.sequences x }
  | prefill {m : Machine State} {s : State} (chunks : List (Int × Nat)) :
      Reachable S cfg template start m → m.pending = [] → (chunks.map fst).Nodup →
      (∀ c ∈ chunks, ∃ q, m.sequences c.1 = some q ∧ 0 < c.2 ∧ c.2 ≤ q.prefillStageRemaining) →
      (chunks.map snd).sum ≤ S.prefillStepFreeSlots m.store m.outstanding →
      S.prefill (m.starts chunks) m.store = (.ok (), s) →
      Reachable S cfg template start
        { m with store := s, sequences := m.advance chunks, pending := m.boundaries cfg template chunks }
  | replay {m : Machine State} {sid : Int} {q : KVzipSequence} {length : Nat} {r : Replay}
      {left : List Replay} {rest : List (Int × List Replay)} (o : ForwardOutcome) :
      Reachable S cfg template start m → m.pending = (sid, r :: left) :: rest →
      m.sequences sid = some q → q.contextLength = some length →
      Reachable S cfg template start (m.afterReplay S cfg sid q length r o left rest)
  | compact {m : Machine State} {sid : Int} {s : State} {rest : List (Int × List Replay)}
      (keep : Keep) : Reachable S cfg template start m → m.pending = (sid, []) :: rest →
      S.compact sid keep m.store = (.ok (), s) →
      Reachable S cfg template start { m with store := s, pending := rest }
  | grant {m : Machine State} (sid : Int) (tokens : Nat) : Reachable S cfg template start m →
      m.pending = [] → (∀ l < S.layers,
        (tokens + m.outstanding) * S.slotsPerToken ≤ S.decodeWindowBudget m.store l) →
      Reachable S cfg template start { m with windows := m.windows.set sid tokens }
  | decode {m : Machine State} {s : State} (batch : List (Int × Nat)) :
      Reachable S cfg template start m → m.pending = [] → (batch.map fst).Nodup →
      (∀ b ∈ batch, ∃ q, m.sequences b.1 = some q ∧ q.numPrefilledTokens = q.tokenIds.length) →
      S.decode batch m.store = (.ok (), s) →
      Reachable S cfg template start { m with store := s, windows := m.spend batch }
  | free {m : Machine State} {s : State} (sid : Int) : Reachable S cfg template start m →
      m.pending = [] → S.freeSeq sid m.store = (.ok (), s) →
      Reachable S cfg template start { m with
        store := s
        sequences := fun x => if x = sid then none else m.sequences x
        windows := m.windows.erase sid }

structure Admitted (cfg : KVzipConfig) (template : ReconstructionPrompt) (q : KVzipSequence)
    (length : Nat) : Prop where
  prefix_pos : 0 < q.contextPrefixLength
  prefix_lt : q.contextPrefixLength < length
  length_lt : length < q.tokenIds.length
  fits : length + replayEstimate cfg template (length - q.contextPrefixLength) ≤ cfg.maxModelLen

variable {length : Nat}

theorem Admitted.of_ok {cfg : KVzipConfig} {template : ReconstructionPrompt} {q : KVzipSequence}
    {storageCosts costs : Nat} (hq : q.WellFormed)
    (h : promptAdmissionCosts cfg (some template) q storageCosts = .ok costs)
    (hc : q.Compressible cfg length) : Admitted cfg template q length := by
  obtain ⟨hpos, t, ht, hfits⟩ := promptAdmissionCosts_ok h hc.1 hc.2
  obtain rfl := Option.some.inj ht
  exact ⟨hpos, (hq length hc.1).2.2, (hq length hc.1).2.1, hfits⟩

/-- A pending request stands at its boundary, and `left` are the last of its replays. -/
structure AtBoundary (cfg : KVzipConfig) (template : ReconstructionPrompt) (q : KVzipSequence)
    (length : Nat) (left : List Replay) : Prop where
  compressible : q.Compressible cfg length
  boundary : q.numPrefilledTokens = length
  suffix : left <:+ replays cfg template q.contextPrefixLength length (q.tokenIds.take length)

variable {cfg : KVzipConfig} {template : ReconstructionPrompt} {m : Machine State} {start : State}

/-- Between steps every replay that is due has its reserve. -/
structure Inv (L : ReplayLaws S (reconstructionSlotReserve cfg)) (template : ReconstructionPrompt)
    (m : Machine State) : Prop where
  good : L.Good m.store
  unknown : ∀ sid, m.sequences sid = none → L.Holds m.store sid 0
  admitted : ∀ sid q length, m.sequences sid = some q → q.Compressible cfg length →
    Admitted cfg template q length
  dense : ∀ sid q length, m.sequences sid = some q → q.Compressible cfg length →
    q.numPrefilledTokens < length → L.Holds m.store sid q.numPrefilledTokens
  pending : ∀ p ∈ m.pending, ∃ q length, m.sequences p.1 = some q ∧
    AtBoundary cfg template q length p.2 ∧ L.Holds m.store p.1 length
  nodup : (m.pending.map fst).Nodup
  room : m.pending ≠ [] → ∀ l < S.layers,
    reconstructionSlotReserve cfg * S.slotsPerToken ≤ S.freeSlots m.store l

variable {chunks : List (Int × Nat)}

theorem mem_boundaries {p : Int × List Replay} (h : p ∈ m.boundaries cfg template chunks) :
    ∃ n q length, (p.1, n) ∈ chunks ∧ m.sequences p.1 = some q ∧ q.Compressible cfg length ∧
      q.numPrefilledTokens < length ∧ q.numPrefilledTokens + n = length ∧
      p.2 = replays cfg template q.contextPrefixLength length (q.tokenIds.take length) := by
  obtain ⟨c, hc, hp⟩ := List.mem_filterMap.mp h
  cases hq : m.sequences c.1 with
  | none => simp only [hq] at hp; cases hp
  | some q =>
    cases hlength : q.contextLength with
    | none => simp only [hq, hlength] at hp; cases hp
    | some length =>
      simp only [hq, hlength] at hp
      split at hp
      · next hcond =>
        obtain rfl := Option.some.inj hp
        exact ⟨c.2, q, length, hc, hq, ⟨hlength, hcond.2.2⟩, hcond.1, hcond.2.1, rfl⟩
      · cases hp

theorem boundaries_nodup (h : (chunks.map fst).Nodup) :
    ((m.boundaries cfg template chunks).map fst).Nodup := by
  have hsub : ((m.boundaries cfg template chunks).map fst).Sublist (chunks.map fst) := by
    rw [Machine.boundaries]
    induction chunks with
    | nil => exact List.Sublist.refl _
    | cons c chunks ih =>
      have ih := ih (List.nodup_cons.mp h).2
      rw [List.filterMap_cons]
      split
      · exact ih.cons _
      · next p hp =>
        have hfst : p.1 = c.1 := by
          split at hp
          · cases hp
          · split at hp
            · cases hp
            · split at hp
              · exact (congrArg fst (Option.some.inj hp)).symm
              · cases hp
        rw [List.map_cons, List.map_cons, hfst]
        exact ih.cons_cons _
  exact h.sublist hsub

variable {sid : Int}

theorem lookup_of_mem (h : (chunks.map fst).Nodup) {n : Nat} (hmem : (sid, n) ∈ chunks) :
    chunks.lookup sid = some n := by
  induction chunks with
  | nil => exact absurd hmem List.not_mem_nil
  | cons c chunks ih =>
    obtain ⟨hc, hrest⟩ := List.nodup_cons.mp h
    rcases List.mem_cons.mp hmem with rfl | hmem
    · exact List.lookup_cons_self
    · have hne : (sid == c.1) = false := beq_eq_false_iff_ne.mpr fun he =>
        hc (List.mem_map.mpr ⟨(sid, n), hmem, he⟩)
      rw [List.lookup_cons, hne]
      exact ih hrest hmem

theorem lookup_of_notMem (h : sid ∉ chunks.map fst) : chunks.lookup sid = none := by
  rw [List.lookup_eq_none_iff]
  intro c hc
  exact bne_iff_ne.mpr fun he => h (List.mem_map.mpr ⟨c, hc, he.symm⟩)

variable {L : ReplayLaws S (reconstructionSlotReserve cfg)}

theorem Inv.prefill (h : Inv L template m) {s : State} (hnodup : (chunks.map fst).Nodup)
    (hchunks : ∀ c ∈ chunks, ∃ q, m.sequences c.1 = some q ∧ 0 < c.2 ∧ c.2 ≤ q.prefillStageRemaining)
    (hsum : (chunks.map snd).sum ≤ S.prefillStepFreeSlots m.store m.outstanding)
    (hrun : S.prefill (m.starts chunks) m.store = (.ok (), s)) :
    Inv L template
      { m with store := s, sequences := m.advance chunks, pending := m.boundaries cfg template chunks } := by
  have hfst : (m.starts chunks).map fst = chunks.map fst := by
    rw [Machine.starts, List.map_map]
    rfl
  have hsnd : (m.starts chunks).map (fun b => b.2.2) = chunks.map snd := by
    rw [Machine.starts, List.map_map]
    rfl
  obtain ⟨hgood, hin, hout, hroom⟩ := L.prefill_spec h.good hrun (hfst ▸ hnodup) (hsnd ▸ hsum)
  rw [hfst] at hout
  rw [hsnd] at hroom
  have hgrow : ∀ c ∈ chunks, ∀ n, L.Holds m.store c.1 n → L.Holds s c.1 (n + c.2) := fun c hc =>
    hin (c.1, _, c.2) (List.mem_map_of_mem hc)
  have hold : ∀ sid q', m.advance chunks sid = some q' → ∃ q, m.sequences sid = some q ∧
      q' = q.advanced ((chunks.lookup sid).getD 0) := fun sid q' hq' => by
    obtain ⟨q, hq, rfl⟩ := Option.map_eq_some_iff.mp hq'
    exact ⟨q, hq, rfl⟩
  -- The rows of a request that has not passed its boundary follow its progress.
  have hdense : ∀ sid q length, m.sequences sid = some q → q.Compressible cfg length →
      q.numPrefilledTokens < length →
      L.Holds s sid (q.numPrefilledTokens + (chunks.lookup sid).getD 0) := by
    intro sid q length hq hc hlt
    have hholds := h.dense sid q length hq hc hlt
    by_cases hsid : sid ∈ chunks.map fst
    · obtain ⟨c, hmem, rfl⟩ := List.mem_map.mp hsid
      rw [lookup_of_mem hnodup hmem, Option.getD_some]
      exact hgrow c hmem _ hholds
    · rw [lookup_of_notMem hsid, Option.getD_none, Nat.add_zero]
      exact hout sid hsid _ hholds
  refine ⟨hgood, fun sid hsid => ?_, fun sid q' length hq' hc => ?_, fun sid q' length hq' hc hlt => ?_,
    fun p hp => ?_, boundaries_nodup hnodup, fun hne l hl => hroom ?_ l hl⟩
  · have hnone : m.sequences sid = none := by
      cases hq : m.sequences sid with
      | none => rfl
      | some q => simp [Machine.advance, hq] at hsid
    refine hout sid (fun hmem => ?_) 0 (h.unknown sid hnone)
    obtain ⟨c, hc, rfl⟩ := List.mem_map.mp hmem
    obtain ⟨q, hq, -⟩ := hchunks c hc
    rw [hnone] at hq
    cases hq
  · obtain ⟨q, hq, rfl⟩ := hold sid q' hq'
    have hq := h.admitted sid q length hq hc
    exact { hq with }
  · obtain ⟨q, hq, rfl⟩ := hold sid q' hq'
    have hlt' : q.numPrefilledTokens < length := lt_of_le_of_lt (Nat.le_add_right _ _) hlt
    exact hdense sid q length hq hc hlt'
  · obtain ⟨n, q, length, hmem, hq, hc, hlt, hend, hp2⟩ := mem_boundaries hp
    have hlookup := lookup_of_mem hnodup hmem
    have hholds := hdense p.1 q length hq hc hlt
    rw [hlookup, Option.getD_some, hend] at hholds
    refine ⟨q.advanced n, length, ?_, ⟨hc, hend, ?_⟩, hholds⟩
    · change (m.sequences p.1).map _ = _
      rw [hq, hlookup]
      rfl
    · rw [hp2]
      exact List.suffix_rfl
  · obtain ⟨p, hp⟩ := List.exists_mem_of_ne_nil _ hne
    obtain ⟨n, q, length, hmem, -⟩ := mem_boundaries hp
    obtain ⟨-, -, hpos, -⟩ := hchunks _ hmem
    exact lt_of_lt_of_le hpos (List.single_le_sum (by simp) _ (List.mem_map_of_mem hmem))

variable {r : Replay}

theorem replay_accepted {q : KVzipSequence} (ha : Admitted cfg template q length)
    (hr : r ∈ replays cfg template q.contextPrefixLength length (q.tokenIds.take length)) :
    (0 < q.contextPrefixLength ∧ q.contextPrefixLength ≤ r.chunkStart ∧ r.chunkStart < r.chunkEnd ∧
      r.chunkEnd ≤ length) ∧ length + r.tokens.length ≤ cfg.maxModelLen := by
  have hsource : (q.tokenIds.take length).length = length := by
    rw [List.length_take, Nat.min_eq_left ha.length_lt.le]
  have hle := length_le_replayEstimate hsource hr
  have hfits := ha.fits
  refine ⟨⟨ha.prefix_pos, ?_⟩, by omega⟩
  obtain ⟨k, hk, rfl⟩ := exists_of_mem_replays hr
  have hpos := cfg.scoreChunk_pos
  simp only [replayAt]
  omega

theorem reconstructionChunk_restores {store : State} (hgood : L.Good store) {q : KVzipSequence}
    (ha : Admitted cfg template q length) (hholds : L.Holds store sid length)
    (hr : r ∈ replays cfg template q.contextPrefixLength length (q.tokenIds.take length))
    (o : ForwardOutcome) :
    ∃ s, reconstructionChunk S cfg sid q length r o store =
        ((S.forward sid length r.tokens.length o store).1, s) ∧
      L.view s = L.view store ∧ L.Good s ∧ (∀ x n, L.Holds store x n → L.Holds s x n) ∧
      ∀ l < S.layers, S.freeSlots s l = S.freeSlots store l := by
  obtain ⟨hrange, hmax⟩ := replay_accepted ha hr
  obtain ⟨res, s₁, s₂, hforward, hrelease, hview, hgood', hholds', hfree⟩ :=
    L.replay_restores r.tokens.length o hgood hholds (lt_of_le_of_lt (Nat.zero_le _) ha.prefix_lt)
  refine ⟨s₂, ?_, hview, hgood', hholds', hfree⟩
  simp only [reconstructionChunk, bind_run, raiseIf, hrange, and_self, not_true_eq_false, if_false,
    if_neg (not_lt.mpr hmax), PyM.tryFinally, hforward, hrelease]

theorem Inv.replay (h : Inv L template m) {q : KVzipSequence} {left : List Replay}
    {rest : List (Int × List Replay)} (o : ForwardOutcome)
    (hpending : m.pending = (sid, r :: left) :: rest) (hq : m.sequences sid = some q)
    (hlength : q.contextLength = some length) :
    Inv L template (m.afterReplay S cfg sid q length r o left rest) := by
  obtain ⟨q', length', hq', hb, hholds⟩ := h.pending (sid, r :: left) (by rw [hpending]; simp)
  obtain rfl : q' = q := Option.some.inj (hq'.symm.trans hq)
  obtain rfl : length' = length := Option.some.inj (hb.compressible.1.symm.trans hlength)
  obtain ⟨s, hrun, -, hgood, hkeep, hfree⟩ := reconstructionChunk_restores h.good
    (h.admitted sid q' length' hq hb.compressible) hholds
    (hb.suffix.subset (List.mem_cons_self)) o
  have hall : ∀ p ∈ (sid, left) :: rest, ∃ q length, m.sequences p.1 = some q ∧
      AtBoundary cfg template q length p.2 ∧ L.Holds s p.1 length := by
    refine List.forall_mem_cons.mpr ⟨⟨q', length', hq, ⟨hb.compressible, hb.boundary,
      (List.suffix_cons r left).trans hb.suffix⟩, hkeep _ _ hholds⟩, fun p hp => ?_⟩
    obtain ⟨q, length, hq, hb, hholds⟩ :=
      h.pending p (by rw [hpending]; exact List.mem_cons_of_mem _ hp)
    exact ⟨q, length, hq, hb, hkeep _ _ hholds⟩
  have hnodup := h.nodup
  rw [hpending] at hnodup
  have hroom : ∀ l < S.layers,
      reconstructionSlotReserve cfg * S.slotsPerToken ≤ S.freeSlots s l := fun l hl => by
    rw [hfree l hl]
    exact h.room (by rw [hpending]; simp) l hl
  rw [Machine.afterReplay, hrun]
  cases (S.forward sid length' r.tokens.length o m.store).1 with
  | ok _ =>
    exact ⟨hgood, fun x hx => hkeep _ _ (h.unknown x hx), h.admitted,
      fun x q length hq hc hlt => hkeep _ _ (h.dense x q length hq hc hlt), hall, hnodup,
      fun _ => hroom⟩
  | error e =>
    exact ⟨hgood, fun x hx => hkeep _ _ (h.unknown x hx), h.admitted,
      fun x q length hq hc hlt => hkeep _ _ (h.dense x q length hq hc hlt), by simp,
      List.nodup_nil, fun hne => absurd rfl hne⟩

theorem Reachable.inv (hgood : L.Good start) (hempty : ∀ sid, L.Holds start sid 0)
    (h : Reachable S cfg template start m) : Inv L template m := by
  induction h with
  | start =>
    exact ⟨hgood, fun sid _ => hempty sid, fun _ _ _ hq => by simp at hq,
      fun _ _ _ hq => by simp at hq, by simp, List.nodup_nil, fun hne => absurd rfl hne⟩
  | @admitPrompt m costs sid q storageCosts _ hsid hwf hzero hadmit ih =>
    have hold : ∀ x q', (if x = sid then some q else m.sequences x) = some q' →
        x = sid ∧ q' = q ∨ x ≠ sid ∧ m.sequences x = some q' := fun x q' hq' => by
      split at hq'
      · next hx => exact Or.inl ⟨hx, (Option.some.inj hq').symm⟩
      · next hx => exact Or.inr ⟨hx, hq'⟩
    refine ⟨ih.good, fun x hx => ih.unknown x ?_, fun x q' length hq' hc => ?_,
      fun x q' length hq' hc hlt => ?_, fun p hp => ?_, ih.nodup, ih.room⟩
    · dsimp only at hx
      split at hx
      · cases hx
      · exact hx
    · rcases hold x q' hq' with ⟨-, rfl⟩ | ⟨-, hq⟩
      · exact Admitted.of_ok hwf hadmit hc
      · exact ih.admitted x q' length hq hc
    · rcases hold x q' hq' with ⟨rfl, rfl⟩ | ⟨-, hq⟩
      · rw [hzero]
        exact ih.unknown x hsid
      · exact ih.dense x q' length hq hc hlt
    · obtain ⟨q', length, hq', hrest⟩ := ih.pending p hp
      refine ⟨q', length, ?_, hrest⟩
      have hne : p.1 ≠ sid := by
        rintro rfl
        rw [hsid] at hq'
        cases hq'
      exact (if_neg hne).trans hq'
  | @prefill m s chunks _ _ hnodup hchunks hsum hrun ih => exact ih.prefill hnodup hchunks hsum hrun
  | @replay m sid q length r left rest o _ hpending hq hlength ih => exact ih.replay o hpending hq hlength
  | @compact m sid s rest keep _ hpending hrun ih =>
    obtain ⟨hgood, hkeep, hfree⟩ := L.compact_spec ih.good hrun
    have hnodup := ih.nodup
    rw [hpending, List.map_cons, List.nodup_cons] at hnodup
    obtain ⟨q, length, hq, hb, -⟩ := ih.pending (sid, []) (by rw [hpending]; simp)
    have hne : ∀ x q', m.sequences x = some q' → ∀ length, q'.Compressible cfg length →
        q'.numPrefilledTokens < length → x ≠ sid := by
      rintro x q' hq' length' hc hlt rfl
      obtain rfl := Option.some.inj (hq'.symm.trans hq)
      obtain rfl := Option.some.inj (hc.1.symm.trans hb.compressible.1)
      exact absurd hb.boundary hlt.ne
    refine ⟨hgood, fun x hx => hkeep x (fun he => ?_) 0 (ih.unknown x hx), ih.admitted,
      fun x q' length' hq' hc hlt => hkeep x (hne x q' hq' length' hc hlt) _
        (ih.dense x q' length' hq' hc hlt), fun p hp => ?_, hnodup.2, fun _ l hl => ?_⟩
    · rw [he, hq] at hx
      cases hx
    · obtain ⟨q', length', hq', hb', hholds⟩ :=
        ih.pending p (by rw [hpending]; exact List.mem_cons_of_mem _ hp)
      refine ⟨q', length', hq', hb', hkeep p.1 (fun he => hnodup.1 ?_) _ hholds⟩
      exact List.mem_map.mpr ⟨p, hp, he⟩
    · exact (ih.room (by rw [hpending]; simp) l hl).trans (hfree l hl)
  | @grant m sid tokens _ hpending _ ih =>
    exact { ih with }
  | @decode m s batch _ hpending hnodup hdone hrun ih =>
    obtain ⟨hgood, hkeep⟩ := L.decode_spec ih.good hrun hnodup
    have hnot : ∀ x q', m.sequences x = some q' → ∀ length, q'.Compressible cfg length →
        q'.numPrefilledTokens < length → x ∉ batch.map fst := by
      intro x q' hq' length hc hlt hmem
      obtain ⟨b, hb, rfl⟩ := List.mem_map.mp hmem
      obtain ⟨q, hq, hfull⟩ := hdone b hb
      obtain rfl := Option.some.inj (hq.symm.trans hq')
      have := (ih.admitted b.1 q length hq hc).length_lt
      omega
    refine ⟨hgood, fun x hx => hkeep x (fun hmem => ?_) 0 (ih.unknown x hx), ih.admitted,
      fun x q' length hq' hc hlt => hkeep x (hnot x q' hq' length hc hlt) _
        (ih.dense x q' length hq' hc hlt), fun p hp => ?_, ih.nodup, fun hne => ?_⟩
    · obtain ⟨b, hb, rfl⟩ := List.mem_map.mp hmem
      obtain ⟨q, hq, -⟩ := hdone b hb
      rw [hx] at hq
      cases hq
    · rw [hpending] at hp
      exact absurd hp List.not_mem_nil
    · exact absurd hpending hne
  | @free m s sid _ hpending hrun ih =>
    obtain ⟨hgood, hzero, hkeep⟩ := L.freeSeq_spec ih.good hrun
    have hold : ∀ x q', (if x = sid then none else m.sequences x) = some q' →
        x ≠ sid ∧ m.sequences x = some q' := fun x q' hq' => by
      split at hq'
      · cases hq'
      · next hx => exact ⟨hx, hq'⟩
    refine ⟨hgood, fun x hx => ?_, fun x q' length hq' hc => ?_, fun x q' length hq' hc hlt => ?_,
      fun p hp => ?_, ih.nodup, fun hne => ?_⟩
    · by_cases hxs : x = sid
      · rw [hxs]
        exact hzero
      · exact hkeep x hxs 0 (ih.unknown x ((if_neg hxs).symm.trans hx))
    · exact ih.admitted x q' length (hold x q' hq').2 hc
    · obtain ⟨hxs, hq⟩ := hold x q' hq'
      exact hkeep x hxs _ (ih.dense x q' length hq hc hlt)
    · rw [hpending] at hp
      exact absurd hp List.not_mem_nil
    · exact absurd hpending hne

theorem Reachable.replays_sound (hgood : L.Good start) (hempty : ∀ sid, L.Holds start sid 0)
    (htemplate : setReconstructionPrompt cfg template = .ok template)
    (h : Reachable S cfg template start m) {left : List Replay} {rest : List (Int × List Replay)}
    (hpending : m.pending = (sid, left) :: rest) :
    ∃ q length, m.sequences sid = some q ∧ q.Compressible cfg length ∧
      left <:+ replays cfg template q.contextPrefixLength length (q.tokenIds.take length) ∧
      ((replays cfg template q.contextPrefixLength length (q.tokenIds.take length)).flatMap fun r =>
        List.range' r.chunkStart (r.chunkEnd - r.chunkStart)) =
        List.range' q.contextPrefixLength (length - q.contextPrefixLength) ∧
      (∃ r ∈ replays cfg template q.contextPrefixLength length (q.tokenIds.take length),
        r.tokens.length = replayEstimate cfg template (length - q.contextPrefixLength)) ∧
      ∀ r ∈ replays cfg template q.contextPrefixLength length (q.tokenIds.take length),
        r.tokens.length ≤ replayEstimate cfg template (length - q.contextPrefixLength) ∧
        (∀ l < S.layers, r.tokens.length * S.slotsPerToken ≤ S.freeSlots m.store l) ∧
        ∀ o, ∃ s, reconstructionChunk S cfg sid q length r o m.store =
            ((S.forward sid length r.tokens.length o m.store).1, s) ∧ L.view s = L.view m.store := by
  have hi := h.inv hgood hempty
  obtain ⟨q, length, hq, hb, hholds⟩ := hi.pending (sid, left) (by rw [hpending]; simp)
  have ha := hi.admitted sid q length hq hb.compressible
  have hsource : (q.tokenIds.take length).length = length := by
    rw [List.length_take, Nat.min_eq_left ha.length_lt.le]
  obtain ⟨hmax, hattained⟩ := @replayEstimate_max cfg template _ _ _ hsource ha.prefix_lt
  have hreserve : replayEstimate cfg template (length - q.contextPrefixLength) ≤
      reconstructionSlotReserve cfg := by
    have hbudget := hb.compressible.2
    have hfits := ha.fits
    rw [reconstructionSlotReserve, if_neg (by omega)]
    exact replayEstimate_le htemplate _
  refine ⟨q, length, hq, hb.compressible, hb.suffix, replays_cover ha.prefix_lt.le, hattained,
    fun r hr => ⟨hmax r hr, fun l hl => ?_, fun o => ?_⟩⟩
  · exact (Nat.mul_le_mul_right _ ((hmax r hr).trans hreserve)).trans
      (hi.room (by rw [hpending]; simp) l hl)
  · obtain ⟨s, hrun, hview, -⟩ := reconstructionChunk_restores hi.good ha hholds hr o
    exact ⟨s, hrun, hview⟩

end SparseEngine.KVzip
