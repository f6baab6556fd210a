import SparseEngine.DataParallel.Calls

/-! A step collects a reply of every replica, reads the snapshots and translates the rows. -/

namespace SparseEngine.DataParallel

open Replica Engine Prod

variable {ι β : Type} [DecidableEq ι]

theorem Engine.receive_trimmed (rank : Nat) (snapshot : Option (ChainRoutingSnapshot ι))
    (e : Engine ι) : Trimmed (fun _ => False) (fun _ => False) e (e.receive rank snapshot) := by
  cases snapshot with
  | none => exact Trimmed.refl e
  | some chain => exact Trimmed.forgetAll _ _ (fun _ _ h => h) fun _ _ _ _ h => h

variable {rank : Nat} {e : Engine ι}

theorem ForgetsReplaced.mono {P : Nat → Prop} {K : ι → Prop}
    {snapshot : Option (ChainRoutingSnapshot ι)} {ended : Option Nat} {e' : Engine ι}
    (trimmed : Trimmed P K e e') (h : ForgetsReplaced rank snapshot ended e') :
    ForgetsReplaced rank snapshot ended e := by
  obtain ⟨chain, hchain, key, hkey, g, hg, hended, hseq, other, ne, hother⟩ := h
  obtain ⟨home, unknown⟩ := mem_expired.mp hkey
  exact ⟨chain, hchain, key, mem_expired.mpr ⟨trimmed.homes key rank home, unknown⟩, g,
    trimmed.active ▸ hg, hended, (trimmed.sequences key g hseq).1, other, ne,
    (trimmed.sequences other g hother).1⟩

def Engine.receiveAll (snapshots : Nat → Option (ChainRoutingSnapshot ι)) (order : List Nat)
    (e : Engine ι) : Engine ι :=
  order.foldl (fun e rank => e.receive rank (snapshots rank)) e

theorem World.receive_foldl : ∀ {order : List Nat} (w : World ι), order.Nodup →
    ∃ replicas, order.foldl World.receive w =
        { w with
          engine := w.engine.receiveAll (fun rank => (w.replicas rank).reply) order
          replicas := replicas } ∧
      ∀ rank, (replicas rank).counter = (w.replicas rank).counter ∧
        (replicas rank).running = (w.replicas rank).running ∧
        (replicas rank).records = (w.replicas rank).records
  | [], w, _ => ⟨w.replicas, rfl, fun _ => ⟨rfl, rfl, rfl⟩⟩
  | rank :: order, w, nodup => by
    obtain ⟨notMem, nodup⟩ := List.nodup_cons.mp nodup
    obtain ⟨replicas, hfold, same⟩ := World.receive_foldl (w.receive rank) nodup
    refine ⟨replicas, ?_, ?_⟩
    · rw [List.foldl_cons, hfold]
      have replies : ∀ e, ∀ other ∈ order,
          Engine.receive other ((w.receive rank).replicas other).reply e =
            Engine.receive other (w.replicas other).reply e := by
        intro e other hother
        have ne : other ≠ rank := fun same => notMem (same ▸ hother)
        simp [World.receive, ne]
      have := List.foldl_ext
        (fun e other => Engine.receive other ((w.receive rank).replicas other).reply e)
        (fun e other => Engine.receive other (w.replicas other).reply e)
        (w.receive rank).engine replies
      unfold receiveAll
      rw [this]
      rfl
    · intro other
      obtain ⟨counter, running, records⟩ := same other
      by_cases ne : other = rank
      · subst ne
        simpa [World.receive, replied] using And.intro counter (And.intro running records)
      · simpa [World.receive, ne] using And.intro counter (And.intro running records)

theorem Kept.receiveAll {snapshots : Nat → Option (ChainRoutingSnapshot ι)} :
    ∀ {order : List Nat} {w : World ι}, Kept ∅ w →
      (∀ rank ∈ order, ∀ chain ∈ snapshots rank, ∀ c l,
        (w.replicas rank).records.get? c = some ⟨l, .active⟩ → c ∈ known chain) →
      (∀ rank ∈ order, ¬ ForgetsReplaced rank (snapshots rank) none w.engine) →
      Kept ∅ { w with engine := w.engine.receiveAll snapshots order }
  | [], _, kept, _, _ => kept
  | rank :: order, w, kept, lists, spared => by
    have head := kept.receive (none_ends ∅) (lists rank List.mem_cons_self)
      (spared rank List.mem_cons_self)
    refine head.receiveAll ?_ ?_
    · exact fun other h => lists other (List.mem_cons_of_mem _ h)
    · intro other h forgets
      exact spared other (List.mem_cons_of_mem _ h)
        (forgets.mono (receive_trimmed rank (snapshots rank) w.engine))

omit [DecidableEq ι] in
theorem Engine.translate_spec : ∀ {rows : List (Nat × β)},
    (∀ row ∈ rows, (e.globalIds.get? (rank, row.1)).isSome) →
    ∃ out, e.translate rank rows = some out ∧
      out.map (map some id) = rows.map fun row => (e.globalIds.get? (rank, row.1), row.2)
  | [], _ => ⟨[], rfl, rfl⟩
  | (l, payload) :: rows, h => by
    obtain ⟨g, hg⟩ := Option.isSome_iff_exists.mp (h (l, payload) List.mem_cons_self)
    obtain ⟨out, hout, same⟩ :=
      translate_spec fun row hrow => h row (List.mem_cons_of_mem (l, payload) hrow)
    refine ⟨(g, payload) :: out, ?_, ?_⟩
    · unfold translate at hout ⊢
      simp [List.mapM_cons, hg, hout]
    · simp [hg, same]

/-- What a rank of `step` leaves of the other ranks. -/
structure OtherRanks (rank : Nat) (e e' : Engine ι) : Prop where
  active : ∀ other, other ≠ rank → e'.active other = e.active other
  globalIds : ∀ other l, other ≠ rank → e'.globalIds.get? (other, l) = e.globalIds.get? (other, l)

omit [DecidableEq ι] in
theorem OtherRanks.trans {e' e'' : Engine ι} (first : OtherRanks rank e e')
    (second : OtherRanks rank e' e'') : OtherRanks rank e e'' where
  active other ne := (second.active other ne).trans (first.active other ne)
  globalIds other l ne := (second.globalIds other l ne).trans (first.globalIds other l ne)

theorem Engine.finishRequest_others {g : Nat} (inverse : e.Inverse)
    (home : ∀ i, e.owners.get? g = some i → i.1 = rank) :
    OtherRanks rank e (e.finishRequest rank g) := by
  have trimmed : Trimmed (· ≠ g) (fun _ => True) (e.deactivate rank g) (e.finishRequest rank g) :=
    Trimmed.release (fun h => h rfl) _
  have inverse' : (e.finishRequest rank g).Inverse := trimmed.inverse inverse
  refine ⟨fun other ne => ?_, fun other l ne => Option.ext fun g' => ?_⟩
  · rw [trimmed.active]
    simp [deactivate, ne]
  · rw [← inverse' g' (other, l), ← inverse g' (other, l)]
    constructor
    · exact trimmed.owners g' _
    · intro h
      refine (trimmed.spared g' ?_).trans h
      rintro rfl
      exact ne (home _ h)

theorem Kept.finishAll : ∀ {gs : List Nat} {ending : Finset Nat} {w : World ι},
    Kept (gs.toFinset ∪ ending) w →
    (∀ g ∈ gs, ∀ r, g ∈ w.engine.active r → r = rank) →
    (∀ g ∈ gs, ∀ i, w.engine.owners.get? g = some i → i.1 = rank) →
    Kept ending { w with engine := gs.foldl (finishRequest rank) w.engine } ∧
      OtherRanks rank w.engine (gs.foldl (finishRequest rank) w.engine)
  | [], ending, w, kept, _, _ => by
    refine ⟨?_, fun _ _ => rfl, fun _ _ _ => rfl⟩
    simpa using kept
  | g :: gs, ending, w, kept, only, home => by
    have trimmed : Trimmed (· ≠ g) (fun _ => True) (w.engine.deactivate rank g)
        (w.engine.finishRequest rank g) := Trimmed.release (fun h => h rfl) _
    have head : Kept (gs.toFinset ∪ ending)
        { w with engine := w.engine.finishRequest rank g } := by
      have kept' : Kept (insert g (gs.toFinset ∪ ending)) w := by
        simpa [List.toFinset_cons, Finset.insert_union] using kept
      exact kept'.finish (only g List.mem_cons_self) trimmed
    have others := finishRequest_others kept.inverse (home g List.mem_cons_self)
    have smaller : ∀ g' r, g' ∈ (w.engine.finishRequest rank g).active r →
        g' ∈ w.engine.active r := by
      intro g' r h
      rw [trimmed.active] at h
      simp only [deactivate, Function.update_apply] at h
      split at h
      · next same => exact same ▸ Finset.mem_of_mem_erase h
      · exact h
    obtain ⟨keptRest, othersRest⟩ := Kept.finishAll head
      (fun g' h r hr => only g' (List.mem_cons_of_mem _ h) r (smaller g' r hr))
      (fun g' h i hi => home g' (List.mem_cons_of_mem _ h) i (trimmed.owners g' i hi))
    exact ⟨keptRest, others.trans othersRest⟩

def World.endingOn (outcome : Nat → StepOutcome ι β) (ranks : List Nat) (w : World ι) : List Nat :=
  ranks.flatMap fun rank => (outcome rank).ended.filterMap fun l => w.admittedAs (rank, l)

def World.named (rows : Nat → List (Nat × β)) (ranks : List Nat) (w : World ι) :
    List (Option Nat × β) :=
  ranks.flatMap fun rank => (rows rank).map fun row => (w.admittedAs (rank, row.1), row.2)

/-- The output of `step` has the rows of some ranks after those of `before`. -/
structure Appends (outcome : Nat → StepOutcome ι β) (ranks : List Nat) (w : World ι)
    (before after : StepOutput β) : Prop where
  finished : after.finished.map (map some id) =
    before.finished.map (map some id) ++ w.named (StepOutcome.outputs ∘ outcome) ranks
  tokens : after.tokens.map (map some id) =
    before.tokens.map (map some id) ++ w.named (StepOutcome.tokens ∘ outcome) ranks
  hits : after.hits.map (map some id) =
    before.hits.map (map some id) ++ w.named (StepOutcome.hits ∘ outcome) ranks
  logprobs : after.logprobs.map (map some id) =
    before.logprobs.map (map some id) ++ w.named (StepOutcome.logprobs ∘ outcome) ranks

variable {w : World ι}

theorem Kept.translate {ending : Finset Nat} (kept : Kept ending w) {rows : List (Nat × β)}
    (h : ∀ row ∈ rows, (w.engine.globalIds.get? (rank, row.1)).isSome) :
    ∃ out, w.engine.translate rank rows = some out ∧
      out.map (map some id) = rows.map fun row => (w.admittedAs (rank, row.1), row.2) := by
  obtain ⟨out, hout, same⟩ := translate_spec h
  refine ⟨out, hout, same.trans (List.map_congr_left fun row hrow => ?_)⟩
  obtain ⟨g, hg⟩ := Option.isSome_iff_exists.mp (h row hrow)
  rw [hg, kept.latest g _ ((kept.inverse _ _).mpr hg)]

omit [DecidableEq ι] in
theorem filterMap_of_named {rows out : List (Nat × β)}
    (h : out.map (map some id) = rows.map fun row => (w.admittedAs (rank, row.1), row.2)) :
    (rows.map fst).filterMap (fun l => w.admittedAs (rank, l)) = out.map fst := by
  have firsts : (rows.map fst).map (fun l => w.admittedAs (rank, l)) =
      (out.map fst).map some := by
    have := congrArg (List.map fst) h
    simp only [List.map_map] at this ⊢
    exact this.symm
  calc (rows.map fst).filterMap (fun l => w.admittedAs (rank, l))
      = ((rows.map fst).map fun l => w.admittedAs (rank, l)).filterMap id := by
        simp [List.filterMap_map]
    _ = ((out.map fst).map some).filterMap id := by rw [firsts]
    _ = out.map fst := by simp [List.filterMap_map]

omit [DecidableEq ι] in
theorem StepOutcome.mem_reported (outcome : StepOutcome ι β) {row : Nat × β}
    (h : row ∈ outcome.outputs ∨ row ∈ outcome.tokens ∨ row ∈ outcome.hits ∨
      row ∈ outcome.logprobs) : row.1 ∈ outcome.reported := by
  unfold StepOutcome.reported
  exact List.mem_map_of_mem (by simpa [or_assoc] using h)

theorem Kept.readRecords {outcome : Nat → StepOutcome ι β} : ∀ {ranks : List Nat} {w : World ι}
    (before : StepOutput β), ranks.Nodup → Kept (w.endingOn outcome ranks).toFinset w →
    (∀ rank ∈ ranks, ∀ l ∈ (outcome rank).reported, ∃ g ∈ w.engine.active rank,
      w.engine.globalIds.get? (rank, l) = some g) →
    ∃ e after, ranks.foldlM (readRecord outcome) (w.engine, before) = some (e, after) ∧
      Kept ∅ { w with engine := e } ∧ Appends outcome ranks w before after
  | [], w, before, _, kept, _ =>
    ⟨w.engine, before, rfl, kept, by simp [World.named], by simp [World.named],
      by simp [World.named], by simp [World.named]⟩
  | rank :: ranks, w, before, nodup, kept, rows => by
    obtain ⟨notMem, nodup⟩ := List.nodup_cons.mp nodup
    have present : ∀ rows' : List (Nat × β), (∀ row ∈ rows', row.1 ∈ (outcome rank).reported) →
        ∀ row ∈ rows', (w.engine.globalIds.get? (rank, row.1)).isSome := by
      intro rows' reported row hrow
      obtain ⟨g, -, hg⟩ := rows rank List.mem_cons_self row.1 (reported row hrow)
      exact hg ▸ rfl
    obtain ⟨outputs, houtputs, namedOutputs⟩ := kept.translate
      (present (outcome rank).outputs fun row h => (outcome rank).mem_reported (by simp [h]))
    obtain ⟨tokens, htokens, namedTokens⟩ := kept.translate
      (present (outcome rank).tokens fun row h => (outcome rank).mem_reported (by simp [h]))
    obtain ⟨hits, hhits, namedHits⟩ := kept.translate
      (present (outcome rank).hits fun row h => (outcome rank).mem_reported (by simp [h]))
    obtain ⟨logprobs, hlogprobs, namedLogprobs⟩ := kept.translate
      (present (outcome rank).logprobs fun row h => (outcome rank).mem_reported (by simp [h]))
    -- The requests of the finished rows are active on this rank and nowhere else.
    have ends := filterMap_of_named namedOutputs
    have owner : ∀ g ∈ outputs.map fst, g ∈ w.engine.active rank ∧
        ∃ l, w.engine.owners.get? g = some (rank, l) := by
      intro g hg
      rw [← ends] at hg
      obtain ⟨l, hl, hadmitted⟩ := List.mem_filterMap.mp hg
      obtain ⟨row, hrow, rfl⟩ := List.mem_map.mp hl
      obtain ⟨g', active, hid⟩ := rows rank List.mem_cons_self row.1
        ((outcome rank).mem_reported (by simp [hrow]))
      have howner := (kept.inverse _ _).mpr hid
      obtain rfl := Option.some.inj ((kept.latest g' _ howner).symm.trans hadmitted)
      exact ⟨active, row.1, howner⟩
    have ending : Kept ((outputs.map fst).toFinset ∪ (w.endingOn outcome ranks).toFinset) w := by
      rw [← ends, ← List.toFinset_append]
      exact kept
    obtain ⟨finished, others⟩ := ending.finishAll
      (fun g hg r hr => kept.apart r rank g hr (owner g hg).1) (by
        intro g hg i hi
        obtain ⟨l, hl⟩ := (owner g hg).2
        exact (congrArg fst (Option.some.inj (hl.symm.trans hi))).symm)
    set e₁ := (outputs.map fst).foldl (finishRequest rank) w.engine
    have finished₁ : Kept (World.endingOn outcome ranks { w with engine := e₁ }).toFinset
        { w with engine := e₁ } := finished
    have rowsLeft : ∀ other ∈ ranks, ∀ l ∈ (outcome other).reported,
        ∃ g ∈ e₁.active other, e₁.globalIds.get? (other, l) = some g := by
      intro other hother l hl
      have ne : other ≠ rank := fun same => notMem (same ▸ hother)
      obtain ⟨g, active, hid⟩ := rows other (List.mem_cons_of_mem _ hother) l hl
      exact ⟨g, (others.active other ne).symm ▸ active, (others.globalIds other l ne).trans hid⟩
    obtain ⟨e, after, hfold, keptRest, appends⟩ := Kept.readRecords
      { finished := before.finished ++ outputs
        tokens := before.tokens ++ tokens
        hits := before.hits ++ hits
        logprobs := before.logprobs ++ logprobs } nodup finished₁ rowsLeft
    refine ⟨e, after, ?_, keptRest, ?_⟩
    · rw [List.foldlM_cons]
      have record : readRecord outcome (w.engine, before) rank =
          some (e₁,
            { finished := before.finished ++ outputs
              tokens := before.tokens ++ tokens
              hits := before.hits ++ hits
              logprobs := before.logprobs ++ logprobs }) := by
        simp [readRecord, houtputs, htokens, hhits, hlogprobs, e₁]
      rw [record]
      exact hfold
    · have rest : Appends outcome ranks w _ after :=
        { appends with }
      constructor
      · simpa [World.named, namedOutputs] using rest.finished
      · simpa [World.named, namedTokens] using rest.tokens
      · simpa [World.named, namedHits] using rest.hits
      · simpa [World.named, namedLogprobs] using rest.logprobs

variable {setup : Setup}

theorem Kept.step (kept : Kept ∅ w) {order : List Nat} {outcome : Nat → StepOutcome ι β}
    (can : w.CanStep setup order outcome) (spared : Spared setup w (.step order outcome)) :
    ∃ w' out, w.step setup order outcome = some (w', out) ∧ Kept ∅ w' ∧
      Appends outcome (List.range setup.size) w {} out := by
  obtain ⟨perm, possible⟩ := can
  have nodup : order.Nodup := perm.nodup_iff.mpr List.nodup_range
  have stepped : ∀ rank ∈ List.range setup.size,
      (w.replicas rank).step setup.maxTombstones (outcome rank) =
        some ((w.stepped setup outcome).replicas rank) := by
    intro rank hrank
    obtain ⟨r, hr⟩ := Option.isSome_iff_exists.mp (possible rank hrank)
    simp [World.stepped, List.mem_range.mp hrank, hr]
  set snapshots := fun rank => ((w.stepped setup outcome).replicas rank).reply
  have lists : ∀ rank ∈ order, ∀ chain ∈ snapshots rank, ∀ c l,
      (w.replicas rank).records.get? c = some ⟨l, .active⟩ → c ∈ known chain := by
    intro rank hrank chain hchain c l hc
    exact listed (step_contains (stepped rank (perm.mem_iff.mp hrank)) hc)
      chain hchain
  have spares : ∀ rank ∈ order, ¬ ForgetsReplaced rank (snapshots rank) none w.engine := by
    intro rank hrank
    exact spared (rank, (w.stepped setup outcome).replicas rank, none)
      (List.mem_map.mpr ⟨rank, perm.mem_iff.mp hrank, rfl⟩)
  -- The snapshots list the chains that were ACTIVE before the step, so they are read first.
  have received := kept.receiveAll lists spares
  obtain ⟨replicas, hfold, same⟩ := World.receive_foldl (w.stepped setup outcome) nodup
  set e₀ := w.engine.receiveAll snapshots order
  have shrinks : ∀ rank, Shrinks
      (if rank ∈ List.range setup.size then (outcome rank).ended.toFinset else ∅)
      (w.replicas rank) (replicas rank) := by
    intro rank
    obtain ⟨counter, running, records⟩ := same rank
    have shrinks' : Shrinks
        (if rank ∈ List.range setup.size then (outcome rank).ended.toFinset else ∅)
        (w.replicas rank) ((w.stepped setup outcome).replicas rank) := by
      split
      · next h => exact shrinks_step (stepped rank h)
      · next h =>
        rw [List.mem_range] at h
        simpa [World.stepped, h] using Shrinks.refl (w.replicas rank)
    exact
      { counter := counter.symm ▸ shrinks'.counter
        running := fun l h => shrinks'.running l (running ▸ h)
        records := fun c holding h => shrinks'.records c holding (records ▸ h)
        survives := fun c l h hl => records.symm ▸ shrinks'.survives c l h hl }
  have ending := received.shrink _ (w.endingOn outcome (List.range setup.size)).toFinset shrinks (by
    intro rank g l howner
    have admitted := received.latest g _ howner
    simp only [World.endingOn, List.mem_toFinset, List.mem_flatMap, List.mem_filterMap]
    constructor
    · rintro ⟨r, hr, l', hl', hg⟩
      obtain ⟨rfl, rfl⟩ := mk.inj (kept.single g _ _ (World.mem_of_admittedAs hg)
        (World.mem_of_admittedAs admitted))
      simpa [List.mem_range.mp hr] using hl'
    · intro hl
      split at hl
      · next hr => exact ⟨rank, hr, l, List.mem_toFinset.mp hl, admitted⟩
      · exact absurd hl (Finset.notMem_empty l))
  have rows : ∀ rank ∈ List.range setup.size, ∀ l ∈ (outcome rank).reported,
      ∃ g ∈ e₀.active rank, e₀.globalIds.get? (rank, l) = some g := by
    intro rank hrank l hl
    obtain ⟨g, active, -, hid⟩ :=
      received.runs rank l (reported_running (possible rank hrank) l hl)
    exact ⟨g, active, hid⟩
  obtain ⟨e, out, hread, keptEnd, appends⟩ :=
    Kept.readRecords (w := { w with engine := e₀, replicas := replicas }) {} List.nodup_range
      ending rows
  refine ⟨{ w with engine := e, replicas := replicas }, out, ?_, keptEnd,
    { appends with }⟩
  unfold World.step Engine.step
  rw [hfold]
  show Option.map _ ((List.range setup.size).foldlM (readRecord outcome) (e₀, {})) = _
  rw [hread]
  rfl

theorem Kept.apply {w' : World ι} (kept : Kept ∅ w) {event : Event ι β}
    (allowed : event.Allowed setup w) (spared : Spared setup w event)
    (h : event.apply setup w = some w') : Kept ∅ w' := by
  cases event with
  | admitRequest rank turn victims => exact kept.admitRequest allowed.2 spared h
  | step order outcome =>
    obtain ⟨w'', out, hstep, kept', -⟩ := kept.step allowed spared
    obtain ⟨result, hresult, rfl⟩ := Option.map_eq_some_iff.mp h
    obtain rfl := Option.some.inj (hstep.symm.trans hresult)
    exact kept'
  | abortRequest g =>
    cases h
    exact kept.abortRequest spared
  | discardChain c g =>
    cases h
    exact kept.discardChain spared
  | invalidateChain c =>
    cases h
    exact kept.invalidateChain spared
  | query rank =>
    cases h
    exact kept.reply none (none_ends ∅) (spared (rank, w.replicas rank, none) (by simp [Event.replies]))
  | failCall rank counted evicted abandoned => exact kept.failCall h

theorem Kept.of_run (run : Run β setup (Spared setup) w) : Kept ∅ w := by
  induction run with
  | refl => exact Kept.initial
  | tail _ next kept =>
    obtain ⟨event, allowed, spared, h⟩ := next
    exact kept.apply allowed spared h

/-- In a run whose replies forget no replaced chain of a request that goes on, the identities are
sound in every state, and every further such step translates its rows. -/
theorem identified_of_spared {setup : Setup} {w : World ι} (run : Run β setup (Spared setup) w) :
    Identified β setup (Spared setup) w := by
  have kept := Kept.of_run run
  refine ⟨kept.inverse, fun rank g hg => kept.owned rank g hg (Finset.notMem_empty g), kept.single,
    kept.counted, ?_⟩
  intro order outcome can spared
  obtain ⟨w', out, hstep, -, appends⟩ := kept.step can spared
  exact ⟨w', out, hstep, appends.finished, appends.tokens, appends.hits, appends.logprobs⟩

def oneReplica : Setup := ⟨1, 1, Nat.one_pos⟩

def runCalls (setup : Setup) (w : World ι) (calls : List (Event ι β)) : World ι :=
  calls.foldl (fun w event => (event.apply setup w).getD w) w

/-- Each of the calls is allowed and forgets no replaced chain. -/
def SparedCalls (setup : Setup) : World ι → List (Event ι β) → Prop
  | _, [] => True
  | w, event :: calls => event.Allowed setup w ∧ Spared setup w event ∧
      ∃ w' ∈ event.apply setup w, SparedCalls setup w' calls

instance decidableSparedCalls (setup : Setup) : ∀ (w : World ι) (calls : List (Event ι β)),
    Decidable (SparedCalls setup w calls)
  | _, [] => .isTrue trivial
  | w, event :: calls =>
    have : DecidablePred fun w' => SparedCalls setup w' calls :=
      fun w' => decidableSparedCalls setup w' calls
    inferInstanceAs (Decidable (event.Allowed setup w ∧ Spared setup w event ∧
      ∃ w' ∈ event.apply setup w, SparedCalls setup w' calls))

theorem run_runCalls : ∀ {calls : List (Event ι β)} {w : World ι}, Run β setup (Spared setup) w →
    SparedCalls setup w calls → Run β setup (Spared setup) (runCalls setup w calls)
  | [], _, run, _ => run
  | event :: calls, w, run, ⟨allowed, spared, w', applied, rest⟩ => by
    have next := run_runCalls (run.tail ⟨event, allowed, spared, applied⟩) rest
    simpa only [runCalls, List.foldl_cons, Option.mem_def.mp applied, Option.getD_some] using next

def twoReplicas : Setup := ⟨2, 1, Nat.one_pos⟩

/-- Chain 0 is created, resumed and replaced by chain 1, which is evicted and makes the frontend
forget chain 0. Chain 2 is aborted, and chain 3 is running. -/
def chainTurns : List (Event Nat Unit) :=
  let finish := .step [0, 1] fun rank => if rank = 1 then { outputs := [(0, ())] } else {}
  [.admitRequest 1 (.created 0) [], finish, .admitRequest 1 (.resumed 0) [], finish,
    .admitRequest 1 (.recreated 0 1) [], finish, .admitRequest 1 (.created 2) [1], .abortRequest 1,
    .admitRequest 1 (.created 3) []]

theorem identified_of_chainTurns :
    Identified Unit twoReplicas (Spared twoReplicas) (runCalls twoReplicas {} chainTurns) :=
  identified_of_spared (run_runCalls .refl (by decide +kernel))

/-- The calls of a run that ends in a `KeyError`. -/
def recreatedCalls : List (Event Nat Unit) :=
  [.admitRequest 0 (.created 0) [], .step [0] fun _ => { outputs := [(0, ())] },
    .admitRequest 0 (.recreated 0 1) [], .admitRequest 0 (.created 2) [], .abortRequest 1]

/-- Chain 1 is running as request 0 when the frontend forgets chain 0, which releases request 0;
the next token of chain 1 has no global id. -/
theorem not_identified :
    ¬ ∀ w : World Nat, Run Unit oneReplica (fun _ _ => True) w →
      Identified Unit oneReplica (fun _ _ => True) w := by
  intro h
  have run : Run Unit oneReplica (fun _ _ => True)
      (runCalls oneReplica ({} : World Nat) recreatedCalls) :=
    .head ⟨.admitRequest 0 (.created 0) [], by decide, trivial, rfl⟩
      (.head ⟨.step [0] fun _ => { outputs := [(0, ())] }, by decide, trivial, rfl⟩
        (.head ⟨.admitRequest 0 (.recreated 0 1) [], by decide, trivial, rfl⟩
          (.head ⟨.admitRequest 0 (.created 2) [], by decide, trivial, rfl⟩
            (.single ⟨.abortRequest 1, trivial, trivial, rfl⟩))))
  obtain ⟨w', out, hstep, -⟩ :=
    (h _ run).translates [0] (fun _ => { tokens := [(0, ())] }) (by decide) trivial
  have raises : ((runCalls oneReplica ({} : World Nat) recreatedCalls).step oneReplica [0]
      fun _ => ({ tokens := [(0, ())] } : StepOutcome Nat Unit)).isNone := by decide
  rw [hstep] at raises
  cases raises

/-- A chain is recorded on one replica, the one that its requests are sent to, and what a scheduler
runs is an active request of its replica alone. -/
theorem chain_affinity {setup : Setup} {w : World ι} (run : Run β setup (Spared setup) w) :
    (∀ rank rank' c, (w.replicas rank).records.contains c → (w.replicas rank').records.contains c →
      rank = rank') ∧
    (∀ key g rank l, w.engine.chainSequences.get? key = some g →
      w.engine.owners.get? g = some (rank, l) → w.engine.chainOwners.get? key = some rank) ∧
    ∀ rank, ∀ l ∈ (w.replicas rank).running, ∃ g, w.engine.globalIds.get? (rank, l) = some g ∧
      ∀ rank', g ∈ w.engine.active rank' ↔ rank' = rank := by
  have kept := Kept.of_run run
  refine ⟨kept.alone, kept.home, fun rank l hl => ?_⟩
  obtain ⟨g, active, -, named⟩ := kept.runs rank l hl
  exact ⟨g, named, fun rank' => ⟨fun h => kept.apart rank' rank g h active, fun h => h ▸ active⟩⟩

theorem chain_affinity_chainTurns :
    (∀ rank, ((runCalls twoReplicas {} chainTurns).replicas rank).records.contains 3 → rank = 1) ∧
      ∃ g, (runCalls twoReplicas {} chainTurns).engine.globalIds.get? (1, 4) = some g ∧
        ∀ rank, g ∈ (runCalls twoReplicas {} chainTurns).engine.active rank ↔ rank = 1 := by
  have run : Run Unit twoReplicas (Spared twoReplicas) (runCalls twoReplicas {} chainTurns) :=
    run_runCalls .refl (by decide +kernel)
  obtain ⟨alone, -, runs⟩ := chain_affinity run
  exact ⟨fun rank h => alone rank 1 3 h (by decide +kernel), runs 1 4 (by decide +kernel)⟩

end SparseEngine.DataParallel
