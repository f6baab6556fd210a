import SparseEngine.DataParallel.Identity

/-! What each operation of a replica leaves of its sequences and chains. -/

namespace SparseEngine.DataParallel

open List Function Finset Dict Replica

variable {ι β : Type} [DecidableEq ι]

namespace Replica

/-- A replica goes on without the sequences of `ended`. -/
structure Shrinks (ended : Finset Nat) (r r' : Replica ι) : Prop where
  counter : r.counter ≤ r'.counter
  running : ∀ l ∈ r'.running, l ∈ r.running ∧ l ∉ ended
  records : ∀ c holding, r'.records.get? c = some holding →
    ∃ state, r.records.get? c = some ⟨holding.seqId, state⟩
  survives : ∀ c l, r.records.get? c = some ⟨l, .active⟩ → l ∉ ended →
    r'.records.get? c = some ⟨l, .active⟩

variable {n : Nat} {r r' r'' : Replica ι} {ended : Finset Nat}

theorem Shrinks.refl (r : Replica ι) : Shrinks ∅ r r where
  counter := le_rfl
  running l h := ⟨h, Finset.notMem_empty l⟩
  records _ holding h := ⟨holding.state, h⟩
  survives _ _ h _ := h

theorem Shrinks.trans (first : Shrinks ∅ r r') (second : Shrinks ended r' r'') :
    Shrinks ended r r'' where
  counter := first.counter.trans second.counter
  running l h := ⟨(first.running l (second.running l h).1).1, (second.running l h).2⟩
  records c holding h := by
    obtain ⟨state, between⟩ := second.records c holding h
    obtain ⟨state', before⟩ := first.records c ⟨holding.seqId, state⟩ between
    exact ⟨state', before⟩
  survives c l h hl := second.survives c l (first.survives c l h (Finset.notMem_empty l)) hl

theorem shrinks_count (r : Replica ι) : Shrinks ∅ r r.count :=
  { Shrinks.refl r with counter := Nat.le_succ _ }

variable {c : ι}

theorem shrinks_evict (h : r.evict n c = some r') : Shrinks ∅ r r' := by
  unfold evict at h
  split at h
  · next l hc =>
    cases h
    refine { Shrinks.refl r with records := ?_, survives := ?_ }
    · intro other holding hother
      simp only [removeRecord, get?_erase] at hother
      split at hother
      · cases hother
      · exact ⟨holding.state, hother⟩
    · intro other l' hother _
      refine (get?_erase_ne _ ?_).trans hother
      rintro rfl
      cases hc.symm.trans hother
  · cases h

theorem shrinks_evictAll : ∀ {chainIds : List ι} {r r' : Replica ι},
    r.evictAll n chainIds = some r' → Shrinks ∅ r r'
  | [], r, r', h => by
    cases h
    exact Shrinks.refl r
  | c :: chainIds, r, r', h => by
    obtain ⟨r₁, first, rest⟩ := Option.bind_eq_some_iff.mp h
    exact (shrinks_evict first).trans (shrinks_evictAll rest)

variable {l : Nat}

theorem shrinks_drop (hc : ∀ holding, r.records.get? c = some holding → holding.seqId = l) :
    Shrinks {l} r ({ r with running := r.running.erase l }.removeRecord n c) where
  counter := le_rfl
  running l' h := ⟨mem_of_mem_erase h, by simpa using (mem_erase.mp h).1⟩
  records other holding h := by
    simp only [removeRecord, get?_erase] at h
    split at h
    · cases h
    · exact ⟨holding.state, h⟩
  survives other l' h hl' := by
    refine (get?_erase_ne _ ?_).trans h
    rintro rfl
    exact hl' (Finset.mem_singleton.mpr (hc _ h))

theorem shrinks_abortRequest (l : Nat) (r : Replica ι) : Shrinks {l} r (r.abortRequest n l) := by
  unfold abortRequest
  cases hfind : r.records.entries.find? fun entry => decide (entry.2.seqId = l) with
  | none =>
    have owns : ∀ c holding, r.records.get? c = some holding → holding.seqId ≠ l := by
      intro c holding h
      have := find?_eq_none.mp hfind (c, holding) (Dict.mem_entries.mpr h)
      simpa using this
    exact
      { counter := le_rfl
        running := fun l' h =>
          ⟨mem_of_mem_erase h, by simpa using (mem_erase.mp h).1⟩
        records := fun _ holding h => ⟨holding.state, h⟩
        survives := fun _ _ h _ => h }
  | some entry =>
    have same : entry.2.seqId = l := by simpa using find?_some hfind
    have hentry : r.records.get? entry.1 = some entry.2 :=
      Dict.mem_entries.mp (mem_of_find?_eq_some hfind)
    refine shrinks_drop ?_
    intro holding h
    exact (Option.some.inj (hentry.symm.trans h)) ▸ same

theorem shrinks_discardChain (h : r.discardChain n c l = some (true, r')) : Shrinks {l} r r' := by
  unfold discardChain at h
  split at h
  · cases h
  · next holding hc =>
    split at h
    · next same =>
      cases h
      refine shrinks_drop ?_
      intro holding' h'
      exact (Option.some.inj (hc.symm.trans h')) ▸ same
    · cases h

theorem discardChain_false (h : r.discardChain n c l = some (false, r')) : r' = r := by
  unfold discardChain at h
  split at h
  · cases h
    rfl
  · split at h <;> cases h

variable {outcome : StepOutcome ι β}

theorem shrinks_step (h : r.step n outcome = some r') : Shrinks outcome.ended.toFinset r r' := by
  unfold step at h
  split at h
  · obtain ⟨r₁, hevict, rfl⟩ := Option.map_eq_some_iff.mp h
    refine (shrinks_evictAll hevict).trans ?_
    refine ⟨le_rfl, ?_, ?_, ?_⟩
    · exact fun l hl => mem_sdiff.mp hl
    · intro c holding hc
      rw [Dict.get?_mapValues] at hc
      obtain ⟨before, hbefore, rfl⟩ := Option.map_eq_some_iff.mp hc
      refine ⟨before.state, hbefore.trans (congrArg some ?_)⟩
      unfold finishTurn
      split <;> rfl
    · intro c l hc hl
      rw [Dict.get?_mapValues, hc]
      have : l ∉ outcome.ended := fun h => hl (List.mem_toFinset.mpr h)
      simp [finishTurn, this]
  · cases h

theorem reported_running (h : (r.step n outcome).isSome) :
    ∀ l ∈ outcome.reported, l ∈ r.running := by
  unfold step at h
  split at h
  · assumption
  · cases h

theorem step_contains (h : r.step n outcome = some r') (hc : r.records.get? c = some ⟨l, .active⟩) :
    r'.records.contains c := by
  unfold step at h
  split at h
  · obtain ⟨r₁, hevict, rfl⟩ := Option.map_eq_some_iff.mp h
    rw [Dict.contains_iff]
    have := (shrinks_evictAll hevict).survives c l hc (Finset.notMem_empty l)
    exact ⟨_, (Dict.get?_mapValues _ _ _).trans (congrArg (Option.map _) this)⟩
  · cases h

theorem makeWay_spec {turn : Turn ι} {victims : List ι}
    (h : r.makeWay n turn victims = some (l, r')) :
    Shrinks ∅ r r' ∧ r.counter < r'.counter ∧
      (l = r.counter ∨ ∃ c holding, r.records.get? c = some holding ∧ holding.seqId = l) ∧
      (turnChain turn = none → l = r.counter) ∧
      ∀ c, turnChain turn = some c → turn.drawn = some c ∨
        r'.records.get? c = some ⟨l, .idle⟩ := by
  have counted : ∀ {keys r'}, r.count.evictAll n keys = some r' →
      Shrinks ∅ r r' ∧ r.counter < r'.counter := by
    intro keys r' h
    have shrinks := shrinks_evictAll h
    exact ⟨(shrinks_count r).trans shrinks, (Nat.lt_succ_self _).trans_le shrinks.counter⟩
  unfold makeWay at h
  cases turn with
  | plain =>
    cases h
    exact ⟨shrinks_count r, Nat.lt_succ_self _, .inl rfl, fun _ => rfl, fun _ h => by cases h⟩
  | created chainId =>
    obtain ⟨r₁, hevict, same⟩ := Option.map_eq_some_iff.mp h
    cases same
    obtain ⟨shrinks, lt⟩ := counted hevict
    exact ⟨shrinks, lt, .inl rfl, fun _ => rfl, fun _ h => .inl h⟩
  | resumed chainId =>
    obtain ⟨r₁, hevict, rest⟩ := Option.bind_eq_some_iff.mp h
    obtain ⟨shrinks, lt⟩ := counted hevict
    split at rest
    · next l' hc =>
      cases rest
      obtain ⟨state, before⟩ := shrinks.records chainId _ hc
      refine ⟨shrinks, lt, .inr ⟨chainId, _, before, rfl⟩, (fun h => by cases h), ?_⟩
      intro c same
      exact .inr (Option.some.inj same ▸ hc)
    · cases rest
  | recreated replaced chainId =>
    dsimp only at h
    split at h
    · next l' hc =>
      obtain ⟨r₁, hevict, same⟩ := Option.map_eq_some_iff.mp h
      cases same
      obtain ⟨shrinks, lt⟩ := counted hevict
      exact ⟨shrinks, lt, .inr ⟨replaced, _, hc, rfl⟩, (fun h => by cases h), fun _ h => .inl h⟩
    · cases h

theorem listed (hc : r.records.contains c) : ∀ chain ∈ r.reply, c ∈ known chain := by
  intro chain hchain
  unfold reply at hchain
  split at hchain
  · cases hchain
    obtain ⟨⟨l, state⟩, h⟩ := Dict.contains_iff.mp hc
    have member : c ∈ r.chainsIn state := by
      simp only [chainsIn, List.mem_toFinset, List.mem_map, List.mem_filter, decide_eq_true_eq,
        Prod.exists, exists_and_right, exists_eq_right]
      exact ⟨⟨l, state⟩, Dict.mem_entries.mpr h, rfl⟩
    unfold known routingSnapshot
    cases state with
    | active => exact Finset.mem_union_left _ (Finset.mem_union_left _ member)
    | idle => exact Finset.mem_union_left _ (Finset.mem_union_right _ member)
  · cases hchain

end Replica

theorem none_ends (ending : Finset Nat) : ∀ g, (none : Option Nat) = some g → g ∈ ending :=
  fun _ h => nomatch h

theorem World.call_eq (rank : Nat) (r : Replica ι) (w : World ι) :
    w.call rank r =
      { w with
        engine := w.engine.receive rank r.reply
        replicas := update w.replicas rank r.replied } := by
  simp [World.call, World.receive]

namespace Kept

variable {w : World ι} {rank : Nat}

theorem shrink (ended : Nat → Finset Nat) (more : Finset Nat) {replicas : Nat → Replica ι}
    (kept : Kept ∅ w)
    (shrinks : ∀ rank, Shrinks (ended rank) (w.replicas rank) (replicas rank))
    (hended : ∀ rank g l, w.engine.owners.get? g = some (rank, l) →
      (g ∈ more ↔ l ∈ ended rank)) :
    Kept more { w with replicas := replicas } := by
  refine kept.replace (empty_subset _) (fun rank => (shrinks rank).counter) ?_
    (fun rank => (shrinks rank).records) ?_
  · intro rank l hl
    obtain ⟨before, going⟩ := (shrinks rank).running l hl
    exact ⟨before, fun g hg howner => going ((hended rank g l howner).mp hg)⟩
  · intro rank c l hc g _ hg howner _
    exact (shrinks rank).survives c l hc fun h => hg ((hended rank g l howner).mpr h)

theorem shrinkOne {r : Replica ι} {l g : Nat} (kept : Kept ∅ w)
    (howner : w.engine.owners.get? g = some (rank, l))
    (shrinks : Shrinks {l} (w.replicas rank) r) :
    Kept (insert g ∅) { w with replicas := update w.replicas rank r } := by
  refine kept.shrink (fun other => if other = rank then {l} else ∅) _ ?_ ?_
  · intro other
    by_cases same : other = rank
    · subst same
      simpa using shrinks
    · simpa [same] using Shrinks.refl (w.replicas other)
  · intro other g' l' h
    simp only [insert_empty_eq, Finset.mem_singleton]
    by_cases hg : g' = g
    · subst hg
      obtain ⟨rfl, rfl⟩ := Prod.mk.inj (Option.some.inj (h.symm.trans howner))
      simp
    · refine iff_of_false hg ?_
      split
      · next same =>
        subst same
        intro hl
        obtain rfl := Finset.mem_singleton.mp hl
        exact hg (Option.some.inj
          (((kept.inverse _ _).mp h).symm.trans ((kept.inverse _ _).mp howner)))
      · exact Finset.notMem_empty l'

theorem shrinkIdle {r : Replica ι} (kept : Kept ∅ w)
    (shrinks : Shrinks ∅ (w.replicas rank) r) :
    Kept ∅ { w with replicas := update w.replicas rank r } := by
  refine kept.shrink (fun _ => ∅) ∅ ?_ (fun _ _ _ _ => by simp)
  intro other
  by_cases same : other = rank
  · subst same
    simpa using shrinks
  · simpa [same] using Shrinks.refl (w.replicas other)

variable {ending : Finset Nat}

theorem reply (ended : Option Nat) (kept : Kept ending w) (hended : ∀ g, ended = some g → g ∈ ending)
    (spared : ¬ ForgetsReplaced rank (w.replicas rank).reply ended w.engine) :
    Kept ending (w.receive rank) := by
  have received := kept.receive hended (fun chain hchain c l hc =>
    Replica.listed (Dict.contains_iff.mpr ⟨_, hc⟩) chain hchain) spared
  refine received.remember ?_ ?_ ?_ <;>
  · intro other
    by_cases same : other = rank
    · subst same
      simp [replied]
    · simp [same]

theorem endCall {r : Replica ι} {l g : Nat} (kept : Kept ∅ w)
    (howner : w.engine.owners.get? g = some (rank, l))
    (shrinks : Shrinks {l} (w.replicas rank) r)
    (spared : ¬ ForgetsReplaced rank r.reply (some g) w.engine) :
    Kept ∅ { w.call rank r with engine := (w.call rank r).engine.dropRequest rank g } := by
  have called : Kept (insert g ∅) (w.call rank r) := by
    refine (kept.shrinkOne howner shrinks).reply (some g) ?_ ?_
    · intro g' same
      exact Option.some.inj same ▸ mem_insert_self g ∅
    · simpa using spared
  have active : (w.call rank r).engine.active = w.engine.active := by
    show (w.engine.receive rank _).active = _
    cases hsnap : (update w.replicas rank r rank).reply with
    | none => rfl
    | some chain =>
      exact (Trimmed.forgetAll (P := fun _ => False) (K := fun _ => False) _ _
        (fun _ _ h => h) (fun _ _ _ _ h => h)).active
  have only : ∀ other, g ∈ (w.call rank r).engine.active other → other = rank := by
    intro other h
    rw [active] at h
    obtain ⟨l', hl'⟩ := kept.owned other g h (Finset.notMem_empty g)
    exact (Prod.mk.inj (Option.some.inj (hl'.symm.trans howner))).1
  refine called.finish only ?_
  · -- Only the chain mark and the identity of `g` go.
    have unmarked : ∀ (e : Engine ι) chainSeqIds,
        Trimmed (· ≠ g) (fun _ => True) e { e with chainSeqIds := chainSeqIds } := fun e _ =>
      ⟨rfl, rfl, fun _ _ h => h, fun _ _ => rfl, fun h => h, fun _ _ h => ⟨h, rfl⟩,
        fun _ _ h => h, fun _ _ => rfl⟩
    exact (unmarked _ _).trans (Trimmed.release (fun h => h rfl) _)

variable {setup : Setup}

theorem abortRequest (kept : Kept ∅ w) {g : Nat}
    (spared : Spared (β := β) setup w (.abortRequest g)) : Kept ∅ (w.abortRequest setup g) := by
  unfold World.abortRequest
  unfold Spared Event.replies at spared
  cases howner : w.engine.owners.get? g with
  | none => exact kept
  | some identity =>
    obtain ⟨rank, l⟩ := identity
    simp only [howner, List.mem_singleton, forall_eq] at spared
    exact kept.endCall howner (shrinks_abortRequest l _) spared

theorem discardChain (kept : Kept ∅ w) {c : ι} {g : Nat}
    (spared : ∀ reply ∈ Event.replies.discard setup w c g,
      ¬ ForgetsReplaced reply.1 reply.2.1.reply reply.2.2 w.engine) :
    Kept ∅ (w.discardChain setup c g) := by
  unfold World.discardChain
  unfold Event.replies.discard at spared
  cases howner : w.engine.owners.get? g with
  | none => exact kept
  | some identity =>
    obtain ⟨rank, l⟩ := identity
    simp only [howner] at spared ⊢
    split
    · cases hdiscard : (w.replicas rank).discardChain setup.maxTombstones c l with
      | none => exact kept
      | some result =>
        obtain ⟨discarded, r⟩ := result
        simp only [hdiscard, List.mem_singleton, forall_eq] at spared
        cases discarded with
        | false =>
          have same := discardChain_false hdiscard
          subst same
          have idle : Kept ∅ (w.call rank (w.replicas rank)) := by
            refine (kept.shrinkIdle (Shrinks.refl _)).reply none (none_ends ∅) ?_
            simpa using spared
          exact idle
        | true => exact kept.endCall howner (shrinks_discardChain hdiscard) spared
    · exact kept

theorem invalidateRecord {c : ι} {n : Nat} (kept : Kept ∅ w) (hc : w.recordedSequence c = none) :
    Kept ∅ { w with
      replicas := update w.replicas rank ((w.replicas rank).removeRecord n c) } := by
  have others : ∀ r, r ≠ rank → update w.replicas rank
      ((w.replicas rank).removeRecord n c) r = w.replicas r := fun r ne => by simp [ne]
  refine kept.replace (Finset.Subset.refl _) ?_ ?_ ?_ ?_
  · intro r
    by_cases same : r = rank
    · subst same
      simp [removeRecord]
    · rw [others r same]
  · intro r l hl
    refine ⟨?_, fun g h => absurd h (Finset.notMem_empty g)⟩
    by_cases same : r = rank
    · subst same
      simpa [removeRecord] using hl
    · exact others r same ▸ hl
  · intro r other holding h
    refine ⟨holding.state, ?_⟩
    by_cases same : r = rank
    · subst same
      simp only [update_self, removeRecord, get?_erase] at h
      split at h
      · cases h
      · exact h
    · exact others r same ▸ h
  · intro r other l h g _ _ howner hseq
    by_cases same : r = rank
    · subst same
      simp only [update_self, removeRecord]
      refine (get?_erase_ne _ ?_).trans h
      -- The chain of an owned request would have been discarded through the request.
      rintro rfl
      unfold World.recordedSequence at hc
      rw [hseq] at hc
      have owned : w.engine.owners.contains g := Dict.contains_iff.mpr ⟨_, howner⟩
      simp [Option.filter, owned] at hc
    · rw [others r same]
      exact h

theorem invalidateChain (kept : Kept ∅ w) {c : ι}
    (spared : Spared (β := β) setup w (.invalidateChain c)) :
    Kept ∅ (w.invalidateChain setup c) := by
  unfold World.invalidateChain
  unfold Spared Event.replies at spared
  cases hrecorded : w.recordedSequence c with
  | some g =>
    simp only [hrecorded] at spared
    exact kept.discardChain spared
  | none =>
    simp only [hrecorded] at spared
    unfold Replica.invalidateChain at spared ⊢
    simp only
    by_cases known : (w.replicas ((w.engine.chainOwners.get? c).getD 0)).records.contains c
    · simp only [known, ↓reduceIte, List.mem_singleton, forall_eq] at spared ⊢
      refine (kept.invalidateRecord hrecorded).reply none (none_ends ∅) ?_
      simpa using spared
    · simp only [known, Bool.false_eq_true, ↓reduceIte]
      exact kept

theorem failCall (kept : Kept ∅ w) {counted : Nat} {evicted abandoned : List ι} {w' : World ι}
    (h : w.failCall setup rank counted evicted abandoned = some w') : Kept ∅ w' := by
  obtain ⟨r, hevict, rfl⟩ := Option.map_eq_some_iff.mp h
  have shrinks : Shrinks ∅ (w.replicas rank)
      { r with
        counter := r.counter + counted
        tombstones := abandoned.foldl
          (fun tombstones c => addTombstone setup.maxTombstones c tombstones)
          r.tombstones } :=
    { shrinks_evictAll hevict with
      counter := (shrinks_evictAll hevict).counter.trans (Nat.le_add_right _ _) }
  have idle := kept.shrinkIdle shrinks
  exact
    { idle with
      recorded := fun key g hkey =>
        ⟨(idle.recorded key g hkey).1, Finset.mem_union_left _ (idle.recorded key g hkey).2⟩
      holdings := fun r c holding hc =>
        ⟨Finset.mem_union_left _ (idle.holdings r c holding hc).1,
          (idle.holdings r c holding hc).2⟩ }

theorem admitRequest (kept : Kept ∅ w) {turn : Turn ι} {victims : List ι} {w' : World ι}
    (fresh : ∀ c ∈ turn.drawn, c ∉ w.drawn)
    (spared : Spared (β := β) setup w (.admitRequest rank turn victims))
    (h : w.admitRequest setup rank turn victims = some w') : Kept ∅ w' := by
  obtain ⟨⟨admission, r⟩, haccept, rfl⟩ := Option.map_eq_some_iff.mp h
  unfold Spared Event.replies at spared
  simp only [haccept, List.mem_singleton, forall_eq] at spared
  obtain ⟨⟨l, r₀⟩, hway, same⟩ := Option.map_eq_some_iff.mp haccept
  obtain ⟨rfl, rfl⟩ := Prod.mk.inj same
  obtain ⟨shrinks, lt, hseq, hplain, hchain⟩ := makeWay_spec hway
  have hl : l < r₀.counter := by
    rcases hseq with rfl | ⟨c, holding, hc, rfl⟩
    · exact lt
    · exact (kept.holdings rank c _ hc).2.trans lt
  set r := r₀.addTurn (turnChain turn) l with hr
  -- The snapshot is read when the turn has started; it lists what was there before as well.
  have made := kept.shrinkIdle shrinks
  have lists : ∀ chain ∈ r.reply, ∀ c l', (update w.replicas rank r₀ rank).records.get? c =
      some ⟨l', .active⟩ → c ∈ known chain := by
    intro chain hmem c l' hc
    refine Replica.listed ?_ chain hmem
    rw [Dict.contains_iff, hr, addTurn_records]
    split
    · exact ⟨_, rfl⟩
    · exact ⟨_, by simpa using hc⟩
  have received := made.receive (none_ends ∅) lists spared
  show Kept ∅
    { w.call rank r with
      engine := ((w.call rank r).engine.admitRequest rank ⟨l, turnChain turn⟩).2
      drawn := w.drawn ∪ turn.drawn.toFinset
      admitted := (((w.call rank r).engine.admitRequest rank ⟨l, turnChain turn⟩).1,
        (rank, l)) :: w.admitted }
  rw [World.call_eq]
  · have start := received.start rank l (turnChain turn) (w.drawn ∪ turn.drawn.toFinset)
      (update w.replicas rank r.replied) Prod.mk.eta.symm ?_ ?_ ?_ ?_ ?_
      subset_union_left ?_ ?_
    · exact start
    · intro other ne
      simp [ne]
    · simp [replied, hr]
    · simp [replied, hr]
    · intro key
      simp [replied, hr, addTurn_records]
    · simpa using hl
    · intro hnone
      -- The sequence of a request without a chain is new.
      cases hid : (w.engine.receive rank r.reply).globalIds.get? (rank, l) with
      | none => rfl
      | some g =>
        have entry := World.mem_of_admittedAs
          (received.latest g (rank, l) ((received.inverse _ _).mpr hid))
        have := kept.counted g rank l entry
        exact absurd (hplain hnone ▸ this) (Nat.lt_irrefl _)
    · intro c hc
      rcases hchain c hc with hdrawn | idle
      · exact ⟨by simp [hdrawn], .inl (fresh c hdrawn)⟩
      · refine ⟨?_, .inr (by simpa using idle)⟩
        exact Finset.mem_union_left _ (made.holdings rank c _ (by simpa using idle)).1

end Kept

end SparseEngine.DataParallel
