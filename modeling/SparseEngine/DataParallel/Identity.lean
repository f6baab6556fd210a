import SparseEngine.DataParallel.World

/-! An identity is created on admission and released where its request ends, or where a snapshot no
longer lists a chain that was recorded for it. -/

namespace SparseEngine.DataParallel

open List Function Finset Dict Engine

variable {ι β : Type} [DecidableEq ι]

def Engine.Inverse (e : Engine ι) : Prop :=
  ∀ seqId identity, e.owners.get? seqId = some identity ↔ e.globalIds.get? identity = some seqId

/-- Identities were released and chains forgotten, but not the identities of `P` nor the chains
of `K`. -/
structure Trimmed (P : Nat → Prop) (K : ι → Prop) (e e' : Engine ι) : Prop where
  active : e'.active = e.active
  nextId : e'.nextId = e.nextId
  owners : ∀ g i, e'.owners.get? g = some i → e.owners.get? g = some i
  spared : ∀ g, P g → e'.owners.get? g = e.owners.get? g
  inverse : e.Inverse → e'.Inverse
  sequences : ∀ key g, e'.chainSequences.get? key = some g →
    e.chainSequences.get? key = some g ∧ e'.chainOwners.get? key = e.chainOwners.get? key
  homes : ∀ key rank, e'.chainOwners.get? key = some rank → e.chainOwners.get? key = some rank
  kept : ∀ key, K key → e'.chainSequences.get? key = e.chainSequences.get? key

namespace Trimmed

variable {P : Nat → Prop} {K : ι → Prop} {e e' e'' : Engine ι}

theorem refl (e : Engine ι) : Trimmed P K e e where
  active := rfl
  nextId := rfl
  owners _ _ h := h
  spared _ _ := rfl
  inverse h := h
  sequences _ _ h := ⟨h, rfl⟩
  homes _ _ h := h
  kept _ _ := rfl

theorem trans (first : Trimmed P K e e') (second : Trimmed P K e' e'') : Trimmed P K e e'' where
  active := second.active.trans first.active
  nextId := second.nextId.trans first.nextId
  owners g i h := first.owners g i (second.owners g i h)
  spared g hg := (second.spared g hg).trans (first.spared g hg)
  inverse h := second.inverse (first.inverse h)
  sequences key g h := by
    obtain ⟨before, same⟩ := second.sequences key g h
    obtain ⟨start, same'⟩ := first.sequences key g before
    exact ⟨start, same.trans same'⟩
  homes key rank h := first.homes key rank (second.homes key rank h)
  kept key hkey := (second.kept key hkey).trans (first.kept key hkey)

theorem release {g : Nat} (hg : ¬ P g) (e : Engine ι) :
    Trimmed P K e (e.releaseRequestIdentity g) := by
  unfold releaseRequestIdentity
  cases hi : e.owners.get? g with
  | none => exact refl e
  | some identity =>
    by_cases chain : g ∈ e.chainSeqIds
    · simp only [chain, ↓reduceIte]
      exact refl e
    · simp only [chain, ↓reduceIte]
      refine ⟨rfl, rfl, ?_, ?_, ?_, fun _ _ h => ⟨h, rfl⟩, fun _ _ h => h, fun _ _ => rfl⟩
      · intro g' i h
        rw [get?_erase] at h
        split at h
        · cases h
        · exact h
      · intro g' hg'
        exact get?_erase_ne _ fun same => hg (same ▸ hg')
      · intro inverse g' i
        -- `g` and its identity name each other, so both rows go together.
        have back := (inverse g identity).mp hi
        simp only [get?_erase]
        by_cases hg' : g' = g <;> by_cases hi' : i = identity
        · simp [hg', hi']
        · subst hg'
          simp only [↓reduceIte, hi']
          constructor
          · exact fun h => by cases h
          · intro h
            have := hi.symm.trans ((inverse g' i).mpr h)
            exact absurd (Option.some.inj this).symm hi'
        · subst hi'
          simp only [↓reduceIte, hg']
          constructor
          · intro h
            have := back.symm.trans ((inverse g' i).mp h)
            exact absurd (Option.some.inj this).symm hg'
          · exact fun h => by cases h
        · simp only [hg', hi', ↓reduceIte]
          exact inverse g' i

theorem forget {key : ι} (hkey : ¬ K key) (e : Engine ι)
    (hP : ∀ g, e.chainSequences.get? key = some g → ¬ P g) : Trimmed P K e (e.forgetChain key) := by
  have popped : ∀ chainSeqIds, Trimmed P K e
      { e with
        chainOwners := e.chainOwners.erase key
        chainSequences := e.chainSequences.erase key
        chainSeqIds := chainSeqIds } := by
    intro chainSeqIds
    refine ⟨rfl, rfl, fun _ _ h => h, fun _ _ => rfl, fun h => h, ?_, ?_, ?_⟩
    · intro other g h
      rw [get?_erase] at h
      split at h
      · cases h
      · next ne => exact ⟨h, get?_erase_ne _ ne⟩
    · intro other rank h
      rw [get?_erase] at h
      split at h
      · cases h
      · exact h
    · intro other hother
      exact get?_erase_ne _ fun same => hkey (same ▸ hother)
  unfold forgetChain
  cases hg : e.chainSequences.get? key with
  | none => exact popped e.chainSeqIds
  | some g => exact (popped _).trans (release (hP g hg) _)

theorem forgetAll : ∀ (keys : List ι) (e : Engine ι), (∀ key ∈ keys, ¬ K key) →
    (∀ key ∈ keys, ∀ g, e.chainSequences.get? key = some g → ¬ P g) →
    Trimmed P K e (keys.foldl forgetChain e)
  | [], e, _, _ => refl e
  | key :: rest, e, hK, hP => by
    have head := forget (hK key mem_cons_self) e (hP key mem_cons_self)
    refine head.trans (forgetAll rest _ (fun other h => hK other (mem_cons_of_mem _ h)) ?_)
    intro other hother g hg
    exact hP other (mem_cons_of_mem _ hother) g (head.sequences other g hg).1

end Trimmed

theorem Engine.mem_expired {rank : Nat} {chain : ChainRoutingSnapshot ι} {e : Engine ι} {key : ι} :
    key ∈ e.expired rank chain ↔ e.chainOwners.get? key = some rank ∧ key ∉ known chain := by
  unfold Engine.expired
  simp only [List.mem_map, List.mem_filter, decide_eq_true_eq, Prod.exists, exists_and_right,
    exists_eq_right, Dict.mem_entries]
  constructor
  · rintro ⟨r, mem, rfl, unknown⟩
    exact ⟨mem, unknown⟩
  · rintro ⟨mem, unknown⟩
    exact ⟨rank, mem, rfl, unknown⟩

/-- A reply forgets the id of a replaced chain. -/
def ForgetsReplaced (rank : Nat) (snapshot : Option (ChainRoutingSnapshot ι)) (ended : Option Nat)
    (e : Engine ι) : Prop :=
  ∃ chain ∈ snapshot, ∃ key ∈ e.expired rank chain, ∃ seqId ∈ e.active rank, some seqId ≠ ended ∧
    e.chainSequences.get? key = some seqId ∧
      ∃ other, other ≠ key ∧ e.chainSequences.get? other = some seqId

instance (rank : Nat) (snapshot : Option (ChainRoutingSnapshot ι)) (ended : Option Nat)
    (e : Engine ι) : Decidable (ForgetsReplaced rank snapshot ended e) :=
  decidable_of_iff (∃ chain ∈ snapshot, ∃ key ∈ e.expired rank chain, ∃ seqId ∈ e.active rank,
    some seqId ≠ ended ∧ e.chainSequences.get? key = some seqId ∧
      ∃ entry ∈ e.chainSequences.entries, entry.1 ≠ key ∧ entry.2 = seqId) <| by
    have entries : ∀ key seqId, (∃ entry ∈ e.chainSequences.entries, entry.1 ≠ key ∧
        entry.2 = seqId) ↔ ∃ other, other ≠ key ∧ e.chainSequences.get? other = some seqId := by
      intro key seqId
      constructor
      · rintro ⟨⟨other, _⟩, hmem, ne, rfl⟩
        exact ⟨other, ne, Dict.mem_entries.mp hmem⟩
      · rintro ⟨other, ne, hother⟩
        exact ⟨(other, seqId), Dict.mem_entries.mpr hother, ne, rfl⟩
    simp only [ForgetsReplaced, entries]

def Event.replies (setup : Setup) (w : World ι) : Event ι β → List (Nat × Replica ι × Option Nat)
  | .admitRequest rank turn victims =>
    match (w.replicas rank).admitRequest setup.maxTombstones turn victims with
    | none => []
    | some (_, r) => [(rank, r, none)]
  | .step _ outcome =>
    (List.range setup.size).map fun rank => (rank, (w.stepped setup outcome).replicas rank, none)
  | .abortRequest seqId =>
    match w.engine.owners.get? seqId with
    | none => []
    | some (rank, localId) =>
      [(rank, (w.replicas rank).abortRequest setup.maxTombstones localId, some seqId)]
  | .discardChain chainId expectedSeqId => discard chainId expectedSeqId
  | .invalidateChain chainId =>
    match w.recordedSequence chainId with
    | some seqId => discard chainId seqId
    | none =>
      let rank := (w.engine.chainOwners.get? chainId).getD 0
      match (w.replicas rank).invalidateChain setup.maxTombstones chainId with
      | none => []
      | some r => [(rank, r, none)]
  | .query rank => [(rank, w.replicas rank, none)]
  | .failCall _ _ _ _ => []
where
  /-- The replies of `discard_chain`. -/
  discard (chainId : ι) (expectedSeqId : Nat) : List (Nat × Replica ι × Option Nat) :=
    match w.engine.owners.get? expectedSeqId with
    | none => []
    | some (rank, localId) =>
      match (w.replicas rank).discardChain setup.maxTombstones chainId localId with
      | none => []
      | some (discarded, r) => [(rank, r, if discarded then some expectedSeqId else none)]

def Spared (setup : Setup) (w : World ι) (event : Event ι β) : Prop :=
  ∀ reply ∈ event.replies setup w,
    ¬ ForgetsReplaced reply.1 reply.2.1.reply reply.2.2 w.engine

instance (setup : Setup) (w : World ι) (event : Event ι β) : Decidable (Spared setup w event) :=
  inferInstanceAs (Decidable (∀ reply ∈ event.replies setup w, _))

/-- What every call keeps, except about the requests of `ending`, which the call is ending. -/
structure Kept (ending : Finset Nat) (w : World ι) : Prop where
  inverse : w.engine.Inverse
  below : ∀ g i, (g, i) ∈ w.admitted → g < w.engine.nextId
  latest : ∀ g i, w.engine.owners.get? g = some i → w.admittedAs i = some g
  single : ∀ g i i', (g, i) ∈ w.admitted → (g, i') ∈ w.admitted → i = i'
  counted : ∀ g rank l, (g, (rank, l)) ∈ w.admitted → l < (w.replicas rank).counter
  /-- A recorded chain belongs to the replica of its request. -/
  home : ∀ key g rank l, w.engine.chainSequences.get? key = some g →
    w.engine.owners.get? g = some (rank, l) → w.engine.chainOwners.get? key = some rank
  recorded : ∀ key g, w.engine.chainSequences.get? key = some g →
    g < w.engine.nextId ∧ key ∈ w.drawn
  owned : ∀ rank, ∀ g ∈ w.engine.active rank, g ∉ ending →
    ∃ l, w.engine.owners.get? g = some (rank, l)
  apart : ∀ rank rank' g, g ∈ w.engine.active rank → g ∈ w.engine.active rank' → rank = rank'
  /-- The sequences a scheduler holds are active requests. -/
  runs : ∀ rank, ∀ l ∈ (w.replicas rank).running, ∃ g ∈ w.engine.active rank, g ∉ ending ∧
    w.engine.globalIds.get? (rank, l) = some g
  /-- An active chain request has an ACTIVE chain on its replica that is recorded for it. -/
  current : ∀ rank, ∀ g ∈ w.engine.active rank, g ∉ ending →
    ∀ key, w.engine.chainSequences.get? key = some g →
      ∃ c l, (w.replicas rank).records.get? c = some ⟨l, .active⟩ ∧
        w.engine.owners.get? g = some (rank, l) ∧ w.engine.chainSequences.get? c = some g
  holdings : ∀ rank c holding, (w.replicas rank).records.get? c = some holding →
    c ∈ w.drawn ∧ holding.seqId < (w.replicas rank).counter
  alone : ∀ rank rank' c, (w.replicas rank).records.contains c →
    (w.replicas rank').records.contains c → rank = rank'

namespace Kept

variable {ending : Finset Nat} {w : World ι}

theorem initial : Kept ∅ ({} : World ι) where
  inverse _ _ := by simp
  below _ _ h := nomatch h
  latest _ _ h := by simp at h
  single _ _ _ h := nomatch h
  counted _ _ _ h := nomatch h
  home _ _ _ _ h := by simp at h
  recorded _ _ h := by simp at h
  owned _ _ h := by simp at h
  apart _ _ _ h := by simp at h
  runs _ _ h := by simp at h
  current _ _ h := by simp at h
  holdings _ _ _ h := by simp at h
  alone _ _ _ h := by simp [Dict.contains] at h

theorem trim {P : Nat → Prop} {K : ι → Prop} {e : Engine ι} (kept : Kept ending w)
    (trimmed : Trimmed P K w.engine e)
    (active : ∀ rank, ∀ g ∈ w.engine.active rank, g ∉ ending → P g)
    (chains : ∀ rank, ∀ g ∈ w.engine.active rank, g ∉ ending → ∀ c l,
      (w.replicas rank).records.get? c = some ⟨l, .active⟩ →
        w.engine.owners.get? g = some (rank, l) → w.engine.chainSequences.get? c = some g → K c) :
    Kept ending { w with engine := e } where
  __ := kept
  inverse := trimmed.inverse kept.inverse
  below g i h := trimmed.nextId.symm ▸ kept.below g i h
  latest g i h := kept.latest g i (trimmed.owners g i h)
  home key g rank l hkey hg := by
    obtain ⟨before, same⟩ := trimmed.sequences key g hkey
    exact same.trans (kept.home key g rank l before (trimmed.owners g _ hg))
  recorded key g hkey := by
    have := kept.recorded key g (trimmed.sequences key g hkey).1
    exact trimmed.nextId.symm ▸ this
  owned rank g hg hending := by
    rw [trimmed.active] at hg
    obtain ⟨l, hl⟩ := kept.owned rank g hg hending
    exact ⟨l, (trimmed.spared g (active rank g hg hending)).trans hl⟩
  apart rank rank' g hg hg' := by
    rw [trimmed.active] at hg hg'
    exact kept.apart rank rank' g hg hg'
  runs rank l hl := by
    obtain ⟨g, hg, hending, hid⟩ := kept.runs rank l hl
    refine ⟨g, trimmed.active ▸ hg, hending, ?_⟩
    rw [← trimmed.inverse kept.inverse, trimmed.spared g (active rank g hg hending)]
    exact (kept.inverse _ _).mpr hid
  current rank g hg hending key hkey := by
    rw [trimmed.active] at hg
    obtain ⟨c, l, hc, hl, hseq⟩ :=
      kept.current rank g hg hending key (trimmed.sequences key g hkey).1
    refine ⟨c, l, hc, (trimmed.spared g (active rank g hg hending)).trans hl, ?_⟩
    exact (trimmed.kept c (chains rank g hg hending c l hc hl hseq)).trans hseq

theorem receive {rank : Nat} {snapshot : Option (ChainRoutingSnapshot ι)} {ended : Option Nat}
    (kept : Kept ending w) (hended : ∀ g, ended = some g → g ∈ ending)
    (lists : ∀ chain ∈ snapshot, ∀ c l,
      (w.replicas rank).records.get? c = some ⟨l, .active⟩ → c ∈ known chain)
    (spared : ¬ ForgetsReplaced rank snapshot ended w.engine) :
    Kept ending { w with engine := w.engine.receive rank snapshot } := by
  cases snapshot with
  | none => exact kept
  | some chain =>
    have listed : ∀ c l, (w.replicas rank).records.get? c = some ⟨l, .active⟩ →
        c ∉ w.engine.expired rank chain := by
      intro c l hc expired
      exact (mem_expired.mp expired).2 (lists chain rfl c l hc)
    refine kept.trim (P := fun g => ∃ r, g ∈ w.engine.active r ∧ g ∉ ending)
      (K := fun c => c ∉ w.engine.expired rank chain)
      (Trimmed.forgetAll _ _ (fun key hkey h => h hkey) ?_) ?_ ?_
    · rintro key hkey g hg ⟨r, active, hending⟩
      -- The replica of the request is the one that replied, and its current chain is listed, so
      -- the forgotten chain is one that was replaced.
      obtain ⟨c, l, hc, howner, hseq⟩ := kept.current r g active hending key hg
      have home := kept.home key g r l hg howner
      have same : r = rank := Option.some.inj (home.symm.trans (mem_expired.mp hkey).1)
      subst same
      refine spared ⟨chain, rfl, key, hkey, g, active, ?_, hg, c, ?_, hseq⟩
      · exact fun h => hending (hended g h.symm)
      · exact fun same => listed c l hc (same ▸ hkey)
    · exact fun r g active hending => ⟨r, active, hending⟩
    · intro r g active hending c l hc howner hseq expired
      have home := kept.home c g r l hseq howner
      have same : r = rank := Option.some.inj (home.symm.trans (mem_expired.mp expired).1)
      subst same
      exact listed c l hc expired

theorem replace {more : Finset Nat} {replicas : Nat → Replica ι} (kept : Kept ending w)
    (hmore : ending ⊆ more)
    (counter : ∀ rank, (w.replicas rank).counter ≤ (replicas rank).counter)
    (running : ∀ rank, ∀ l ∈ (replicas rank).running, l ∈ (w.replicas rank).running ∧
      ∀ g ∈ more, w.engine.owners.get? g ≠ some (rank, l))
    (records : ∀ rank c holding, (replicas rank).records.get? c = some holding →
      ∃ state, (w.replicas rank).records.get? c = some ⟨holding.seqId, state⟩)
    (survives : ∀ rank c l, (w.replicas rank).records.get? c = some ⟨l, .active⟩ →
      ∀ g ∈ w.engine.active rank, g ∉ more → w.engine.owners.get? g = some (rank, l) →
        w.engine.chainSequences.get? c = some g →
          (replicas rank).records.get? c = some ⟨l, .active⟩) :
    Kept more { w with replicas := replicas } where
  __ := kept
  counted g rank l h := (kept.counted g rank l h).trans_le (counter rank)
  owned rank g hg hmem := kept.owned rank g hg fun h => hmem (hmore h)
  runs rank l hl := by
    obtain ⟨before, ended⟩ := running rank l hl
    obtain ⟨g, hg, -, hid⟩ := kept.runs rank l before
    exact ⟨g, hg, fun h => ended g h ((kept.inverse _ _).mpr hid), hid⟩
  current rank g hg hmem key hkey := by
    obtain ⟨c, l, hc, howner, hseq⟩ :=
      kept.current rank g hg (fun h => hmem (hmore h)) key hkey
    exact ⟨c, l, survives rank c l hc g hg hmem howner hseq, howner, hseq⟩
  holdings rank c holding h := by
    obtain ⟨state, before⟩ := records rank c holding h
    obtain ⟨drawn, lt⟩ := kept.holdings rank c _ before
    exact ⟨drawn, lt.trans_le (counter rank)⟩
  alone rank rank' c h h' := by
    obtain ⟨holding, h⟩ := contains_iff.mp h
    obtain ⟨holding', h'⟩ := contains_iff.mp h'
    obtain ⟨state, before⟩ := records rank c holding h
    obtain ⟨state', before'⟩ := records rank' c holding' h'
    exact kept.alone rank rank' c (contains_iff.mpr ⟨_, before⟩)
      (contains_iff.mpr ⟨_, before'⟩)

theorem remember {replicas : Nat → Replica ι} (kept : Kept ending w)
    (counter : ∀ rank, (replicas rank).counter = (w.replicas rank).counter)
    (running : ∀ rank, (replicas rank).running = (w.replicas rank).running)
    (records : ∀ rank, (replicas rank).records = (w.replicas rank).records) :
    Kept ending { w with replicas := replicas } where
  __ := kept
  counted g rank l h := counter rank ▸ kept.counted g rank l h
  runs rank l hl := kept.runs rank l (running rank ▸ hl)
  current rank g hg hending key hkey := by
    show ∃ c l, (replicas rank).records.get? c = _ ∧ _
    rw [records]
    exact kept.current rank g hg hending key hkey
  holdings rank c holding h := by
    show c ∈ w.drawn ∧ holding.seqId < (replicas rank).counter
    rw [counter]
    exact kept.holdings rank c holding (records rank ▸ h)
  alone rank rank' c h h' := kept.alone rank rank' c (records rank ▸ h) (records rank' ▸ h')

theorem finish {rank g : Nat} {e : Engine ι} (kept : Kept (insert g ending) w)
    (only : ∀ r, g ∈ w.engine.active r → r = rank)
    (trimmed : Trimmed (· ≠ g) (fun _ => True) (w.engine.deactivate rank g) e) :
    Kept ending { w with engine := e } := by
  have smaller : ∀ r, ∀ g' ∈ (w.engine.deactivate rank g).active r,
      g' ∈ w.engine.active r ∧ g' ≠ g := by
    intro r g' hg'
    simp only [deactivate, update_apply] at hg'
    split at hg'
    · next same =>
      subst same
      obtain ⟨ne, mem⟩ := mem_erase.mp hg'
      exact ⟨mem, ne⟩
    · next ne =>
      refine ⟨hg', ?_⟩
      rintro rfl
      exact ne (only r hg')
  have others : ∀ {g'}, g' ≠ g → g' ∉ ending → g' ∉ insert g ending := by
    intro g' ne hending h
    exact (mem_insert.mp h).elim ne hending
  have larger : ∀ r g', g' ∈ w.engine.active r → g' ≠ g →
      g' ∈ (w.engine.deactivate rank g).active r := by
    intro r g' hg' ne
    simp only [deactivate, update_apply]
    split
    · next same => exact mem_erase.mpr ⟨ne, same ▸ hg'⟩
    · exact hg'
  have deactivated : Kept ending { w with engine := w.engine.deactivate rank g } :=
    { inverse := kept.inverse
      below := kept.below
      latest := kept.latest
      single := kept.single
      counted := kept.counted
      home := kept.home
      recorded := kept.recorded
      owned := fun r g' hg' hending =>
        have ⟨mem, ne⟩ := smaller r g' hg'
        kept.owned r g' mem (others ne hending)
      apart := fun r r' g' h h' => kept.apart r r' g' (smaller r g' h).1 (smaller r' g' h').1
      runs := by
        intro r l hl
        obtain ⟨g', hg', hending, hid⟩ := kept.runs r l hl
        have ne : g' ≠ g := fun same => hending (same ▸ Finset.mem_insert_self g ending)
        exact ⟨g', larger r g' hg' ne, fun h => hending (Finset.mem_insert_of_mem h), hid⟩
      current := fun r g' hg' hending =>
        have ⟨mem, ne⟩ := smaller r g' hg'
        kept.current r g' mem (others ne hending)
      holdings := kept.holdings
      alone := kept.alone }
  exact deactivated.trim trimmed (fun r g' hg' _ => (smaller r g' hg').2)
    fun _ _ _ _ _ _ _ _ _ => trivial

end Kept

namespace Engine

variable {e : Engine ι} {identity : Nat × Nat}

omit [DecidableEq ι] in
theorem identify_cases (e : Engine ι) (identity : Nat × Nat) :
    (∃ g, e.globalIds.get? identity = some g ∧ e.identify identity = (g, e)) ∨
      e.globalIds.get? identity = none ∧
        e.identify identity = (e.nextId,
          { e with
            nextId := e.nextId + 1
            globalIds := e.globalIds.set identity e.nextId
            owners := e.owners.set e.nextId identity }) := by
  unfold identify
  cases h : e.globalIds.get? identity with
  | none => exact .inr ⟨rfl, rfl⟩
  | some g => exact .inl ⟨g, rfl, rfl⟩

variable {rank : Nat} {admission : RequestAdmission ι}

theorem admitRequest_seqId :
    (e.admitRequest rank admission).1 = (e.identify (rank, admission.seqId)).1 := by
  unfold admitRequest
  cases admission.chainId <;> rfl

theorem admitRequest_owners :
    (e.admitRequest rank admission).2.owners = (e.identify (rank, admission.seqId)).2.owners := by
  unfold admitRequest
  cases admission.chainId <;> rfl

theorem admitRequest_globalIds : (e.admitRequest rank admission).2.globalIds =
    (e.identify (rank, admission.seqId)).2.globalIds := by
  unfold admitRequest
  cases admission.chainId <;> rfl

theorem admitRequest_nextId :
    (e.admitRequest rank admission).2.nextId = (e.identify (rank, admission.seqId)).2.nextId := by
  unfold admitRequest
  cases admission.chainId <;> rfl

theorem admitRequest_active (r : Nat) :
    (e.admitRequest rank admission).2.active r =
      if r = rank then insert (e.admitRequest rank admission).1 (e.active rank) else e.active r := by
  have same : (e.identify (rank, admission.seqId)).2.active = e.active := by
    rcases identify_cases e (rank, admission.seqId) with ⟨g, -, h⟩ | ⟨-, h⟩ <;> rw [h]
  rw [← same, ← update_apply]
  unfold admitRequest
  cases admission.chainId <;> rfl

theorem admitRequest_chainSequences (key : ι) :
    (e.admitRequest rank admission).2.chainSequences.get? key =
      if admission.chainId = some key then some (e.admitRequest rank admission).1
      else e.chainSequences.get? key := by
  have same : (e.identify (rank, admission.seqId)).2.chainSequences = e.chainSequences := by
    rcases identify_cases e (rank, admission.seqId) with ⟨g, -, h⟩ | ⟨-, h⟩ <;> rw [h]
  unfold admitRequest
  cases admission.chainId with
  | none => simp [same]
  | some c => simp only [same, get?_set, Option.some.injEq, eq_comm]

theorem admitRequest_chainOwners (key : ι) :
    (e.admitRequest rank admission).2.chainOwners.get? key =
      if admission.chainId = some key then some rank else e.chainOwners.get? key := by
  have same : (e.identify (rank, admission.seqId)).2.chainOwners = e.chainOwners := by
    rcases identify_cases e (rank, admission.seqId) with ⟨g, -, h⟩ | ⟨-, h⟩ <;> rw [h]
  unfold admitRequest
  cases admission.chainId with
  | none => simp [same]
  | some c => simp only [same, get?_set, Option.some.injEq, eq_comm]

omit [DecidableEq ι] in
theorem identify_owners (identity : Nat × Nat) (inverse : e.Inverse)
    (below : ∀ g i, e.owners.get? g = some i → g < e.nextId) :
    (e.identify identity).2.Inverse ∧
      (e.identify identity).2.owners.get? (e.identify identity).1 = some identity ∧
      (∀ g i, e.owners.get? g = some i → (e.identify identity).2.owners.get? g = some i) ∧
      ∀ g i, (e.identify identity).2.owners.get? g = some i →
        g = (e.identify identity).1 ∧ i = identity ∨ e.owners.get? g = some i := by
  rcases identify_cases e identity with ⟨g, hg, h⟩ | ⟨hnone, h⟩
  · rw [h]
    exact ⟨inverse, (inverse _ _).mpr hg, fun _ _ hi => hi, fun _ _ hi => .inr hi⟩
  · rw [h]
    have fresh : ∀ i, e.owners.get? e.nextId ≠ some i := fun i hi =>
      absurd (below _ i hi) (Nat.lt_irrefl _)
    refine ⟨?_, get?_set_self _ _ _, ?_, ?_⟩
    · intro g i
      simp only [get?_set]
      by_cases hg : g = e.nextId <;> by_cases hi : i = identity
      · simp [hg, hi]
      · subst hg
        simp only [↓reduceIte, hi, Option.some.injEq]
        refine ⟨fun same => absurd same.symm hi, fun h => ?_⟩
        exact absurd ((inverse _ i).mpr h) (fresh i)
      · subst hi
        simp only [hg, ↓reduceIte, Option.some.injEq]
        refine ⟨fun h => ?_, fun same => absurd same.symm hg⟩
        cases hnone.symm.trans ((inverse g i).mp h)
      · simp only [hg, hi, ↓reduceIte]
        exact inverse g i
    · intro g i hi
      rw [get?_set_ne]
      · exact hi
      · rintro rfl
        exact fresh i hi
    · intro g i hi
      rw [get?_set] at hi
      split at hi
      · next same => exact .inl ⟨same, (Option.some.inj hi).symm⟩
      · exact .inr hi

omit [DecidableEq ι] in
theorem le_identify_nextId : e.nextId ≤ (e.identify identity).2.nextId := by
  rcases identify_cases e identity with ⟨g, -, h⟩ | ⟨-, h⟩ <;> rw [h]
  exact Nat.le_succ _

end Engine

variable (chainId : Option ι)

theorem Replica.addTurn_records (l : Nat) (r : Replica ι) (key : ι) :
    (r.addTurn chainId l).records.get? key =
      if chainId = some key then some ⟨l, .active⟩ else r.records.get? key := by
  cases chainId with
  | none => simp [addTurn]
  | some c => simp only [addTurn, startTurn, get?_set, Option.some.injEq, eq_comm]

@[simp] theorem Replica.addTurn_running (l : Nat) (r : Replica ι) :
    (r.addTurn chainId l).running = insert l r.running := by
  cases chainId <;> rfl

@[simp] theorem Replica.addTurn_counter (l : Nat) (r : Replica ι) :
    (r.addTurn chainId l).counter = r.counter := by
  cases chainId <;> rfl

namespace World

omit [DecidableEq ι] in
theorem admittedAs_cons {w : World ι} {g : Nat} {i j : Nat × Nat} {admitted : List (Nat × (Nat × Nat))}
    (h : w.admitted = (g, i) :: admitted) :
    w.admittedAs j = if j = i then some g else { w with admitted := admitted }.admittedAs j := by
  unfold admittedAs
  rw [h, find?_cons]
  by_cases same : j = i
  · simp [same]
  · have : decide (i = j) = false := decide_eq_false fun h => same h.symm
    simp [same, this]

omit [DecidableEq ι] in
theorem mem_of_admittedAs {w : World ι} {g : Nat} {i : Nat × Nat} (h : w.admittedAs i = some g) :
    (g, i) ∈ w.admitted := by
  obtain ⟨entry, found, rfl⟩ := Option.map_eq_some_iff.mp h
  have same : entry.2 = i := by simpa using find?_some found
  exact same ▸ mem_of_find?_eq_some found

end World

theorem Kept.owner_lt {ending : Finset Nat} {w : World ι} (kept : Kept ending w) {g : Nat}
    {i : Nat × Nat} (h : w.engine.owners.get? g = some i) : g < w.engine.nextId :=
  kept.below g i (World.mem_of_admittedAs (kept.latest g i h))

theorem Kept.start {w : World ι} (kept : Kept ∅ w) (rank l : Nat) (chainId : Option ι)
    (drawn : Finset ι) (replicas : Nat → Replica ι) {e : Engine ι} {g : Nat}
    (he : w.engine.admitRequest rank ⟨l, chainId⟩ = (g, e))
    (hother : ∀ r, r ≠ rank → replicas r = w.replicas r)
    (hcounter : (replicas rank).counter = (w.replicas rank).counter)
    (hrunning : (replicas rank).running = insert l (w.replicas rank).running)
    (hrecords : ∀ key, (replicas rank).records.get? key =
      if chainId = some key then some ⟨l, .active⟩ else (w.replicas rank).records.get? key)
    (hl : l < (w.replicas rank).counter)
    (hdrawn : w.drawn ⊆ drawn)
    (hplain : chainId = none → w.engine.globalIds.get? (rank, l) = none)
    (hchain : ∀ c, chainId = some c → c ∈ drawn ∧
      (c ∉ w.drawn ∨ (w.replicas rank).records.get? c = some ⟨l, .idle⟩)) :
    Kept ∅ { w with
      engine := e, replicas := replicas, drawn := drawn
      admitted := (g, (rank, l)) :: w.admitted } := by
  have hg : (w.engine.admitRequest rank ⟨l, chainId⟩).1 = g := congrArg Prod.fst he
  have hengine : (w.engine.admitRequest rank ⟨l, chainId⟩).2 = e := congrArg Prod.snd he
  -- What the admission does to each table.
  have hactive : ∀ r, e.active r = if r = rank then insert g (w.engine.active rank)
      else w.engine.active r := by
    intro r
    rw [← hengine, ← hg]
    exact admitRequest_active r
  have hsequences : ∀ key, e.chainSequences.get? key =
      if chainId = some key then some g else w.engine.chainSequences.get? key := by
    intro key
    rw [← hengine, ← hg]
    exact admitRequest_chainSequences key
  have howners : ∀ key, e.chainOwners.get? key =
      if chainId = some key then some rank else w.engine.chainOwners.get? key := by
    intro key
    rw [← hengine]
    exact admitRequest_chainOwners key
  obtain ⟨hinverse, hself, hkeeps, hcases⟩ :=
    identify_owners (rank, l) kept.inverse fun g i h => kept.owner_lt h
  have hname : (w.engine.identify (rank, l)).1 = g := by
    rw [← hg, admitRequest_seqId]
  have htable : e.owners = (w.engine.identify (rank, l)).2.owners := by
    rw [← hengine]
    exact admitRequest_owners
  have hids : e.globalIds = (w.engine.identify (rank, l)).2.globalIds := by
    rw [← hengine]
    exact admitRequest_globalIds
  have hnext : e.nextId = (w.engine.identify (rank, l)).2.nextId := by
    rw [← hengine]
    exact admitRequest_nextId
  rw [hname] at hself hcases
  rw [← htable] at hself hkeeps hcases
  have inverse : e.Inverse := by
    intro g' i
    rw [htable, hids]
    exact hinverse g' i
  have hle : w.engine.nextId ≤ e.nextId := by
    rw [hnext]
    exact le_identify_nextId
  -- The global id is the one the identity had, or the next.
  have hnew : w.engine.owners.get? g = some (rank, l) ∨
      w.engine.globalIds.get? (rank, l) = none ∧ g = w.engine.nextId ∧ g < e.nextId := by
    rcases identify_cases w.engine (rank, l) with ⟨g', hg', h⟩ | ⟨hnone, h⟩
    · rw [h] at hname
      exact .inl ((kept.inverse _ _).mpr (hname ▸ hg'))
    · rw [h] at hname hnext
      refine .inr ⟨hnone, hname.symm, ?_⟩
      rw [hnext, ← hname]
      exact Nat.lt_succ_self _
  have hlt : g < e.nextId := by
    rcases hnew with old | ⟨-, -, h⟩
    · exact (kept.owner_lt old).trans_le hle
    · exact h
  have hentry : ∀ i, (g, i) ∈ w.admitted → i = (rank, l) := by
    intro i h
    rcases hnew with old | ⟨-, rfl, -⟩
    · exact kept.single g i _ h (World.mem_of_admittedAs (kept.latest g _ old))
    · exact absurd (kept.below _ i h) (Nat.lt_irrefl _)
  have hmember : ∀ r, g ∈ w.engine.active r → r = rank := by
    intro r h
    obtain ⟨l', hl'⟩ := kept.owned r g h (notMem_empty g)
    rcases hnew with old | ⟨-, rfl, -⟩
    · exact (Prod.mk.inj (Option.some.inj (hl'.symm.trans old))).1
    · exact absurd (kept.owner_lt hl') (Nat.lt_irrefl _)
  have hrecord : ∀ r key, (replicas r).records.get? key =
      if r = rank ∧ chainId = some key then some ⟨l, .active⟩
      else (w.replicas r).records.get? key := by
    intro r key
    by_cases same : r = rank
    · subst same
      simp [hrecords]
    · simp [same, hother r same]
  have hcount : ∀ r, (replicas r).counter = (w.replicas r).counter := by
    intro r
    by_cases same : r = rank
    · exact same ▸ hcounter
    · rw [hother r same]
  -- A record of the chain of the turn is on its replica, and not ACTIVE.
  have hheld : ∀ r c holding, chainId = some c → (w.replicas r).records.get? c = some holding →
      r = rank ∧ holding = ⟨l, .idle⟩ := by
    intro r c holding hc h
    rcases (hchain c hc).2 with fresh | idle
    · exact absurd (kept.holdings r c _ h).1 fresh
    · have same := kept.alone r rank c (contains_iff.mpr ⟨_, h⟩)
        (contains_iff.mpr ⟨_, idle⟩)
      subst same
      exact ⟨rfl, Option.some.inj (h.symm.trans idle)⟩
  refine
    { inverse := inverse
      below := ?_
      latest := ?_
      single := ?_
      counted := ?_
      home := ?_
      recorded := ?_
      owned := ?_
      apart := ?_
      runs := ?_
      current := ?_
      holdings := ?_
      alone := ?_ }
  · intro g' i h
    rcases mem_cons.mp h with same | h
    · exact (Prod.mk.inj same).1 ▸ hlt
    · exact (kept.below g' i h).trans_le hle
  · intro g' i h
    rw [World.admittedAs_cons rfl]
    by_cases same : i = (rank, l)
    · simp only [same, ↓reduceIte, Option.some.injEq]
      subst same
      exact Option.some.inj (((inverse g _).mp hself).symm.trans ((inverse g' _).mp h))
    · simp only [same, ↓reduceIte]
      rcases hcases g' i h with ⟨-, same'⟩ | old
      · exact absurd same' same
      · exact kept.latest g' i old
  · intro g' i i' h h'
    rcases mem_cons.mp h with same | old <;> rcases mem_cons.mp h' with same' | old'
    · exact (Prod.mk.inj same).2.trans (Prod.mk.inj same').2.symm
    · obtain ⟨rfl, rfl⟩ := Prod.mk.inj same
      exact (hentry i' old').symm
    · obtain ⟨rfl, rfl⟩ := Prod.mk.inj same'
      exact hentry i old
    · exact kept.single g' i i' old old'
  · intro g' r l' h
    show l' < (replicas r).counter
    rw [hcount]
    rcases mem_cons.mp h with same | h
    · obtain ⟨-, same⟩ := Prod.mk.inj same
      obtain ⟨rfl, rfl⟩ := Prod.mk.inj same
      exact hl
    · exact kept.counted g' r l' h
  · intro key g' r l' hkey hg'
    show e.chainOwners.get? key = some r
    rw [howners]
    by_cases same : chainId = some key
    · have : g' = g := by
        have h := (hsequences key).symm.trans hkey
        simpa [same, eq_comm] using h
      subst this
      have := Option.some.inj (hself.symm.trans hg')
      simp [same, (Prod.mk.inj this).1]
    · have old : w.engine.chainSequences.get? key = some g' := by
        simpa [same] using (hsequences key).symm.trans hkey
      simp only [same, ↓reduceIte]
      rcases hcases g' _ hg' with ⟨rfl, hi⟩ | before
      · obtain ⟨rfl, rfl⟩ := Prod.mk.inj hi
        rcases hnew with h | ⟨-, rfl, -⟩
        · exact kept.home key _ _ _ old h
        · exact absurd (kept.recorded key _ old).1 (Nat.lt_irrefl _)
      · exact kept.home key g' r l' old before
  · intro key g' hkey
    have h := (hsequences key).symm.trans hkey
    by_cases same : chainId = some key
    · simp only [same, ↓reduceIte, Option.some.injEq] at h
      exact h ▸ ⟨hlt, (hchain key same).1⟩
    · simp only [same, ↓reduceIte] at h
      obtain ⟨lt, mem⟩ := kept.recorded key g' h
      exact ⟨lt.trans_le hle, hdrawn mem⟩
  · intro r g' h _
    replace h : g' ∈ e.active r := h
    rw [hactive] at h
    split at h
    · next same =>
      subst same
      rcases mem_insert.mp h with rfl | h
      · exact ⟨l, hself⟩
      · obtain ⟨l', hl'⟩ := kept.owned r g' h (notMem_empty _)
        exact ⟨l', hkeeps _ _ hl'⟩
    · obtain ⟨l', hl'⟩ := kept.owned r g' h (notMem_empty _)
      exact ⟨l', hkeeps _ _ hl'⟩
  · intro r r' g' h h'
    replace h : g' ∈ e.active r := h
    replace h' : g' ∈ e.active r' := h'
    rw [hactive] at h h'
    by_cases hg' : g' = g
    · subst hg'
      have home : ∀ r, g' ∈ (if r = rank then insert g' (w.engine.active rank)
          else w.engine.active r) → r = rank := by
        intro r h
        split at h
        · assumption
        · exact hmember r h
      exact (home r h).trans (home r' h').symm
    · have old : ∀ r, g' ∈ (if r = rank then insert g (w.engine.active rank)
          else w.engine.active r) → g' ∈ w.engine.active r := by
        intro r h
        split at h
        · next same => exact same ▸ (mem_insert.mp h).resolve_left hg'
        · exact h
      exact kept.apart r r' g' (old r h) (old r' h')
  · intro r l' h
    replace h : l' ∈ (replicas r).running := h
    show ∃ g' ∈ e.active r, _ ∧ e.globalIds.get? (r, l') = some g'
    by_cases mem : l' ∈ (w.replicas r).running
    · obtain ⟨g', hg', hending, hid⟩ := kept.runs r l' mem
      refine ⟨g', ?_, hending, ?_⟩
      · rw [hactive]
        split
        · next same => exact Finset.mem_insert_of_mem (same ▸ hg')
        · exact hg'
      · exact (inverse _ _).mp (hkeeps _ _ ((kept.inverse _ _).mpr hid))
    · have same : r = rank := by
        by_contra ne
        exact mem (hother r ne ▸ h)
      subst same
      rw [hrunning] at h
      obtain rfl := (mem_insert.mp h).resolve_right mem
      refine ⟨g, ?_, notMem_empty _, (inverse _ _).mp hself⟩
      rw [hactive]
      simp
  · intro r g' h _ key hkey
    replace h : g' ∈ e.active r := h
    have hseq := (hsequences key).symm.trans hkey
    by_cases hg' : g' = g
    · subst hg'
      have same : r = rank := by
        rw [hactive] at h
        split at h
        · assumption
        · exact hmember r h
      subst same
      -- The chain of the turn is the current one; a request without a chain has none recorded.
      cases hc : chainId with
      | none =>
        simp only [hc, reduceCtorEq, ↓reduceIte] at hseq
        rcases hnew with old | ⟨-, rfl, -⟩
        · cases (hplain hc).symm.trans ((kept.inverse _ _).mp old)
        · exact absurd (kept.recorded key _ hseq).1 (Nat.lt_irrefl _)
      | some c =>
        refine ⟨c, l, ?_, hself, ?_⟩
        · exact (hrecord r c).trans (if_pos ⟨rfl, hc⟩)
        · exact (hsequences c).trans (if_pos hc)
    · have ne : chainId ≠ some key := by
        intro same
        simp only [same, ↓reduceIte, Option.some.injEq] at hseq
        exact hg' hseq.symm
      simp only [ne, ↓reduceIte] at hseq
      have mem : g' ∈ w.engine.active r := by
        rw [hactive] at h
        split at h
        · next same => exact same ▸ (mem_insert.mp h).resolve_left hg'
        · exact h
      obtain ⟨c, l', hc, howner, hcseq⟩ :=
        kept.current r g' mem (notMem_empty _) key hseq
      -- An ACTIVE chain is not the one whose turn starts.
      have other : chainId ≠ some c := fun same => by
        cases (hheld r c _ same hc).2
      refine ⟨c, l', ?_, hkeeps _ _ howner, ?_⟩
      · exact (hrecord r c).trans ((if_neg fun same => other same.2).trans hc)
      · exact (hsequences c).trans ((if_neg other).trans hcseq)
  · intro r c holding h
    replace h : (replicas r).records.get? c = some holding := h
    show c ∈ drawn ∧ holding.seqId < (replicas r).counter
    rw [hcount]
    rw [hrecord] at h
    split at h
    · next same =>
      obtain ⟨rfl, hc⟩ := same
      exact ⟨(hchain c hc).1, Option.some.inj h ▸ hl⟩
    · obtain ⟨mem, lt⟩ := kept.holdings r c holding h
      exact ⟨hdrawn mem, lt⟩
  · intro r r' c h h'
    obtain ⟨holding, h⟩ := contains_iff.mp h
    obtain ⟨holding', h'⟩ := contains_iff.mp h'
    replace h : (replicas r).records.get? c = some holding := h
    replace h' : (replicas r').records.get? c = some holding' := h'
    rw [hrecord] at h h'
    by_cases hc : chainId = some c
    · have home : ∀ {r holding}, (if r = rank ∧ chainId = some c then some ⟨l, .active⟩
          else (w.replicas r).records.get? c) = some holding → r = rank := by
        intro r holding h
        split at h
        · next same => exact same.1
        · exact (hheld r c _ hc h).1
      exact (home h).trans (home h').symm
    · simp only [hc, and_false, ↓reduceIte] at h h'
      exact kept.alone r r' c (contains_iff.mpr ⟨_, h⟩) (contains_iff.mpr ⟨_, h'⟩)

end SparseEngine.DataParallel
