import SparseEngine.Chain.Runtime

/-! The events of the copies are seen at times that the code does not choose. -/

namespace SparseEngine

open PyM

variable {κ : Type}

def ChainSnapshot.settled (snapshot : ChainSnapshot κ) : ChainSnapshot κ :=
  { snapshot with completion := false, valid := snapshot.completion || snapshot.valid }

theorem ChainSnapshot.settled_of_pending {snapshot : ChainSnapshot κ}
    (h : snapshot.completion = true) : snapshot.settled = snapshot.complete := by
  unfold ChainSnapshot.settled ChainSnapshot.complete
  rw [h]
  rfl

theorem ChainSnapshot.settled_of_seen {snapshot : ChainSnapshot κ}
    (h : snapshot.completion = false) : snapshot.settled = snapshot := by
  cases snapshot
  cases h
  rfl

namespace ChainOffload

def settled (o : ChainOffload κ) : ChainOffload κ where
  snapshots := o.snapshots.mapValues ChainSnapshot.settled
  pending := .empty
  usedBytes := o.usedBytes

def without (seqId : Nat) (o : ChainOffload κ) : ChainOffload κ :=
  { o with
    snapshots := o.snapshots.erase seqId
    usedBytes := o.usedBytes - o.snapshotBytes seqId }

def spoiled (seqId : Nat) (o : ChainOffload κ) : ChainOffload κ :=
  match o.snapshots.get? seqId with
  | none => o
  | some snapshot => { o with snapshots := o.snapshots.set seqId { snapshot with valid := false } }

def status (o : ChainOffload κ) (seqId : Nat) : Option Bool :=
  (o.snapshots.get? seqId).map fun snapshot => snapshot.completion || snapshot.valid

/-- The counter is the bytes stored, and the copies with an event are the pending ones. -/
structure Inv (o : ChainOffload κ) : Prop where
  used : o.usedBytes = (o.snapshots.sumBy fun _ snapshot => snapshot.nbytes : Nat)
  pending : ∀ seqId, o.pending.get? seqId = some () ↔
    ∃ snapshot, o.snapshots.get? seqId = some snapshot ∧ snapshot.completion = true

variable {o : ChainOffload κ} {seqId : Nat} {snapshot : ChainSnapshot κ}

theorem inv_empty : Inv ({} : ChainOffload κ) where
  used := rfl
  pending := fun _ => ⟨nofun, fun ⟨_, h, _⟩ => by cases h⟩

theorem status_settled (o : ChainOffload κ) (seqId : Nat) : o.settled.status seqId = o.status seqId := by
  unfold status settled
  rw [Dict.get?_mapValues, Option.map_map]
  rfl

@[simp] theorem usedBytes_settled (o : ChainOffload κ) : o.settled.usedBytes = o.usedBytes := rfl

theorem contains_settled (o : ChainOffload κ) (seqId : Nat) :
    o.settled.snapshots.contains seqId = o.snapshots.contains seqId :=
  Dict.contains_mapValues _ _ _

theorem snapshotBytes_settled (o : ChainOffload κ) (seqId : Nat) :
    o.settled.snapshotBytes seqId = o.snapshotBytes seqId := by
  unfold snapshotBytes settled
  rw [Dict.get?_mapValues]
  cases o.snapshots.get? seqId <;> rfl

theorem settled_without (o : ChainOffload κ) (seqId : Nat) (pending : Dict Nat Unit) :
    settled { o.without seqId with pending := pending } = o.settled.without seqId := by
  unfold without
  rw [snapshotBytes_settled]
  unfold settled
  rw [Dict.mapValues_erase]

theorem isSome_status (o : ChainOffload κ) (seqId : Nat) :
    (o.status seqId).isSome = o.snapshots.contains seqId := by
  unfold status Dict.contains
  rw [Option.isSome_map]

theorem status_eq_none : o.status seqId = none ↔ o.snapshots.get? seqId = none := by
  unfold status
  rw [Option.map_eq_none_iff]

theorem status_without (o : ChainOffload κ) (seqId i : Nat) :
    (o.without seqId).status i = if i = seqId then none else o.status i := by
  unfold status without
  dsimp only
  rw [Dict.get?_erase]
  split <;> rfl

theorem snapshotBytes_without (o : ChainOffload κ) {seqId i : Nat} (h : i ≠ seqId) :
    (o.without seqId).snapshotBytes i = o.snapshotBytes i := by
  unfold snapshotBytes without
  dsimp only
  rw [Dict.get?_erase_ne _ h]

theorem status_spoiled (o : ChainOffload κ) (seqId i : Nat) (h : i ≠ seqId) :
    (o.spoiled seqId).status i = o.status i := by
  unfold status spoiled
  split
  · rfl
  · dsimp only
    rw [Dict.get?_set_ne _ _ h]

theorem Inv.complete (h : Inv o) (hs : o.snapshots.get? seqId = some snapshot)
    (hc : snapshot.completion = true) :
    Inv (o.complete seqId) ∧ (o.complete seqId).settled = o.settled := by
  have hsame : snapshot.complete.settled = snapshot.settled := by
    rw [ChainSnapshot.settled_of_pending hc]
    exact ChainSnapshot.settled_of_seen rfl
  unfold ChainOffload.complete
  rw [hs]
  refine ⟨⟨?_, fun i => ?_⟩, ?_⟩
  · have hsum := Dict.sumBy_set_old (fun (_ : Nat) (s : ChainSnapshot κ) => s.nbytes)
      snapshot.complete hs
    have hused := h.used
    show o.usedBytes = _
    dsimp only [ChainSnapshot.complete] at hsum ⊢
    omega
  · show (o.pending.erase seqId).get? i = some () ↔
      ∃ s, (o.snapshots.set seqId snapshot.complete).get? i = some s ∧ s.completion = true
    rw [Dict.get?_erase, Dict.get?_set]
    split
    · refine ⟨(by simp), ?_⟩
      rintro ⟨s, hs, hcs⟩
      cases hs
      cases hcs
    · exact h.pending i
  · unfold settled
    dsimp only
    rw [Dict.mapValues_set, hsame, Dict.set_eq_self]
    rw [Dict.get?_mapValues, hs]
    rfl

theorem Inv.poll (n : Nat) : ∀ {o : ChainOffload κ}, Inv o →
    Inv (o.poll n) ∧ (o.poll n).settled = o.settled := by
  induction n with
  | zero => exact fun h => ⟨h, rfl⟩
  | succ n ih =>
    intro o h
    unfold ChainOffload.poll
    split
    · exact ⟨h, rfl⟩
    · next i rest hkeys =>
      have hmem : o.pending.get? i = some () := by
        obtain ⟨_, hi⟩ := Dict.mem_keys.mp (hkeys ▸ List.mem_cons_self : i ∈ o.pending.keys)
        exact hi
      obtain ⟨snapshot, hs, hc⟩ := (h.pending i).mp hmem
      obtain ⟨hinv, hsettled⟩ := h.complete hs hc
      obtain ⟨hinv', hsettled'⟩ := ih hinv
      exact ⟨hinv', hsettled'.trans hsettled⟩

theorem wait_spec (h : Inv o) (seqId : Nat) :
    wp (wait seqId)
      (fun snapshot o' => Inv o' ∧ o'.settled = o.settled ∧ o'.snapshots.get? seqId = some snapshot ∧
        snapshot.completion = false ∧ o.settled.snapshots.get? seqId = some snapshot)
      (fun e o' => e = .keyError "seq_id" ∧ o' = o ∧ o.settled.snapshots.get? seqId = none) o := by
  have hget : o.settled.snapshots.get? seqId = (o.snapshots.get? seqId).map ChainSnapshot.settled :=
    Dict.get?_mapValues _ _ _
  unfold wait
  rw [wp_bind, wp_get]
  cases hs : o.snapshots.get? seqId with
  | none =>
    rw [hs] at hget
    exact ⟨rfl, rfl, hget⟩
  | some snapshot =>
    rw [hs] at hget
    dsimp only
    rw [wp_ite]
    split
    · next hc =>
      have hpending := (h.pending seqId).mpr ⟨snapshot, hs, hc⟩
      obtain ⟨hinv, hsettled⟩ := h.complete hs hc
      rw [wp_bind, wp_raiseIf]
      refine ⟨fun hmissing => ?_, fun _ => ?_⟩
      · rw [Dict.contains_eq_false, hpending] at hmissing
        cases hmissing
      · rw [wp_bind, wp_modify, wp_pure]
        refine ⟨hinv, hsettled, ?_, rfl, ?_⟩
        · unfold ChainOffload.complete
          rw [hs]
          exact Dict.get?_set_self _ _ _
        · rw [hget, Option.map_some, ChainSnapshot.settled_of_pending hc]
    · next hc =>
      rw [Bool.not_eq_true] at hc
      refine ⟨h, rfl, hs, hc, ?_⟩
      rw [hget, Option.map_some, ChainSnapshot.settled_of_seen hc]

theorem drop_spec (h : Inv o) (seqId : Nat) :
    wp (drop seqId) (fun _ o' => Inv o' ∧ o'.settled = o.settled.without seqId)
      (fun _ _ => False) o := by
  unfold drop
  rw [wp_bind, wp_get, wp_ite]
  split
  · next hhas =>
    rw [wp_bind]
    refine wp_mono (wait_spec h seqId) ?_ ?_
    · rintro snapshot o' ⟨hinv, hsettled, hs, hc, -⟩
      have hsum := Dict.sumBy_erase (fun (_ : Nat) (s : ChainSnapshot κ) => s.nbytes) hs
      have hbytes : o'.snapshotBytes seqId = snapshot.nbytes := by
        unfold snapshotBytes
        rw [hs]
        rfl
      have hpending : o'.pending.get? seqId = none := by
        by_contra hsome
        obtain ⟨v, hv⟩ := Option.ne_none_iff_exists'.mp hsome
        obtain ⟨s, hs', hcs⟩ := (hinv.pending seqId).mp hv
        rw [hs] at hs'
        cases hs'
        rw [hc] at hcs
        cases hcs
      rw [wp_modify]
      refine ⟨⟨?_, fun i => ?_⟩, ?_⟩
      · have hused := hinv.used
        dsimp only
        omega
      · show o'.pending.get? i = some () ↔ ∃ s, (o'.snapshots.erase seqId).get? i = some s ∧ _
        rw [Dict.get?_erase]
        split
        · next heq =>
          rw [heq, hpending]
          exact ⟨by simp, by rintro ⟨_, hs, _⟩; cases hs⟩
        · exact hinv.pending i
      · rw [← hsettled, ← settled_without o' seqId o'.pending]
        unfold without
        rw [hbytes]
    · rintro e o' ⟨-, -, hnone⟩
      rw [← contains_settled, Dict.contains_iff, hnone] at hhas
      obtain ⟨_, hhas⟩ := hhas
      cases hhas
  · next hhas =>
    rw [Bool.not_eq_true, ← contains_settled, Dict.contains_eq_false] at hhas
    refine ⟨h, ?_⟩
    unfold without snapshotBytes
    rw [hhas, Dict.erase_eq_self hhas]
    dsimp only [Option.elim]
    rw [Int.natCast_zero, Int.sub_zero]

theorem invalidate_spec (h : Inv o) (seqId : Nat) :
    wp (invalidate seqId) (fun _ o' => Inv o' ∧ o'.settled = o.settled.spoiled seqId)
      (fun _ _ => False) o := by
  unfold invalidate
  rw [wp_bind, wp_get, wp_ite]
  split
  · next hhas =>
    rw [wp_bind]
    refine wp_mono (wait_spec h seqId) ?_ ?_
    · rintro snapshot o' ⟨hinv, hsettled, hs, hc, hget⟩
      have hsum := Dict.sumBy_set_old (fun (_ : Nat) (s : ChainSnapshot κ) => s.nbytes)
        { snapshot with valid := false } hs
      rw [wp_modify]
      refine ⟨⟨?_, fun i => ?_⟩, ?_⟩
      · have hused := hinv.used
        dsimp only at hsum ⊢
        omega
      · show o'.pending.get? i = some () ↔ ∃ s, (o'.snapshots.set seqId _).get? i = some s ∧ _
        rw [Dict.get?_set]
        split
        · next heq =>
          rw [heq, hinv.pending, hs]
          constructor
          · rintro ⟨s, hs, hcs⟩
            cases hs
            exact ⟨_, rfl, hcs⟩
          · rintro ⟨s, hs, hcs⟩
            cases hs
            exact ⟨_, rfl, hcs⟩
        · exact hinv.pending i
      · unfold spoiled
        rw [hget]
        show settled _ = _
        rw [← hsettled]
        unfold settled
        dsimp only
        rw [Dict.mapValues_set]
        unfold ChainSnapshot.settled
        dsimp only
        rw [hc]
        rfl
    · rintro e o' ⟨-, -, hnone⟩
      rw [← contains_settled, Dict.contains_iff, hnone] at hhas
      obtain ⟨_, hhas⟩ := hhas
      cases hhas
  · next hhas =>
    rw [Bool.not_eq_true, ← contains_settled, Dict.contains_eq_false] at hhas
    refine ⟨h, ?_⟩
    unfold spoiled
    rw [hhas]

theorem Inv.store (h : Inv o) (hnone : o.snapshots.get? seqId = none)
    (hc : snapshot.completion = true) :
    Inv (o.store seqId snapshot) ∧
      (o.store seqId snapshot).settled =
        { o.settled with
          snapshots := o.settled.snapshots.set seqId snapshot.settled
          usedBytes := o.usedBytes + snapshot.nbytes } := by
  refine ⟨⟨?_, fun i => ?_⟩, ?_⟩
  · have hsum := Dict.sumBy_set_new (fun (_ : Nat) (s : ChainSnapshot κ) => s.nbytes) snapshot hnone
    have hused := h.used
    show o.usedBytes + snapshot.nbytes = ((o.snapshots.set seqId snapshot).sumBy _ : Nat)
    rw [hsum, hused]
    push_cast
    rfl
  · show (o.pending.set seqId ()).get? i = some () ↔ ∃ s, (o.snapshots.set seqId snapshot).get? i = some s ∧ _
    rw [Dict.get?_set, Dict.get?_set]
    split
    · exact ⟨fun _ => ⟨snapshot, rfl, hc⟩, fun _ => rfl⟩
    · exact h.pending i
  · unfold ChainOffload.store settled
    dsimp only
    rw [Dict.mapValues_set]

theorem reset_spec (h : Inv o) :
    wp reset (fun _ o' => Inv o' ∧ ∀ i, o'.status i = none) (fun _ _ => False) o := by
  unfold reset
  rw [wp_bind, wp_get]
  refine wp_mono (forEach_inv (I := fun rest o' => Inv o' ∧ ∀ i, o'.status i ≠ none → i ∈ rest)
    (fun i rest o' ho' => ?_) _ o ⟨h, fun i hi => ?_⟩) ?_ fun _ _ hf => hf
  · refine wp_mono (drop_spec ho'.1 i) ?_ fun _ _ hf => hf
    rintro - o'' ⟨hinv, hsettled⟩
    refine ⟨hinv, fun j hj => ?_⟩
    rw [← status_settled, hsettled, status_without] at hj
    split at hj
    · exact absurd rfl hj
    · next hne =>
      rw [status_settled] at hj
      exact (List.mem_cons.mp (ho'.2 j hj)).resolve_left hne
  · rw [ne_eq, status_eq_none] at hi
    exact Dict.mem_keys.mpr (Option.ne_none_iff_exists'.mp hi)
  · rintro - o' ⟨hinv, hnone⟩
    refine ⟨hinv, fun i => ?_⟩
    by_contra hsome
    cases hnone i hsome

theorem Inv.used_of_single (h : Inv o) (seqId : Nat) (hothers : ∀ i, i ≠ seqId → o.snapshots.get? i = none) :
    o.usedBytes = o.snapshotBytes seqId := by
  have hsum := Dict.sumBy_eq_sum_of_subset (fun (_ : Nat) (s : ChainSnapshot κ) => s.nbytes)
    (d := o.snapshots) (T := {seqId}) fun i hi => by
      obtain ⟨s, hs⟩ := Dict.mem_keySet.mp hi
      by_contra hne
      rw [hothers i (fun heq => hne (Finset.mem_singleton.mpr heq))] at hs
      cases hs
  rw [h.used, hsum, Finset.sum_singleton]
  unfold Dict.weightAt snapshotBytes
  rfl

end ChainOffload

end SparseEngine
