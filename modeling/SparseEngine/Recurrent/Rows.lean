import SparseEngine.Recurrent.Manager

/-!
# Rows of the recurrent state manager
-/

namespace SparseEngine

namespace PyM

variable {σ α : Type}

theorem raiseIf_bind_ok {c : Prop} [Decidable c] {e : PyError} {f : Unit → PyM σ α} {s s' : σ} {a : α} :
    (raiseIf c e >>= f) s = (.ok a, s') ↔ ¬c ∧ f () s = (.ok a, s') := by
  rw [bind_run, raiseIf]
  by_cases hc : c
  · rw [if_pos hc]
    simp [hc]
  · rw [if_neg hc]
    simp [hc]

theorem bind_eq_ok {β : Type} {m : PyM σ α} {f : α → PyM σ β} {s s' : σ} {b : β} :
    (m >>= f) s = (.ok b, s') ↔ ∃ a s₁, m s = (.ok a, s₁) ∧ f a s₁ = (.ok b, s') := by
  rw [bind_run]
  rcases m s with ⟨_ | a, s₁⟩ <;> simp

end PyM

namespace Recurrent

open PyM

variable {V E : Type} {cfg : StateConfig V} {m m' : StateManager V E}

/-- A row has one owner, and the free rows have none. -/
structure Owned (cfg : StateConfig V) (m : StateManager V E) : Prop where
  owner : ∀ {seqId row}, m.seqIdToRow.get? seqId = some row → m.rowToSeqId row = some seqId
  within : ∀ {seqId row}, m.seqIdToRow.get? seqId = some row → row < cfg.rowCapacity
  free : ∀ {row}, row ∈ m.freeRows → m.rowToSeqId row = none
  freeWithin : ∀ {row}, row ∈ m.freeRows → row < cfg.rowCapacity
  nodup : m.freeRows.Nodup

theorem Owned.injective (h : Owned cfg m) {s s' : Int} {row : Nat} (hs : m.seqIdToRow.get? s = some row)
    (hs' : m.seqIdToRow.get? s' = some row) : s = s' :=
  Option.some.inj ((h.owner hs).symm.trans (h.owner hs'))

/-- The manager after `seqId` took the free row `row`. -/
def takeRow (cfg : StateConfig V) (seqId : Int) (row : Nat) (freeRows : List Nat)
    (m : StateManager V E) : StateManager V E :=
  zeroRow cfg cfg.layers row
    { m with
      freeRows := freeRows
      seqIdToRow := m.seqIdToRow.set seqId row
      rowToSeqId := fun r => if r = row then some seqId else m.rowToSeqId r }

theorem allocateRow_run (cfg : StateConfig V) (seqId : Int) (m : StateManager V E) :
    (∃ row, m.seqIdToRow.get? seqId = some row ∧ allocateRow cfg seqId m = (.ok row, m)) ∨
    (∃ row rest, m.seqIdToRow.get? seqId = none ∧ m.freeRows = row :: rest ∧
      allocateRow cfg seqId m = (.ok row, takeRow cfg seqId row rest m)) ∨
    m.seqIdToRow.get? seqId = none ∧ m.freeRows = [] ∧ ∃ e, allocateRow cfg seqId m = (.error e, m) := by
  unfold allocateRow
  rw [bind_ok (get_run (s := m))]
  cases hrow : m.seqIdToRow.get? seqId with
  | some row => exact .inl ⟨row, rfl, rfl⟩
  | none =>
    cases hfree : m.freeRows with
    | nil => exact .inr (.inr ⟨rfl, rfl, _, rfl⟩)
    | cons row rest => exact .inr (.inl ⟨row, rest, rfl, rfl, rfl⟩)

theorem Owned.takeRow (h : Owned cfg m) {seqId : Int} {row : Nat} {rest : List Nat}
    (hfree : m.freeRows = row :: rest) : Owned cfg (takeRow cfg seqId row rest m) := by
  have hnone : m.rowToSeqId row = none := h.free (hfree ▸ List.mem_cons_self)
  have hnodup := h.nodup
  rw [hfree, List.nodup_cons] at hnodup
  refine ⟨fun {s r} hs => ?_, fun {s r} hs => ?_, fun {r} hr => ?_,
    fun hr => h.freeWithin (hfree ▸ List.mem_cons_of_mem _ hr), hnodup.2⟩
  · simp only [Recurrent.takeRow, zeroRow, Dict.get?_set] at hs ⊢
    split at hs
    · next heq =>
      cases hs
      rw [if_pos rfl, heq]
    · rw [if_neg, h.owner hs]
      rintro rfl
      rw [h.owner hs] at hnone
      cases hnone
  · simp only [Recurrent.takeRow, zeroRow, Dict.get?_set] at hs
    split at hs
    · cases hs
      exact h.freeWithin (hfree ▸ List.mem_cons_self)
    · exact h.within hs
  · simp only [Recurrent.takeRow, zeroRow] at hr ⊢
    rw [if_neg, h.free (hfree ▸ List.mem_cons_of_mem _ hr)]
    rintro rfl
    exact hnodup.1 hr

variable (seqId : Int)

theorem keeps_allocateRow (h : Owned cfg m) : Owned cfg (allocateRow cfg seqId m).2 := by
  obtain ⟨row, -, hrun⟩ | ⟨row, rest, -, hfree, hrun⟩ | ⟨-, -, e, hrun⟩ := allocateRow_run cfg seqId m
  · rwa [hrun]
  · rw [hrun]
    exact h.takeRow hfree
  · rwa [hrun]

theorem Owned.of_rows (h : Owned cfg m) (hrows : m'.seqIdToRow = m.seqIdToRow)
    (howners : m'.rowToSeqId = m.rowToSeqId) (hfree : m'.freeRows = m.freeRows) : Owned cfg m' := by
  refine ⟨fun hs => ?_, fun hs => h.within (hrows ▸ hs), fun hr => ?_,
    fun hr => h.freeWithin (hfree ▸ hr), by rw [hfree]; exact h.nodup⟩
  · rw [howners]
    exact h.owner (hrows ▸ hs)
  · rw [howners]
    exact h.free (hfree ▸ hr)

/-- The value may be stored under `name` in a buffer of the layer. -/
def Fits (cfg : StateConfig V) (layerIdx : Int) (name : String) (value : V) : Prop :=
  layerIdx ∈ cfg.layers ∧ ∃ kind, cfg.tensorSpecs.get? name = some kind ∧
    kind.shape = (cfg.kindOf value).shape ∧ kind.dtype = (cfg.kindOf value).dtype ∧
    cfg.device = (cfg.kindOf value).device

theorem ensureBuffer_run (cfg : StateConfig V) (layerIdx : Int) (name : String) (value : V)
    (m : StateManager V E) :
    Fits cfg layerIdx name value ∧ ensureBuffer cfg layerIdx name value m = (.ok (), m) ∨
    ¬Fits cfg layerIdx name value ∧ ∃ e, ensureBuffer cfg layerIdx name value m = (.error e, m) := by
  simp only [ensureBuffer, bind_run, raiseIf]
  by_cases hlayer : layerIdx ∈ cfg.layers
  · rw [if_neg (not_not.2 hlayer)]
    simp only
    cases hspec : cfg.tensorSpecs.get? name with
    | none =>
      refine .inr ⟨?_, _, rfl⟩
      rintro ⟨-, kind, hkind, -⟩
      rw [hspec] at hkind
      cases hkind
    | some kind =>
      have hkind : ∀ h : Fits cfg layerIdx name value, kind.shape = (cfg.kindOf value).shape ∧
          kind.dtype = (cfg.kindOf value).dtype ∧ cfg.device = (cfg.kindOf value).device := by
        rintro ⟨-, kind', hkind', h⟩
        rw [hspec] at hkind'
        cases hkind'
        exact h
      by_cases hshape : kind.shape = (cfg.kindOf value).shape
      · by_cases hdtype : kind.dtype = (cfg.kindOf value).dtype ∧ cfg.device = (cfg.kindOf value).device
        · exact .inl ⟨⟨hlayer, kind, hspec, hshape, hdtype⟩, by simp [bind_run, raiseIf, hshape, hdtype]⟩
        · refine .inr ⟨fun h => hdtype (hkind h).2, ?_⟩
          rw [not_and_or] at hdtype
          exact ⟨_, by simp [bind_run, raiseIf, hshape, hdtype]; rfl⟩
      · exact .inr ⟨fun h => hshape (hkind h).1, _, by simp [bind_run, raiseIf, hshape]; rfl⟩
  · exact .inr ⟨fun h => hlayer h.1, _, by rw [if_pos hlayer]⟩

/-- The manager after `states` were copied into a row of a layer. -/
def copyStates (layerIdx : Int) (row : Nat) (states : Dict String V) (m : StateManager V E) :
    StateManager V E :=
  { m with
    buffers := fun layer r name =>
      if layer = layerIdx ∧ r = row then (states.get? name).getD (m.buffers layer r name)
      else m.buffers layer r name }

structure Accepts (cfg : StateConfig V) (layerIdx : Int) (states : Dict String V) : Prop where
  linear : cfg.isLinearAttention layerIdx = true
  complete : ∀ name ∈ cfg.stateNames, name ∈ states.keys
  declared : ∀ name ∈ states.keys, name ∈ cfg.stateNames
  fits : ∀ entry ∈ states.entries, Fits cfg layerIdx entry.1 entry.2

def storeLoop (cfg : StateConfig V) (layerIdx : Int) (row : Nat) (entries : List (String × V)) :
    StateM V E Unit :=
  forEach (fun entry => do
    ensureBuffer cfg layerIdx entry.1 entry.2
    modify (copyRow layerIdx row entry.1 entry.2)) entries

theorem storeLoop_ok {layerIdx : Int} {row : Nat} : ∀ {entries : List (String × V)}
    {m m' : StateManager V E}, (entries.map Prod.fst).Nodup →
    (storeLoop cfg layerIdx row entries m = (.ok (), m') ↔
      (∀ entry ∈ entries, Fits cfg layerIdx entry.1 entry.2) ∧
      m' = { m with
        buffers := fun layer r name =>
          if layer = layerIdx ∧ r = row then
            (Dict.lookupEntry name entries).getD (m.buffers layer r name)
          else m.buffers layer r name })
  | [], m, m', _ => by
    simp only [storeLoop, forEach, pure_run, Prod.mk.injEq, true_and, List.not_mem_nil,
      false_implies, implies_true, Dict.lookupEntry, Option.getD_none, ite_self]
    exact eq_comm
  | (name, value) :: entries, m, m', hnodup => by
    rw [List.map_cons, List.nodup_cons] at hnodup
    simp only [storeLoop, forEach, List.forall_mem_cons]
    obtain ⟨hfits, hrun⟩ | ⟨hfits, e, hrun⟩ := ensureBuffer_run cfg layerIdx name value m
    · have hfirst : (ensureBuffer cfg layerIdx name value >>= fun _ =>
          modify (copyRow layerIdx row name value)) m = (.ok (), copyRow layerIdx row name value m) := by
        rw [bind_ok hrun]
        rfl
      rw [bind_ok hfirst]
      have ih := @storeLoop_ok layerIdx row entries (copyRow layerIdx row name value m) m' hnodup.2
      rw [storeLoop] at ih
      rw [ih]
      refine and_congr (by simp [hfits]) (Eq.congr rfl ?_)
      simp only [copyRow, StateManager.mk.injEq, true_and, and_true]
      funext layer r n
      by_cases hhere : layer = layerIdx ∧ r = row
      · rw [if_pos hhere, if_pos hhere]
        simp only [Dict.lookupEntry]
        by_cases hn : n = name
        · subst hn
          have hnone : Dict.lookupEntry n entries = none := by
            rw [← Option.not_isSome_iff_eq_none, Dict.lookupEntry_isSome]
            exact hnodup.1
          rw [if_pos ⟨hhere.1, hhere.2, rfl⟩, if_pos rfl, hnone]
          rfl
        · rw [if_neg (fun h => hn h.2.2), if_neg (Ne.symm hn)]
      · rw [if_neg hhere, if_neg hhere, if_neg (fun h => hhere ⟨h.1, h.2.1⟩)]
    · have hfirst : (ensureBuffer cfg layerIdx name value >>= fun _ =>
          modify (copyRow layerIdx row name value)) m = (.error e, m) := bind_error hrun
      rw [bind_error hfirst]
      simp [hfits]

theorem setLayerState_ok {seqId layerIdx : Int} {states : Dict String V} :
    setLayerState cfg seqId layerIdx states m = (.ok (), m') ↔
      Accepts cfg layerIdx states ∧ ∃ row m₁, allocateRow cfg seqId m = (.ok row, m₁) ∧
        m' = copyStates layerIdx row states m₁ := by
  unfold setLayerState
  rw [raiseIf_bind_ok, raiseIf_bind_ok, bind_eq_ok]
  constructor
  · rintro ⟨hlinear, hnames, row, m₁, hrow, hloop⟩
    rw [not_or] at hnames
    obtain ⟨hfits, rfl⟩ := (storeLoop_ok states.nodup).1 hloop
    refine ⟨⟨by simpa using hlinear, ?_, ?_, hfits⟩, row, m₁, hrow, rfl⟩
    · intro name hname
      by_contra hmissing
      exact hnames.1 ⟨name, hname, hmissing⟩
    · intro name hname
      by_contra hunexpected
      exact hnames.2 ⟨name, hname, hunexpected⟩
  · rintro ⟨haccepts, row, m₁, hrow, rfl⟩
    refine ⟨by simp [haccepts.linear], ?_, row, m₁, hrow, (storeLoop_ok states.nodup).2 ⟨haccepts.fits, rfl⟩⟩
    rintro (⟨name, hname, hmissing⟩ | ⟨name, hname, hunexpected⟩)
    · exact hmissing (haccepts.complete name hname)
    · exact hunexpected (haccepts.declared name hname)

def KeepsOwned (cfg : StateConfig V) (m m' : StateManager V E) : Prop := Owned cfg m → Owned cfg m'

instance : Std.Refl (KeepsOwned cfg (V := V) (E := E)) := ⟨fun _ h => h⟩

instance : IsTrans (StateManager V E) (KeepsOwned cfg) := ⟨fun _ _ _ h h' ho => h' (h ho)⟩

theorem along_allocateRow :
    Along (KeepsOwned cfg) (allocateRow cfg seqId : StateM V E Nat) := fun _ h => keeps_allocateRow seqId h

theorem along_of_rows {f : StateManager V E → StateManager V E}
    (hrows : ∀ m, (f m).seqIdToRow = m.seqIdToRow) (howners : ∀ m, (f m).rowToSeqId = m.rowToSeqId)
    (hfree : ∀ m, (f m).freeRows = m.freeRows) : Along (KeepsOwned cfg) (modify f) :=
  along_modify fun m (h : Owned cfg m) => h.of_rows (hrows m) (howners m) (hfree m)

theorem along_ensureBuffer (layerIdx : Int) (name : String) (value : V) :
    Along (KeepsOwned cfg) (ensureBuffer cfg layerIdx name value : StateM V E Unit) := fun m h => by
  obtain ⟨-, hrun⟩ | ⟨-, e, hrun⟩ := ensureBuffer_run cfg layerIdx name value m <;> rwa [hrun]

theorem along_setLayerState (seqId layerIdx : Int) (states : Dict String V) :
    Along (KeepsOwned cfg) (setLayerState cfg seqId layerIdx states : StateM V E Unit) := by
  refine along_bind (along_raiseIf _ _) fun _ => along_bind (along_raiseIf _ _) fun _ =>
    along_bind (along_allocateRow seqId) fun row => along_forEach fun entry _ =>
      along_bind (along_ensureBuffer _ _ _) fun _ => along_of_rows ?_ ?_ ?_ <;> exact fun _ => rfl

theorem along_materialize (capturing : Bool) (seqId layerIdx : Int) :
    Along (KeepsOwned cfg) (materializePendingPrefixLayer cfg capturing seqId layerIdx : StateM V E Unit) := by
  refine along_bind_get fun m => (?_ : Along (KeepsOwned cfg) _) m
  split
  · exact along_pure _
  split
  · exact along_pure _
  split
  · exact along_raise _
  refine along_bind (along_of_rows (fun _ => rfl) (fun _ => rfl) fun _ => rfl) fun _ =>
    along_bind (along_raiseIf _ _) fun _ => along_bind (along_setLayerState _ _ _) fun _ => ?_
  split
  · exact along_of_rows (fun _ => rfl) (fun _ => rfl) fun _ => rfl
  · exact along_pure _

/-- The manager after `free_seq` of a sequence with the row `row`. -/
def releaseRow (row : Nat) (m : StateManager V E) : StateManager V E :=
  { m with
    pendingPrefixPayloads := m.pendingPrefixPayloads.erase seqId
    seqIdToRow := m.seqIdToRow.erase seqId
    rowToSeqId := fun r => if r = row then none else m.rowToSeqId r
    freeRows := m.freeRows ++ [row] }

theorem freeSeq_run (h : Owned cfg m) (seqId : Int) :
    (∃ row, m.seqIdToRow.get? seqId = some row ∧ freeSeq seqId m = (.ok (), releaseRow seqId row m)) ∨
    m.seqIdToRow.get? seqId = none ∧ freeSeq seqId m =
      (.ok (), { m with pendingPrefixPayloads := m.pendingPrefixPayloads.erase seqId }) := by
  unfold freeSeq
  rw [bind_ok (modify_run _), bind_ok get_run]
  cases hrow : m.seqIdToRow.get? seqId with
  | none => exact .inr ⟨rfl, rfl⟩
  | some row =>
    refine .inl ⟨row, rfl, ?_⟩
    simp only [bind_ok (modify_run _), bind_run, raiseIf, h.owner hrow, ne_eq, not_true_eq_false,
      if_false, modify_run]
    rfl

theorem Owned.releaseRow (h : Owned cfg m) {seqId : Int} {row : Nat}
    (hrow : m.seqIdToRow.get? seqId = some row) : Owned cfg (releaseRow seqId row m) := by
  have howner := h.owner hrow
  refine ⟨fun {s r} hs => ?_, fun {s r} hs => ?_, fun {r} hr => ?_, fun {r} hr => ?_, ?_⟩
  · simp only [Recurrent.releaseRow, Dict.get?_erase] at hs ⊢
    split at hs
    · cases hs
    · next hne =>
      rw [if_neg, h.owner hs]
      rintro rfl
      exact hne (h.injective hs hrow)
  · simp only [Recurrent.releaseRow, Dict.get?_erase] at hs
    split at hs
    · cases hs
    · exact h.within hs
  · simp only [Recurrent.releaseRow, List.mem_append, List.mem_singleton] at hr ⊢
    split
    · rfl
    · next hne => exact h.free (hr.resolve_right hne)
  · simp only [Recurrent.releaseRow, List.mem_append, List.mem_singleton] at hr
    rcases hr with hr | rfl
    · exact h.freeWithin hr
    · exact h.within hrow
  · refine List.Nodup.append h.nodup (List.nodup_singleton row) ?_
    rw [List.disjoint_singleton]
    intro hr
    rw [h.free hr] at howner
    cases howner

theorem keeps_freeSeq (h : Owned cfg m) (seqId : Int) : Owned cfg (freeSeq seqId m).2 := by
  obtain ⟨row, hrow, hrun⟩ | ⟨-, hrun⟩ := freeSeq_run h seqId
  · rw [hrun]
    exact h.releaseRow hrow
  · rw [hrun]
    exact h.of_rows rfl rfl rfl

theorem along_getDecodeLayerState (capturing : Bool) (r : DecodeRead) :
    Along (KeepsOwned cfg) (getDecodeLayerState cfg capturing r : StateM V E _) := by
  refine along_bind (along_forEach fun _ _ => along_materialize _ _ _) fun _ =>
    along_bind (along_raiseIf _ _) fun _ => along_bind (along_raiseIf _ _) fun _ =>
    along_bind (along_raiseIf _ _) fun _ => along_bind (along_raiseIf _ _) fun _ =>
    along_bind_get fun m => (?_ : Along (KeepsOwned cfg) _) m
  refine along_bind (along_lift _) fun rows =>
    along_bind (along_of_rows (fun _ => rfl) (fun _ => rfl) fun _ => rfl) fun _ => ?_
  split
  · exact along_raise _
  · exact along_bind (along_raiseIf _ _) fun _ => along_pure _

theorem along_call (c : StateCall V) : Along (KeepsOwned cfg) (call cfg c : StateM V E _) := by
  cases c with
  | getLayerState capturing seqId layerIdx =>
    refine along_bind (along_bind (along_materialize _ _ _) fun _ =>
      along_bind_get fun m => (?_ : Along (KeepsOwned cfg) _) m) fun _ => along_pure _
    split
    · exact along_pure _
    · exact along_ite (along_pure _) (along_pure _)
  | getDecodeLayerState capturing r =>
    exact along_bind (along_getDecodeLayerState _ _) fun _ => along_pure _
  | setLayerState seqId layerIdx states =>
    exact along_bind (along_setLayerState _ _ _) fun _ => along_pure _
  | freeSeq seqId => exact along_bind (fun _ h => keeps_freeSeq h seqId) fun _ => along_pure _

theorem along_attach (payload : RecurrentPrefixPayload V) (events : Option (Dict Int E)) :
    Along (KeepsOwned cfg) (attachPrefixRecurrentPayload cfg seqId payload events : StateM V E Unit) := by
  refine along_bind (along_raiseIf _ _) fun _ => along_bind (along_raiseIf _ _) fun _ => ?_
  split
  · exact along_bind (along_raiseIf _ _) fun _ => along_bind (along_allocateRow _) fun _ =>
      along_of_rows (fun _ => rfl) (fun _ => rfl) fun _ => rfl
  · exact along_forEach fun _ _ => along_setLayerState _ _ _

theorem Reachable.owned (h : Reachable cfg m) : Owned cfg m := by
  induction h with
  | create =>
    exact ⟨fun h => (by cases h), fun h => (by cases h), fun _ => rfl, fun hr => List.mem_range.1 hr,
      List.nodup_range⟩
  | call c _ ih => exact along_call c _ ih
  | attach seqId payload events _ ih => exact along_attach seqId payload events _ ih
  | prepareDecodeStatic seqIds tokenBatch _ ih =>
    refine along_bind (along_forEach fun seqId _ => along_bind (along_allocateRow seqId)
      fun _ => along_pure _) (fun _ => along_bind (along_raiseIf _ _) fun _ =>
      along_bind_get fun m => (?_ : Along (KeepsOwned cfg) _) m) _ ih
    exact along_bind (along_lift _) fun _ => along_of_rows (fun _ => rfl) (fun _ => rfl) fun _ => rfl

end Recurrent

end SparseEngine
