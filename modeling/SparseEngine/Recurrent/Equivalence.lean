import SparseEngine.Recurrent.Restoring

/-!
# When a deferred restore is an eager one
-/

namespace SparseEngine.Recurrent

open PyM List Dict Restore

variable {V E : Type} {cfg : StateConfig V} {payload : RecurrentPrefixPayload V} {seqId : Int}
  {g : Restore V} {opened : List Int} {e e' d d' : StateManager V E}

def Openable (payload : RecurrentPrefixPayload V) : Restore V → List (Touch V) → Prop
  | _, [] => True
  | g, .read capturing l :: ts =>
    g.Opens payload capturing l ∧ Openable payload (g.after (.read capturing l)) ts
  | g, t :: ts => Openable payload (g.after t) ts

variable {capturing : Bool} {l : Int}

theorem restorable_readsOf : ∀ {seqIds : List Int} {g : Restore V},
    Restorable cfg payload g (readsOf seqId capturing l seqIds) ↔
      Openable payload g (readsOf seqId capturing l seqIds) ∧
        (seqId ∈ seqIds → l ∈ g.remaining → g.Unchanged cfg payload l)
  | [], g => by simp [readsOf, Restorable, Openable]
  | s :: seqIds, g => by
    by_cases hs : s = seqId
    · simp only [readsOf, if_pos hs, Restorable, Openable, Allows]
      rw [restorable_readsOf]
      have hgone : l ∉ (g.after (.read capturing l)).remaining := fun hin => by
        simp [Restore.after] at hin
      constructor
      · rintro ⟨⟨hopens, hunchanged⟩, hrest, -⟩
        exact ⟨⟨hopens, hrest⟩, fun _ => hunchanged⟩
      · rintro ⟨⟨hopens, hrest⟩, hunchanged⟩
        exact ⟨⟨hopens, hunchanged (hs ▸ mem_cons_self)⟩, hrest, fun _ hin => absurd hin hgone⟩
    · simp only [readsOf, if_neg hs, mem_cons, Ne.symm hs, false_or]
      exact restorable_readsOf

theorem foldl_readsOf (seqId : Int) (capturing : Bool) (l : Int) : ∀ (seqIds : List Int) (g : Restore V),
    ((readsOf seqId capturing l seqIds).foldl Restore.after g).latest = g.latest ∧
      ∀ l', l' ∈ ((readsOf seqId capturing l seqIds).foldl Restore.after g).remaining ↔
        l' ∈ g.remaining ∧ (seqId ∈ seqIds → l' ≠ l)
  | [], g => by simp [readsOf]
  | s :: seqIds, g => by
    by_cases hs : s = seqId
    · simp only [readsOf, if_pos hs, foldl_cons]
      obtain ⟨hlatest, hremaining⟩ := foldl_readsOf seqId capturing l seqIds (g.after (.read capturing l))
      refine ⟨hlatest, fun l' => ?_⟩
      rw [hremaining]
      simp only [Restore.after, mem_filter, ne_eq, decide_not, Bool.not_eq_eq_eq_not, Bool.not_true,
        decide_eq_false_iff_not, mem_cons, hs, true_or, true_implies]
      exact ⟨fun hh => hh.1, fun hh => ⟨hh, fun _ => hh.2⟩⟩
    · simp only [readsOf, if_neg hs, mem_cons, Ne.symm hs, false_or]
      exact foldl_readsOf seqId capturing l seqIds g

theorem Lags.reads
    (hpayload : ∀ l states, payload.layerStates.get? l = some states → Accepts cfg l states) :
    ∀ {seqIds : List Int} {g : Restore V} {e d e' : StateManager V E},
    Lags cfg payload seqId g opened e d →
    forEach (fun s => materializePendingPrefixLayer cfg capturing s l) seqIds e = (.ok (), e') →
    ((∃ d', forEach (fun s => materializePendingPrefixLayer cfg capturing s l) seqIds d = (.ok (), d')) ↔
      Openable payload g (readsOf seqId capturing l seqIds)) ∧
    ∀ d', forEach (fun s => materializePendingPrefixLayer cfg capturing s l) seqIds d = (.ok (), d') →
      Lags cfg payload seqId ((readsOf seqId capturing l seqIds).foldl Restore.after g) opened e' d'
  | [], g, e, d, e', h, hrun => by
    cases hrun
    refine ⟨⟨fun _ => trivial, fun _ => ⟨d, rfl⟩⟩, fun d' hd => ?_⟩
    cases hd
    exact h
  | s :: seqIds, g, e, d, e', h, hrun => by
    rw [forEach, bind_eq_ok] at hrun
    obtain ⟨u, e₁, hfirst, hrest⟩ := hrun
    simp only [forEach, bind_eq_ok]
    by_cases hs : s = seqId
    · rw [hs] at hfirst ⊢
      obtain ⟨hopens, hlags⟩ := h.materialize_self hpayload capturing l
      have heq : e₁ = e := by
        obtain ⟨-, rfl⟩ | ⟨p, events, -, -, -, hentry, -⟩ := materialize_ok.1 hfirst
        · rfl
        · rw [h.noEntry] at hentry
          cases hentry
      subst heq
      simp only [readsOf, if_true, Openable, foldl_cons]
      constructor
      · constructor
        · rintro ⟨d', u', d₁, hd₁, hd'⟩
          exact ⟨hopens.1 ⟨d₁, hd₁⟩, ((Lags.reads hpayload (hlags d₁ hd₁) hrest).1).1 ⟨d', hd'⟩⟩
        · rintro ⟨hfirst', hrest'⟩
          obtain ⟨d₁, hd₁⟩ := hopens.2 hfirst'
          obtain ⟨d', hd'⟩ := ((Lags.reads hpayload (hlags d₁ hd₁) hrest).1).2 hrest'
          exact ⟨d', (), d₁, hd₁, hd'⟩
      · rintro d' ⟨u', d₁, hd₁, hd'⟩
        exact (Lags.reads hpayload (hlags d₁ hd₁) hrest).2 d' hd'
    · obtain ⟨d₁, hd₁, hlags⟩ := h.materialize_other hs hfirst
      obtain ⟨hopens, hlast⟩ := Lags.reads hpayload hlags hrest
      simp only [readsOf, if_neg hs]
      constructor
      · rw [← hopens]
        constructor
        · rintro ⟨d', u', d₂, hd₂, hd'⟩
          rw [hd₁] at hd₂
          cases hd₂
          exact ⟨d', hd'⟩
        · rintro ⟨d', hd'⟩
          exact ⟨d', (), d₁, hd₁, hd'⟩
      · rintro d' ⟨u', d₂, hd₂, hd'⟩
        rw [hd₁] at hd₂
        cases hd₂
        exact hlast d' hd'

variable {row : Nat}

theorem rowState_eq_iff :
    rowState cfg d l row = rowState cfg e l row ↔
      ∀ name ∈ cfg.stateNames, d.buffers l row name = e.buffers l row name := by
  rw [rowState, rowState, map_inj_left]
  exact forall₂_congr fun name _ => by rw [Prod.mk.injEq, and_iff_right rfl]

variable {seqIds : List Int}

theorem Lags.same_rows
    (h : Lags cfg payload seqId ((readsOf seqId capturing l seqIds).foldl Restore.after g) g.remaining e d)
    (hlayer : l ∈ cfg.layers ∨ cfg.stateNames = []) :
    (∀ s ∈ seqIds, ∀ row, e.seqIdToRow.get? s = some row → rowState cfg d l row = rowState cfg e l row) ↔
      (seqId ∈ seqIds → l ∈ g.remaining → g.Unchanged cfg payload l) := by
  obtain ⟨hlatest, hremaining⟩ := foldl_readsOf seqId capturing l seqIds g
  constructor
  · intro hrows hmem hin name hname
    obtain ⟨row, hrow⟩ := h.row (ne_nil_of_mem hin)
    have hgone : l ∉ ((readsOf seqId capturing l seqIds).foldl Restore.after g).remaining := fun hl =>
      ((hremaining l).1 hl).2 hmem rfl
    have hheld := h.held row hrow l hin name hname
    rw [hlatest] at hheld
    rw [hheld, h.copied row hrow l hin hgone name hname,
      rowState_eq_iff.1 (hrows seqId hmem row hrow) name hname]
  · intro hunchanged s hs row hrow
    refine rowState_eq_iff.2 fun name hname => ?_
    have hl : l ∈ cfg.layers := hlayer.resolve_right (ne_nil_of_mem hname)
    by_cases hself : s = seqId ∧ l ∈ g.remaining
    · obtain ⟨rfl, hin⟩ := hself
      have hgone : l ∉ ((readsOf s capturing l seqIds).foldl Restore.after g).remaining := fun hl =>
        ((hremaining l).1 hl).2 hs rfl
      have hheld := h.held row hrow l hin name hname
      rw [hlatest, hunchanged hs hin name hname, h.copied row hrow l hin hgone name hname] at hheld
      exact Option.some.inj hheld
    · exact h.same s row hrow l hl name hname fun heq hin => hself ⟨heq, hin⟩

theorem Lags.settle_reads
    (h : Lags cfg payload seqId ((readsOf seqId capturing l seqIds).foldl Restore.after g) g.remaining e d)
    (hunchanged : seqId ∈ seqIds → l ∈ g.remaining → g.Unchanged cfg payload l) :
    Lags cfg payload seqId ((readsOf seqId capturing l seqIds).foldl Restore.after g)
      ((readsOf seqId capturing l seqIds).foldl Restore.after g).remaining e d := by
  obtain ⟨hlatest, hremaining⟩ := foldl_readsOf seqId capturing l seqIds g
  refine h.settle fun l' hl' hnot name hname => ?_
  rw [hremaining, not_and, Classical.not_imp, not_not] at hnot
  obtain ⟨hmem, rfl⟩ := hnot hl'
  rw [hlatest]
  exact hunchanged hmem hl' name hname

/-- What `get_layer_state` returns after its layer is copied. -/
def layerResult (cfg : StateConfig V) (m : StateManager V E) (s l : Int) : Option (List (String × V)) :=
  match m.seqIdToRow.get? s with
  | none => none
  | some row => if l ∉ cfg.layers ∨ cfg.stateNames = [] then none else some (rowState cfg m l row)

variable {s : Int}

theorem getLayerState_ok {x : Option (List (String × V))} :
    getLayerState cfg capturing s l e = (.ok x, e') ↔
      forEach (fun s => materializePendingPrefixLayer cfg capturing s l) [s] e = (.ok (), e') ∧
        x = layerResult cfg e' s l := by
  simp only [getLayerState, forEach, bind_eq_ok, pure_run, Prod.mk.injEq, true_and]
  constructor
  · rintro ⟨u, e₁, hrun, m, m', hget, hrest⟩
    cases hget
    simp only [layerResult]
    cases hrow : e₁.seqIdToRow.get? s with
    | none =>
      simp only [hrow] at hrest
      cases hrest
      exact ⟨⟨(), _, hrun, rfl⟩, by rw [hrow]⟩
    | some row =>
      simp only [hrow] at hrest
      split at hrest
      · next hundeclared =>
        cases hrest
        exact ⟨⟨(), _, hrun, rfl⟩, by simp only [hrow, if_pos hundeclared]⟩
      · next hdeclared =>
        cases hrest
        exact ⟨⟨(), _, hrun, rfl⟩, by simp only [hrow, if_neg hdeclared]⟩
  · rintro ⟨⟨u, e₁, hrun, rfl⟩, rfl⟩
    refine ⟨(), e₁, hrun, e₁, e₁, rfl, ?_⟩
    rw [layerResult]
    cases e₁.seqIdToRow.get? s with
    | none => rfl
    | some row =>
      simp only
      split <;> rfl

theorem layerResult_eq_iff (hrows : d.seqIdToRow = e.seqIdToRow) :
    layerResult cfg d s l = layerResult cfg e s l ↔
      (l ∈ cfg.layers ∨ cfg.stateNames = [] →
        ∀ s' ∈ [s], ∀ row, e.seqIdToRow.get? s' = some row → rowState cfg d l row = rowState cfg e l row) := by
  simp only [layerResult, hrows, mem_singleton, forall_eq]
  cases e.seqIdToRow.get? s with
  | none => simp
  | some row =>
    by_cases hundeclared : l ∉ cfg.layers ∨ cfg.stateNames = []
    · simp only [if_pos hundeclared, true_iff, Option.some.injEq, forall_eq']
      intro hlayer
      have hnil : cfg.stateNames = [] := by tauto
      rw [rowState, rowState, hnil]
      rfl
    · simp only [if_neg hundeclared, Option.some.injEq, forall_eq']
      rw [not_or, not_not] at hundeclared
      exact ⟨fun heq _ => heq, fun heq => heq (.inl hundeclared.1)⟩

variable {m : StateManager V E}

theorem expectedRows_ok : ∀ {seqIds : List Int} {rows : List Nat},
    expectedRows m seqIds = .ok rows → Forall₂ (fun s row => m.seqIdToRow.get? s = some row) seqIds rows
  | [], rows, h => by
    cases h
    exact .nil
  | s :: seqIds, rows, h => by
    simp only [expectedRows] at h
    cases hrow : m.seqIdToRow.get? s with
    | none => simp only [hrow] at h; cases h
    | some row =>
      simp only [hrow] at h
      cases hrest : expectedRows m seqIds with
      | error err => rw [hrest] at h; cases h
      | ok rest =>
        rw [hrest] at h
        cases h
        exact .cons hrow (expectedRows_ok hrest)

theorem exists_right_of_forall₂ {α β : Type} {R : α → β → Prop} {l : List α} {l' : List β}
    (h : Forall₂ R l l') {a : α} (ha : a ∈ l) : ∃ b ∈ l', R a b := by
  induction h with
  | nil => cases ha
  | @cons _ b _ _ hr _ ih =>
    rcases mem_cons.1 ha with rfl | ha
    · exact ⟨b, mem_cons_self, hr⟩
    · obtain ⟨b', hb', hr'⟩ := ih ha
      exact ⟨b', mem_cons_of_mem _ hb', hr'⟩

theorem expectedRows_congr (hrows : d.seqIdToRow = e.seqIdToRow) (seqIds : List Int) :
    expectedRows d seqIds = expectedRows e seqIds := by
  induction seqIds with
  | nil => rfl
  | cons s seqIds ih => simp only [expectedRows, hrows, ih]

structure DecodeChecks (cfg : StateConfig V) (r : DecodeRead) (m : StateManager V E) (rows : List Nat)
    (stateIndices : List Nat) : Prop where
  batch : ¬r.tokenBatch < r.seqIds.length
  layer : ¬(r.layerIdx ∉ cfg.layers ∧ cfg.stateNames ≠ [])
  device : ¬(cfg.stateNames ≠ [] ∧ cfg.device ≠ r.device)
  dtype : ¬∃ dtype ∈ activationDtype cfg, dtype ≠ r.dtype
  found : expectedRows m r.seqIds = .ok rows
  indices : m.decodeStateIndices.get? r.tokenBatch = some stateIndices
  fresh : ¬(cfg.device = "cpu" ∧
    stateIndices ≠ rows ++ replicate (r.tokenBatch - r.seqIds.length) cfg.rowCapacity)

theorem decodeStates_ok {r : DecodeRead} {stateIndices : List Nat} {states : List (List (String × V))} :
    decodeStates cfg r e = (.ok (stateIndices, states), e') ↔
      ∃ rows, DecodeChecks cfg r e rows stateIndices ∧ states = rows.map (rowState cfg e r.layerIdx) ∧
        e' = zeroRow cfg [r.layerIdx] cfg.rowCapacity e := by
  unfold decodeStates
  rw [raiseIf_bind_ok, raiseIf_bind_ok, raiseIf_bind_ok, raiseIf_bind_ok, bind_ok get_run, bind_eq_ok]
  constructor
  · rintro ⟨hbatch, hlayer, hdevice, hdtype, rows, e₁, hrows, hrest⟩
    simp only [lift_run, Prod.mk.injEq] at hrows
    obtain ⟨hrows, rfl⟩ := hrows
    rw [bind_ok (modify_run _)] at hrest
    cases hindices : e.decodeStateIndices.get? r.tokenBatch with
    | none => simp only [hindices] at hrest; cases hrest
    | some idx =>
      simp only [hindices] at hrest
      rw [raiseIf_bind_ok] at hrest
      obtain ⟨hfresh, hlast⟩ := hrest
      cases hlast
      exact ⟨rows, ⟨hbatch, hlayer, hdevice, hdtype, hrows, hindices, hfresh⟩, rfl, rfl⟩
  · rintro ⟨rows, hchecks, rfl, rfl⟩
    refine ⟨hchecks.batch, hchecks.layer, hchecks.device, hchecks.dtype, rows, e,
      by rw [lift_run, hchecks.found], ?_⟩
    rw [bind_ok (modify_run _)]
    simp only [hchecks.indices]
    rw [raiseIf_bind_ok]
    exact ⟨hchecks.fresh, rfl⟩

theorem Lags.zeroScratch (h : Lags cfg payload seqId g opened e d) (layers : List Int) :
    Lags cfg payload seqId g opened (zeroRow cfg layers cfg.rowCapacity e)
      (zeroRow cfg layers cfg.rowCapacity d) := by
  have hscratch : ∀ s row, e.seqIdToRow.get? s = some row → row ≠ cfg.rowCapacity := fun s row hrow heq =>
    absurd (h.owned.within hrow) (by rw [heq]; exact lt_irrefl _)
  refine ⟨h.owned.of_rows rfl rfl rfl, h.rows, h.owners, h.free, h.indices, h.others, h.noEntry,
    h.finished, h.pending, h.row, h.within, h.unread, fun s row hrow l hl name hname hs => ?_,
    fun row hrow l hl hnot name hname => ?_, fun row hrow l hl name hname => ?_⟩
  · simp only [zeroRow]
    rw [if_neg fun hh => hscratch s row hrow hh.2, if_neg fun hh => hscratch s row hrow hh.2]
    exact h.same s row hrow l hl name hname hs
  · simp only [zeroRow]
    rw [if_neg fun hh => hscratch seqId row hrow hh.2]
    exact h.copied row hrow l hl hnot name hname
  · simp only [zeroRow]
    rw [if_neg fun hh => hscratch seqId row hrow hh.2]
    exact h.held row hrow l hl name hname

theorem Lags.freeSeq (h : Lags cfg payload seqId g g.remaining e d) (s : Int) :
    ∃ e' d', freeSeq s e = (.ok (), e') ∧ Recurrent.freeSeq s d = (.ok (), d') ∧
      Lags cfg payload seqId (if s = seqId then g.after .free else g)
        (if s = seqId then g.after .free else g).remaining e' d' := by
  have howned' : Owned cfg d := h.owned.of_rows h.rows h.owners h.free
  by_cases hs : s = seqId
  · simp only [if_pos hs]
    have hother : ∀ s', s' ≠ seqId → (d.pendingPrefixPayloads.erase s).get? s' =
        (e.pendingPrefixPayloads.erase s).get? s' := fun s' hs' => by
      rw [get?_erase_ne _ (hs ▸ hs'), get?_erase_ne _ (hs ▸ hs'), h.others s' hs']
    have hgone : ∀ m : StateManager V E, (m.pendingPrefixPayloads.erase s).get? seqId = none := fun m => by
      rw [← hs]
      exact get?_erase_self _ _
    obtain ⟨row, hrow, he⟩ | ⟨hrow, he⟩ := freeSeq_run h.owned s
    · obtain ⟨row', hrow', hd⟩ | ⟨hrow', -⟩ := freeSeq_run howned' s
      · rw [h.rows, hrow] at hrow'
        cases hrow'
        refine ⟨_, _, he, hd, h.owned.releaseRow hrow, ?_, ?_, ?_, h.indices, hother, hgone e,
          fun _ => hgone d, fun hne => absurd rfl hne, fun hne => absurd rfl hne, fun _ hl => (by cases hl),
          fun _ hl => (by cases hl), fun s' r hr l hl name hname _ => ?_, fun _ _ _ hl => (by cases hl),
          fun _ _ _ hl => (by cases hl)⟩
        · simp only [releaseRow, h.rows]
        · simp only [releaseRow, h.owners]
        · simp only [releaseRow, h.free]
        · simp only [releaseRow, get?_erase] at hr
          split at hr
          · cases hr
          · next hne => exact h.same s' r hr l hl name hname fun heq => absurd (heq.trans hs.symm) hne
      · rw [h.rows, hrow] at hrow'
        cases hrow'
    · obtain ⟨row', hrow', -⟩ | ⟨-, hd⟩ := freeSeq_run howned' s
      · rw [h.rows, hrow] at hrow'
        cases hrow'
      · refine ⟨_, _, he, hd, h.owned.of_rows rfl rfl rfl, h.rows, h.owners, h.free, h.indices, hother,
          hgone e, fun _ => hgone d, fun hne => absurd rfl hne, fun hne => absurd rfl hne,
          fun _ hl => (by cases hl), fun _ hl => (by cases hl), fun s' r hr l hl name hname _ => ?_,
          fun _ _ _ hl => (by cases hl), fun _ _ _ hl => (by cases hl)⟩
        refine h.same s' r hr l hl name hname fun heq => ?_
        rw [heq, ← hs, hrow] at hr
        cases hr
  · simp only [if_neg hs]
    have hne : seqId ≠ s := Ne.symm hs
    have hstart := h.withPending (e.pendingPrefixPayloads.erase s) (d.pendingPrefixPayloads.erase s)
      (fun s' hs' => by simp only [get?_erase, h.others s' hs'])
      (by rw [get?_erase_ne _ hne]; exact h.noEntry) (get?_erase_ne _ hne)
    obtain ⟨row, hrow, he⟩ | ⟨hrow, he⟩ := freeSeq_run h.owned s
    · obtain ⟨row', hrow', hd⟩ | ⟨hrow', -⟩ := freeSeq_run howned' s
      · rw [h.rows, hrow] at hrow'
        cases hrow'
        have hkept : ∀ s' r, (releaseRow s row e).seqIdToRow.get? s' = some r →
            e.seqIdToRow.get? s' = some r := fun s' r hr => by
          simp only [releaseRow, get?_erase] at hr
          split at hr
          · cases hr
          · exact hr
        refine ⟨_, _, he, hd, h.owned.releaseRow hrow, ?_, ?_, ?_, hstart.indices, hstart.others,
          hstart.noEntry, hstart.finished, hstart.pending, fun hleft => ?_, h.within, h.unread,
          fun s' r hr => h.same s' r (hkept s' r hr), fun r hr => h.copied r (hkept _ r hr),
          fun r hr => h.held r (hkept _ r hr)⟩
        · simp only [releaseRow, h.rows]
        · simp only [releaseRow, h.owners]
        · simp only [releaseRow, h.free]
        · obtain ⟨r, hr⟩ := h.row hleft
          exact ⟨r, by simp only [releaseRow]; rw [get?_erase_ne _ hne, hr]⟩
      · rw [h.rows, hrow] at hrow'
        cases hrow'
    · obtain ⟨row', hrow', -⟩ | ⟨-, hd⟩ := freeSeq_run howned' s
      · rw [h.rows, hrow] at hrow'
        cases hrow'
      · exact ⟨_, _, he, hd, hstart⟩

theorem layer_of_accepts
    (hpayload : ∀ l states, payload.layerStates.get? l = some states → Accepts cfg l states)
    (hkey : l ∈ payload.layerStates.keys) : l ∈ cfg.layers ∨ cfg.stateNames = [] := by
  obtain ⟨states, hstates⟩ := mem_keys.1 hkey
  have haccepts := hpayload l states hstates
  cases hnames : cfg.stateNames with
  | nil => exact .inr rfl
  | cons name names =>
    obtain ⟨value, hvalue⟩ := mem_keys.1 (haccepts.complete name (hnames ▸ mem_cons_self))
    exact .inl (haccepts.fits (name, value) (mem_entries.2 hvalue)).1

theorem Lags.same_results
    (hpayload : ∀ l states, payload.layerStates.get? l = some states → Accepts cfg l states)
    (hwithin : ∀ l ∈ g.remaining, l ∈ payload.layerStates.keys)
    (h : Lags cfg payload seqId ((readsOf seqId capturing l seqIds).foldl Restore.after g) g.remaining e d)
    :
    (l ∈ cfg.layers ∨ cfg.stateNames = [] → ∀ s ∈ seqIds, ∀ row, e.seqIdToRow.get? s = some row →
      rowState cfg d l row = rowState cfg e l row) ↔
      (seqId ∈ seqIds → l ∈ g.remaining → g.Unchanged cfg payload l) := by
  by_cases hlayer : l ∈ cfg.layers ∨ cfg.stateNames = []
  · rw [← h.same_rows hlayer, forall_prop_of_true hlayer]
  · exact iff_of_true (fun hl => absurd hl hlayer)
      fun _ hin => absurd (layer_of_accepts hpayload (hwithin l hin)) hlayer

theorem Lags.call (h : Lags cfg payload seqId g g.remaining e d)
    (hpayload : ∀ l states, payload.layerStates.get? l = some states → Accepts cfg l states)
    {c : StateCall V} {r : StateResult V} (hrun : call cfg c e = (.ok r, e')) :
    ((∃ d', Recurrent.call cfg c d = (.ok r, d')) ↔ Restorable cfg payload g (touches seqId c)) ∧
    ∀ d', Recurrent.call cfg c d = (.ok r, d') →
      Lags cfg payload seqId ((touches seqId c).foldl Restore.after g)
        ((touches seqId c).foldl Restore.after g).remaining e' d' := by
  cases c with
  | getLayerState capturing s l =>
    simp only [Recurrent.call, bind_eq_ok, getLayerState_ok, pure_run, Prod.mk.injEq, Except.ok.injEq] at hrun ⊢
    obtain ⟨x, e₁, ⟨hloop, rfl⟩, rfl, rfl⟩ := hrun
    obtain ⟨hopens, hlags⟩ := h.reads hpayload hloop
    have hsame : ∀ d₁, forEach (fun s => materializePendingPrefixLayer cfg capturing s l) [s] d = (.ok (), d₁) →
        (layerResult cfg d₁ s l = layerResult cfg e₁ s l ↔
          (seqId ∈ [s] → l ∈ g.remaining → g.Unchanged cfg payload l)) := fun d₁ hd₁ => by
      rw [layerResult_eq_iff (hlags d₁ hd₁).rows, (hlags d₁ hd₁).same_results hpayload h.within]
    simp only [touches]
    rw [restorable_readsOf, ← hopens]
    constructor
    · constructor
      · rintro ⟨d', x', d₁, ⟨hd₁, rfl⟩, hx, rfl⟩
        exact ⟨⟨d₁, hd₁⟩, (hsame d₁ hd₁).1 (by simpa using hx)⟩
      · rintro ⟨⟨d₁, hd₁⟩, hunchanged⟩
        exact ⟨d₁, _, d₁, ⟨hd₁, rfl⟩, by rw [(hsame d₁ hd₁).2 hunchanged], rfl⟩
    · rintro d' ⟨x', d₁, ⟨hd₁, rfl⟩, hx, rfl⟩
      exact (hlags d₁ hd₁).settle_reads ((hsame d₁ hd₁).1 (by simpa using hx))
  | getDecodeLayerState capturing r =>
    simp only [Recurrent.call, getDecodeLayerState, bind_eq_ok, pure_run, Prod.mk.injEq,
      Except.ok.injEq] at hrun ⊢
    obtain ⟨⟨stateIndices, states⟩, e₂, ⟨u, e₁, hloop, hdecode⟩, rfl, rfl⟩ := hrun
    obtain ⟨rows, hchecks, rfl, rfl⟩ := decodeStates_ok.1 hdecode
    obtain ⟨hopens, hlags⟩ := h.reads hpayload hloop
    have hlayer : r.layerIdx ∈ cfg.layers ∨ cfg.stateNames = [] := by
      have := hchecks.layer
      tauto
    have hforall := expectedRows_ok hchecks.found
    have hsame : ∀ d₁, forEach (fun s => materializePendingPrefixLayer cfg capturing s r.layerIdx) r.seqIds d =
          (.ok (), d₁) →
        (rows.map (rowState cfg d₁ r.layerIdx) = rows.map (rowState cfg e₁ r.layerIdx) ↔
          (seqId ∈ r.seqIds → r.layerIdx ∈ g.remaining → g.Unchanged cfg payload r.layerIdx)) :=
      fun d₁ hd₁ => by
        rw [← (hlags d₁ hd₁).same_rows hlayer, map_inj_left]
        constructor
        · intro hrows s hs row hrow
          obtain ⟨row', hmem, hrow'⟩ := exists_right_of_forall₂ hforall hs
          rw [hrow] at hrow'
          cases hrow'
          exact hrows row hmem
        · intro hrows row hrow
          obtain ⟨s, hs, hgot⟩ := exists_right_of_forall₂ hforall.flip hrow
          exact hrows s hs row hgot
    have hdecode' : ∀ d₁, forEach (fun s => materializePendingPrefixLayer cfg capturing s r.layerIdx) r.seqIds d =
          (.ok (), d₁) → decodeStates cfg r d₁ = (.ok (stateIndices, rows.map (rowState cfg d₁ r.layerIdx)),
            zeroRow cfg [r.layerIdx] cfg.rowCapacity d₁) := fun d₁ hd₁ =>
      decodeStates_ok.2 ⟨rows, ⟨hchecks.batch, hchecks.layer, hchecks.device, hchecks.dtype,
        (expectedRows_congr (hlags d₁ hd₁).rows _).trans hchecks.found,
        (hlags d₁ hd₁).indices ▸ hchecks.indices, hchecks.fresh⟩, rfl, rfl⟩
    simp only [touches]
    rw [restorable_readsOf, ← hopens]
    constructor
    · constructor
      · rintro ⟨d', ⟨idx, sts⟩, d₂, ⟨u', d₁, hd₁, hd₂⟩, hx, rfl⟩
        rw [hdecode' d₁ hd₁] at hd₂
        cases hd₂
        exact ⟨⟨d₁, hd₁⟩, (hsame d₁ hd₁).1 (by simpa using hx)⟩
      · rintro ⟨⟨d₁, hd₁⟩, hunchanged⟩
        exact ⟨_, _, _, ⟨(), d₁, hd₁, hdecode' d₁ hd₁⟩, by rw [(hsame d₁ hd₁).2 hunchanged], rfl⟩
    · rintro d' ⟨⟨idx, sts⟩, d₂, ⟨u', d₁, hd₁, hd₂⟩, hx, rfl⟩
      rw [hdecode' d₁ hd₁] at hd₂
      cases hd₂
      exact ((hlags d₁ hd₁).settle_reads ((hsame d₁ hd₁).1 (by simpa using hx))).zeroScratch _
  | setLayerState s l states =>
    simp only [Recurrent.call, bind_eq_ok, pure_run, Prod.mk.injEq, Except.ok.injEq] at hrun ⊢
    obtain ⟨u, e₁, hset, rfl, rfl⟩ := hrun
    obtain ⟨d₁, hd₁, hlags⟩ := h.setLayerState (fun _ _ hl => hl) hset
    have htouches : Restorable cfg payload g (touches seqId (.setLayerState s l states)) ∧
        (touches seqId (.setLayerState s l states)).foldl Restore.after g =
          if s = seqId then g.after (.write l states) else g := by
      by_cases hs : s = seqId <;> simp [touches, hs, Restorable, Allows]
    have hremaining : (if s = seqId then g.after (.write l states) else g).remaining = g.remaining := by
      split <;> rfl
    refine ⟨iff_of_true ⟨d₁, (), d₁, hd₁, rfl, rfl⟩ htouches.1, ?_⟩
    rintro d' ⟨u', d₂, hd₂, -, rfl⟩
    rw [hd₁] at hd₂
    cases hd₂
    rw [htouches.2, hremaining]
    exact hlags
  | freeSeq s =>
    simp only [Recurrent.call, bind_eq_ok, pure_run, Prod.mk.injEq, Except.ok.injEq] at hrun ⊢
    obtain ⟨u, e₁, hfree, rfl, rfl⟩ := hrun
    obtain ⟨e₂, d₁, he₂, hd₁, hlags⟩ := h.freeSeq s
    rw [hfree] at he₂
    cases he₂
    have htouches : Restorable cfg payload g (touches seqId (.freeSeq s)) ∧
        (touches seqId (.freeSeq s)).foldl Restore.after g = if s = seqId then g.after .free else g := by
      by_cases hs : s = seqId <;> simp [touches, hs, Restorable, Allows]
    refine ⟨iff_of_true ⟨d₁, (), d₁, hd₁, rfl, rfl⟩ htouches.1, ?_⟩
    rintro d' ⟨u', d₂, hd₂, -, rfl⟩
    rw [hd₁] at hd₂
    cases hd₂
    rw [htouches.2]
    exact hlags

theorem calls_append {cs cs' : List (StateCall V)} {rs : List (StateResult V)} :
    calls cfg (cs ++ cs') e = (.ok rs, e') ↔ ∃ first e₁ rest, calls cfg cs e = (.ok first, e₁) ∧
      calls cfg cs' e₁ = (.ok rest, e') ∧ rs = first ++ rest := by
  induction cs generalizing e rs with
  | nil => simp [calls]
  | cons c cs ih =>
    simp only [cons_append, calls, bind_eq_ok, pure_run, Prod.mk.injEq, Except.ok.injEq]
    constructor
    · rintro ⟨r, e₁, hc, rs', e₂, hcs, rfl, rfl⟩
      obtain ⟨first, e₃, rest, hfirst, hrest, rfl⟩ := ih.1 hcs
      exact ⟨r :: first, e₃, rest, ⟨r, e₁, hc, first, e₃, hfirst, rfl, rfl⟩, hrest, rfl⟩
    · rintro ⟨first, e₃, rest, ⟨r, e₁, hc, first', e₂, hfirst, rfl, rfl⟩, hrest, rfl⟩
      exact ⟨r, e₁, hc, first' ++ rest, e', ih.2 ⟨first', e₂, rest, hfirst, hrest, rfl⟩, rfl, rfl⟩

theorem Lags.calls
    (hpayload : ∀ l states, payload.layerStates.get? l = some states → Accepts cfg l states) :
    ∀ {cs : List (StateCall V)} {g : Restore V} {e d e' : StateManager V E} {rs : List (StateResult V)},
    Lags cfg payload seqId g g.remaining e d → calls cfg cs e = (.ok rs, e') →
    ((∃ d', Recurrent.calls cfg cs d = (.ok rs, d')) ↔
      Restorable cfg payload g (cs.flatMap (touches seqId))) ∧
    ∀ d', Recurrent.calls cfg cs d = (.ok rs, d') →
      Lags cfg payload seqId ((cs.flatMap (touches seqId)).foldl Restore.after g)
        ((cs.flatMap (touches seqId)).foldl Restore.after g).remaining e' d'
  | [], g, e, d, e', rs, h, hrun => by
    cases hrun
    refine ⟨iff_of_true ⟨d, rfl⟩ trivial, fun d' hd => ?_⟩
    cases hd
    exact h
  | c :: cs, g, e, d, e', rs, h, hrun => by
    simp only [Recurrent.calls, bind_eq_ok, pure_run, Prod.mk.injEq, Except.ok.injEq] at hrun ⊢
    obtain ⟨r, e₁, hc, rest, e₂, hcs, rfl, rfl⟩ := hrun
    obtain ⟨hone, hlags⟩ := h.call hpayload hc
    simp only [flatMap_cons, restorable_append, foldl_append]
    constructor
    · constructor
      · rintro ⟨d', r', d₁, hd₁, rest', d₂, hd₂, hrs, rfl⟩
        obtain ⟨rfl, rfl⟩ := List.cons.inj hrs
        exact ⟨hone.1 ⟨d₁, hd₁⟩, (Lags.calls hpayload (hlags d₁ hd₁) hcs).1.1 ⟨d₂, hd₂⟩⟩
      · rintro ⟨hfirst, hrest⟩
        obtain ⟨d₁, hd₁⟩ := hone.2 hfirst
        obtain ⟨d₂, hd₂⟩ := (Lags.calls hpayload (hlags d₁ hd₁) hcs).1.2 hrest
        exact ⟨d₂, r, d₁, hd₁, rest, d₂, hd₂, rfl, rfl⟩
    · rintro d' ⟨r', d₁, hd₁, rest', d₂, hd₂, hrs, rfl⟩
      obtain ⟨rfl, rfl⟩ := List.cons.inj hrs
      exact (Lags.calls hpayload (hlags d₁ hd₁) hcs).2 _ hd₂

def attachStates (row : Nat) (entries : List (Int × Dict String V)) (m : StateManager V E) :
    StateManager V E :=
  { m with
    buffers := fun l r name =>
      if r = row then ((lookupEntry l entries).bind (·.get? name)).getD (m.buffers l r name)
      else m.buffers l r name }

theorem allocateRow_of_row (hrow : m.seqIdToRow.get? s = some row) :
    allocateRow cfg s m = (.ok row, m) := by
  obtain ⟨r, hr, hrun⟩ | ⟨r, rest, hr, -, -⟩ | ⟨hr, -, -⟩ := allocateRow_run cfg s m
  · rw [hrow] at hr
    cases hr
    exact hrun
  · rw [hrow] at hr
    cases hr
  · rw [hrow] at hr
    cases hr

theorem attachLoop_ok : ∀ {entries : List (Int × Dict String V)} {m m' : StateManager V E},
    (entries.map Prod.fst).Nodup → m.seqIdToRow.get? seqId = some row →
    forEach (fun entry : Int × Dict String V => setLayerState cfg seqId entry.1 entry.2) entries m =
      (.ok (), m') →
    (∀ entry ∈ entries, Accepts cfg entry.1 entry.2) ∧ m' = attachStates row entries m
  | [], m, m', _, hrow, hrun => by
    cases hrun
    refine ⟨by simp, ?_⟩
    simp only [attachStates, lookupEntry, Option.bind_none, Option.getD_none, ite_self]
  | (l, states) :: entries, m, m', hnodup, hrow, hrun => by
    rw [map_cons, nodup_cons] at hnodup
    rw [forEach, bind_eq_ok] at hrun
    obtain ⟨u, m₁, hset, hrest⟩ := hrun
    obtain ⟨haccepts, row', m₂, hrow', rfl⟩ := setLayerState_ok.1 hset
    rw [allocateRow_of_row hrow] at hrow'
    cases hrow'
    have hrow₁ : (copyStates l row states m).seqIdToRow.get? seqId = some row := hrow
    obtain ⟨hall, rfl⟩ := attachLoop_ok hnodup.2 hrow₁ hrest
    refine ⟨forall_mem_cons.2 ⟨haccepts, hall⟩, ?_⟩
    simp only [attachStates, copyStates, StateManager.mk.injEq, true_and, and_true]
    funext l' r name
    by_cases hr : r = row
    · simp only [lookupEntry, hr, and_true]
      by_cases hl : l' = l
      · subst hl
        have hnone : lookupEntry l' entries = none := by
          rw [← Option.not_isSome_iff_eq_none, lookupEntry_isSome]
          exact hnodup.1
        rw [hnone, if_pos rfl, if_pos rfl]
        rfl
      · rw [if_neg hl, if_neg (Ne.symm hl)]
    · simp only [hr, and_false, if_false]

theorem lags_attach {events : Dict Int E} (howned : Owned cfg m)
    (hnone : m.pendingPrefixPayloads.get? seqId = none)
    (heager : attachPrefixRecurrentPayload cfg seqId payload none m = (.ok (), e))
    (hdeferred : attachPrefixRecurrentPayload cfg seqId payload (some events) m = (.ok (), d))
    (hlayers : payload.layerStates.keys ≠ []) :
    (∀ l states, payload.layerStates.get? l = some states → Accepts cfg l states) ∧
      Lags cfg payload seqId (.start payload) payload.layerStates.keys e d := by
  unfold attachPrefixRecurrentPayload at heager hdeferred
  rw [raiseIf_bind_ok, raiseIf_bind_ok] at heager hdeferred
  obtain ⟨-, -, hloop⟩ := heager
  obtain ⟨-, -, hrest⟩ := hdeferred
  simp only at hloop hrest
  rw [raiseIf_bind_ok, bind_eq_ok] at hrest
  obtain ⟨hkeys, row, m₁, halloc, hpending⟩ := hrest
  rw [not_not] at hkeys
  cases hpending
  have hrow : m₁.seqIdToRow.get? seqId = some row := by
    obtain ⟨r, hr, hrun⟩ | ⟨r, rest, hr, -, hrun⟩ | ⟨-, -, err, hrun⟩ := allocateRow_run cfg seqId m
    · rw [hrun] at halloc
      cases halloc
      exact hr
    · rw [hrun] at halloc
      cases halloc
      simp only [takeRow, zeroRow, get?_set_self]
    · rw [hrun] at halloc
      cases halloc
  have hloop' : forEach (fun entry : Int × Dict String V => setLayerState cfg seqId entry.1 entry.2)
      payload.layerStates.entries m₁ = (.ok (), e) := by
    cases hentries : payload.layerStates.entries with
    | nil => exact absurd (by rw [Dict.keys, hentries]; rfl) hlayers
    | cons entry entries =>
      rw [hentries, forEach, bind_eq_ok] at hloop
      obtain ⟨u, m₂, hset, hlast⟩ := hloop
      obtain ⟨haccepts, row', m₃, halloc', rfl⟩ := setLayerState_ok.1 hset
      rw [halloc] at halloc'
      cases halloc'
      rw [forEach, bind_eq_ok]
      exact ⟨(), _, setLayerState_ok.2 ⟨haccepts, row, m₁, allocateRow_of_row hrow, rfl⟩, hlast⟩
  obtain ⟨hall, rfl⟩ := attachLoop_ok payload.layerStates.nodup hrow hloop'
  have haccepts : ∀ l states, payload.layerStates.get? l = some states → Accepts cfg l states :=
    fun l states hl => hall (l, states) (mem_entries.2 hl)
  have howned₁ : Owned cfg m₁ := by
    have := keeps_allocateRow seqId howned
    rwa [halloc] at this
  have hsame : m₁.pendingPrefixPayloads = m.pendingPrefixPayloads := by
    obtain ⟨r, hr, hrun⟩ | ⟨r, rest, hr, -, hrun⟩ | ⟨-, -, err, hrun⟩ := allocateRow_run cfg seqId m <;>
      rw [hrun] at halloc <;> cases halloc <;> rfl
  refine ⟨haccepts, howned₁.of_rows rfl rfl rfl, rfl, rfl, rfl, rfl, fun s hs => ?_, ?_,
    fun hnil => absurd hnil hlayers, fun _ => ⟨events, get?_set_self _ _ _, fun l => ?_⟩,
    fun _ => ⟨row, hrow⟩, fun _ hl => hl, fun _ hl => hl, fun s r hr l hl name hname hs => ?_,
    fun r hr l hl hnot => absurd hl hnot, fun r hr l hl name hname => ?_⟩
  · exact get?_set_ne _ _ hs
  · exact (congrArg (·.get? seqId) hsame).trans hnone
  · have : l ∈ events.keySet ↔ l ∈ payload.layerStates.keySet := by rw [hkeys]
    rw [mem_keySet, mem_keySet, ← Dict.mem_keys, ← Dict.mem_keys] at this
    exact this
  · simp only [attachStates]
    split
    · next heq =>
      have hself : s = seqId := howned₁.injective hr (heq ▸ hrow)
      have hlookup : lookupEntry l payload.layerStates.entries = none := by
        rw [← Option.not_isSome_iff_eq_none, lookupEntry_isSome]
        exact hs hself
      rw [hlookup]
      rfl
    · rfl
  · have heq : r = row := Option.some.inj (hr.symm.trans hrow)
    obtain ⟨states, hstates⟩ := mem_keys.1 hl
    obtain ⟨value, hvalue⟩ := mem_keys.1 ((haccepts l states hstates).complete name hname)
    have hlookup : lookupEntry l payload.layerStates.entries = some states := hstates
    simp only [attachStates, if_pos heq, hlookup, start, hstates, Option.bind_some, hvalue,
      Option.getD_some]

/-- The deferred manager `d` gives the answers `rs` to the calls, and after each of them has an entry
for the sequence exactly while a layer of the payload is left. -/
structure Restores (cfg : StateConfig V) (payload : RecurrentPrefixPayload V) (seqId : Int)
    (d : StateManager V E) (cs : List (StateCall V)) (rs : List (StateResult V)) : Prop where
  answers : ∃ d', calls cfg cs d = (.ok rs, d')
  entries : ∀ done, done <+: cs →
    ((calls cfg done d).2.pendingPrefixPayloads.contains seqId = true ↔
      ((done.flatMap (touches seqId)).foldl Restore.after (.start payload)).remaining ≠ [])

/-- A payload attached with readiness events restores a sequence as the same payload attached at once,
for calls that the eager manager answers, if and only if it has a layer, and while some layer is left
every layer is read once, outside capture and before anything else was stored in it. -/
theorem deferred_restores_iff {m : StateManager V E} (hm : Reachable cfg m) {events : Dict Int E}
    (hnone : m.pendingPrefixPayloads.get? seqId = none)
    (heager : attachPrefixRecurrentPayload cfg seqId payload none m = (.ok (), e))
    (hdeferred : attachPrefixRecurrentPayload cfg seqId payload (some events) m = (.ok (), d))
    {cs : List (StateCall V)} {rs : List (StateResult V)} (hcalls : calls cfg cs e = (.ok rs, e')) :
    Restores cfg payload seqId d cs rs ↔ payload.layerStates.keys ≠ [] ∧
      Restorable cfg payload (.start payload) (cs.flatMap (touches seqId)) := by
  by_cases hlayers : payload.layerStates.keys = []
  · refine iff_of_false (fun h => ?_) fun h => h.1 hlayers
    have hstart := (h.entries [] nil_prefix).1
    refine hstart ?_ hlayers
    unfold attachPrefixRecurrentPayload at hdeferred
    rw [raiseIf_bind_ok, raiseIf_bind_ok] at hdeferred
    obtain ⟨-, -, hrest⟩ := hdeferred
    simp only at hrest
    rw [raiseIf_bind_ok, bind_eq_ok] at hrest
    obtain ⟨-, row, m₁, -, hpending⟩ := hrest
    cases hpending
    exact contains_iff.2 ⟨_, get?_set_self _ _ _⟩
  obtain ⟨haccepts, hlags⟩ := lags_attach hm.owned hnone heager hdeferred hlayers
  obtain ⟨hanswers, -⟩ := Lags.calls haccepts hlags hcalls
  refine ⟨fun h => ⟨hlayers, hanswers.1 h.answers⟩, fun h => ⟨hanswers.2 h.2, fun done hdone => ?_⟩⟩
  obtain ⟨later, rfl⟩ := hdone
  obtain ⟨first, e₁, rest, hfirst, -, -⟩ := calls_append.1 hcalls
  have hprefix := h.2
  rw [flatMap_append, restorable_append] at hprefix
  obtain ⟨hrun, hlast⟩ := Lags.calls haccepts hlags hfirst
  obtain ⟨d₁, hd₁⟩ := hrun.2 hprefix.1
  have hafter := hlast d₁ hd₁
  rw [hd₁]
  constructor
  · intro hentry hnil
    obtain ⟨entry, hget⟩ := contains_iff.1 hentry
    rw [hafter.finished hnil] at hget
    cases hget
  · intro hleft
    obtain ⟨left, hget, -⟩ := hafter.pending hleft
    exact contains_iff.2 ⟨_, hget⟩

def demoConfig : StateConfig Nat where
  specName := "layer-ready"
  tensorSpecs := empty.set "state" ⟨[2], "float16", "cpu"⟩
  layers := [1, 3]
  isLinearAttention l := l = 1 ∨ l = 3
  rowCapacity := 2
  blockSize := 4
  device := "cpu"
  kindOf _ := ⟨[2], "float16", "cpu"⟩
  zeros _ := 0

def demoPayload : RecurrentPrefixPayload Nat :=
  ⟨4, (empty.set 1 (empty.set "state" 12)).set 3 (empty.set "state" 34)⟩

def demoEvents : Dict Int Unit := (empty.set 1 ()).set 3 ()

/-- The payload attached to sequence `9` of a new manager. -/
def demoAttached (events : Option (Dict Int Unit)) : StateManager Nat Unit :=
  (attachPrefixRecurrentPayload demoConfig 9 demoPayload events (.create demoConfig)).2

def demoForwards : List (StateCall Nat) :=
  [.getLayerState false 9 1, .setLayerState 9 1 (empty.set "state" 56),
    .getLayerState false 9 3, .setLayerState 9 3 (empty.set "state" 78),
    .getLayerState false 9 1]

theorem deferred_restores_iff_forwards :
    Restores demoConfig demoPayload 9 (demoAttached (some demoEvents)) demoForwards
        [.state (some [("state", 12)]), .done, .state (some [("state", 34)]), .done,
          .state (some [("state", 56)])] ↔
      demoPayload.layerStates.keys ≠ [] ∧
        Restorable demoConfig demoPayload (.start demoPayload) (demoForwards.flatMap (touches 9)) :=
  deferred_restores_iff (.create : Reachable demoConfig (.create demoConfig : StateManager Nat Unit)) rfl
    (rfl : _ = (Except.ok (), demoAttached none))
    (rfl : attachPrefixRecurrentPayload demoConfig 9 demoPayload (some demoEvents) (.create demoConfig) = _)
    rfl

/-- A layer is read twice before the other is read: the second read of the deferred manager raises.
-/
theorem deferred_restore_differs :
    (calls demoConfig [.getLayerState false 9 1, .getLayerState false 9 1] (demoAttached none)).1 =
      .ok [.state (some [("state", 12)]), .state (some [("state", 12)])] ∧
    (calls demoConfig [.getLayerState false 9 1, .getLayerState false 9 1]
        (demoAttached (some demoEvents))).1 =
      .error (.runtimeError "Recurrent prefix layer is missing its H2D readiness event") ∧
    (calls demoConfig [.setLayerState 9 1 (empty.set "state" 56), .getLayerState false 9 1]
        (demoAttached none)).1 = .ok [.done, .state (some [("state", 56)])] ∧
    (calls demoConfig [.setLayerState 9 1 (empty.set "state" 56), .getLayerState false 9 1]
        (demoAttached (some demoEvents))).1 = .ok [.done, .state (some [("state", 12)])] :=
  ⟨rfl, rfl, rfl, rfl⟩

/-- In every state of the manager a row has one owner or is free, once. -/
theorem recurrent_rows_exclusive {cfg : StateConfig V} {m : StateManager V E} (h : Reachable cfg m) :
    (∀ s row, m.seqIdToRow.get? s = some row → row < cfg.rowCapacity ∧ row ∉ m.freeRows ∧
      ∀ s', m.seqIdToRow.get? s' = some row → s' = s) ∧
    m.freeRows.Nodup ∧ ∀ row ∈ m.freeRows, row < cfg.rowCapacity ∧ m.rowToSeqId row = none := by
  have howned := h.owned
  refine ⟨fun s row hs => ⟨howned.within hs, fun hfree => ?_, fun s' hs' => howned.injective hs' hs⟩,
    howned.nodup, fun row hrow => ⟨howned.freeWithin hrow, howned.free hrow⟩⟩
  have hnone := howned.free hfree
  rw [howned.owner hs] at hnone
  cases hnone

/-- Sequence `9` is freed, and sequence `7` gets its row. -/
theorem recurrent_rows_exclusive_demo : ∃ m : StateManager Nat Unit, Reachable demoConfig m ∧
    m.seqIdToRow.get? 7 = some 0 ∧ 0 ∉ m.freeRows ∧ ∀ s, m.seqIdToRow.get? s = some 0 → s = 7 := by
  have reused := Reachable.attach 7 demoPayload none (.attach 8 demoPayload none (.call (.freeSeq 9)
    (.attach 9 demoPayload none (.create : Reachable demoConfig (_ : StateManager Nat Unit)))))
  obtain ⟨-, taken, single⟩ := (recurrent_rows_exclusive reused).1 7 0 rfl
  exact ⟨_, reused, rfl, taken, single⟩

end SparseEngine.Recurrent
