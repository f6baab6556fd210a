import SparseEngine.Recurrent.Rows

/-! The same payload is attached to one sequence in two managers. -/

namespace SparseEngine.Recurrent

open PyM

variable {V E : Type}

inductive Touch (V : Type) where
  | read (capturing : Bool) (layerIdx : Int)
  | write (layerIdx : Int) (states : Dict String V)
  | free

def readsOf (seqId : Int) (capturing : Bool) (layerIdx : Int) : List Int → List (Touch V)
  | [] => []
  | s :: seqIds =>
    if s = seqId then .read capturing layerIdx :: readsOf seqId capturing layerIdx seqIds
    else readsOf seqId capturing layerIdx seqIds

def touches (seqId : Int) : StateCall V → List (Touch V)
  | .getLayerState capturing s layerIdx => readsOf seqId capturing layerIdx [s]
  | .getDecodeLayerState capturing r => readsOf seqId capturing r.layerIdx r.seqIds
  | .setLayerState s layerIdx states => if s = seqId then [.write layerIdx states] else []
  | .freeSeq s => if s = seqId then [.free] else []

/-- `remaining` are the layers that no read has copied. -/
structure Restore (V : Type) where
  remaining : List Int
  latest : Dict Int (Dict String V)

namespace Restore

def start (payload : RecurrentPrefixPayload V) : Restore V :=
  ⟨payload.layerStates.keys, payload.layerStates⟩

def after (g : Restore V) : Touch V → Restore V
  | .read _ layerIdx => { g with remaining := g.remaining.filter (· ≠ layerIdx) }
  | .write layerIdx states => { g with latest := g.latest.set layerIdx states }
  | .free => { g with remaining := [] }

def Opens (payload : RecurrentPrefixPayload V) (g : Restore V) (capturing : Bool) (layerIdx : Int) :
    Prop :=
  layerIdx ∈ payload.layerStates.keys → g.remaining ≠ [] →
    layerIdx ∈ g.remaining ∧ capturing = false

def Unchanged (cfg : StateConfig V) (payload : RecurrentPrefixPayload V) (g : Restore V)
    (layerIdx : Int) : Prop :=
  ∀ name ∈ cfg.stateNames,
    (g.latest.get? layerIdx).bind (·.get? name) =
      (payload.layerStates.get? layerIdx).bind (·.get? name)

def Allows (cfg : StateConfig V) (payload : RecurrentPrefixPayload V) (g : Restore V) :
    Touch V → Prop
  | .read capturing layerIdx => g.Opens payload capturing layerIdx ∧
      (layerIdx ∈ g.remaining → g.Unchanged cfg payload layerIdx)
  | .write .. => True
  | .free => True

end Restore

def Restorable (cfg : StateConfig V) (payload : RecurrentPrefixPayload V) :
    Restore V → List (Touch V) → Prop
  | _, [] => True
  | g, t :: ts => g.Allows cfg payload t ∧ Restorable cfg payload (g.after t) ts

theorem restorable_append {cfg : StateConfig V} {payload : RecurrentPrefixPayload V} :
    ∀ {g : Restore V} {ts us : List (Touch V)}, Restorable cfg payload g (ts ++ us) ↔
      Restorable cfg payload g ts ∧ Restorable cfg payload (ts.foldl Restore.after g) us
  | g, [], us => by simp [Restorable]
  | g, t :: ts, us => by
    simp only [List.cons_append, Restorable, List.foldl_cons, restorable_append, and_assoc]

/-- The deferred manager holds the rows of the eager one, but for the layers `opened` of the sequence. -/
structure Lags (cfg : StateConfig V) (payload : RecurrentPrefixPayload V) (seqId : Int)
    (g : Restore V) (opened : List Int) (eager deferred : StateManager V E) : Prop where
  owned : Owned cfg eager
  rows : deferred.seqIdToRow = eager.seqIdToRow
  owners : deferred.rowToSeqId = eager.rowToSeqId
  free : deferred.freeRows = eager.freeRows
  indices : deferred.decodeStateIndices = eager.decodeStateIndices
  others : ∀ s, s ≠ seqId →
    deferred.pendingPrefixPayloads.get? s = eager.pendingPrefixPayloads.get? s
  noEntry : eager.pendingPrefixPayloads.get? seqId = none
  finished : g.remaining = [] → deferred.pendingPrefixPayloads.get? seqId = none
  pending : g.remaining ≠ [] → ∃ events : Dict Int E,
    deferred.pendingPrefixPayloads.get? seqId = some (payload, events) ∧
      ∀ l, l ∈ events.keys ↔ l ∈ g.remaining
  row : opened ≠ [] → ∃ row, eager.seqIdToRow.get? seqId = some row
  within : ∀ l ∈ g.remaining, l ∈ payload.layerStates.keys
  unread : ∀ l ∈ g.remaining, l ∈ opened
  same : ∀ s row, eager.seqIdToRow.get? s = some row → ∀ l ∈ cfg.layers, ∀ name ∈ cfg.stateNames,
    (s = seqId → l ∉ opened) → deferred.buffers l row name = eager.buffers l row name
  copied : ∀ row, eager.seqIdToRow.get? seqId = some row → ∀ l ∈ opened, l ∉ g.remaining →
    ∀ name ∈ cfg.stateNames,
      (payload.layerStates.get? l).bind (·.get? name) = some (deferred.buffers l row name)
  held : ∀ row, eager.seqIdToRow.get? seqId = some row → ∀ l ∈ opened, ∀ name ∈ cfg.stateNames,
    (g.latest.get? l).bind (·.get? name) = some (eager.buffers l row name)

variable {cfg : StateConfig V} {payload : RecurrentPrefixPayload V} {seqId : Int} {g : Restore V}
  {opened : List Int} {e e' d d' : StateManager V E}

theorem Lags.settle (h : Lags cfg payload seqId g opened e d)
    (hread : ∀ l ∈ opened, l ∉ g.remaining → g.Unchanged cfg payload l) :
    Lags cfg payload seqId g g.remaining e d where
  __ := h
  row := fun hleft => h.row (List.ne_nil_of_mem (h.unread _ (List.head_mem hleft)))
  unread := fun _ hl => hl
  same := fun s row hrow l hl name hname hs => by
    by_cases hopened : s = seqId ∧ l ∈ opened
    · obtain ⟨rfl, hin⟩ := hopened
      have hcopied := h.copied row hrow l hin (hs rfl) name hname
      have hheld := h.held row hrow l hin name hname
      rw [hread l hin (hs rfl) name hname, hcopied] at hheld
      exact Option.some.inj hheld
    · exact h.same s row hrow l hl name hname fun heq hin => hopened ⟨heq, hin⟩
  copied := fun _ _ _ hl hnot => absurd hl hnot
  held := fun row hrow l hl => h.held row hrow l (h.unread l hl)

variable {s l : Int} {capturing : Bool}

theorem Lags.allocateRow (h : Lags cfg payload seqId g opened e d) {row : Nat}
    (hs : s = seqId → ∀ l ∈ opened, l ∈ g.remaining) (hrun : allocateRow cfg s e = (.ok row, e')) :
    ∃ d', Recurrent.allocateRow cfg s d = (.ok row, d') ∧ Lags cfg payload seqId g opened e' d' ∧
      e'.seqIdToRow.get? s = some row := by
  obtain ⟨r, hr, he⟩ | ⟨r, rest, hr, hfree, he⟩ | ⟨-, -, err, he⟩ := allocateRow_run cfg s e
  · rw [he] at hrun
    cases hrun
    obtain ⟨r', hr', hd⟩ | ⟨r', rest, hr', -, -⟩ | ⟨hr', -, -⟩ := allocateRow_run cfg s d
    · rw [h.rows, hr] at hr'
      cases hr'
      exact ⟨d, hd, h, hr⟩
    · rw [h.rows, hr] at hr'
      cases hr'
    · rw [h.rows, hr] at hr'
      cases hr'
  · rw [he] at hrun
    cases hrun
    obtain ⟨r', hr', hd⟩ | ⟨r', rest', hr', hfree', hd⟩ | ⟨hr', hfree', -⟩ := allocateRow_run cfg s d
    · rw [h.rows, hr] at hr'
      cases hr'
    · rw [h.free, hfree] at hfree'
      cases hfree'
      have hnone : e.rowToSeqId row = none := h.owned.free (hfree ▸ List.mem_cons_self)
      have hne : ∀ s' r', e.seqIdToRow.get? s' = some r' → r' ≠ row := fun s' r' hs' heq => by
        subst heq
        rw [h.owned.owner hs'] at hnone
        cases hnone
      have hother : ∀ r', (takeRow cfg s row rest e).seqIdToRow.get? seqId = some r' →
          s ≠ seqId → e.seqIdToRow.get? seqId = some r' := fun r' hr' hsne => by
        simp only [takeRow, zeroRow, Dict.get?_set] at hr'
        rwa [if_neg (Ne.symm hsne)] at hr'
      have hnothing : s = seqId → opened = [] := fun heq => by
        by_contra hleft
        obtain ⟨r', hr'⟩ := h.row hleft
        rw [← heq, hr] at hr'
        cases hr'
      refine ⟨_, hd, ⟨h.owned.takeRow hfree, ?_, ?_, rfl, h.indices, h.others, h.noEntry, h.finished,
        h.pending, fun hleft => ?_, h.within, h.unread, fun s' r' hs' l hl name hname hopened => ?_,
        fun r' hr' l hl hnot name hname => ?_, fun r' hr' l hl name hname => ?_⟩, ?_⟩
      · simp only [takeRow, zeroRow, h.rows]
      · simp only [takeRow, zeroRow, h.owners]
      · obtain ⟨r', hr'⟩ := h.row hleft
        refine ⟨r', ?_⟩
        simp only [takeRow, zeroRow, Dict.get?_set]
        rw [if_neg fun heq => hleft (hnothing heq.symm), hr']
      · simp only [takeRow, zeroRow, Dict.get?_set] at hs' ⊢
        obtain ⟨kind, hkind⟩ := Dict.mem_keys.1 hname
        by_cases hrow : r' = row
        · rw [if_pos ⟨hl, hrow⟩, if_pos ⟨hl, hrow⟩, hkind]
          rfl
        · rw [if_neg fun hh => hrow hh.2, if_neg fun hh => hrow hh.2]
          split at hs'
          · cases hs'
            exact absurd rfl hrow
          · exact h.same s' r' hs' l hl name hname hopened
      · by_cases heq : s = seqId
        · exact absurd (hs heq l hl) hnot
        · have hold := hother r' hr' heq
          simp only [takeRow, zeroRow]
          rw [if_neg fun hh => hne _ _ hold hh.2]
          exact h.copied r' hold l hl hnot name hname
      · by_cases heq : s = seqId
        · rw [hnothing heq] at hl
          cases hl
        · have hold := hother r' hr' heq
          simp only [takeRow, zeroRow]
          rw [if_neg fun hh => hne _ _ hold hh.2]
          exact h.held r' hold l hl name hname
      · simp only [takeRow, zeroRow, Dict.get?_set, if_true]
    · rw [h.free, hfree] at hfree'
      cases hfree'
  · rw [he] at hrun
    cases hrun

theorem Lags.setLayerState (h : Lags cfg payload seqId g opened e d) {states : Dict String V}
    (hs : s = seqId → ∀ l ∈ opened, l ∈ g.remaining)
    (hrun : setLayerState cfg s l states e = (.ok (), e')) :
    ∃ d', Recurrent.setLayerState cfg s l states d = (.ok (), d') ∧
      Lags cfg payload seqId (if s = seqId then g.after (.write l states) else g) opened e' d' := by
  obtain ⟨haccepts, row, e₁, hrow, rfl⟩ := setLayerState_ok.1 hrun
  obtain ⟨d₁, hrow', hlags, hgot⟩ := h.allocateRow hs hrow
  have hremaining : (if s = seqId then g.after (.write l states) else g).remaining = g.remaining := by
    split <;> rfl
  have hrowsApart : ∀ r, e₁.seqIdToRow.get? seqId = some r → r = row → s = seqId := fun r hr heq =>
    hlags.owned.injective hgot (heq ▸ hr)
  refine ⟨_, setLayerState_ok.2 ⟨haccepts, row, d₁, hrow', rfl⟩, hlags.owned.of_rows rfl rfl rfl,
    hlags.rows, hlags.owners, hlags.free, hlags.indices, hlags.others, hlags.noEntry,
    fun hnil => hlags.finished (hremaining ▸ hnil), fun hleft => ?_, hlags.row, fun l' hl => ?_, fun l' hl => ?_,
    fun s' r hr l' hl name hname hopened => ?_, fun r hr l' hl hnot name hname => ?_,
    fun r hr l' hl name hname => ?_⟩
  · rw [hremaining] at hleft ⊢
    exact hlags.pending hleft
  · rw [hremaining] at hl
    exact hlags.within l' hl
  · rw [hremaining] at hl
    exact hlags.unread l' hl
  · have hsame := hlags.same s' r hr l' hl name hname hopened
    simp only [copyStates]
    by_cases hhere : l' = l ∧ r = row
    · rw [if_pos hhere, if_pos hhere, hsame]
    · rw [if_neg hhere, if_neg hhere, hsame]
  · rw [hremaining] at hnot
    simp only [copyStates]
    rw [if_neg fun hh => hnot (hs (hrowsApart r hr hh.2) l' hl)]
    exact hlags.copied r hr l' hl hnot name hname
  · simp only [copyStates]
    by_cases heq : s = seqId
    · have hr' : r = row := by
        rw [← heq] at hr
        exact Option.some.inj (hr.symm.trans hgot)
      simp only [if_pos heq, Restore.after, Dict.get?_set]
      by_cases hlayer : l' = l
      · obtain ⟨value, hvalue⟩ := Dict.mem_keys.1 (haccepts.complete name hname)
        rw [if_pos hlayer, if_pos ⟨hlayer, hr'⟩, Option.bind_some, hvalue]
        rfl
      · rw [if_neg hlayer, if_neg fun hh => hlayer hh.1]
        exact hlags.held r hr l' hl name hname
    · rw [if_neg heq, if_neg fun hh => heq (hrowsApart r hr hh.2)]
      exact hlags.held r hr l' hl name hname

theorem Lags.withPending (h : Lags cfg payload seqId g opened e d)
    (p p' : Dict Int (RecurrentPrefixPayload V × Dict Int E))
    (hothers : ∀ s, s ≠ seqId → p'.get? s = p.get? s) (heager : p.get? seqId = none)
    (hdeferred : p'.get? seqId = d.pendingPrefixPayloads.get? seqId) :
    Lags cfg payload seqId g opened { e with pendingPrefixPayloads := p }
      { d with pendingPrefixPayloads := p' } :=
  ⟨h.owned.of_rows rfl rfl rfl, h.rows, h.owners, h.free, h.indices, hothers, heager,
    fun hnil => hdeferred.trans (h.finished hnil), fun hleft => by
      obtain ⟨events, hentry, hkeys⟩ := h.pending hleft
      exact ⟨events, hdeferred.trans hentry, hkeys⟩,
    h.row, h.within, h.unread, h.same, h.copied, h.held⟩

theorem materialize_ok {m m' : StateManager V E} :
    materializePendingPrefixLayer cfg capturing s l m = (.ok (), m') ↔
      (∀ p events, m.pendingPrefixPayloads.get? s = some (p, events) → p.layerStates.get? l = none) ∧
        m' = m ∨
      ∃ p events states event m₁, m.pendingPrefixPayloads.get? s = some (p, events) ∧
        p.layerStates.get? l = some states ∧ events.get? l = some event ∧ capturing = false ∧
        setLayerState cfg s l states
          { m with pendingPrefixPayloads := m.pendingPrefixPayloads.set s (p, events.erase l) } =
            (.ok (), m₁) ∧
        m' = if (events.erase l).size = 0 then
          { m₁ with pendingPrefixPayloads := m₁.pendingPrefixPayloads.erase s } else m₁ := by
  unfold materializePendingPrefixLayer
  rw [bind_ok get_run]
  cases hentry : m.pendingPrefixPayloads.get? s with
  | none => simp [eq_comm]
  | some entry =>
    obtain ⟨p, events⟩ := entry
    cases hstates : p.layerStates.get? l with
    | none => simp [hstates, eq_comm]
    | some states =>
      cases hevent : events.get? l with
      | none => simp [hstates, hevent]
      | some event =>
        simp only [hstates, hevent]
        rw [bind_ok (modify_run _), raiseIf_bind_ok, bind_eq_ok]
        constructor
        · rintro ⟨hcapture, u, m₁, hset, hlast⟩
          refine .inr ⟨p, events, states, event, m₁, rfl, hstates, hevent, by simpa using hcapture, hset, ?_⟩
          split at hlast
          · next hsize =>
            rw [if_pos hsize]
            exact (congrArg Prod.snd hlast).symm
          · next hsize =>
            rw [if_neg hsize]
            exact (congrArg Prod.snd hlast).symm
        · rintro (⟨hnone, -⟩ | ⟨p', events', states', event', m₁, hp, hs, he, hcapture, hset, rfl⟩)
          · rw [hnone p events rfl] at hstates
            cases hstates
          · cases hp
            rw [hstates] at hs
            cases hs
            refine ⟨by simp [hcapture], (), m₁, hset, ?_⟩
            split <;> rfl

theorem Lags.materialize_other (h : Lags cfg payload seqId g opened e d) (hs : s ≠ seqId)
    (hrun : materializePendingPrefixLayer cfg capturing s l e = (.ok (), e')) :
    ∃ d', materializePendingPrefixLayer cfg capturing s l d = (.ok (), d') ∧
      Lags cfg payload seqId g opened e' d' := by
  have hentries := h.others s hs
  obtain ⟨hnone, rfl⟩ | ⟨p, events, states, event, e₁, hentry, hstates, hevent, hcapture, hset, rfl⟩ :=
    materialize_ok.1 hrun
  · exact ⟨d, materialize_ok.2 (.inl ⟨fun p events hp => hnone p events (hentries ▸ hp), rfl⟩), h⟩
  · have hne : seqId ≠ s := Ne.symm hs
    have hstart := h.withPending (e.pendingPrefixPayloads.set s (p, events.erase l))
      (d.pendingPrefixPayloads.set s (p, events.erase l))
      (fun s' hs' => by simp only [Dict.get?_set, h.others s' hs'])
      (by rw [Dict.get?_set_ne _ _ hne]; exact h.noEntry) (Dict.get?_set_ne _ _ hne)
    obtain ⟨d₁, hset', hlags⟩ := hstart.setLayerState (fun heq => absurd heq hs) hset
    rw [if_neg hs] at hlags
    refine ⟨_, materialize_ok.2 (.inr ⟨p, events, states, event, d₁, hentries.trans hentry, hstates,
      hevent, hcapture, hset', rfl⟩), ?_⟩
    split
    · exact hlags.withPending _ _ (fun s' hs' => by simp only [Dict.get?_erase, hlags.others s' hs'])
        (by rw [Dict.get?_erase_ne _ hne]; exact hlags.noEntry) (Dict.get?_erase_ne _ hne)
    · exact hlags

theorem filter_ne_eq_self {remaining : List Int} (h : l ∉ remaining) :
    remaining.filter (· ≠ l) = remaining :=
  List.filter_eq_self.2 fun a ha => by
    simp only [ne_eq, decide_not, Bool.not_eq_eq_eq_not, Bool.not_true, decide_eq_false_iff_not]
    rintro rfl
    exact h ha

theorem Restore.after_read_of_not_mem (h : l ∉ g.remaining) :
    g.after (.read capturing l) = g := by
  simp only [Restore.after, filter_ne_eq_self h]

theorem Lags.materialize_self (h : Lags cfg payload seqId g opened e d)
    (hpayload : ∀ l states, payload.layerStates.get? l = some states → Accepts cfg l states)
    (capturing : Bool) (l : Int) :
    ((∃ d', materializePendingPrefixLayer cfg capturing seqId l d = (.ok (), d')) ↔
      g.Opens payload capturing l) ∧
    ∀ d', materializePendingPrefixLayer cfg capturing seqId l d = (.ok (), d') →
      Lags cfg payload seqId (g.after (.read capturing l)) opened e d' := by
  by_cases hnil : g.remaining = []
  · have hentry := h.finished hnil
    have hnot : l ∉ g.remaining := by simp [hnil]
    have hrun : materializePendingPrefixLayer cfg capturing seqId l d = (.ok (), d) :=
      materialize_ok.2 (.inl ⟨fun p events hp => (by rw [hentry] at hp; cases hp), rfl⟩)
    refine ⟨⟨fun _ _ hleft => absurd hnil hleft, fun _ => ⟨d, hrun⟩⟩, fun d' hd => ?_⟩
    rw [hrun] at hd
    cases hd
    rwa [Restore.after_read_of_not_mem hnot]
  obtain ⟨events, hentry, hkeys⟩ := h.pending hnil
  cases hstates : payload.layerStates.get? l with
  | none =>
    have hkey : l ∉ payload.layerStates.keys := fun hk => by
      obtain ⟨states, hs⟩ := Dict.mem_keys.1 hk
      rw [hstates] at hs
      cases hs
    have hrun : materializePendingPrefixLayer cfg capturing seqId l d = (.ok (), d) :=
      materialize_ok.2 (.inl ⟨fun p events' hp => (by rw [hentry] at hp; cases hp; exact hstates), rfl⟩)
    refine ⟨⟨fun _ hk => absurd hk hkey, fun _ => ⟨d, hrun⟩⟩, fun d' hd => ?_⟩
    rw [hrun] at hd
    cases hd
    rwa [Restore.after_read_of_not_mem fun hin => hkey (h.within l hin)]
  | some states =>
    have hkey : l ∈ payload.layerStates.keys := Dict.mem_keys.2 ⟨states, hstates⟩
    obtain ⟨row, hrow⟩ := h.row (List.ne_nil_of_mem (h.unread _ (List.head_mem hnil)))
    set d₀ : StateManager V E :=
      { d with pendingPrefixPayloads := d.pendingPrefixPayloads.set seqId (payload, events.erase l) }
      with hd₀
    have hset : Recurrent.setLayerState cfg seqId l states d₀ = (.ok (), copyStates l row states d₀) := by
      refine setLayerState_ok.2 ⟨hpayload l states hstates, row, d₀, ?_, rfl⟩
      obtain ⟨r, hr, hrun⟩ | ⟨r, rest, hr, -, -⟩ | ⟨hr, -, -⟩ := allocateRow_run cfg seqId d₀
      · rw [hd₀, h.rows, hrow] at hr
        cases hr
        exact hrun
      · rw [hd₀, h.rows, hrow] at hr
        cases hr
      · rw [hd₀, h.rows, hrow] at hr
        cases hr
    have hform : ∀ d', materializePendingPrefixLayer cfg capturing seqId l d = (.ok (), d') ↔
        (l ∈ g.remaining ∧ capturing = false) ∧ d' = if (events.erase l).size = 0 then
          { copyStates l row states d₀ with
            pendingPrefixPayloads := d₀.pendingPrefixPayloads.erase seqId }
          else copyStates l row states d₀ := fun d' => by
      rw [materialize_ok]
      constructor
      · rintro (⟨hnone, -⟩ | ⟨p, ev, st, event, m₁, hp, hst, hev, hcapture, hrun, rfl⟩)
        · rw [hnone payload events hentry] at hstates
          cases hstates
        · rw [hentry] at hp
          cases hp
          rw [hstates] at hst
          cases hst
          rw [hset] at hrun
          cases hrun
          exact ⟨⟨(hkeys l).1 (Dict.mem_keys.2 ⟨event, hev⟩), hcapture⟩, rfl⟩
      · rintro ⟨⟨hin, hcapture⟩, rfl⟩
        obtain ⟨event, hevent⟩ := Dict.mem_keys.1 ((hkeys l).2 hin)
        exact .inr ⟨payload, events, states, event, _, hentry, hstates, hevent, hcapture, hset, rfl⟩
    refine ⟨⟨fun ⟨d', hd⟩ _ _ => ((hform d').1 hd).1, fun hopens =>
      ⟨_, (hform _).2 ⟨hopens hkey hnil, rfl⟩⟩⟩, fun d' hd => ?_⟩
    obtain ⟨⟨hin, -⟩, rfl⟩ := (hform d').1 hd
    have hleft : ∀ l', l' ∈ (events.erase l).keys ↔ l' ∈ g.remaining.filter (· ≠ l) := fun l' => by
      rw [Dict.mem_keys, List.mem_filter, ← hkeys, Dict.mem_keys]
      by_cases heq : l' = l
      · subst heq
        simp [Dict.get?_erase_self]
      · simp [Dict.get?_erase_ne _ heq, heq]
    have hempty : (events.erase l).size = 0 ↔ g.remaining.filter (· ≠ l) = [] := by
      rw [Dict.size, List.length_eq_zero_iff, ← List.map_eq_nil_iff (f := Prod.fst)]
      constructor
      · intro hk
        refine List.eq_nil_iff_forall_not_mem.2 fun l' hl' => ?_
        have hin := (hleft l').2 hl'
        rw [Dict.keys, hk] at hin
        cases hin
      · intro hk
        refine List.eq_nil_iff_forall_not_mem.2 fun l' hl' => ?_
        have hin := (hleft l').1 hl'
        rw [hk] at hin
        cases hin
    have hcore : ∀ p' : Dict Int (RecurrentPrefixPayload V × Dict Int E),
        (∀ s, s ≠ seqId → p'.get? s = e.pendingPrefixPayloads.get? s) →
        (g.remaining.filter (· ≠ l) = [] → p'.get? seqId = none) →
        (g.remaining.filter (· ≠ l) ≠ [] → p'.get? seqId = some (payload, events.erase l)) →
        Lags cfg payload seqId (g.after (.read capturing l)) opened e
          { copyStates l row states d₀ with pendingPrefixPayloads := p' } := by
      intro p' hothers hnone hsome
      refine ⟨h.owned, h.rows, h.owners, h.free, h.indices, hothers, h.noEntry, hnone,
        fun hne => ⟨_, hsome hne, hleft⟩, h.row, fun l' hl' => h.within l' (List.mem_filter.1 hl').1,
        fun l' hl' => h.unread l' (List.mem_filter.1 hl').1,
        fun s r hr l' hl' name hname hs => ?_, fun r hr l' hl' hnot name hname => ?_, h.held⟩
      · simp only [copyStates]
        rw [if_neg, hd₀]
        · exact h.same s r hr l' hl' name hname hs
        · rintro ⟨rfl, rfl⟩
          exact hs (h.owned.injective hr hrow) (h.unread _ hin)
      · have hr' : r = row := Option.some.inj (hr.symm.trans hrow)
        simp only [copyStates]
        by_cases heq : l' = l
        · subst heq
          rw [if_pos ⟨rfl, hr'⟩, hstates, Option.bind_some]
          obtain ⟨value, hvalue⟩ := Dict.mem_keys.1 ((hpayload _ _ hstates).complete name hname)
          rw [hvalue]
          rfl
        · rw [if_neg fun hh => heq hh.1]
          refine h.copied r hr l' hl' (fun hrem => hnot ?_) name hname
          exact List.mem_filter.2 ⟨hrem, by simpa using heq⟩
    split
    · next hsize =>
      refine hcore _ (fun s hs => ?_) (fun _ => Dict.get?_erase_self _ _) fun hne => ?_
      · rw [Dict.get?_erase_ne _ hs, hd₀]
        simp only
        rw [Dict.get?_set_ne _ _ hs, h.others s hs]
      · exact absurd (hempty.1 hsize) hne
    · next hsize =>
      refine hcore d₀.pendingPrefixPayloads (fun s hs => ?_) (fun hk => ?_) fun _ => ?_
      · rw [hd₀]
        simp only
        rw [Dict.get?_set_ne _ _ hs, h.others s hs]
      · exact absurd (hempty.2 hk) hsize
      · rw [hd₀]
        exact Dict.get?_set_self _ _ _

end SparseEngine.Recurrent
