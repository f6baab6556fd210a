import SparseEngine.Windows.Reservations

/-!
# Renewals
-/

namespace SparseEngine

open List Dict

def SameCosts (a b : Costs) : Prop := ∀ name, a.get? name = b.get? name

theorem SameCosts.amount {a b : Costs} (h : SameCosts a b) (name : String) :
    a.amount name = b.amount name := by
  rw [Costs.amount, Costs.amount, h name]

theorem get?_addEntries : ∀ {entries : List (String × Int)} {total : Costs} {name : String},
    (entries.map Prod.fst).Nodup →
    (entries.foldl (fun total e => total.set e.1 (total.amount e.1 + e.2)) total).get? name =
      match lookupEntry name entries with
      | some cost => some (total.amount name + cost)
      | none => total.get? name
  | [], total, name, _ => rfl
  | (n, cost) :: entries, total, name, hnodup => by
    rw [map_cons, nodup_cons] at hnodup
    rw [foldl_cons, get?_addEntries hnodup.2]
    simp only [lookupEntry]
    by_cases hn : n = name
    · subst hn
      have hnone : lookupEntry n entries = none := by
        rw [← Option.not_isSome_iff_eq_none, lookupEntry_isSome]
        exact hnodup.1
      rw [hnone, if_pos rfl]
      exact get?_set_self _ _ _
    · rw [if_neg hn]
      simp only [Costs.amount, get?_set_ne _ _ (Ne.symm hn)]

theorem get?_addCosts (total costs : Costs) (name : String) :
    (addCosts total costs).get? name =
      match costs.get? name with
      | some cost => some (total.amount name + cost)
      | none => total.get? name :=
  get?_addEntries costs.nodup

theorem SameCosts.addCosts {a b : Costs} (h : SameCosts a b) (costs : Costs) :
    SameCosts (addCosts a costs) (addCosts b costs) := fun name => by
  rw [get?_addCosts, get?_addCosts, h.amount, h name]

theorem addCosts_comm (total c c' : Costs) :
    SameCosts (addCosts (addCosts total c) c') (addCosts (addCosts total c') c) := fun name => by
  simp only [get?_addCosts, Costs.amount]
  cases c.get? name <;> cases c'.get? name <;> simp only [Option.getD_some]
  ring_nf

theorem SameCosts.foldl_perm {l l' : List Costs} (h : l.Perm l') :
    ∀ {a b : Costs}, SameCosts a b → SameCosts (l.foldl SparseEngine.addCosts a) (l'.foldl SparseEngine.addCosts b) := by
  induction h with
  | nil => exact fun h => h
  | cons c _ ih => exact fun h => ih (h.addCosts c)
  | swap c c' l =>
    intro a b hab
    have hswap : SameCosts (SparseEngine.addCosts (SparseEngine.addCosts a c') c)
        (SparseEngine.addCosts (SparseEngine.addCosts b c) c') := fun name =>
      (addCosts_comm a c' c name).trans (((hab.addCosts c).addCosts c') name)
    have hsame : ∀ (l : List Costs) {a b : Costs}, SameCosts a b →
        SameCosts (l.foldl SparseEngine.addCosts a) (l.foldl SparseEngine.addCosts b) := fun l => by
      induction l with
      | nil => exact fun h => h
      | cons c l ih => exact fun h => ih (h.addCosts c)
    exact hsame l hswap
  | trans _ _ ih ih' => exact fun h => fun name => (ih (fun _ => rfl) name).trans (ih' h name)

def WindowHooks.Monotone (hooks : WindowHooks) : Prop :=
  ∀ seqId n m, n ≤ m → ∀ name cost, (hooks.decodeWindowCosts seqId n).get? name = some cost →
    ∃ cost', (hooks.decodeWindowCosts seqId m).get? name = some cost' ∧ cost ≤ cost'

namespace DecodeReservations

variable {hooks : WindowHooks} {seqs : Int → WindowSeq} {r r' : DecodeReservations} {seqId : Int}
  {out budgets reserve : Costs}

def chargeOf (hooks : WindowHooks) (seqs : Int → WindowSeq) (e : Int × Int) : Option Costs :=
  if remaining seqs e.1 e.2 = 0 then none
  else some (hooks.decodeWindowCosts e.1 (remaining seqs e.1 e.2))

theorem outstanding_eq (r : DecodeReservations) : outstanding hooks seqs none r =
    (r.requests.entries.filterMap (chargeOf hooks seqs)).foldl addCosts .empty := by
  rw [outstanding, foldl_filterMap]
  congr 1
  funext total e
  simp only [reduceCtorEq, if_false, chargeOf]
  split <;> rfl

theorem filterMap_setEntry_perm {γ : Type} {f : Int × Int → Option γ} {key stop : Int} {x : γ}
    (hnew : f (key, stop) = some x) : ∀ {l : List (Int × Int)}, (l.map Prod.fst).Nodup →
    (∀ old, (key, old) ∈ l → f (key, old) = none) →
    ((setEntry key stop l).filterMap f).Perm (l.filterMap f ++ [x])
  | [], _, _ => by
    simp only [setEntry, filterMap_cons, hnew, filterMap_nil, nil_append]
    exact .refl _
  | (k, old) :: l, hnodup, hold => by
    rw [map_cons, nodup_cons] at hnodup
    simp only [setEntry]
    by_cases hk : k = key
    · subst hk
      rw [if_pos rfl, filterMap_cons, hnew, filterMap_cons, hold old mem_cons_self]
      exact (perm_append_singleton _ _).symm
    · rw [if_neg hk, filterMap_cons, filterMap_cons]
      have ih := filterMap_setEntry_perm hnew hnodup.2 fun o ho => hold o (mem_cons_of_mem _ ho)
      cases f (k, old) with
      | none => exact ih
      | some y => exact ih.cons y

theorem submitted_of_needs (h : r.needsAcquisition seqs seqId = true) :
    (∀ stop, r.requests.get? seqId = some stop → stop ≤ (seqs seqId).submitted) ∧
      (seqs seqId).submitted < (seqs seqId).maxTokens ∧ (seqs seqId).isRecomputeReplay = false := by
  unfold needsAcquisition at h
  split at h
  · cases h
  · next hnone =>
    rw [Bool.and_eq_true, decide_eq_true_eq, Bool.not_eq_true'] at h
    exact ⟨fun stop hs => not_lt.1 fun hlt => hnone ⟨stop, hs, hlt⟩, h⟩

theorem outstanding_grant (hneeds : r.needsAcquisition seqs seqId = true) {tokens : Int}
    (htokens : 0 < tokens) (hout : SameCosts out (outstanding hooks seqs none r)) :
    SameCosts (addCosts out (hooks.decodeWindowCosts seqId tokens))
      (outstanding hooks seqs none (r.grant seqs seqId tokens)) := by
  obtain ⟨hold, -, -⟩ := submitted_of_needs hneeds
  have hnew : chargeOf hooks seqs (seqId, (seqs seqId).submitted + tokens) =
      some (hooks.decodeWindowCosts seqId tokens) := by
    have : remaining seqs seqId ((seqs seqId).submitted + tokens) = tokens := by
      simp only [remaining]
      omega
    rw [chargeOf, this, if_neg (by omega)]
  have hexhausted : ∀ old, (seqId, old) ∈ r.requests.entries → chargeOf hooks seqs (seqId, old) = none :=
    fun old hin => by
      have := hold old (mem_entries.1 hin)
      rw [chargeOf, if_pos]
      simp only [remaining]
      omega
  have hperm := filterMap_setEntry_perm hnew r.requests.nodup hexhausted
  intro name
  rw [outstanding_eq]
  have hfresh := SameCosts.foldl_perm hperm (fun _ => rfl : SameCosts .empty .empty) name
  rw [foldl_append, foldl_cons, foldl_nil, ← outstanding_eq] at hfresh
  exact ((hout.addCosts _) name).trans hfresh.symm

def Affordable (out budgets reserve costs : Costs) : Prop :=
  ∀ name cost, costs.get? name = some cost → ∃ budget, budgets.get? name = some budget ∧
    cost + out.amount name + reserve.amount name ≤ budget

def Unbudgeted (budgets costs : Costs) : Prop := ∃ name ∈ costs.keys, budgets.get? name = none

theorem fits_spec (out budgets reserve : Costs) : ∀ (entries : List (String × Int)),
    match fits out budgets reserve entries with
    | .ok true => ∀ e ∈ entries, ∃ budget, budgets.get? e.1 = some budget ∧
        e.2 + out.amount e.1 + reserve.amount e.1 ≤ budget
    | .ok false => ¬∀ e ∈ entries, ∃ budget, budgets.get? e.1 = some budget ∧
        e.2 + out.amount e.1 + reserve.amount e.1 ≤ budget
    | .error _ => ∃ e ∈ entries, budgets.get? e.1 = none
  | [] => by simp [fits]
  | (name, cost) :: entries => by
    have ih := fits_spec out budgets reserve entries
    simp only [fits]
    cases hb : budgets.get? name with
    | none => exact ⟨(name, cost), mem_cons_self, hb⟩
    | some budget =>
      simp only
      by_cases hfits : cost + out.amount name + reserve.amount name ≤ budget
      · rw [if_pos hfits]
        split at ih
        · exact forall_mem_cons.2 ⟨⟨budget, hb, hfits⟩, ih⟩
        · exact fun hall => ih (forall_mem_cons.1 hall).2
        · obtain ⟨e, he, hnone⟩ := ih
          exact ⟨e, mem_cons_of_mem _ he, hnone⟩
      · rw [if_neg hfits]
        intro hall
        obtain ⟨b, hb', hle⟩ := hall (name, cost) mem_cons_self
        rw [hb] at hb'
        cases hb'
        exact hfits hle

variable {costs : Costs}

theorem affordable_iff : Affordable out budgets reserve costs ↔
    ∀ e ∈ costs.entries, ∃ budget, budgets.get? e.1 = some budget ∧
      e.2 + out.amount e.1 + reserve.amount e.1 ≤ budget :=
  ⟨fun h e he => h e.1 e.2 (mem_entries.1 he),
    fun h name cost hget => h (name, cost) (mem_entries.2 hget)⟩

theorem fits_true (h : fits out budgets reserve costs.entries = .ok true) :
    Affordable out budgets reserve costs := by
  have := fits_spec out budgets reserve costs.entries
  rw [h] at this
  exact affordable_iff.2 this

theorem fits_false (h : fits out budgets reserve costs.entries = .ok false) :
    ¬Affordable out budgets reserve costs := by
  have := fits_spec out budgets reserve costs.entries
  rw [h] at this
  exact fun ha => this (affordable_iff.1 ha)

theorem fits_error {e : PyError} (h : fits out budgets reserve costs.entries = .error e) :
    Unbudgeted budgets costs := by
  have := fits_spec out budgets reserve costs.entries
  rw [h] at this
  obtain ⟨entry, hin, hnone⟩ := this
  exact ⟨entry.1, mem_map_of_mem hin, hnone⟩

theorem Affordable.congr {out' : Costs} (h : SameCosts out out') :
    Affordable out budgets reserve costs ↔ Affordable out' budgets reserve costs := by
  unfold Affordable
  simp only [h.amount]

theorem Affordable.mono (hmono : WindowHooks.Monotone hooks) {n m : Int} (hnm : n ≤ m)
    (h : Affordable out budgets reserve (hooks.decodeWindowCosts seqId m)) :
    Affordable out budgets reserve (hooks.decodeWindowCosts seqId n) := by
  intro name cost hcost
  obtain ⟨cost', hcost', hle⟩ := hmono seqId n m hnm name cost hcost
  obtain ⟨budget, hbudget, hfits⟩ := h name cost' hcost'
  exact ⟨budget, hbudget, by omega⟩

theorem search_spec (hmono : WindowHooks.Monotone hooks) (lo hi : Int) (hle : lo ≤ hi)
    (hlo : Affordable out budgets reserve (hooks.decodeWindowCosts seqId lo))
    (hhi : ¬Affordable out budgets reserve (hooks.decodeWindowCosts seqId (hi + 1))) :
    match search hooks seqId out budgets reserve lo hi with
    | .ok n => lo ≤ n ∧ n ≤ hi ∧ Affordable out budgets reserve (hooks.decodeWindowCosts seqId n) ∧
        ¬Affordable out budgets reserve (hooks.decodeWindowCosts seqId (n + 1))
    | .error _ => ∃ n, lo ≤ n ∧ n ≤ hi ∧ Unbudgeted budgets (hooks.decodeWindowCosts seqId n) := by
  rw [search]
  by_cases hlt : lo < hi
  · rw [dif_pos hlt]
    cases hfits : fits out budgets reserve
        (hooks.decodeWindowCosts seqId ((lo + hi + 1) / 2)).entries with
    | error e => exact ⟨(lo + hi + 1) / 2, by omega, by omega, fits_error hfits⟩
    | ok b =>
      cases b with
      | true =>
        have ih := search_spec hmono ((lo + hi + 1) / 2) hi (by omega) (fits_true hfits) hhi
        cases hs : search hooks seqId out budgets reserve ((lo + hi + 1) / 2) hi with
        | ok n =>
          rw [hs] at ih
          exact ⟨by omega, ih.2⟩
        | error e =>
          rw [hs] at ih
          obtain ⟨n, hn, hrest⟩ := ih
          exact ⟨n, by omega, hrest⟩
      | false =>
        have hstep : (lo + hi + 1) / 2 - 1 + 1 = (lo + hi + 1) / 2 := by omega
        have ih := search_spec hmono lo ((lo + hi + 1) / 2 - 1) (by omega) hlo
          (by rw [hstep]; exact fits_false hfits)
        cases hs : search hooks seqId out budgets reserve lo ((lo + hi + 1) / 2 - 1) with
        | ok n =>
          rw [hs] at ih
          exact ⟨ih.1, by omega, ih.2.2⟩
        | error e =>
          rw [hs] at ih
          obtain ⟨n, hn, hn', hrest⟩ := ih
          exact ⟨n, hn, by omega, hrest⟩
  · rw [dif_neg hlt]
    have heq : lo = hi := by omega
    subst heq
    exact ⟨le_refl _, le_refl _, hlo, hhi⟩
termination_by (hi - lo).toNat

structure Window (hooks : WindowHooks) (seqs : Int → WindowSeq) (budgets reserve : Costs)
    (allowShort : Bool) (r : DecodeReservations) (seqId tokens : Int) : Prop where
  positive : 0 < tokens
  affordable : Affordable (outstanding hooks seqs none r) budgets reserve
    (hooks.decodeWindowCosts seqId tokens)
  length : tokens = r.fullWindow seqs seqId ∨ allowShort = true ∧ tokens < r.fullWindow seqs seqId ∧
    ∀ n, tokens < n → n ≤ r.fullWindow seqs seqId →
      ¬Affordable (outstanding hooks seqs none r) budgets reserve (hooks.decodeWindowCosts seqId n)

def Refused (hooks : WindowHooks) (seqs : Int → WindowSeq) (budgets reserve : Costs)
    (allowShort : Bool) (r : DecodeReservations) (seqId : Int) : Prop :=
  ¬Affordable (outstanding hooks seqs none r) budgets reserve
    (hooks.decodeWindowCosts seqId (if allowShort then 1 else r.fullWindow seqs seqId))

def Misnamed (hooks : WindowHooks) (seqs : Int → WindowSeq) (budgets : Costs) (r : DecodeReservations)
    (seqId : Int) : Prop :=
  ∃ n, 1 ≤ n ∧ n ≤ r.fullWindow seqs seqId ∧ Unbudgeted budgets (hooks.decodeWindowCosts seqId n)

theorem fullWindow_pos (hneeds : r.needsAcquisition seqs seqId = true) :
    1 ≤ r.fullWindow seqs seqId := by
  obtain ⟨-, hlt, -⟩ := submitted_of_needs hneeds
  have := r.positive
  simp only [fullWindow]
  omega

theorem grantedTokens_spec (hmono : WindowHooks.Monotone hooks)
    (hneeds : r.needsAcquisition seqs seqId = true)
    (hout : SameCosts out (outstanding hooks seqs none r)) (allowShort : Bool) :
    match grantedTokens hooks seqs r seqId out budgets reserve allowShort with
    | .ok (some tokens) => Window hooks seqs budgets reserve allowShort r seqId tokens
    | .ok none => Refused hooks seqs budgets reserve allowShort r seqId
    | .error _ => Misnamed hooks seqs budgets r seqId := by
  have hfull := fullWindow_pos hneeds
  have hcongr : ∀ n, Affordable out budgets reserve (hooks.decodeWindowCosts seqId n) ↔
      Affordable (outstanding hooks seqs none r) budgets reserve (hooks.decodeWindowCosts seqId n) :=
    fun n => Affordable.congr hout
  simp only [grantedTokens, bind, Except.bind, pure, Except.pure]
  cases hwhole : fits out budgets reserve
      (hooks.decodeWindowCosts seqId (r.fullWindow seqs seqId)).entries with
  | error e => exact ⟨_, hfull, le_refl _, fits_error hwhole⟩
  | ok whole =>
    cases whole with
    | true =>
      simp only [if_true]
      exact ⟨by omega, (hcongr _).1 (fits_true hwhole), .inl rfl⟩
    | false =>
      have hnot := fits_false hwhole
      cases allowShort with
      | false =>
        simp only [Bool.false_eq_true, if_false, Bool.not_false, if_true]
        exact fun h => hnot ((hcongr _).2 h)
      | true =>
        simp only [Bool.false_eq_true, if_false, Bool.not_true]
        cases hone : fits out budgets reserve (hooks.decodeWindowCosts seqId 1).entries with
        | error e => exact ⟨1, le_refl _, hfull, fits_error hone⟩
        | ok one =>
          cases one with
          | false =>
            simp only [Bool.not_false, if_true]
            exact fun h => fits_false hone ((hcongr _).2 h)
          | true =>
            simp only [Bool.not_true, Bool.false_eq_true, if_false]
            have hsearch := search_spec hmono 1 (r.fullWindow seqs seqId) hfull (fits_true hone)
              fun h => hnot (h.mono hmono (by omega))
            cases hs : search hooks seqId out budgets reserve 1 (r.fullWindow seqs seqId) with
            | error e =>
              rw [hs] at hsearch
              exact hsearch
            | ok n =>
              rw [hs] at hsearch
              obtain ⟨hlo, hhi, hfits, hnext⟩ := hsearch
              have hlt : n ≠ r.fullWindow seqs seqId := fun heq => hnot (heq ▸ hfits)
              refine ⟨by omega, (hcongr _).1 hfits, .inr ⟨rfl, by omega, fun m hm hm' h => ?_⟩⟩
              exact hnext (((hcongr m).2 h).mono hmono (by omega))

theorem acquireOne_spec (hmono : WindowHooks.Monotone hooks)
    (hneeds : r.needsAcquisition seqs seqId = true)
    (hout : SameCosts out (outstanding hooks seqs none r)) (allowShort : Bool) :
    match acquireOne hooks seqs seqId out budgets reserve allowShort r with
    | (.ok (some out'), r') => ∃ tokens, Window hooks seqs budgets reserve allowShort r seqId tokens ∧
        r' = r.grant seqs seqId tokens ∧ SameCosts out' (outstanding hooks seqs none r')
    | (.ok none, r') => r' = r ∧ Refused hooks seqs budgets reserve allowShort r seqId
    | (.error _, r') => r' = r ∧ Misnamed hooks seqs budgets r seqId := by
  have hspec := @grantedTokens_spec hooks seqs r seqId out budgets reserve hmono hneeds hout allowShort
  unfold acquireOne
  rw [PyM.bind_ok PyM.get_run]
  cases hg : grantedTokens hooks seqs r seqId out budgets reserve allowShort with
  | error e =>
    rw [hg] at hspec
    rw [PyM.bind_error (PyM.lift_run _)]
    exact ⟨rfl, hspec⟩
  | ok granted =>
    rw [hg] at hspec
    rw [PyM.bind_ok (PyM.lift_run _)]
    cases granted with
    | none => exact ⟨rfl, hspec⟩
    | some tokens => exact ⟨tokens, hspec, rfl, outstanding_grant hneeds hspec.positive hout⟩

/-- A pass over the sequences in order. -/
inductive Granted (hooks : WindowHooks) (seqs : Int → WindowSeq) (budgets reserve : Costs)
    (allowShort : Bool) : DecodeReservations → List Int → Option Int → DecodeReservations → Prop
  | done (r : DecodeReservations) : Granted hooks seqs budgets reserve allowShort r [] none r
  | pass {r r' : DecodeReservations} {seqId : Int} {seqIds : List Int} {res : Option Int} :
      r.needsAcquisition seqs seqId = false →
      Granted hooks seqs budgets reserve allowShort r seqIds res r' →
      Granted hooks seqs budgets reserve allowShort r (seqId :: seqIds) res r'
  | grant {r r' : DecodeReservations} {seqId tokens : Int} {seqIds : List Int} {res : Option Int} :
      r.needsAcquisition seqs seqId = true →
      Window hooks seqs budgets reserve allowShort r seqId tokens →
      Granted hooks seqs budgets reserve allowShort (r.grant seqs seqId tokens) seqIds res r' →
      Granted hooks seqs budgets reserve allowShort r (seqId :: seqIds) res r'
  | refuse {r : DecodeReservations} {seqId : Int} {seqIds : List Int} :
      r.needsAcquisition seqs seqId = true → Refused hooks seqs budgets reserve allowShort r seqId →
      Granted hooks seqs budgets reserve allowShort r (seqId :: seqIds) (some seqId) r

variable {allowShort : Bool} {res : Option Int} {seqIds : List Int}

theorem acquireLoop_spec (hmono : WindowHooks.Monotone hooks) (allowShort : Bool) :
    ∀ (seqIds : List Int) (out : Option Costs) (r : DecodeReservations),
    (∀ o ∈ out, SameCosts o (outstanding hooks seqs none r)) →
    match acquireLoop hooks seqs budgets reserve allowShort seqIds out r with
    | (.ok res, r') => Granted hooks seqs budgets reserve allowShort r seqIds res r'
    | (.error _, r') => ∃ done seqId rest, seqIds = done ++ seqId :: rest ∧
        Granted hooks seqs budgets reserve allowShort r done none r' ∧
        r'.needsAcquisition seqs seqId = true ∧ Misnamed hooks seqs budgets r' seqId
  | [], out, r, _ => .done r
  | seqId :: seqIds, out, r, hout => by
    unfold acquireLoop
    rw [PyM.bind_ok PyM.get_run]
    cases hneeds : r.needsAcquisition seqs seqId with
    | false =>
      have ih := acquireLoop_spec hmono allowShort seqIds out r hout
      simp only [Bool.not_false, if_true]
      generalize acquireLoop hooks seqs budgets reserve allowShort seqIds out r = x at ih ⊢
      obtain ⟨e | res, r'⟩ := x
      · obtain ⟨done, s, rest, hsplit, hpass, hrest⟩ := ih
        exact ⟨seqId :: done, s, rest, by rw [hsplit]; rfl, .pass hneeds hpass, hrest⟩
      · exact .pass hneeds ih
    | true =>
      simp only [Bool.not_true, Bool.false_eq_true, if_false]
      have hsame : SameCosts (out.getD (outstanding hooks seqs none r)) (outstanding hooks seqs none r) := by
        cases out with
        | none => exact fun _ => rfl
        | some o => exact hout o rfl
      have hone := @acquireOne_spec hooks seqs r seqId _ budgets reserve hmono hneeds hsame allowShort
      cases hrun : acquireOne hooks seqs seqId (out.getD (outstanding hooks seqs none r)) budgets reserve
          allowShort r with
      | mk result r₁ =>
        rw [hrun] at hone
        cases result with
        | error e =>
          obtain ⟨rfl, hmis⟩ := hone
          rw [PyM.bind_error hrun]
          exact ⟨[], seqId, seqIds, rfl, .done _, hneeds, hmis⟩
        | ok next =>
          rw [PyM.bind_ok hrun]
          cases next with
          | none =>
            obtain ⟨rfl, hrefused⟩ := hone
            exact .refuse hneeds hrefused
          | some out' =>
            obtain ⟨tokens, hwindow, rfl, hout'⟩ := hone
            have ih := acquireLoop_spec hmono allowShort seqIds (some out') (r.grant seqs seqId tokens)
              fun o ho => by cases ho; exact hout'
            simp only
            generalize acquireLoop hooks seqs budgets reserve allowShort seqIds (some out')
              (r.grant seqs seqId tokens) = x at ih ⊢
            obtain ⟨e | res, r'⟩ := x
            · obtain ⟨done, s, rest, hsplit, hpass, hrest⟩ := ih
              exact ⟨seqId :: done, s, rest, by rw [hsplit]; rfl, .grant hneeds hwindow hpass, hrest⟩
            · exact .grant hneeds hwindow ih

theorem needsAcquisition_grant_self {tokens : Int} (htokens : 0 < tokens) :
    (r.grant seqs seqId tokens).needsAcquisition seqs seqId = false := by
  unfold needsAcquisition
  rw [if_pos]
  exact ⟨(seqs seqId).submitted + tokens, get?_set_self _ _ _, by omega⟩

theorem needsAcquisition_congr {r r' : DecodeReservations}
    (h : r'.requests.get? seqId = r.requests.get? seqId) :
    r'.needsAcquisition seqs seqId = r.needsAcquisition seqs seqId := by
  simp only [needsAcquisition, h]

theorem Granted.kept (h : Granted hooks seqs budgets reserve allowShort r seqIds res r') {s : Int}
    (hs : r.needsAcquisition seqs s = false ∨ s ∉ seqIds) :
    r'.requests.get? s = r.requests.get? s := by
  induction h with
  | done => rfl
  | pass _ _ ih => exact ih (hs.imp id fun hn hm => hn (mem_cons_of_mem _ hm))
  | @grant r r' seqId tokens seqIds res hneeds hwindow _ ih =>
    have hne : s ≠ seqId := by
      rintro rfl
      rcases hs with hs | hs
      · rw [hneeds] at hs
        cases hs
      · exact hs mem_cons_self
    have hkept : (r.grant seqs seqId tokens).requests.get? s = r.requests.get? s :=
      get?_set_ne _ _ hne
    rw [ih ?_, hkept]
    rw [needsAcquisition_congr hkept]
    exact hs.imp id fun hn hm => hn (mem_cons_of_mem _ hm)
  | refuse => rfl

theorem Granted.last_needs (h : Granted hooks seqs budgets reserve allowShort r seqIds (some seqId) r') :
    r'.needsAcquisition seqs seqId = true := by
  generalize hres : some seqId = res at h
  induction h with
  | done => cases hres
  | pass _ _ ih => exact ih hres
  | grant _ _ _ ih => exact ih hres
  | refuse hneeds _ =>
    cases hres
    exact hneeds

theorem Granted.satisfied (h : Granted hooks seqs budgets reserve allowShort r seqIds none r') {s : Int}
    (hs : s ∈ seqIds) : r'.needsAcquisition seqs s = false := by
  generalize hres : none = res at h
  induction h with
  | done => cases hs
  | pass hneeds hrest ih =>
    rcases mem_cons.1 hs with rfl | hs
    · rw [needsAcquisition_congr (hrest.kept (.inl hneeds)), hneeds]
    · exact ih hs hres
  | @grant r r' _ tokens _ _ _ hwindow hrest ih =>
    rcases mem_cons.1 hs with rfl | hs
    · have hgranted := @needsAcquisition_grant_self seqs r s tokens hwindow.positive
      rw [needsAcquisition_congr (hrest.kept (.inl hgranted)), hgranted]
    · exact ih hs hres
  | refuse => cases hres

theorem Granted.refused (h : Granted hooks seqs budgets reserve allowShort r seqIds (some seqId) r') :
    seqId ∈ seqIds ∧ r'.requests.get? seqId = r.requests.get? seqId ∧
      Refused hooks seqs budgets reserve allowShort r' seqId := by
  generalize hres : some seqId = res at h
  induction h with
  | done => cases hres
  | pass _ _ ih =>
    obtain ⟨hin, hkept, hrefused⟩ := ih hres
    exact ⟨mem_cons_of_mem _ hin, hkept, hrefused⟩
  | @grant r r' s tokens seqIds res _ hwindow hrest ih =>
    obtain ⟨hin, hkept, hrefused⟩ := ih hres
    refine ⟨mem_cons_of_mem _ hin, ?_, hrefused⟩
    rw [hkept]
    refine get?_set_ne _ _ ?_
    -- a sequence that was just granted a window is not the one that is refused
    rintro rfl
    subst hres
    have hneeds := hrest.last_needs
    rw [needsAcquisition_congr hkept, needsAcquisition_grant_self hwindow.positive] at hneeds
    cases hneeds
  | refuse _ hrefused =>
    cases hres
    exact ⟨mem_cons_self, rfl, hrefused⟩

end DecodeReservations

end SparseEngine
