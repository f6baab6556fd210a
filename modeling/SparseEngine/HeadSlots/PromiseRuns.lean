import SparseEngine.HeadSlots.Admissions

/-! A batch takes from the free slots what its requests are owed. -/

namespace SparseEngine.HeadSlotCacheManager

open HeadSlotAllocator PyM Shares List Finset Dict HeadRequest Prod

variable {m m' : HeadSlotCacheManager} {sid : Int} {l : Nat} {r : HeadRequest} {p : ChainPromise}
  {batch : List (Int × Nat × Nat)}

theorem apply_ok {plan : HeadAppendPlan} (h : (match applyAppend plan m.allocator with
      | (.error e, _) => Except.error e
      | (.ok _, allocator) => Except.ok { m with allocator := allocator }) = .ok m') :
    ∃ writes allocator, applyAppend plan m.allocator = (.ok writes, allocator) ∧
      m' = { m with allocator := allocator } := by
  cases happly : applyAppend plan m.allocator with
  | mk result allocator =>
    rw [happly] at h
    cases result with
    | error e => cases h
    | ok writes =>
      cases h
      exact ⟨writes, allocator, rfl, rfl⟩

theorem append_ok (h : m.append batch = .ok m') : ∃ plan writes allocator,
    m.allocator.planAppend (requestsOf batch) = .ok plan ∧
      applyAppend plan m.allocator = (.ok writes, allocator) ∧
      m' = { m with allocator := allocator } := by
  unfold append at h
  cases hrequests : m.checkRequests batch with
  | error e => rw [hrequests] at h; cases h
  | ok u =>
    rw [hrequests] at h
    change (if _ then _ else _) = _ at h
    split at h
    · cases h
    · cases hbatch : m.checkBatch batch with
      | error e => rw [hbatch] at h; cases h
      | ok u =>
        rw [hbatch] at h
        cases hplan : m.allocator.planAppend (requestsOf batch) with
        | error e => rw [hplan] at h; cases h
        | ok plan =>
          rw [hplan] at h
          obtain ⟨writes, allocator, happly, rfl⟩ := apply_ok h
          exact ⟨plan, writes, allocator, rfl, happly, rfl⟩

def endPromise (r : HeadRequest) (n : Nat) (p : ChainPromise) : ChainPromise :=
  if 0 < r.remaining ∧ r.numPromptTokens ≤ r.done + n then
    { p with reservedSlotsByLayer := [], reservedRows := 0 }
  else p

theorem endPromise_active (n : Nat) : (endPromise r n p).active = p.active := by
  unfold endPromise
  split <;> rfl

theorem forwardEnd_chain {b : Int × Nat × Nat} (hr : m.requests.get? b.1 = some r) (x : Int) :
    (m.forwardEnd b).chains.get? x =
      if x = b.1 then (m.chains.get? x).map (endPromise r b.2.2) else m.chains.get? x := by
  simp only [forwardEnd, hr]
  by_cases hx : x = b.1
  · subst hx
    rw [if_pos rfl]
    cases hp : m.chains.get? b.1 with
    | none => exact hp
    | some p =>
      simp only [Option.map_some, endPromise]
      split
      · exact Dict.get?_set_self _ _ _
      · exact hp
  · rw [if_neg hx]
    cases hp : m.chains.get? b.1 with
    | none => rfl
    | some p =>
      dsimp only
      split
      · exact get?_set_ne _ _ hx
      · rfl

theorem forwardEnd_request {b : Int × Nat × Nat} (hr : m.requests.get? b.1 = some r) :
    (m.forwardEnd b).requests = m.requests.set b.1 (r.advance b.2.2) ∧
      (m.forwardEnd b).allocator = m.allocator ∧ (m.forwardEnd b).chained = m.chained := by
  simp only [forwardEnd, hr, and_self]

/-- The forward advanced the request and its promise. -/
structure Forwarded (m m' : HeadSlotCacheManager) (b : Int × Nat × Nat) : Prop where
  request : ∀ r, m.requests.get? b.1 = some r → m'.requests.get? b.1 = some (r.advance b.2.2)
  chain : ∀ r, m.requests.get? b.1 = some r →
    m'.chains.get? b.1 = (m.chains.get? b.1).map (endPromise r b.2.2)

/-- `on_forward_end` of a batch. -/
structure ForwardEnded (m m' : HeadSlotCacheManager) (batch : List (Int × Nat × Nat)) : Prop where
  allocator : m'.allocator = m.allocator
  chained : m'.chained = m.chained
  requests : ∀ x ∉ batch.map fst, m'.requests.get? x = m.requests.get? x
  chains : ∀ x ∉ batch.map fst, m'.chains.get? x = m.chains.get? x
  forwarded : ∀ b ∈ batch, Forwarded m m' b
  owed : m'.owed + tokens batch = m.owed
  keys : ∀ f : Int → Nat, (m'.requests.sumBy fun x _ => f x) = m.requests.sumBy fun x _ => f x

theorem forwardEnd_all : ∀ (batch : List (Int × Nat × Nat)) (m : HeadSlotCacheManager),
    m.GrantedBatch batch → ForwardEnded m (batch.foldl forwardEnd m) batch
  | [], m, _ => ⟨rfl, rfl, fun _ _ => rfl, fun _ _ => rfl, by simp, rfl, fun _ => rfl⟩
  | b :: batch, m, hg => by
    obtain ⟨hnd, hall⟩ := hg
    rw [List.map_cons, List.nodup_cons] at hnd
    rw [List.forall_mem_cons] at hall
    obtain ⟨⟨r, hr, hstart, hn⟩, hrest⟩ := hall
    obtain ⟨hrequests, hallocator, hchained⟩ := forwardEnd_request hr
    have hchains := forwardEnd_chain hr
    have hne : ∀ b' ∈ batch, b'.1 ≠ b.1 := fun b' hb' he => hnd.1 (he ▸ mem_map_of_mem hb')
    have hsame : ∀ x ≠ b.1, (m.forwardEnd b).requests.get? x = m.requests.get? x ∧
        (m.forwardEnd b).chains.get? x = m.chains.get? x := fun x hx =>
      ⟨by rw [hrequests, get?_set_ne _ _ hx], by rw [hchains, if_neg hx]⟩
    have hg' : (m.forwardEnd b).GrantedBatch batch := ⟨hnd.2, fun b' hb' => by
      rw [(hsame b'.1 (hne b' hb')).1]
      exact hrest b' hb'⟩
    have ih := forwardEnd_all batch (m.forwardEnd b) hg'
    rw [foldl_cons]
    refine ⟨ih.allocator.trans hallocator, ih.chained.trans hchained, fun x hx => ?_, fun x hx => ?_,
      List.forall_mem_cons.mpr ⟨⟨fun r' hr' => ?_, fun r' hr' => ?_⟩, fun b' hb' =>
      ⟨fun r' hr' => ?_, fun r' hr' => ?_⟩⟩, ?_, fun f => ?_⟩
    · rw [List.map_cons, List.mem_cons, not_or] at hx
      exact (ih.requests x hx.2).trans (hsame x hx.1).1
    · rw [List.map_cons, List.mem_cons, not_or] at hx
      exact (ih.chains x hx.2).trans (hsame x hx.1).2
    · obtain rfl := Option.some.inj (hr.symm.trans hr')
      rw [ih.requests b.1 hnd.1, hrequests, Dict.get?_set_self]
    · obtain rfl := Option.some.inj (hr.symm.trans hr')
      rw [ih.chains b.1 hnd.1, hchains, if_pos rfl]
    · exact (ih.forwarded b' hb').request r' ((hsame b'.1 (hne b' hb')).1.trans hr')
    · rw [(ih.forwarded b' hb').chain r' ((hsame b'.1 (hne b' hb')).1.trans hr'),
        (hsame b'.1 (hne b' hb')).2]
    · have hsum := Dict.sumBy_set_old (fun _ r => remaining r + r.window)
        (r.advance b.2.2) hr
      have howed := advance_owed hn
      have hrec := ih.owed
      have hnew : (m.forwardEnd b).owed = (m.requests.set b.1 (r.advance b.2.2)).sumBy
          fun _ r => remaining r + r.window := by rw [owed, hrequests]
      have hold : m.owed = m.requests.sumBy fun _ r => remaining r + r.window := rfl
      simp only [tokens, List.map_cons, List.sum_cons] at hrec ⊢
      omega
    · have hsum := Dict.sumBy_set_old (fun x (_ : HeadRequest) => f x) (r.advance b.2.2) hr
      rw [ih.keys f, hrequests]
      exact Nat.add_right_cancel hsum

theorem RequestOk.advance {s s' : HeadSlotAllocator} {n : Nat} (h : RequestOk s sid r)
    (hn : r.Granted n) (hshape : SameShape s s') (hrow : s'.seqRows.contains sid = true)
    (hlonger : ∀ l h, s'.headLength sid l h = s.headLength sid l h + n) :
    RequestOk s' sid (r.advance n) := by
  refine ⟨h.prompt, hshape.width ▸ h.limit, ?_, fun l hl k hk => ?_, fun _ => hrow⟩
  · have := advance_owed hn
    have := h.fits
    have hdone : (r.advance n).done = r.done + n := rfl
    rw [hshape.width, hdone]
    omega
  · rw [hlonger]
    exact Nat.add_le_add_right (h.held l (hshape.layers ▸ hl) k (hshape.heads ▸ hk)) n

theorem Owes.advance {s s' : HeadSlotAllocator} {n : Nat} (h : Owes s sid r p)
    (hshape : SameShape s s') (hrow : s'.seqRows.contains sid = true)
    (hlonger : ∀ l h, s'.headLength sid l h = s.headLength sid l h + n) :
    Owes s' sid (r.advance n) (endPromise r n p) := by
  have hremaining : (r.advance n).remaining = r.remaining - n := advance_remaining
  have hresidency : ∀ l, s'.residency sid l = s.residency sid l + n * s.heads := fun l => by
    simp only [HeadSlotAllocator.residency, hshape.heads, hlonger, sum_add_distrib,
      sum_const, card_range, smul_eq_mul, Nat.mul_comm]
  refine ⟨(endPromise_active n).trans h.active, fun hzero l => ?_, fun hpos => ?_,
    fun hno => ?_, fun hno => ?_⟩
  · rw [hremaining] at hzero
    unfold endPromise
    split
    · rfl
    · next hfinal =>
      refine h.settled ?_ l
      simp only [remaining] at hzero hfinal ⊢
      omega
  · rw [hremaining] at hpos
    obtain ⟨suffixTokens, hle, hall⟩ := h.running (by omega)
    have hopen : endPromise r n p = p := by
      refine if_neg fun hfinal => ?_
      simp only [remaining] at hpos
      omega
    rw [hopen, hremaining]
    refine ⟨suffixTokens, by omega, fun l hl => ?_⟩
    obtain ⟨hreserved, hcurrent⟩ := hall l (hshape.layers ▸ hl)
    refine ⟨hreserved.trans (by rw [hshape.heads]), ?_⟩
    rw [hresidency, hcurrent, hshape.heads, Nat.add_assoc, ← Nat.add_mul]
    congr 2
    omega
  · rw [hrow] at hno
    cases hno
  · rw [hrow] at hno
    cases hno

theorem Kept.append (hk : Kept m) (hg : m.GrantedBatch batch) (h : m.append batch = .ok m') :
    Kept (batch.foldl forwardEnd m') := by
  obtain ⟨plan, writes, s', hplan, happly, rfl⟩ := append_ok h
  obtain ⟨writes', s'', happly', ha⟩ := applyAppend_appended hk.inv hplan (tokensOf_mem hg.1)
  obtain rfl : s' = s'' := (Prod.mk.inj (happly.symm.trans happly')).2
  have hf := forwardEnd_all batch { m with allocator := s' } hg
  set m₂ := batch.foldl forwardEnd { m with allocator := s' } with hm₂
  have hallocator : m₂.allocator = s' := hf.allocator
  have hshape : SameShape m.allocator m₂.allocator := hallocator ▸ ha.shape
  refine ⟨hallocator ▸ ha.inv, fun l hl => ?_, ?_, fun x => ?_⟩
  · rw [hshape.layers] at hl
    have hslots := ha.slots l hl
    have hroom := hk.room l hl
    have howed : m₂.owed + tokens batch = m.owed := hf.owed
    rw [← howed, Nat.add_mul] at hroom
    rw [hshape.heads, hallocator]
    have htokens : (batch.map fun b => b.2.2).sum = tokens batch := rfl
    rw [htokens] at hslots
    omega
  · have hnew : m₂.rowless = m.requests.sumBy fun x _ => if s'.seqRows.contains x then 0 else 1 := by
      rw [rowless, hallocator]
      exact hf.keys fun x => if s'.seqRows.contains x then 0 else 1
    have hold : m₂.rowless + (m.requests.sumBy fun x _ =>
        if x ∈ batch.map fst then (if m.allocator.seqRows.contains x then 0 else 1) else 0) =
        m.rowless := by
      rw [hnew, ← sumBy_add, rowless]
      refine sumBy_congr fun x r _ => ?_
      by_cases hx : x ∈ batch.map fst
      · rw [ha.known x hx, if_pos rfl, if_pos hx, Nat.zero_add]
      · rw [if_neg hx, Nat.add_zero, Dict.contains, (ha.others x hx).1]
        rfl
    have hcount := countP_le_rowless hg
    have hrows := ha.rows
    have := hk.rows
    rw [hallocator]
    omega
  · by_cases hx : x ∈ batch.map fst
    · obtain ⟨b, hb, rfl⟩ := mem_map.mp hx
      obtain ⟨r, hr, -, hn⟩ := hg.2 b hb
      have hrequest := (hf.forwarded b hb).request r hr
      have hchain : m₂.chains.get? b.1 = (m.chains.get? b.1).map (endPromise r b.2.2) :=
        (hf.forwarded b hb).chain r hr
      have hrow : m₂.allocator.seqRows.contains b.1 = true := hallocator ▸ ha.known b.1 hx
      have hlonger : ∀ l h, m₂.allocator.headLength b.1 l h =
          m.allocator.headLength b.1 l h + b.2.2 := fun l h => by
        rw [hallocator, ha.longer b.1 hx, ← tokensOf_mem hg.1 b hb]
      have hseq := hk.seqs b.1
      refine ⟨fun r' hr' => ?_, fun hc r' hr' => ?_, fun hc => ?_, fun p' hp' hidle => ?_,
        fun _ _ _ => ⟨_, hrequest⟩, fun _ => .inl ⟨_, hrequest⟩⟩
      · obtain rfl := Option.some.inj (hrequest.symm.trans hr')
        exact (hseq.request r hr).advance hn hshape hrow hlonger
      · obtain rfl := Option.some.inj (hrequest.symm.trans hr')
        obtain ⟨p, hp, ho⟩ := hseq.owes (hf.chained ▸ hc) r hr
        exact ⟨endPromise r b.2.2 p, by rw [hchain, hp]; rfl, ho.advance hshape hrow hlonger⟩
      · rw [hchain, hseq.plain (hf.chained ▸ hc)]
        rfl
      · rw [hchain] at hp'
        obtain ⟨p, hp, rfl⟩ := Option.map_eq_some_iff.mp hp'
        rw [endPromise_active] at hidle
        have := (hseq.idle p hp hidle).1
        rw [hr] at this
        cases this
    · refine (hk.seqs x).frame hshape hf.chained ⟨hf.requests x hx, hf.chains x hx, ?_, ?_⟩
      · rw [hallocator, Dict.contains, (ha.others x hx).1]
        rfl
      · rw [hallocator]
        exact (ha.others x hx).2

theorem Kept.owed_le_pending (hk : Kept m)
    (hbegun : m.chained = false → ∀ sid r, m.requests.get? sid = some r → 0 < r.done)
    (hl : l < m.allocator.layers) : m.owed * m.allocator.heads ≤ m.windowSlots + m.pending l := by
  have hroom := hk.room l hl
  rw [pending, outstanding]
  cases hc : m.chained with
  | true =>
    have := outstanding_add_windowSlots hk.seqs hc hl
    rw [if_pos rfl]
    omega
  | false =>
    have := reservedPrefill_add_windowSlots hc (hbegun hc)
    rw [prefillBudget, if_neg (by simp)]
    omega

theorem Kept.grant (hk : Kept m) (hr : m.requests.get? sid = some r) (hremaining : r.remaining = 0)
    (hwindow : r.window = 0) {tokens : Nat}
    (htokens : tokens + (r.done - r.numPromptTokens + 1) ≤ r.maxTokens)
    (hbegun : m.chained = false → ∀ sid r, m.requests.get? sid = some r → 0 < r.done)
    (hfits : ∀ l < m.allocator.layers, tokens * m.allocator.heads + m.windowSlots + m.pending l ≤
      m.allocator.freeCounts l) :
    Kept { m with requests := m.requests.set sid { r with window := tokens } } := by
  have hseq := hk.seqs sid
  have hok := hseq.request r hr
  refine ⟨hk.inv, fun l hl => ?_, ?_, fun x => ?_⟩
  · have hsum := Dict.sumBy_set_old (fun _ r => remaining r + r.window)
      { r with window := tokens } hr
    have hle := hk.owed_le_pending hbegun hl
    have hfit := hfits l hl
    have howed : (m.requests.set sid { r with window := tokens }).sumBy
        (fun _ r => remaining r + r.window) = m.owed + tokens := by
      simp only [remaining, owed] at hsum hremaining ⊢
      omega
    change sumBy _ _ * m.allocator.heads ≤ m.allocator.freeCounts l
    rw [howed, Nat.add_mul]
    omega
  · have hsum := Dict.sumBy_set_old (fun x (_ : HeadRequest) =>
      if m.allocator.seqRows.contains x then 0 else 1) { r with window := tokens } hr
    exact (Nat.add_right_cancel hsum).trans_le hk.rows
  · by_cases hx : x = sid
    · subst hx
      refine ⟨fun r' hr' => ?_, fun hc r' hr' => ?_, hseq.plain, fun p hp ha => ?_,
        fun _ _ _ => ⟨_, Dict.get?_set_self _ _ _⟩, fun _ => .inl ⟨_, Dict.get?_set_self _ _ _⟩⟩
      · obtain rfl := Option.some.inj ((Dict.get?_set_self _ _ _).symm.trans hr')
        refine { hok with fits := ?_ }
        have hlimit := hok.limit
        simp only [remaining] at hremaining ⊢
        omega
      · obtain rfl := Option.some.inj ((Dict.get?_set_self _ _ _).symm.trans hr')
        obtain ⟨p, hp, ho⟩ := hseq.owes hc r hr
        exact ⟨p, hp, ho.active, ho.settled, ho.running, ho.row, ho.blank⟩
      · have := (hseq.idle p hp ha).1
        rw [hr] at this
        cases this
    · exact SeqOk.frame (m := m) (.refl _) rfl
        ⟨get?_set_ne _ _ hx, rfl, rfl, fun _ _ => rfl⟩ (hk.seqs x)

theorem Kept.compact (hk : Kept m) (hr : m.requests.get? sid = some r) (hremaining : r.remaining = 0)
    {selections : List (List (Option (List Int)))} {released : List Nat} {s : HeadSlotAllocator}
    (hrun : HeadSlotAllocator.compact sid selections m.allocator = (.ok released, s)) :
    Kept { m with allocator := s } := by
  obtain ⟨hi, hshape, hrows, hfree, -, hshorter, hothers⟩ := compact_residency hk.inv hrun
  obtain ⟨-, hcounts⟩ := compact_free hrun
  have hcontains : ∀ x, s.seqRows.contains x = m.allocator.seqRows.contains x := fun x => by rw [hrows]
  have hseq := hk.seqs sid
  refine ⟨hi, fun l hl => ?_, ?_, fun x => ?_⟩
  · change m.owed * s.heads ≤ s.freeCounts l
    rw [hshape.heads]
    exact le_trans (hk.room l (hshape.layers ▸ hl)) (hcounts l)
  · have hrowless : rowless { m with allocator := s } = m.rowless := by
      simp only [rowless, hcontains]
    rw [hrowless]
    exact hfree ▸ hk.rows
  · by_cases hx : x = sid
    · subst hx
      refine ⟨fun r' hr' => ?_, fun hc r' hr' => ?_, hseq.plain, fun p hp ha => ?_, hseq.active,
        fun h => hseq.owned ((hcontains x).symm.trans h)⟩
      · have hok := hseq.request r' hr'
        exact ⟨hok.prompt, hshape.width ▸ hok.limit, hshape.width ▸ hok.fits,
          fun l hl h hh => le_trans (hshorter l (hshape.layers ▸ hl) h (hshape.heads ▸ hh))
            (hok.held l (hshape.layers ▸ hl) h (hshape.heads ▸ hh)),
          fun hd => (hcontains x).trans (hok.row hd)⟩
      · obtain ⟨p, hp, ho⟩ := hseq.owes hc r' hr'
        obtain rfl := Option.some.inj (hr.symm.trans hr')
        exact ⟨p, hp, ho.active, ho.settled, fun hpos => absurd hremaining hpos.ne',
          fun hno => ho.row ((hcontains x).symm.trans hno),
          fun hno => ho.blank ((hcontains x).symm.trans hno)⟩
      · have := (hseq.idle p hp ha).1
        rw [hr] at this
        cases this
    · exact SeqOk.frame (m := m) hshape rfl ⟨rfl, rfl, hcontains x, hothers x hx⟩ (hk.seqs x)

theorem Kept.finish (hk : Kept m) (hr : m.requests.get? sid = some r)
    (hp : m.chains.get? sid = some p) (hdone : 0 < r.done) :
    Kept { m with
      requests := m.requests.erase sid
      chains := m.chains.set sid ⟨false, r.done,
        (List.range m.allocator.layers).map (m.allocator.residency sid), 1, [], 0⟩ } := by
  have hseq := hk.seqs sid
  have hok := hseq.request r hr
  have hne : ∀ x r', (m.requests.erase sid).get? x = some r' → m.requests.get? x = some r' := by
    intro x r' h
    rw [get?_erase] at h
    split at h
    · cases h
    · exact h
  refine ⟨hk.inv, fun l hl => ?_, ?_, fun x => ?_⟩
  · exact le_trans (Nat.mul_le_mul_right _ (owed_le hne)) (hk.room l hl)
  · exact le_trans (rowless_le fun x r' h => ⟨hne x r' h, rfl⟩) hk.rows
  · by_cases hx : x = sid
    · subst hx
      have hgone : (m.requests.erase x).get? x = none := get?_erase_self _ _
      refine ⟨fun r' hr' => absurd (hgone.symm.trans hr') (by simp),
        fun _ r' hr' => absurd (hgone.symm.trans hr') (by simp), fun hc => ?_,
        fun p' hp' _ => ⟨hgone, ?_⟩, fun p' hp' ha => ?_,
        fun _ => .inr ⟨_, Dict.get?_set_self _ _ _⟩⟩
      · rw [hseq.plain hc] at hp
        cases hp
      · obtain rfl := Option.some.inj ((Dict.get?_set_self _ _ _).symm.trans hp')
        refine ⟨hok.row hdone, rfl, fun l hl => ?_, hok.held, hdone⟩
        simp only [List.getD_eq_getElem?_getD, List.getElem?_map, List.getElem?_range hl,
          Option.map_some, Option.getD_some]
      · obtain rfl := Option.some.inj ((Dict.get?_set_self _ _ _).symm.trans hp')
        cases ha
    · exact SeqOk.frame (m := m) (.refl _) rfl
        ⟨get?_erase_ne _ hx, get?_set_ne _ _ hx, rfl, fun _ _ => rfl⟩ (hk.seqs x)

theorem Kept.step (hk : Kept m) (h : Step m m') : Kept m' := by
  cases h with
  | created hc hr hp hprompt hlimit hcandidates hv =>
    exact hk.created hc hr hp hprompt hlimit hcandidates hv
  | resumed hc hp ha hprompt hlimit hcandidates hv =>
    exact hk.resumed hc hp ha hprompt hlimit hcandidates hv
  | prompts hc hnd hnews hbegun hbudget hsize =>
    exact hk.admitPrompts hc hnd hnews hbegun hbudget hsize
  | append hg happend => exact hk.append hg happend
  | grant hr hremaining hwindow htokens hbegun hfits =>
    exact hk.grant hr hremaining hwindow htokens hbegun hfits
  | compact hr hremaining hrun => exact hk.compact hr hremaining hrun
  | finish hr hp hremaining hdone => exact hk.finish hr hp hdone
  | evict sid => exact hk.evict sid

theorem Reachable.kept (h : Reachable m) : Kept m := by
  induction h with
  | create maxNumBatchedTokens chained hs =>
    refine ⟨(inv_create hs).1, fun l _ => ?_, Nat.zero_le _, fun sid => .gone rfl rfl ?_⟩
    · change 0 * _ ≤ _
      rw [Nat.zero_mul]
      exact Nat.zero_le _
    · unfold HeadSlotAllocator.create at hs
      split at hs
      · cases hs
      · cases hs
        rfl
  | step _ hstep ih => exact ih.step hstep

/-- The free slots cover the promises and the windows, and granted batches find them. -/
theorem head_slot_promises (h : Reachable m) :
    (∀ l < m.allocator.layers, m.outstanding [] l + m.reservedPrefillSlots * m.allocator.heads +
      m.windowSlots ≤ m.allocator.freeCounts l) ∧
    ∀ batch, m.GrantedBatch batch → m.checkRequests batch = .ok () ∧ m.checkBatch batch = .ok () ∧
      ∀ message, m.allocator.planAppend (requestsOf batch) ≠ .error (.runtimeError message) := by
  have hk := h.kept
  refine ⟨fun l hl => ?_, fun batch hg =>
    ⟨hk.checkRequests hg.2, hk.checkBatch hg, hk.planAppend hg⟩⟩
  have hroom := hk.room l hl
  rw [outstanding, reservedPrefillSlots]
  cases hc : m.chained with
  | true =>
    have := outstanding_add_windowSlots hk.seqs hc hl
    rw [if_pos rfl, if_pos rfl]
    omega
  | false =>
    rw [if_neg (by simp), if_neg (by simp), Nat.zero_add, windowSlots, ← Nat.add_mul, ← sumBy_add]
    refine le_trans (Nat.mul_le_mul_right _ (sumBy_mono fun sid r hr => ⟨r, hr, ?_⟩)) hroom
    split
    · exact le_rfl
    · exact Nat.add_le_add_right (Nat.zero_le _) _

def admitted : HeadSlotCacheManager :=
  applyAdmission ⟨.fresh [8, 6] 2 6 2, 8, true, .empty, .empty⟩ [] 7 ⟨2, 3, 0, 0⟩
    (reserving ⟨.fresh [8, 6] 2 6 2, 8, true, .empty, .empty⟩ ⟨true, 0, [], 1, [], 0⟩ 2 1)

theorem admitted_reachable : Reachable admitted :=
  .step (@Reachable.create [8, 6] 2 6 2 _ 8 true rfl)
    (@Step.created _ 7 2 3 [] [] rfl rfl rfl (by decide) (by decide) ⟨nodup_nil, by simp⟩ rfl)

/-- The prompt is compacted to one position for each head, the chain is resumed with one more token
and gets a decode window. -/
theorem resumed_reachable : ∃ m, Reachable m ∧ m.windowSlots = 2 ∧ m.allocator.layers = 2 ∧
    m.GrantedBatch [(7, 3, 1)] := by
  have one : ∀ {m : HeadSlotCacheManager} {done n : Nat} {r : HeadRequest},
      m.requests.get? 7 = some r → done = r.done → r.Granted n → m.GrantedBatch [(7, done, n)] :=
    fun hr hdone hg => ⟨List.nodup_singleton _, fun b hb => by
      rw [List.mem_singleton.mp hb]
      exact ⟨_, hr, hdone, hg⟩⟩
  have prefilled := admitted_reachable.step (@Step.append _ _ [(7, 0, 2)]
    (one rfl rfl ⟨by decide, .inl (by decide)⟩) rfl)
  have compacted := prefilled.step (@Step.compact _ 7 _ _
    [[some [1], some [0]], [some [1], some [0]]] _ rfl rfl rfl)
  have finished := compacted.step (@Step.finish _ 7 _ _ rfl rfl rfl (by decide))
  have resumed := finished.step (@Step.resumed _ 7 3 2 [] [] _ rfl rfl rfl (by decide) (by decide)
    ⟨nodup_nil, by simp⟩ rfl)
  have continued := resumed.step (@Step.append _ _ [(7, 2, 1)]
    (one rfl rfl ⟨by decide, .inl (by decide)⟩) rfl)
  have granted := continued.step (@Step.grant _ 7 _ 1 rfl rfl rfl (by decide) nofun (by decide))
  exact ⟨_, granted, rfl, rfl, one rfl rfl ⟨by decide, .inr ⟨rfl, rfl, by decide⟩⟩⟩

theorem head_slot_promises_resumed : ∃ m, Reachable m ∧
    m.outstanding [] 1 + m.reservedPrefillSlots * m.allocator.heads + 2 ≤ m.allocator.freeCounts 1 ∧
    m.checkRequests [(7, 3, 1)] = .ok () ∧ m.checkBatch [(7, 3, 1)] = .ok () ∧
    ∀ message, m.allocator.planAppend (requestsOf [(7, 3, 1)]) ≠
      .error (.runtimeError message) := by
  obtain ⟨m, reachable, window, layers, granted⟩ := resumed_reachable
  obtain ⟨free, batches⟩ := head_slot_promises reachable
  exact ⟨m, reachable, window ▸ free 1 (by omega), batches _ granted⟩

end SparseEngine.HeadSlotCacheManager
