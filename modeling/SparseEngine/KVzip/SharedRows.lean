import SparseEngine.KVzip.Lifecycle

/-! `KVzipCacheManager` keeps one row of slots for each sequence and layer. -/

namespace SparseEngine.KVzip

open PyM List Function Dict

/-- The rows of a layer. -/
structure LayerRows where
  free : List Nat
  seqIdToRow : Dict Int Nat
  freeRows : List Nat
  rowSlots : Nat → List Nat

/-- The layers of a `KVzipCacheManager`, by index. -/
abbrev SharedRows := Nat → LayerRows

namespace LayerRows

def slotsOf (r : LayerRows) (sid : Int) : List Nat :=
  match r.seqIdToRow.get? sid with
  | none => []
  | some row => r.rowSlots row

def getFreeRow (sid : Int) : PyM LayerRows Nat := do
  let r ← get
  match r.seqIdToRow.get? sid with
  | some row => return row
  | none =>
    match r.freeRows with
    | [] => raise (.runtimeError "No free rows in cache manager buffer!")
    | row :: freeRows => do
      modify fun r => { r with freeRows := freeRows, seqIdToRow := r.seqIdToRow.set sid row }
      return row

def allocate (limit : Nat) (sid : Int) (size : Nat) : PyM LayerRows Unit := do
  let r ← get
  raiseIf (r.free.length < size)
    (.runtimeError s!"Out of KV cache slots: need {size}, free {r.free.length}")
  let slots := r.slotsOf sid
  raiseIf (limit < slots.length + size) (.runtimeError ("KV row length exceeds max_model_len in " ++
    s!"_allocate: cur_len={slots.length} size={size} max_model_len={limit}"))
  let row ← getFreeRow sid
  modify fun r' => { r' with
    free := r.free.take (r.free.length - size)
    rowSlots := fun x => if x = row then slots ++ r.free.drop (r.free.length - size)
      else r'.rowSlots x }

def appendEach : List (Int × Nat) → PyM LayerRows Unit
  | [] => pure ()
  | (sid, slot) :: rest => do
    let slots := (← get).slotsOf sid
    let row ← getFreeRow sid
    modify fun r => { r with rowSlots := fun x => if x = row then slots ++ [slot] else r.rowSlots x }
    appendEach rest

def allocateBatch (limit : Nat) (seqIds : List Int) : PyM LayerRows Unit := do
  let r ← get
  raiseIf (r.free.length < seqIds.length) (.runtimeError
    s!"Out of KV cache slots: need {seqIds.length}, free {r.free.length}")
  raiseIf (seqIds.any fun sid => decide (limit < (r.slotsOf sid).length + 1))
    (.runtimeError "KV row length exceeds max_model_len in _allocate_batch.")
  modify fun r' => { r' with free := r.free.take (r.free.length - seqIds.length) }
  appendEach (seqIds.zip (r.free.drop (r.free.length - seqIds.length)))

/-- The body of `_release_reconstruction_suffix`. -/
def releaseSuffix (sid : Int) (length : Nat) : PyM LayerRows Unit := do
  let r ← get
  match r.seqIdToRow.get? sid with
  | none => raise (.runtimeError "KVzip reconstruction lost its original cache row.")
  | some row => do
    raiseIf ((r.rowSlots row).length < length)
      (.runtimeError "KVzip reconstruction lost its original cache row.")
    modify fun r => { r with
      free := r.free ++ (r.rowSlots row).drop length
      rowSlots := fun x => if x = row then (r.rowSlots row).take length else r.rowSlots x }

def freePartSlots (sid : Int) (keep : List Nat) : PyM LayerRows Unit := do
  let r ← get
  match r.seqIdToRow.get? sid with
  | none => raise (.valueError "")
  | some row => do
    let slots := r.rowSlots row
    raiseIf (keep = []) (.runtimeError "free_part_slots got empty keep_indices")
    raiseIf (keep.any fun i => decide (slots.length ≤ i)) (.indexError "index is out of bounds")
    modify fun r => { r with
      free := r.free ++ (slots.zipIdx.filter fun p => !decide (p.2 ∈ keep)).map Prod.fst
      rowSlots := fun x => if x = row then keep.map fun i => slots.getD i 0 else r.rowSlots x }

def freeSeq (sid : Int) : PyM LayerRows Unit := do
  let r ← get
  match r.seqIdToRow.get? sid with
  | none => return ()
  | some row =>
    modify fun r => { r with
      free := r.free ++ r.rowSlots row
      seqIdToRow := r.seqIdToRow.erase sid
      rowSlots := fun x => if x = row then [] else r.rowSlots x
      freeRows := r.freeRows ++ [row] }

structure RowsOk (r : LayerRows) : Prop where
  unique : ∀ sid sid' row, r.seqIdToRow.get? sid = some row → r.seqIdToRow.get? sid' = some row →
    sid = sid'
  nodup : r.freeRows.Nodup
  owned : ∀ sid row, r.seqIdToRow.get? sid = some row → row ∉ r.freeRows

variable {r r' : LayerRows} {sid : Int} {size limit row length : Nat}

/-- Only the row of `sid` changes. -/
structure OthersKept (sid : Int) (r r' : LayerRows) : Prop where
  ok : RowsOk r'
  kept : ∀ x ≠ sid, r'.slotsOf x = r.slotsOf x

theorem slotsOf_row (h : r.seqIdToRow.get? sid = some row) : r.slotsOf sid = r.rowSlots row := by
  simp only [slotsOf, h]

theorem OthersKept.write (h : RowsOk r) (hrow : r.seqIdToRow.get? sid = some row) (slots : List Nat)
    (free : List Nat) : OthersKept sid r
      { r with free := free, rowSlots := fun x => if x = row then slots else r.rowSlots x } where
  ok := ⟨h.unique, h.nodup, h.owned⟩
  kept := fun x hx => by
    simp only [slotsOf]
    cases hget : r.seqIdToRow.get? x with
    | none => rfl
    | some row' =>
      have hne : row' ≠ row := by
        rintro rfl
        exact hx (h.unique _ _ _ hget hrow)
      simp only [if_neg hne]

theorem getFreeRow_ok (h : RowsOk r) (hrun : getFreeRow sid r = (.ok row, r')) :
    RowsOk r' ∧ r'.seqIdToRow.get? sid = some row ∧ r'.free = r.free ∧ r'.rowSlots = r.rowSlots ∧
      ∀ x ≠ sid, r'.slotsOf x = r.slotsOf x := by
  cases hget : r.seqIdToRow.get? sid with
  | some row' =>
    simp only [getFreeRow, bind_run, get_run, hget, pure_run, Prod.mk.injEq, Except.ok.injEq] at hrun
    obtain ⟨rfl, rfl⟩ := hrun
    exact ⟨h, hget, rfl, rfl, fun _ _ => rfl⟩
  | none =>
    cases hfree : r.freeRows with
    | nil => simp [getFreeRow, bind_run, get_run, hget, hfree, raise_run] at hrun
    | cons row' freeRows =>
      simp only [getFreeRow, bind_run, get_run, hget, hfree, modify_run, pure_run, Prod.mk.injEq,
        Except.ok.injEq] at hrun
      obtain ⟨rfl, rfl⟩ := hrun
      have hnd := h.nodup
      rw [hfree, nodup_cons] at hnd
      have hnew : ∀ x row, r.seqIdToRow.get? x = some row → row ≠ row' ∧ row ∉ freeRows :=
        fun x row hx => by
          have := h.owned x row hx
          rw [hfree, mem_cons, not_or] at this
          exact this
      refine ⟨⟨fun x y row hx hy => ?_, hnd.2, fun x row hx => ?_⟩, get?_set_self _ _ _, rfl, rfl,
        fun x hx => ?_⟩
      · rw [get?_set] at hx hy
        split at hx <;> split at hy
        · simp_all
        · exact absurd (Option.some.inj hx).symm (hnew y row hy).1
        · exact absurd (Option.some.inj hy).symm (hnew x row hx).1
        · exact h.unique x y row hx hy
      · rw [get?_set] at hx
        split at hx
        · obtain rfl := Option.some.inj hx
          exact hnd.1
        · exact (hnew x row hx).2
      · simp only [slotsOf, get?_set_ne _ _ hx]

theorem allocate_ok (h : RowsOk r) (hrun : allocate limit sid size r = (.ok (), r')) :
    OthersKept sid r r' ∧ size ≤ r.free.length ∧ r'.free = r.free.take (r.free.length - size) ∧
      r'.slotsOf sid = r.slotsOf sid ++ r.free.drop (r.free.length - size) := by
  simp only [allocate, get_bind_run, raiseIf_bind_run] at hrun
  split at hrun
  · cases hrun
  · next hfree =>
    split at hrun
    · cases hrun
    · rw [bind_run] at hrun
      cases hrow : getFreeRow sid r with
      | mk res r₁ =>
        cases res with
        | error e => simp only [hrow, Prod.mk.injEq, reduceCtorEq, false_and] at hrun
        | ok row =>
          obtain ⟨hok, hget, hfree₁, hslots₁, hkept₁⟩ := getFreeRow_ok h hrow
          simp only [hrow, modify_run, Prod.mk.injEq, true_and] at hrun
          subst hrun
          have hwrite := OthersKept.write hok hget (r.slotsOf sid ++ r.free.drop (r.free.length - size))
            (r.free.take (r.free.length - size))
          refine ⟨⟨hwrite.ok, fun x hx => (hwrite.kept x hx).trans (hkept₁ x hx)⟩, not_lt.mp hfree, rfl, ?_⟩
          rw [slotsOf, hget]
          exact if_pos rfl

theorem allocate_error {e : PyError} (hrun : allocate limit sid size r = (.error e, r')) : r' = r := by
  simp only [allocate, get_bind_run, raiseIf_bind_run] at hrun
  split at hrun
  · exact (Prod.mk.inj hrun).2.symm
  · split at hrun
    · exact (Prod.mk.inj hrun).2.symm
    · cases hget : r.seqIdToRow.get? sid with
      | some row =>
        simp only [getFreeRow, bind_run, get_run, hget, pure_run, modify_run, Prod.mk.injEq,
          reduceCtorEq, false_and] at hrun
      | none =>
        cases hfree : r.freeRows with
        | nil =>
          simp only [getFreeRow, bind_run, get_run, hget, hfree, raise_run, Prod.mk.injEq] at hrun
          exact hrun.2.symm
        | cons row freeRows =>
          simp only [getFreeRow, bind_run, get_run, hget, hfree, pure_run, modify_run, Prod.mk.injEq,
            reduceCtorEq, false_and] at hrun

/-- What a known row looks like with `size` more slots from the stack. -/
def appended (r : LayerRows) (row size : Nat) : LayerRows :=
  { r with
    free := r.free.take (r.free.length - size)
    rowSlots := fun x => if x = row then r.rowSlots row ++ r.free.drop (r.free.length - size)
      else r.rowSlots x }

theorem allocate_known (hget : r.seqIdToRow.get? sid = some row)
    (hrun : allocate limit sid size r = (.ok (), r')) : r' = r.appended row size := by
  simp only [allocate, get_bind_run, raiseIf_bind_run] at hrun
  split at hrun
  · cases hrun
  · split at hrun
    · cases hrun
    · simp only [getFreeRow, bind_run, get_run, hget, pure_run, modify_run, Prod.mk.injEq, true_and,
        slotsOf_row hget] at hrun
      exact hrun.symm

theorem releaseSuffix_appended (hget : r.seqIdToRow.get? sid = some row)
    (hlength : (r.rowSlots row).length = length) :
    releaseSuffix sid length (r.appended row size) = (.ok (), r) := by
  have hrow : (r.appended row size).rowSlots row =
      r.rowSlots row ++ r.free.drop (r.free.length - size) := if_pos rfl
  have hlen : ¬ ((r.appended row size).rowSlots row).length < length := by
    rw [hrow, length_append]
    omega
  have hget' : (r.appended row size).seqIdToRow.get? sid = some row := hget
  simp only [releaseSuffix, get_bind_run, hget', raiseIf_bind_run, if_neg hlen, modify_run]
  have hrows : (fun x => if x = row then
      (r.rowSlots row ++ r.free.drop (r.free.length - size)).take length
      else (r.appended row size).rowSlots x) = r.rowSlots := by
    funext x
    split
    · next hx =>
      subst hx
      rw [take_append_of_le_length hlength.ge, take_of_length_le hlength.le]
    · next hx => exact if_neg hx
  have hfree : (r.appended row size).free ++
      (r.rowSlots row ++ r.free.drop (r.free.length - size)).drop length = r.free := by
    rw [drop_append_of_le_length hlength.ge, drop_of_length_le hlength.le, nil_append]
    exact take_append_drop _ _
  rw [hrow, hrows, hfree]
  rfl

theorem releaseSuffix_same (hget : r.seqIdToRow.get? sid = some row)
    (hlength : (r.rowSlots row).length = length) : releaseSuffix sid length r = (.ok (), r) := by
  have h := @releaseSuffix_appended _ _ 0 _ _ hget hlength
  have hsame : r.appended row 0 = r := by
    have hrows : (fun x => if x = row then r.rowSlots row ++ r.free.drop (r.free.length - 0)
        else r.rowSlots x) = r.rowSlots := by
      funext x
      split
      · next hx => rw [hx, Nat.sub_zero, drop_length, append_nil]
      · rfl
    rw [appended, hrows, Nat.sub_zero, take_length]
  rwa [hsame] at h

theorem freePartSlots_ok {keep : List Nat} (h : RowsOk r)
    (hrun : freePartSlots sid keep r = (.ok (), r')) :
    OthersKept sid r r' ∧ r.free.length ≤ r'.free.length := by
  cases hget : r.seqIdToRow.get? sid with
  | none => simp [freePartSlots, bind_run, get_run, hget, raise_run] at hrun
  | some row =>
    simp only [freePartSlots, get_bind_run, raiseIf_bind_run, hget] at hrun
    split at hrun
    · cases hrun
    · split at hrun
      · cases hrun
      · simp only [modify_run, Prod.mk.injEq, true_and] at hrun
        subst hrun
        exact ⟨OthersKept.write h hget _ _, by simp⟩

theorem freeSeq_ok (h : RowsOk r) (hrun : freeSeq sid r = (.ok (), r')) :
    OthersKept sid r r' ∧ r'.slotsOf sid = [] := by
  cases hget : r.seqIdToRow.get? sid with
  | none =>
    simp only [freeSeq, bind_run, get_run, hget, pure_run, Prod.mk.injEq, true_and] at hrun
    subst hrun
    exact ⟨⟨h, fun _ _ => rfl⟩, by simp only [slotsOf, hget]⟩
  | some row =>
    simp only [freeSeq, bind_run, get_run, hget, modify_run, Prod.mk.injEq, true_and] at hrun
    subst hrun
    have hold : ∀ x row', (r.seqIdToRow.erase sid).get? x = some row' →
        x ≠ sid ∧ r.seqIdToRow.get? x = some row' ∧ row' ≠ row := by
      intro x row' hx
      rw [get?_erase] at hx
      split at hx
      · cases hx
      · next hxs => exact ⟨hxs, hx, by rintro rfl; exact hxs (h.unique _ _ _ hx hget)⟩
    refine ⟨⟨⟨fun x y row' hx hy => h.unique x y row' (hold x row' hx).2.1 (hold y row' hy).2.1, ?_,
      fun x row' hx => ?_⟩, fun x hx => ?_⟩, by simp [slotsOf]⟩
    · rw [nodup_append]
      refine ⟨h.nodup, nodup_singleton _, fun a ha b hb => ?_⟩
      obtain rfl := mem_singleton.mp hb
      rintro rfl
      exact h.owned sid a hget ha
    · obtain ⟨-, hx', hne⟩ := hold x row' hx
      rw [mem_append, mem_singleton, not_or]
      exact ⟨h.owned x row' hx', hne⟩
    · simp only [slotsOf]
      rw [get?_erase_ne _ hx]
      cases hget' : r.seqIdToRow.get? x with
      | none => rfl
      | some row' =>
        have hne : row' ≠ row := by
          rintro rfl
          exact hx (h.unique _ _ _ hget' hget)
        exact if_neg hne

theorem appendEach_ok {batch : List (Int × Nat)} (h : RowsOk r)
    (hrun : appendEach batch r = (.ok (), r')) :
    RowsOk r' ∧ ∀ x ∉ batch.map Prod.fst, r'.slotsOf x = r.slotsOf x := by
  induction batch generalizing r with
  | nil =>
    simp only [appendEach, pure_run, Prod.mk.injEq, true_and] at hrun
    subst hrun
    exact ⟨h, fun _ _ => rfl⟩
  | cons b batch ih =>
    obtain ⟨sid, slot⟩ := b
    simp only [appendEach, bind_run, get_run] at hrun
    cases hrow : getFreeRow sid r with
    | mk res r₁ =>
      cases res with
      | error e => simp only [hrow, Prod.mk.injEq, reduceCtorEq, false_and] at hrun
      | ok row =>
        obtain ⟨hok, hget, -, -, hkept⟩ := getFreeRow_ok h hrow
        simp only [hrow, modify_run] at hrun
        have hwrite := OthersKept.write hok hget (r.slotsOf sid ++ [slot]) r₁.free
        obtain ⟨hok', hkept'⟩ := ih hwrite.ok hrun
        refine ⟨hok', fun x hx => ?_⟩
        rw [map_cons, mem_cons, not_or] at hx
        exact (hkept' x hx.2).trans ((hwrite.kept x hx.1).trans (hkept x hx.1))

theorem allocateBatch_ok {seqIds : List Int} (h : RowsOk r)
    (hrun : allocateBatch limit seqIds r = (.ok (), r')) :
    RowsOk r' ∧ ∀ x ∉ seqIds, r'.slotsOf x = r.slotsOf x := by
  simp only [allocateBatch, get_bind_run, raiseIf_bind_run] at hrun
  split at hrun
  · cases hrun
  · split at hrun
    · cases hrun
    · simp only [bind_run, modify_run] at hrun
      have hok : RowsOk { r with free := r.free.take (r.free.length - seqIds.length) } :=
        ⟨h.unique, h.nodup, h.owned⟩
      obtain ⟨hok', hkept⟩ := appendEach_ok hok hrun
      refine ⟨hok', fun x hx => hkept x fun hmem => hx ?_⟩
      obtain ⟨b, hb, rfl⟩ := mem_map.mp hmem
      exact (of_mem_zip hb).1

end LayerRows

namespace SharedRows

open LayerRows

def fresh (slots rows : Nat) : SharedRows := fun _ => ⟨range slots, .empty, range rows, fun _ => []⟩

def onLayer (l : Nat) (m : PyM LayerRows Unit) : PyM SharedRows Unit :=
  PyM.zoom (fun s => s l) (fun r s => update s l r) m

def onLayers (layers : Nat) (f : Nat → PyM LayerRows Unit) : PyM SharedRows Unit :=
  forEach (fun l => onLayer l (f l)) (range layers)

/-- The allocations of `_prepare_prefill`. -/
def prefill (layers limit : Nat) (batch : List (Int × Nat × Nat)) : PyM SharedRows Unit :=
  forEach (fun b => onLayers layers fun _ => allocate limit b.1 b.2.2) batch

/-- The allocations of `_prepare_decode`. -/
def decode (layers limit : Nat) (batch : List (Int × Nat)) : PyM SharedRows Unit :=
  onLayers layers fun _ => allocateBatch limit (batch.map Prod.fst)

/-- The auxiliary forward inside `reconstruction_chunk`. -/
def forward (layers limit : Nat) (sid : Int) (size : Nat) (o : ForwardOutcome) :
    PyM SharedRows Unit := do
  onLayers layers fun l => if o.appends l then allocate limit sid size else pure ()
  o.finish layers

/-- `_release_reconstruction_suffix`. -/
def releaseSuffix (layers : Nat) (sid : Int) (length : Nat) : PyM SharedRows Unit :=
  onLayers layers fun _ => LayerRows.releaseSuffix sid length

/-- `compact_reconstruction`. -/
def compactReconstruction (layers : Nat) (sid : Int) (keep : Nat → List Nat) : PyM SharedRows Unit :=
  onLayers layers fun l => freePartSlots sid (keep l)

def freeSeq (layers : Nat) (sid : Int) : PyM SharedRows Unit :=
  onLayers layers fun _ => LayerRows.freeSeq sid

/-- `num_free_slots` of the base class. -/
def baseFreeSlots (layers : Nat) (s : SharedRows) : Nat :=
  ((range layers).map fun l => (s l).free.length).min?.getD 0

def numFreeSlots (layers reserve : Nat) (s : SharedRows) : Nat :=
  baseFreeSlots layers s - reserve

/-- The storage of a `KVzipCacheManager`. -/
def replayStore (layers limit reserve : Nat) : ReplayStore SharedRows (Nat → List Nat) where
  layers := layers
  slotsPerToken := 1
  freeSlots s l := (s l).free.length
  prefillStepFreeSlots s outstanding := numFreeSlots layers reserve s - outstanding
  decodeWindowBudget s l := (s l).free.length - reserve
  prefill := prefill layers limit
  decode := decode layers limit
  forward sid _ size o := forward layers limit sid size o
  releaseSuffix := releaseSuffix layers
  compact := compactReconstruction layers
  freeSeq := freeSeq layers

variable {s s' : SharedRows} {f : Nat → PyM LayerRows Unit} {layers limit reserve size length : Nat}
  {sid : Int}

theorem onLayer_run {l : Nat} {m : PyM LayerRows Unit} :
    onLayer l m s = ((m (s l)).1, update s l (m (s l)).2) := rfl

theorem forEach_onLayer {ls : List Nat} (hnodup : ls.Nodup) {res : Except PyError Unit}
    (hrun : forEach (fun l => onLayer l (f l)) ls s = (res, s')) :
    (∀ l ∉ ls, s' l = s l) ∧ (∀ l ∈ ls, s' l = s l ∨ s' l = (f l (s l)).2) ∧
      (res = .ok () → ∀ l ∈ ls, f l (s l) = (.ok (), s' l)) ∧
      ((∀ l ∈ ls, (f l (s l)).1 = .ok ()) → res = .ok ()) := by
  induction ls generalizing s with
  | nil =>
    simp only [forEach, pure_run, Prod.mk.injEq] at hrun
    obtain ⟨rfl, rfl⟩ := hrun
    simp
  | cons l ls ih =>
    obtain ⟨hl, hnodup⟩ := nodup_cons.mp hnodup
    rw [forEach, bind_run, onLayer_run] at hrun
    have hother : ∀ x ≠ l, update s l (f l (s l)).2 x = s x := fun x hx =>
      update_of_ne hx _ _
    have hne : ∀ x ∈ ls, x ≠ l := fun x hx he => hl (he ▸ hx)
    cases hres : (f l (s l)).1 with
    | error e =>
      simp only [hres, Prod.mk.injEq] at hrun
      obtain ⟨rfl, rfl⟩ := hrun
      refine ⟨fun x hx => hother x fun he => hx (by simp [he]), fun x hx => ?_, fun h => by simp at h,
        fun h => ?_⟩
      · rcases mem_cons.mp hx with rfl | hx
        · exact Or.inr (update_self _ _ _)
        · exact Or.inl (hother x (hne x hx))
      · have := h l mem_cons_self
        rw [hres] at this
        cases this
    | ok u =>
      simp only [hres] at hrun
      obtain ⟨hout, hin, hok, htotal⟩ := ih hnodup hrun
      have hself : s' l = (f l (s l)).2 := (hout l hl).trans (update_self _ _ _)
      refine ⟨fun x hx => ?_, fun x hx => ?_, fun h x hx => ?_, fun h => ?_⟩
      · rw [mem_cons, not_or] at hx
        exact (hout x hx.2).trans (hother x hx.1)
      · rcases mem_cons.mp hx with rfl | hx
        · exact Or.inr hself
        · rw [← hother x (hne x hx)]
          exact hin x hx
      · rcases mem_cons.mp hx with rfl | hx
        · exact Prod.ext hres hself.symm
        · rw [← hother x (hne x hx)]
          exact hok h x hx
      · refine htotal fun x hx => ?_
        rw [hother x (hne x hx)]
        exact h x (mem_cons_of_mem l hx)

theorem onLayers_ok (hrun : onLayers layers f s = (.ok (), s')) {l : Nat} (hl : l < layers) :
    f l (s l) = (.ok (), s' l) :=
  (forEach_onLayer nodup_range hrun).2.2.1 rfl l (mem_range.mpr hl)

/-- The rows of a sequence have `n` slots in every layer. -/
def Holds (layers : Nat) (s : SharedRows) (sid : Int) (n : Nat) : Prop :=
  ∀ l < layers, ((s l).slotsOf sid).length = n

def Good (layers : Nat) (s : SharedRows) : Prop := ∀ l < layers, RowsOk (s l)

theorem baseFreeSlots_le {l : Nat} (hl : l < layers) : baseFreeSlots layers s ≤ (s l).free.length := by
  have hmem : (s l).free.length ∈ (range layers).map fun l => (s l).free.length :=
    mem_map.mpr ⟨l, mem_range.mpr hl, rfl⟩
  obtain ⟨a, ha⟩ : ∃ a, ((range layers).map fun l => (s l).free.length).min? = some a :=
    Option.isSome_iff_exists.mp (by rw [isSome_min?_iff]; exact ne_nil_of_mem hmem)
  rw [baseFreeSlots, ha, Option.getD_some]
  exact (min?_eq_some_iff.mp ha).2 _ hmem

theorem prefill_ok {batch : List (Int × Nat × Nat)} (hgood : Good layers s)
    (hrun : prefill layers limit batch s = (.ok (), s')) (hnodup : (batch.map Prod.fst).Nodup) :
    Good layers s' ∧ (∀ b ∈ batch, ∀ n, Holds layers s b.1 n → Holds layers s' b.1 (n + b.2.2)) ∧
      (∀ x ∉ batch.map Prod.fst, ∀ l < layers, (s' l).slotsOf x = (s l).slotsOf x) ∧
      ∀ l < layers, (s' l).free.length + (batch.map fun b => b.2.2).sum = (s l).free.length := by
  induction batch generalizing s with
  | nil =>
    simp only [prefill, forEach, pure_run, Prod.mk.injEq, true_and] at hrun
    subst hrun
    exact ⟨hgood, by simp, fun _ _ _ _ => rfl, by simp⟩
  | cons b batch ih =>
    obtain ⟨hb, hnodup⟩ := nodup_cons.mp hnodup
    rw [prefill, forEach, bind_run] at hrun
    cases hone : onLayers layers (fun _ => allocate limit b.1 b.2.2) s with
    | mk res s₁ =>
      cases res with
      | error e => simp only [hone, Prod.mk.injEq, reduceCtorEq, false_and] at hrun
      | ok u =>
        simp only [hone] at hrun
        have hstep := fun l (hl : l < layers) => allocate_ok (hgood l hl) (onLayers_ok hone hl)
        obtain ⟨hgood', hin, hout, hfree⟩ := ih (fun l hl => (hstep l hl).1.ok) hrun hnodup
        refine ⟨hgood', forall_mem_cons.mpr ⟨fun n hn l hl => ?_, fun c hc n hn => ?_⟩,
          fun x hx l hl => ?_, fun l hl => ?_⟩
        · obtain ⟨-, hle, -, hslots⟩ := hstep l hl
          rw [hout b.1 hb l hl, hslots, length_append, hn l hl, length_drop]
          omega
        · refine hin c hc n fun l hl => ?_
          rw [(hstep l hl).1.kept c.1 fun he => hb (mem_map.mpr ⟨c, hc, he⟩)]
          exact hn l hl
        · rw [map_cons, mem_cons, not_or] at hx
          exact (hout x hx.2 l hl).trans ((hstep l hl).1.kept x hx.1)
        · obtain ⟨-, hle, hfree₁, -⟩ := hstep l hl
          have hrest := hfree l hl
          rw [hfree₁, length_take] at hrest
          rw [map_cons, sum_cons]
          omega

theorem releaseSuffix_restores (o : ForwardOutcome) (hholds : Holds layers s sid length)
    (hlength : 0 < length) : ∃ r s₁, forward layers limit sid size o s = (r, s₁) ∧
      releaseSuffix layers sid length s₁ = (.ok (), s) := by
  cases hrun : onLayers layers (fun l => if o.appends l then allocate limit sid size else pure ()) s with
  | mk res s₁ =>
    have hstate : ∃ r, forward layers limit sid size o s = (r, s₁) := by
      cases res with
      | error e => exact ⟨.error e, bind_error hrun⟩
      | ok u =>
        rw [forward, bind_ok hrun]
        exact ⟨_, Prod.ext rfl (o.finish_state layers s₁)⟩
    obtain ⟨r, hr⟩ := hstate
    refine ⟨r, s₁, hr, ?_⟩
    obtain ⟨hout, hin, -, -⟩ := forEach_onLayer nodup_range hrun
    have hlayer : ∀ l < layers, LayerRows.releaseSuffix sid length (s₁ l) = (.ok (), s l) := by
      intro l hl
      have hlen := hholds l hl
      obtain ⟨row, hrow⟩ : ∃ row, (s l).seqIdToRow.get? sid = some row := by
        cases hget : (s l).seqIdToRow.get? sid with
        | none => simp only [slotsOf, hget, length_nil] at hlen; omega
        | some row => exact ⟨row, rfl⟩
      rw [slotsOf_row hrow] at hlen
      rcases hin l (mem_range.mpr hl) with hsame | hstep
      · rw [hsame]
        exact releaseSuffix_same hrow hlen
      · rw [hstep]
        split
        · cases halloc : allocate limit sid size (s l) with
          | mk res' r' =>
            cases res' with
            | error e =>
              rw [allocate_error halloc]
              exact releaseSuffix_same hrow hlen
            | ok u =>
              rw [allocate_known hrow halloc]
              exact releaseSuffix_appended hrow hlen
        · exact releaseSuffix_same hrow hlen
    cases hrelease : releaseSuffix layers sid length s₁ with
    | mk res' s₂ =>
      obtain ⟨hout', -, hok, htotal⟩ := forEach_onLayer nodup_range hrelease
      obtain rfl := htotal fun l hl => by rw [hlayer l (mem_range.mp hl)]
      have hs : s₂ = s := by
        funext l
        by_cases hl : l ∈ range layers
        · have := hok rfl l hl
          rw [hlayer l (mem_range.mp hl)] at this
          exact (Prod.mk.inj this).2.symm
        · rw [hout' l hl, hout l hl]
      rw [hs]

def laws (layers limit reserve : Nat) : ReplayLaws (replayStore layers limit reserve) reserve where
  Good := Good layers
  Holds := Holds layers
  View := SharedRows
  view s := s
  prefill_spec {s s' batch outstanding} hgood hrun hnodup hsum := by
    obtain ⟨hgood', hin, hout, hfree⟩ := prefill_ok hgood hrun hnodup
    refine ⟨hgood', hin, fun x hx n hn l hl => by rw [hout x hx l hl]; exact hn l hl,
      fun hpos l hl => ?_⟩
    have hmin : baseFreeSlots layers s ≤ (s l).free.length := baseFreeSlots_le hl
    have hall := hfree l hl
    have hsum' : (batch.map fun b => b.2.2).sum ≤ baseFreeSlots layers s - reserve - outstanding := hsum
    change reserve * 1 ≤ (s' l).free.length
    omega
  decode_spec {s s' batch} hgood hrun _ := by
    have hstep := fun l (hl : l < layers) => allocateBatch_ok (hgood l hl) (onLayers_ok hrun hl)
    refine ⟨fun l hl => (hstep l hl).1, fun x hx n hn l hl => ?_⟩
    rw [(hstep l hl).2 x hx]
    exact hn l hl
  replay_restores {s sid length} size o hgood hholds hlength := by
    obtain ⟨r, s₁, hforward, hrelease⟩ := @releaseSuffix_restores s layers limit size length sid o hholds
      hlength
    exact ⟨r, s₁, s, hforward, hrelease, rfl, hgood, fun _ _ h => h, fun _ _ => rfl⟩
  compact_spec {s s' sid keep} hgood hrun := by
    have hstep := fun l (hl : l < layers) => freePartSlots_ok (hgood l hl) (onLayers_ok hrun hl)
    refine ⟨fun l hl => (hstep l hl).1.ok, fun x hx n hn l hl => ?_, fun l hl => (hstep l hl).2⟩
    rw [(hstep l hl).1.kept x hx]
    exact hn l hl
  freeSeq_spec {s s' sid} hgood hrun := by
    have hstep := fun l (hl : l < layers) => freeSeq_ok (hgood l hl) (onLayers_ok hrun hl)
    refine ⟨fun l hl => (hstep l hl).1.ok, fun l hl => by rw [(hstep l hl).2]; rfl,
      fun x hx n hn l hl => ?_⟩
    rw [(hstep l hl).1.kept x hx]
    exact hn l hl

end SharedRows

end SparseEngine.KVzip
