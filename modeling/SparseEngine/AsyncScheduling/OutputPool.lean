import SparseEngine.Lib.Dict
import SparseEngine.Lib.Py

/-! `HostOutputPool` leases pinned host buffers for the results of a step. -/

namespace SparseEngine

structure HostTensor (D : Type) where
  shape : List Nat
  dtype : D

def HostTensor.numel {D : Type} (t : HostTensor D) : Nat := t.shape.prod

/-- `HostOutputBuffer`. -/
structure HostOutputBuffer (D : Type) where
  ref : Nat
  storage : HostTensor D
  view : List Nat
  key : Nat × D
  nbytes : Nat

structure HostOutputPool (D : Type) where
  free : Dict (Nat × D) (List (HostOutputBuffer D)) := .empty
  liveBytes : Int := 0
  peakLiveBytes : Int := 0
  cachedBytes : Int := 0

/-- `int.bit_length`. -/
def bitLength (n : Int) : Nat := if n = 0 then 0 else n.natAbs.log2 + 1

namespace HostOutputPool

open PyM

variable {D : Type}

/-- `storage[:numel].view(shape)`. -/
def viewPrefix (storage : HostTensor D) (shape : List Nat) : Except PyError (List Nat) :=
  if min shape.prod storage.numel = shape.prod then .ok shape
  else .error (.runtimeError "shape is invalid for input")

section

variable [DecidableEq D] (elementSize : D → Nat)

/-- A buffer of the bucket of `key`. -/
def takeBuffer (ref : Nat) (tensor : HostTensor D) (key : Nat × D) :
    PyM (HostOutputPool D) (HostOutputBuffer D) := do
  let p ← PyM.get
  let bucket := (p.free.get? key).getD []
  match bucket.getLast? with
  | some buffer =>
    PyM.modify fun p =>
      { p with
        cachedBytes := p.cachedBytes - buffer.nbytes
        free := if bucket.dropLast = [] then p.free.erase key else p.free.set key bucket.dropLast }
    return buffer
  | none =>
    let storage : HostTensor D := ⟨[key.1], tensor.dtype⟩
    let view ← PyM.lift (viewPrefix storage tensor.shape)
    return ⟨ref, storage, view, key, key.1 * elementSize tensor.dtype⟩

/-- The rest of `acquire`. -/
def leaseBuffer (tensor : HostTensor D) (buffer : HostOutputBuffer D) :
    PyM (HostOutputPool D) (HostOutputBuffer D) := do
  let view ← if buffer.view ≠ tensor.shape then PyM.lift (viewPrefix buffer.storage tensor.shape)
    else pure buffer.view
  PyM.modify fun p =>
    { p with
      liveBytes := p.liveBytes + buffer.nbytes
      peakLiveBytes := max p.peakLiveBytes (p.liveBytes + buffer.nbytes) }
  return { buffer with view := view }

def acquire (ref : Nat) (tensor : HostTensor D) :
    PyM (HostOutputPool D) (HostOutputBuffer D) := do
  let capacity := 1 <<< max 0 (bitLength ((tensor.numel : Int) - 1))
  let buffer ← takeBuffer elementSize ref tensor (capacity, tensor.dtype)
  leaseBuffer tensor buffer

/-- The sum of `nbytes`. -/
def bytes (buffers : List (HostOutputBuffer D)) : Int := (buffers.map fun b => (b.nbytes : Int)).sum

/-- The body of the first loop of `release`. -/
def giveBack (p : HostOutputPool D) (buffer : HostOutputBuffer D) : HostOutputPool D :=
  { p with
    liveBytes := p.liveBytes - buffer.nbytes
    free := (p.free.erase buffer.key).set buffer.key
      ((p.free.get? buffer.key).getD [] ++ [buffer])
    cachedBytes := p.cachedBytes + buffer.nbytes }

/-- `while self.cached_bytes > self.peak_live_bytes: self.free.popitem(last=False)`, over the
entries of `free`: what is left of it, and of the bytes. -/
def trim (peak : Int) : (entries : List ((Nat × D) × List (HostOutputBuffer D))) →
    (entries.map Prod.fst).Nodup → Int →
    Except PyError (Dict (Nat × D) (List (HostOutputBuffer D)) × Int)
  | [], nodup, cached =>
    if cached > peak then .error (.keyError "dictionary is empty") else .ok (⟨[], nodup⟩, cached)
  | e :: entries, nodup, cached =>
    if cached > peak then trim peak entries nodup.of_cons (cached - bytes e.2)
    else .ok (⟨e :: entries, nodup⟩, cached)

def release (buffers : List (HostOutputBuffer D)) : PyM (HostOutputPool D) Unit := do
  PyM.modify fun p => buffers.foldl giveBack p
  let p ← PyM.get
  let (free, cached) ← PyM.lift (trim p.peakLiveBytes p.free.entries p.free.nodup p.cachedBytes)
  PyM.modify fun p => { p with free := free, cachedBytes := cached }

def pooled (d : Dict (Nat × D) (List (HostOutputBuffer D))) : List (HostOutputBuffer D) :=
  d.entries.flatMap Prod.snd

/-- A buffer as `acquire` made it. -/
structure Sized (b : HostOutputBuffer D) : Prop where
  shape : b.storage.shape = [b.key.1]
  dtype : b.storage.dtype = b.key.2
  nbytes : b.nbytes = b.key.1 * elementSize b.key.2

abbrev Leases (D : Type) := List (HostTensor D × HostOutputBuffer D)

/-- `leases` are out of the pool. -/
structure Accounts (leases : Leases D) (next : Nat) (p : HostOutputPool D) : Prop where
  cached : p.cachedBytes = bytes (pooled p.free)
  live : p.liveBytes = bytes (leases.map Prod.snd)
  peak : p.liveBytes ≤ p.peakLiveBytes
  distinct : ((pooled p.free ++ leases.map Prod.snd).map HostOutputBuffer.ref).Nodup
  fresh : ∀ b ∈ pooled p.free ++ leases.map Prod.snd, b.ref < next
  keyed : ∀ e ∈ p.free.entries, ∀ b ∈ e.2, b.key = e.1
  sized : ∀ b ∈ pooled p.free ++ leases.map Prod.snd, Sized elementSize b
  fits : ∀ l ∈ leases, l.1.numel ≤ l.2.storage.numel ∧ l.2.storage.dtype = l.1.dtype ∧
    l.2.view = l.1.shape

/-- What `acquire` and `release` do to the pool and to its leases. -/
inductive Step : Leases D × Nat × HostOutputPool D → Leases D × Nat × HostOutputPool D → Prop
  | acquire {leases : Leases D} {next : Nat} {p p' : HostOutputPool D} {t : HostTensor D}
      {b : HostOutputBuffer D} : acquire elementSize next t p = (.ok b, p') →
      Step (leases, next, p) ((t, b) :: leases, next + 1, p')
  | release {leases returned left : Leases D} {next : Nat} {p p' : HostOutputPool D} :
      leases.Perm (returned ++ left) → release (returned.map Prod.snd) p = (.ok (), p') →
      Step (leases, next, p) (left, next, p')

def Reachable (s : Leases D × Nat × HostOutputPool D) : Prop :=
  Relation.ReflTransGen (Step elementSize) ([], 0, {}) s

end

section

variable [DecidableEq D] {d : Dict (Nat × D) (List (HostOutputBuffer D))} {key : Nat × D}
  {bucket : List (HostOutputBuffer D)}

theorem perm_pooled_set : (pooled (d.set key bucket)).Perm (bucket ++ pooled (d.erase key)) :=
  (Dict.perm_set d key bucket).flatMap_right Prod.snd

theorem perm_pooled (d : Dict (Nat × D) (List (HostOutputBuffer D))) (key : Nat × D) :
    (pooled d).Perm ((d.get? key).getD [] ++ pooled (d.erase key)) := by
  cases h : d.get? key with
  | none => rw [Dict.erase_eq_self h]; exact .refl _
  | some bucket =>
    have hset : (pooled (d.set key bucket)).Perm (bucket ++ pooled (d.erase key)) := perm_pooled_set
    rwa [Dict.set_eq_self h] at hset

theorem mem_entries_set {e : (Nat × D) × List (HostOutputBuffer D)}
    (h : e ∈ (d.set key bucket).entries) : e = (key, bucket) ∨ e ∈ d.entries := by
  obtain ⟨k, v⟩ := e
  rw [Dict.mem_entries, Dict.get?_set] at h
  split at h
  · next hk => exact .inl (by simpa [hk] using h.symm)
  · exact .inr (Dict.mem_entries.mpr h)

theorem mem_entries_erase {e : (Nat × D) × List (HostOutputBuffer D)}
    (h : e ∈ (d.erase key).entries) : e ∈ d.entries := by
  obtain ⟨k, v⟩ := e
  rw [Dict.mem_entries, Dict.get?_erase] at h
  split at h
  · cases h
  · exact Dict.mem_entries.mpr h

end

theorem bytes_append (l l' : List (HostOutputBuffer D)) : bytes (l ++ l') = bytes l + bytes l' := by
  simp [bytes]

theorem bytes_cons (b : HostOutputBuffer D) (l : List (HostOutputBuffer D)) :
    bytes (b :: l) = b.nbytes + bytes l := by
  simp [bytes]

theorem bytes_perm {l l' : List (HostOutputBuffer D)} (h : l.Perm l') : bytes l = bytes l' :=
  (h.map _).sum_eq

theorem bytes_nonneg (l : List (HostOutputBuffer D)) : 0 ≤ bytes l :=
  List.sum_nonneg fun x hx => by
    obtain ⟨b, -, rfl⟩ := List.mem_map.mp hx
    exact Int.natCast_nonneg _

theorem le_two_pow_bitLength (n : Nat) : n ≤ 1 <<< bitLength ((n : Int) - 1) := by
  rw [Nat.one_shiftLeft, bitLength]
  split
  · omega
  · have hlt := Nat.lt_log2_self (n := ((n : Int) - 1).natAbs)
    omega

theorem Sized.numel {elementSize : D → Nat} {b : HostOutputBuffer D} (h : Sized elementSize b) :
    b.storage.numel = b.key.1 := by
  simp [HostTensor.numel, h.shape]

theorem viewPrefix_fits {storage t : HostTensor D} (h : t.numel ≤ storage.numel) :
    viewPrefix storage t.shape = .ok t.shape :=
  if_pos (Nat.min_eq_left h)

section

variable [DecidableEq D] {elementSize : D → Nat} {leases : Leases D} {next : Nat}
  {p : HostOutputPool D} {t : HostTensor D} {key : Nat × D}

variable (key) in
theorem Accounts.takeBuffer (h : Accounts elementSize leases next p) (hkey : key.2 = t.dtype)
    (hcap : t.numel ≤ key.1) :
    ∃ b p', takeBuffer elementSize next t key p = (.ok b, p') ∧ b.key = key ∧
      Sized elementSize b ∧ p'.cachedBytes = bytes (pooled p'.free) ∧
      p'.liveBytes = p.liveBytes ∧ p'.peakLiveBytes = p.peakLiveBytes ∧
      (∀ e ∈ p'.free.entries, ∀ b ∈ e.2, b.key = e.1) ∧
      ((pooled p.free).Perm (b :: pooled p'.free) ∨
        b.ref = next ∧ pooled p'.free = pooled p.free) := by
  cases hlast : ((p.free.get? key).getD []).getLast? with
  | none =>
    have hview : viewPrefix ⟨[key.1], t.dtype⟩ t.shape = .ok t.shape :=
      viewPrefix_fits (by simpa [HostTensor.numel] using hcap)
    refine ⟨⟨next, ⟨[key.1], t.dtype⟩, t.shape, key, key.1 * elementSize t.dtype⟩, p, ?_, rfl,
      ⟨rfl, hkey.symm, by rw [hkey]⟩, h.cached, rfl, rfl, h.keyed, .inr ⟨rfl, rfl⟩⟩
    simp [HostOutputPool.takeBuffer, bind_run, hlast, hview]
  | some b =>
    obtain ⟨rest, hbucket⟩ := List.getLast?_eq_some_iff.mp hlast
    have hget : p.free.get? key = some (rest ++ [b]) := by
      cases hg : p.free.get? key with
      | none => simp [hg] at hbucket
      | some bucket => rw [hg] at hbucket; exact congrArg some hbucket
    have hmem := h.keyed _ (Dict.mem_entries.mpr hget)
    have hperm : (pooled p.free).Perm (b :: (rest ++ pooled (p.free.erase key))) := by
      refine (perm_pooled p.free key).trans ?_
      rw [hbucket, List.append_assoc]
      exact List.perm_middle
    obtain ⟨free, hfree⟩ : ∃ free, free =
        if rest = [] then p.free.erase key else p.free.set key rest := ⟨_, rfl⟩
    have hpool : (pooled free).Perm (rest ++ pooled (p.free.erase key)) := by
      rw [hfree]
      split
      · next hrest => rw [hrest]; exact .refl _
      · exact perm_pooled_set
    have hsized := h.sized b (List.mem_append_left _ (hperm.mem_iff.mpr List.mem_cons_self))
    refine ⟨b, { p with cachedBytes := p.cachedBytes - b.nbytes, free := free }, ?_,
      hmem b (by simp), hsized, ?_, rfl, rfl, ?_, .inl (hperm.trans (hpool.symm.cons b))⟩
    · simp [HostOutputPool.takeBuffer, bind_run, hbucket, hfree]
    · have hbytes := bytes_perm (hperm.trans (hpool.symm.cons b))
      rw [bytes_cons] at hbytes
      have hcached := h.cached
      simp only
      omega
    · intro e he
      rw [hfree] at he
      split at he
      · exact h.keyed e (mem_entries_erase he)
      · rcases mem_entries_set he with rfl | he
        · exact fun b hb => hmem b (List.mem_append_left _ hb)
        · exact h.keyed e he

theorem Accounts.acquire (h : Accounts elementSize leases next p) (t : HostTensor D) :
    ∃ b p', acquire elementSize next t p = (.ok b, p') ∧
      Accounts elementSize ((t, b) :: leases) (next + 1) p' := by
  have hcap : t.numel ≤ 1 <<< max 0 (bitLength ((t.numel : Int) - 1)) := by
    simpa using le_two_pow_bitLength t.numel
  obtain ⟨b, p', hrun, hkey, hsized, hcached, hlive, hpeak, hkeyed, hfrom⟩ :=
    h.takeBuffer (1 <<< max 0 (bitLength ((t.numel : Int) - 1)), t.dtype) rfl hcap
  have hnumel : t.numel ≤ b.storage.numel := by rwa [hsized.numel, hkey]
  have hview : viewPrefix b.storage t.shape = .ok t.shape := viewPrefix_fits hnumel
  refine ⟨{ b with view := t.shape },
    { p' with
      liveBytes := p'.liveBytes + b.nbytes
      peakLiveBytes := max p'.peakLiveBytes (p'.liveBytes + b.nbytes) }, ?_, ?_⟩
  · refine (bind_ok hrun).trans ?_
    by_cases hsame : b.view = t.shape
    · simp [leaseBuffer, bind_run, hsame]
    · simp [leaseBuffer, bind_run, hsame, hview]
  -- the refs of all buffers are those before the call, and that of a new one
  have hrefs : ((pooled p'.free ++ b :: leases.map Prod.snd).map HostOutputBuffer.ref).Nodup ∧
      ∀ b' ∈ pooled p'.free ++ b :: leases.map Prod.snd,
        b'.ref < next + 1 ∧ Sized elementSize b' := by
    rcases hfrom with hperm | ⟨href, hpool⟩
    · have hall : (pooled p'.free ++ b :: leases.map Prod.snd).Perm
          (pooled p.free ++ leases.map Prod.snd) :=
        List.perm_middle.trans (hperm.symm.append_right _)
      exact ⟨(hall.map _).nodup_iff.mpr h.distinct, fun b' hb' =>
        ⟨Nat.lt_succ_of_lt (h.fresh b' (hall.mem_iff.mp hb')), h.sized b' (hall.mem_iff.mp hb')⟩⟩
    · rw [hpool]
      constructor
      · rw [(List.perm_middle.map _).nodup_iff, List.map_cons, List.nodup_cons]
        refine ⟨fun hmem => ?_, h.distinct⟩
        obtain ⟨b', hb', heq⟩ := List.mem_map.mp hmem
        have hlt := h.fresh b' hb'
        omega
      · intro b' hb'
        rcases List.mem_cons.mp (List.perm_middle.mem_iff.mp hb') with rfl | hb'
        · exact ⟨by omega, hsized⟩
        · exact ⟨Nat.lt_succ_of_lt (h.fresh b' hb'), h.sized b' hb'⟩
  have hseen : ∀ b' ∈ pooled p'.free ++ ({ b with view := t.shape } : HostOutputBuffer D) ::
      leases.map Prod.snd, b'.ref < next + 1 ∧ Sized elementSize b' := by
    intro b' hb'
    rcases List.mem_cons.mp (List.perm_middle.mem_iff.mp hb') with rfl | hb'
    · exact ⟨(hrefs.2 b (by simp)).1, ⟨hsized.shape, hsized.dtype, hsized.nbytes⟩⟩
    · exact hrefs.2 b' (List.perm_middle.mem_iff.mpr (List.mem_cons_of_mem _ hb'))
  have hbytes : p'.liveBytes + b.nbytes = b.nbytes + bytes (leases.map Prod.snd) := by
    rw [hlive, h.live, Int.add_comm]
  exact {
    cached := hcached
    live := hbytes.trans (bytes_cons b _).symm
    peak := le_max_right _ _
    distinct := by simpa using hrefs.1
    fresh := fun b' hb' => (hseen b' hb').1
    keyed := hkeyed
    sized := fun b' hb' => (hseen b' hb').2
    fits := by
      intro l hl
      rcases List.mem_cons.mp hl with rfl | hl
      · exact ⟨hnumel, by rw [hsized.dtype, hkey], rfl⟩
      · exact h.fits l hl }

end

theorem Accounts.perm {elementSize : D → Nat} {leases left : Leases D} {next : Nat}
    {p : HostOutputPool D} (h : Accounts elementSize leases next p) (hperm : leases.Perm left) :
    Accounts elementSize left next p := by
  have hall := (hperm.map Prod.snd).append_left (pooled p.free)
  exact {
    cached := h.cached
    live := h.live.trans (bytes_perm (hperm.map _))
    peak := h.peak
    distinct := (hall.map _).nodup_iff.mp h.distinct
    fresh := fun b hb => h.fresh b (hall.mem_iff.mpr hb)
    keyed := h.keyed
    sized := fun b hb => h.sized b (hall.mem_iff.mpr hb)
    fits := fun l hl => h.fits l (hperm.mem_iff.mpr hl) }

theorem trim_spec {peak : Int} (hpeak : 0 ≤ peak) :
    ∀ (entries : List ((Nat × D) × List (HostOutputBuffer D)))
      (nodup : (entries.map Prod.fst).Nodup) (cached : Int),
      cached = bytes (entries.flatMap Prod.snd) →
      ∃ d : Dict (Nat × D) (List (HostOutputBuffer D)),
        trim peak entries nodup cached = .ok (d, bytes (pooled d)) ∧ bytes (pooled d) ≤ peak ∧
        d.entries.Sublist entries
  | [], nodup, cached, h => by
    subst h
    refine ⟨⟨[], nodup⟩, ?_, hpeak, .refl _⟩
    rw [trim, if_neg (by simpa [bytes] using hpeak)]
    rfl
  | e :: entries, nodup, cached, h => by
    rw [trim]
    split
    · obtain ⟨d, hrun, hle, hsub⟩ :=
        trim_spec hpeak entries nodup.of_cons (cached - bytes e.2) (by
          rw [h, List.flatMap_cons, bytes_append]
          omega)
      exact ⟨d, hrun, hle, hsub.cons _⟩
    · next hle =>
      subst h
      exact ⟨⟨e :: entries, nodup⟩, rfl, Int.not_lt.mp hle, .refl _⟩

section

variable [DecidableEq D] {elementSize : D → Nat} {leases returned left : Leases D} {next : Nat}
  {p : HostOutputPool D}

theorem Accounts.giveBack {l : HostTensor D × HostOutputBuffer D}
    (h : Accounts elementSize (l :: left) next p) :
    Accounts elementSize left next (giveBack p l.2) := by
  have hperm : (pooled (HostOutputPool.giveBack p l.2).free).Perm (l.2 :: pooled p.free) := by
    refine perm_pooled_set.trans ?_
    rw [Dict.erase_eq_self (Dict.get?_erase_self _ _), List.append_assoc]
    exact List.perm_middle.trans ((perm_pooled p.free l.2.key).symm.cons _)
  have hall : (pooled (HostOutputPool.giveBack p l.2).free ++ left.map Prod.snd).Perm
      (pooled p.free ++ (l :: left).map Prod.snd) :=
    (hperm.append_right _).trans List.perm_middle.symm
  have hlive := h.live
  rw [List.map_cons, bytes_cons] at hlive
  exact {
    cached := by
      rw [bytes_perm hperm, bytes_cons, ← h.cached, Int.add_comm]
      rfl
    live := by
      show p.liveBytes - _ = _
      omega
    peak := by
      have hpeak := h.peak
      show p.liveBytes - _ ≤ p.peakLiveBytes
      omega
    distinct := (hall.map _).nodup_iff.mpr h.distinct
    fresh := fun b hb => h.fresh b (hall.mem_iff.mp hb)
    keyed := by
      intro e he b hb
      rcases mem_entries_set he with rfl | he
      · rcases List.mem_append.mp hb with hb | hb
        · cases hget : p.free.get? l.2.key with
          | none => simp [hget] at hb
          | some bucket => exact h.keyed _ (Dict.mem_entries.mpr hget) b (by simpa [hget] using hb)
        · rw [List.mem_singleton.mp hb]
      · exact h.keyed e (mem_entries_erase he) b hb
    sized := fun b hb => h.sized b (hall.mem_iff.mp hb)
    fits := fun l hl => h.fits l (List.mem_cons_of_mem _ hl) }

theorem Accounts.foldl_giveBack :
    ∀ (returned : Leases D) (p : HostOutputPool D),
      Accounts elementSize (returned ++ left) next p →
      Accounts elementSize left next ((returned.map Prod.snd).foldl HostOutputPool.giveBack p)
  | [], _, h => h
  | _ :: returned, _, h => foldl_giveBack returned _ (Accounts.giveBack h)

theorem Accounts.release (h : Accounts elementSize leases next p)
    (hperm : leases.Perm (returned ++ left)) :
    ∃ p', release (returned.map Prod.snd) p = (.ok (), p') ∧ Accounts elementSize left next p' ∧
      p'.cachedBytes ≤ p'.peakLiveBytes := by
  obtain ⟨q, hq⟩ : ∃ q, q = (returned.map Prod.snd).foldl HostOutputPool.giveBack p := ⟨_, rfl⟩
  have hgiven : Accounts elementSize left next q := hq ▸ (h.perm hperm).foldl_giveBack returned p
  have hpeak : 0 ≤ q.peakLiveBytes :=
    (bytes_nonneg _).trans (hgiven.live.symm.le.trans hgiven.peak)
  obtain ⟨d, hrun, hle, hsub⟩ :=
    trim_spec hpeak q.free.entries q.free.nodup q.cachedBytes hgiven.cached
  have hpooled : (pooled d).Sublist (pooled q.free) := hsub.flatMap Prod.snd
  have hall := hpooled.append_right (left.map Prod.snd)
  refine ⟨{ q with free := d, cachedBytes := bytes (pooled d) }, ?_, ?_, hle⟩
  · simp [HostOutputPool.release, bind_run, ← hq, hrun]
  · exact {
      cached := rfl
      live := hgiven.live
      peak := hgiven.peak
      distinct := (hall.map _).nodup hgiven.distinct
      fresh := fun b hb => hgiven.fresh b (hall.subset hb)
      keyed := fun e he => hgiven.keyed e (hsub.subset he)
      sized := fun b hb => hgiven.sized b (hall.subset hb)
      fits := hgiven.fits }

end

theorem accounts_empty {elementSize : D → Nat} : Accounts elementSize [] 0 ({} : HostOutputPool D) where
  cached := rfl
  live := rfl
  peak := le_refl _
  distinct := .nil
  fresh := by simp [pooled, Dict.empty]
  keyed := by simp [Dict.empty]
  sized := by simp [pooled, Dict.empty]
  fits := by simp

section

variable [DecidableEq D] {elementSize : D → Nat} {leases : Leases D} {next : Nat}
  {p : HostOutputPool D}

theorem Accounts.step {s s' : Leases D × Nat × HostOutputPool D}
    (h : Accounts elementSize s.1 s.2.1 s.2.2) (step : Step elementSize s s') :
    Accounts elementSize s'.1 s'.2.1 s'.2.2 := by
  cases step with
  | acquire hrun =>
    obtain ⟨b, p', hacquire, h'⟩ := h.acquire _
    rw [hacquire] at hrun
    cases hrun
    exact h'
  | release hperm hrun =>
    obtain ⟨p', hrelease, h', -⟩ := h.release hperm
    rw [hrelease] at hrun
    cases hrun
    exact h'

theorem accounts_of_reachable {s : Leases D × Nat × HostOutputPool D}
    (h : Reachable elementSize s) : Accounts elementSize s.1 s.2.1 s.2.2 := by
  induction h with
  | refl => exact accounts_empty
  | tail _ step ih => exact ih.step step

/-- After any calls, the counters are the bytes of the pooled and of the leased buffers, no buffer
is leased twice or leased and pooled, and each holds the tensor it was acquired for. -/
theorem reachable_pool_exact (h : Reachable elementSize (leases, next, p)) :
    p.cachedBytes = bytes (pooled p.free) ∧ p.liveBytes = bytes (leases.map Prod.snd) ∧
    ((pooled p.free ++ leases.map Prod.snd).map HostOutputBuffer.ref).Nodup ∧
    (∀ b ∈ pooled p.free ++ leases.map Prod.snd,
      b.nbytes = b.storage.numel * elementSize b.storage.dtype) ∧
    (∀ l ∈ leases, l.1.numel ≤ l.2.storage.numel ∧ l.2.storage.dtype = l.1.dtype ∧
      l.2.view = l.1.shape) ∧
    (∀ t, ∃ b p', acquire elementSize next t p = (.ok b, p')) ∧
    ∀ returned left, leases.Perm (returned ++ left) →
      ∃ p', release (returned.map Prod.snd) p = (.ok (), p') ∧
        p'.cachedBytes ≤ p'.peakLiveBytes := by
  have hacc : Accounts elementSize leases next p := accounts_of_reachable h
  refine ⟨hacc.cached, hacc.live, hacc.distinct, fun b hb => ?_, hacc.fits, fun t => ?_,
    fun returned left hperm => ?_⟩
  · have hsized := hacc.sized b hb
    rw [hsized.nbytes, hsized.numel, hsized.dtype]
  · obtain ⟨b, p', hrun, -⟩ := hacc.acquire t
    exact ⟨b, p', hrun⟩
  · obtain ⟨p', hrun, -, hle⟩ := hacc.release hperm
    exact ⟨p', hrun, hle⟩

/-- A buffer of four `int64` is leased for three. -/
theorem reachable_pool_exact_reused :
    let buffer : HostOutputBuffer Bool := ⟨0, ⟨[4], true⟩, [2, 2], (4, true), 32⟩
    let p : HostOutputPool Bool := { liveBytes := 32, peakLiveBytes := 32 }
    Reachable (fun long => if long then 8 else 4) ([(⟨[2, 2], true⟩, buffer)], 2, p) ∧
      p.liveBytes = bytes [buffer] := by
  intro buffer p
  let elementSize : Bool → Nat := fun long => if long then 8 else 4
  let first : HostOutputBuffer Bool := ⟨0, ⟨[4], true⟩, [3], (4, true), 32⟩
  let leased : HostOutputPool Bool := { liveBytes := 32, peakLiveBytes := 32 }
  let back : HostOutputPool Bool :=
    { free := Dict.empty.set (4, true) [first], peakLiveBytes := 32, cachedBytes := 32 }
  have h₁ : Step elementSize ([], 0, {}) ([(⟨[3], true⟩, first)], 1, leased) := .acquire rfl
  have hreturned : [((⟨[3], true⟩ : HostTensor Bool), first)].Perm ([(⟨[3], true⟩, first)] ++ []) :=
    .refl _
  have h₂ : Step elementSize ([(⟨[3], true⟩, first)], 1, leased) ([], 1, back) :=
    .release hreturned rfl
  have h₃ : Step elementSize ([], 1, back) ([(⟨[2, 2], true⟩, buffer)], 2, p) := .acquire rfl
  have h : Reachable elementSize ([(⟨[2, 2], true⟩, buffer)], 2, p) :=
    ((Relation.ReflTransGen.single h₁).tail h₂).tail h₃
  exact ⟨h, (reachable_pool_exact h).2.1⟩

end

end HostOutputPool

end SparseEngine
