import SparseEngine.Lib.Dict
import SparseEngine.Lib.Py

/-! The clustered part of a sequence's context is an index for each layer. -/

namespace SparseEngine.RetroInfer

open PyM List Dict

structure Config where
  sinkTokens : Nat
  recentTokens : Nat
  avgClusterSize : Nat
  minIndexTokens : Nat
  updateTokens : Nat
  retrievalRatio : Rat
  estimationRatio : Rat
  profiling : Bool
  numLayers : Nat
  heads : Nat
  layers_pos : 0 < numLayers
  heads_pos : 0 < heads

def refuse (c : Prop) [Decidable c] (message : String) : Except PyError Unit :=
  if c then .error (.valueError message) else .ok ()

def checkPositive (name : String) (value : Nat) : Except PyError Unit :=
  refuse (value = 0) s!"{name} must be a positive integer, got {value}."

def checkRatio (name : String) (value : Rat) : Except PyError Unit :=
  refuse (¬ (0 ≤ value ∧ value ≤ 1)) s!"{name} must be in [0, 1], got {value}."

/-- The checks of `_normalize_retroinfer` on numbers. -/
def normalizeRetroinfer (c : Config) : Except PyError Unit := do
  checkPositive "retroinfer_sink_tokens" c.sinkTokens
  checkPositive "retroinfer_recent_tokens" c.recentTokens
  checkPositive "retroinfer_avg_cluster_size" c.avgClusterSize
  checkPositive "retroinfer_min_index_tokens" c.minIndexTokens
  checkPositive "retroinfer_update_tokens" c.updateTokens
  checkRatio "retroinfer_retrieval_ratio" c.retrievalRatio
  checkRatio "retroinfer_estimation_ratio" c.estimationRatio
  refuse (c.retrievalRatio ≤ 0) "RetroInfer retrieval ratio must be positive."
  refuse (c.retrievalRatio + c.estimationRatio > 1)
    "RetroInfer retrieval and estimation ratios must sum to at most 1."
  refuse (c.updateTokens % c.avgClusterSize ≠ 0)
    "RetroInfer update size must be divisible by average cluster size."
  refuse (c.minIndexTokens % c.avgClusterSize ≠ 0)
    "RetroInfer minimum index size must be divisible by average cluster size."

structure HeadIndex where
  sizes : List Nat
  offsets : List Nat
  sortedPositions : List Nat

structure RetroInferIndex where
  heads : List HeadIndex
  indexedStart : Nat
  indexedEnd : Nat

structure Search where
  cluster : (seqId layer head start clusters token : Nat) → Nat
  lt : ∀ seqId layer head start clusters token, 0 < clusters →
    cluster seqId layer head start clusters token < clusters

/-- `F.pad(torch.cumsum(sizes), (1, 0))`. -/
def prefixSums (sizes : List Nat) : List Nat := sizes.scanl (· + ·) 0

def headSegment (start length clusters : Nat) (ids : Nat → Nat) : HeadIndex :=
  let sizes := (List.range clusters).map fun k => (List.range length).countP fun t => ids t = k
  { sizes := sizes
    offsets := prefixSums sizes
    sortedPositions :=
      ((List.range length).mergeSort fun a b => decide (ids a ≤ ids b)).map (start + ·) }

def segmentIndex (c : Config) (search : Search) (seqId layer start length clusters : Nat) :
    RetroInferIndex :=
  { heads := (List.range c.heads).map fun h =>
      headSegment start length clusters (search.cluster seqId layer h start clusters)
    indexedStart := start
    indexedEnd := start + length }

/-- `build_retroinfer_segment` over the positions from `start` to `stop`. -/
def buildSegment (c : Config) (search : Search) (seqId layer start stop segments : Nat) :
    Except PyError RetroInferIndex := do
  let length := stop - start
  if length < c.avgClusterSize then
    throw (.valueError "RetroInfer index dimensions and iteration count are invalid.")
  if segments = 0 ∨ segments > length then
    throw (.valueError "RetroInfer index segment count is invalid.")
  let clusters := length / c.avgClusterSize / segments * segments
  if clusters = 0 then throw (.valueError "RetroInfer index has no clusters.")
  return segmentIndex c search seqId layer start length clusters

def appendHead (a b : HeadIndex) : HeadIndex :=
  { sizes := a.sizes ++ b.sizes
    offsets := prefixSums (a.sizes ++ b.sizes)
    sortedPositions := a.sortedPositions ++ b.sortedPositions }

def appendIndex (old new : RetroInferIndex) : Except PyError RetroInferIndex := do
  if old.indexedEnd ≠ new.indexedStart then
    throw (.valueError "RetroInfer index segments must be adjacent.")
  return {
    heads := zipWith appendHead old.heads new.heads
    indexedStart := old.indexedStart
    indexedEnd := new.indexedEnd }

/-- `rowSeqLens` holds the live sequences, with the lengths of their rows. -/
structure Manager where
  rowSeqLens : Dict Nat Nat := .empty
  indices : Dict Nat (List RetroInferIndex) := .empty
  decodeSeqIds : List Nat := []

/-- The loop of `_update_index`. -/
def extendIndex (c : Config) (search : Search) (seqId length : Nat) :
    Nat → List RetroInferIndex → Nat → PyM Manager Unit
  | 0, _, _ => PyM.raise .outOfFuel
  | fuel + 1, previous, indexedEnd =>
    if (length : Int) - c.recentTokens - indexedEnd ≥ c.updateTokens then do
      let nextEnd := indexedEnd + c.updateTokens
      let built ← PyM.lift (((List.range c.numLayers).zip previous).mapM fun e => do
        let new ← buildSegment c search seqId e.1 indexedEnd nextEnd 1
        appendIndex e.2 new)
      PyM.modify fun m => { m with indices := m.indices.set seqId built }
      extendIndex c search seqId length fuel built nextEnd
    else return ()

/-- `_update_index` of a sequence without an index. -/
def firstIndex (c : Config) (search : Search) (seqId length : Nat) : PyM Manager Unit :=
  let span := length - c.recentTokens - c.sinkTokens
  if (length : Int) - c.recentTokens - c.sinkTokens < c.minIndexTokens then return ()
  else do
    let built ← PyM.lift ((List.range c.numLayers).mapM fun layer =>
      buildSegment c search seqId layer c.sinkTokens (length - c.recentTokens)
        (max 1 (span / 8192)))
    PyM.modify fun m => { m with indices := m.indices.set seqId built }

def updateIndex (c : Config) (search : Search) (seqId : Nat) : PyM Manager Unit := do
  let m ← PyM.get
  match if c.profiling then none else m.rowSeqLens.get? seqId with
  | none => return ()
  | some length =>
    match m.indices.get? seqId with
    | none => firstIndex c search seqId length
    | some previous =>
      match previous.head? with
      | none => PyM.raise (.indexError "tuple index out of range")
      | some first => extendIndex c search seqId length (length + 1) previous first.indexedEnd

/-- `on_forward_end`. -/
def onForwardEnd (c : Config) (search : Search) (seqIds : List Nat) : PyM Manager Unit :=
  forEach (updateIndex c search) seqIds

/-- The row of `seqId` holds `count` more tokens. -/
def growRow (count : Nat) (m : Manager) (seqId : Nat) : Manager :=
  { m with
    rowSeqLens := m.rowSeqLens.set seqId ((m.rowSeqLens.get? seqId).getD 0 + count) }

def prepareDecode (seqIds : List Nat) (m : Manager) : Manager :=
  { seqIds.foldl (growRow 1) m with decodeSeqIds := seqIds }

def freeSeq (seqId : Nat) (m : Manager) : Manager :=
  { m with indices := m.indices.erase seqId, rowSeqLens := m.rowSeqLens.erase seqId }

structure DecodeRow where
  sinkEnd : Nat
  recentStart : Nat
  recentEnd : Nat
  index : Option RetroInferIndex

def decodeRow (c : Config) (m : Manager) (kvLayer seqId : Nat) : Except PyError DecodeRow := do
  match m.rowSeqLens.get? seqId with
  | none => throw (.keyError s!"{seqId}")
  | some length =>
    let sinkEnd := min c.sinkTokens length
    let index ← match m.indices.get? seqId with
      | none => pure none
      | some indices =>
        match indices[kvLayer]? with
        | some index => pure (some index)
        | none => throw (.indexError "tuple index out of range")
    let recentStart := match index with
      | none => sinkEnd
      | some index => index.indexedEnd
    if ¬ (0 < sinkEnd ∧ sinkEnd ≤ recentStart ∧ recentStart ≤ length) then
      throw (.runtimeError "RetroInfer index and live KV range are inconsistent.")
    return ⟨sinkEnd, recentStart, length, index⟩

/-- `build_decode_compute_view`. -/
def buildDecodeComputeView (c : Config) (m : Manager) (kvLayer queries : Nat) :
    Except PyError (List DecodeRow) := do
  if m.decodeSeqIds = [] ∨ m.decodeSeqIds.length > queries then
    throw (.runtimeError
      "RetroInfer decode sequence identities do not match the query batch.")
  let batch := m.decodeSeqIds ++
    replicate (queries - m.decodeSeqIds.length) (m.decodeSeqIds.headD 0)
  batch.mapM (decodeRow c m kvLayer)

inductive Step (c : Config) (m : Manager) : Manager → Prop
  | prefill {seqId count : Nat} : 0 < count → Step c m (growRow count m seqId)
  | decode {seqIds : List Nat} : (∀ id ∈ seqIds, (m.rowSeqLens.contains id) = true) →
      Step c m (prepareDecode seqIds m)
  | forwardEnd (search : Search) (seqIds : List Nat) :
      Step c m (onForwardEnd c search seqIds m).2
  | free (seqId : Nat) : Step c m (freeSeq seqId m)

def Reachable (c : Config) (m : Manager) : Prop := Relation.ReflTransGen (Step c) {} m

def clusterLists (h : HeadIndex) : List (List Nat) :=
  (List.range h.sizes.length).map fun k =>
    (h.sortedPositions.drop (h.offsets.getD k 0)).take
      (h.offsets.getD (k + 1) 0 - h.offsets.getD k 0)

def DecodeRow.positions (row : DecodeRow) (head : Nat) : List Nat :=
  List.range row.sinkEnd ++
    (match row.index with
      | none => []
      | some index => (index.heads[head]?.elim [] clusterLists).flatten) ++
    range' row.recentStart (row.recentEnd - row.recentStart)

theorem getD_scanl : ∀ (sizes : List Nat) (b k : Nat), k ≤ sizes.length →
    (sizes.scanl (· + ·) b).getD k 0 = b + (sizes.take k).sum
  | [], b, k, hk => by
    obtain rfl : k = 0 := by simpa using hk
    simp
  | n :: sizes, b, 0, _ => by simp
  | n :: sizes, b, k + 1, hk => by
    have ih := getD_scanl sizes (b + n) k (by simpa using hk)
    rw [scanl_cons, getD_cons_succ, ih, take_succ_cons, sum_cons, Nat.add_assoc]

theorem flatten_slices : ∀ (sizes l : List Nat), sizes.sum = l.length →
    ((List.range sizes.length).map fun k =>
      (l.drop (sizes.take k).sum).take (sizes.getD k 0)).flatten = l
  | [], l, h => by
    obtain rfl : l = [] := length_eq_zero_iff.mp (by simpa using h.symm)
    rfl
  | n :: sizes, l, h => by
    rw [sum_cons] at h
    have ih := flatten_slices sizes (l.drop n) (by rw [length_drop]; omega)
    rw [length_cons, range_succ_eq_map, map_cons, flatten_cons, map_map]
    have htail : ((fun k => (l.drop ((n :: sizes).take k).sum).take ((n :: sizes).getD k 0)) ∘
        Nat.succ) = fun k => ((l.drop n).drop (sizes.take k).sum).take (sizes.getD k 0) := by
      funext k
      simp [drop_drop]
    rw [htail, ih]
    simp

theorem flatten_clusterLists {h : HeadIndex} (hoffsets : h.offsets = prefixSums h.sizes)
    (hsum : h.sizes.sum = h.sortedPositions.length) :
    (clusterLists h).flatten = h.sortedPositions := by
  rw [← flatten_slices h.sizes h.sortedPositions hsum, clusterLists]
  refine congrArg flatten (map_congr_left fun k hk => ?_)
  rw [mem_range] at hk
  have hlow := getD_scanl h.sizes 0 k hk.le
  have hhigh := getD_scanl h.sizes 0 (k + 1) hk
  rw [hoffsets, prefixSums, hlow, hhigh, take_add_one, sum_append]
  simp [hk]

/-- The clusters of a head hold the positions from `start` to `stop`, each once. -/
structure HeadCovers (start stop : Nat) (h : HeadIndex) : Prop where
  offsets : h.offsets = prefixSums h.sizes
  sizes : h.sizes.sum = h.sortedPositions.length
  positions : h.sortedPositions.Perm (range' start (stop - start))

theorem sum_indicator (i : Nat) : ∀ n, ((List.range n).map fun k => if i = k then 1 else 0).sum =
    if i < n then 1 else 0
  | 0 => by simp
  | n + 1 => by
    rw [range_succ, map_append, sum_append, sum_indicator i n]
    simp only [map_cons, map_nil, sum_singleton]
    split <;> split <;> split <;> omega

theorem sum_countP {n : Nat} {ids : Nat → Nat} : ∀ {l : List Nat}, (∀ t ∈ l, ids t < n) →
    ((List.range n).map fun k => l.countP fun t => ids t = k).sum = l.length
  | [], _ => by simp
  | t :: l, h => by
    have ih := sum_countP fun t ht => h t (mem_cons_of_mem _ ht)
    have hone := sum_indicator (ids t) n
    rw [if_pos (h t mem_cons_self)] at hone
    have hsplit : (fun k => (t :: l).countP fun t => decide (ids t = k)) =
        fun k => (l.countP fun t => decide (ids t = k)) + if ids t = k then 1 else 0 := by
      funext k
      simp [countP_cons]
    rw [hsplit, sum_map_add, ih, hone, length_cons]

theorem headCovers_segment {start length clusters : Nat} {ids : Nat → Nat}
    (hids : ∀ t, ids t < clusters) :
    HeadCovers start (start + length) (headSegment start length clusters ids) where
  offsets := rfl
  sizes := by
    have hsum := sum_countP fun t (_ : t ∈ List.range length) => hids t
    simpa [headSegment] using hsum
  positions := by
    rw [Nat.add_sub_cancel_left, range'_eq_map_range]
    exact (mergeSort_perm _ _).map _

theorem range'_split {start mid stop : Nat} (hle : start ≤ mid) (hle' : mid ≤ stop) :
    range' start (stop - start) =
      range' start (mid - start) ++ range' mid (stop - mid) := by
  have happend := range'_append_1 (s := start) (m := mid - start) (n := stop - mid)
  rw [show start + (mid - start) = mid by omega,
    show mid - start + (stop - mid) = stop - start by omega] at happend
  exact happend.symm

theorem headCovers_append {start mid stop : Nat} {a b : HeadIndex} (ha : HeadCovers start mid a)
    (hb : HeadCovers mid stop b) (hle : start ≤ mid) (hle' : mid ≤ stop) :
    HeadCovers start stop (appendHead a b) where
  offsets := rfl
  sizes := by simp [appendHead, ha.sizes, hb.sizes]
  positions := by
    rw [range'_split hle hle']
    exact ha.positions.append hb.positions

/-- An index over the positions from `start` to `stop`. -/
structure Covers (c : Config) (start stop : Nat) (index : RetroInferIndex) : Prop where
  first : index.indexedStart = start
  last : index.indexedEnd = stop
  le : start ≤ stop
  heads : index.heads.length = c.heads
  covers : ∀ h ∈ index.heads, HeadCovers start stop h

theorem covers_append {c : Config} {start mid stop : Nat} {old new : RetroInferIndex}
    (ho : Covers c start mid old) (hn : Covers c mid stop new) :
    ∃ index, appendIndex old new = .ok index ∧ Covers c start stop index := by
  refine ⟨_, if_neg (not_not.mpr (ho.last.trans hn.first.symm)), ho.first, hn.last,
    ho.le.trans hn.le, ?_, fun h hh => ?_⟩
  · simp [ho.heads, hn.heads]
  · obtain ⟨i, hi, rfl⟩ := mem_iff_getElem.mp hh
    rw [getElem_zipWith]
    exact headCovers_append (ho.covers _ (getElem_mem _)) (hn.covers _ (getElem_mem _))
      ho.le hn.le

section

variable {c : Config} {search : Search} {seqId layer start stop segments : Nat}

variable (search seqId layer start stop segments) in
theorem buildSegment_spec (havg : 0 < c.avgClusterSize) (hpos : 0 < segments)
    (hlong : c.avgClusterSize ≤ stop - start) (hparts : segments ≤ stop - start) :
    (c.avgClusterSize * segments ≤ stop - start →
      ∃ index, buildSegment c search seqId layer start stop segments = .ok index ∧
        Covers c start stop index) ∧
    (stop - start < c.avgClusterSize * segments →
      buildSegment c search seqId layer start stop segments =
        .error (.valueError "RetroInfer index has no clusters.")) := by
  have hshort : ¬ stop - start < c.avgClusterSize := not_lt.mpr hlong
  have hcount : ¬ (segments = 0 ∨ segments > stop - start) := by omega
  have hzero : (stop - start) / c.avgClusterSize / segments * segments = 0 ↔
      stop - start < c.avgClusterSize * segments := by
    rw [Nat.mul_eq_zero, or_iff_left hpos.ne', Nat.div_div_eq_div_mul,
      Nat.div_eq_zero_iff_lt (Nat.mul_pos havg hpos)]
  constructor
  · intro hroom
    have hclusters : ¬ (stop - start) / c.avgClusterSize / segments * segments = 0 := by
      rw [hzero]
      exact not_lt.mpr hroom
    refine ⟨segmentIndex c search seqId layer start (stop - start)
      ((stop - start) / c.avgClusterSize / segments * segments), ?_, rfl, ?_, ?_, ?_,
      fun h hh => ?_⟩
    · simp only [buildSegment, if_neg hshort, if_neg hcount, if_neg hclusters]
      rfl
    · simp only [segmentIndex]
      omega
    · omega
    · simp [segmentIndex]
    · obtain ⟨i, -, rfl⟩ := mem_map.mp hh
      have hcovers : HeadCovers start (start + (stop - start)) (headSegment start (stop - start) _
          (search.cluster seqId layer i start _)) :=
        headCovers_segment fun t => search.lt seqId layer i start _ t (Nat.pos_of_ne_zero hclusters)
      rwa [show start + (stop - start) = stop by omega] at hcovers
  · intro hroom
    simp only [buildSegment, if_neg hshort, if_neg hcount, if_pos (hzero.mpr hroom)]
    rfl

end

/-- What `normalizeRetroinfer` leaves. -/
structure Admitted (c : Config) : Prop where
  sink : 0 < c.sinkTokens
  avg : 0 < c.avgClusterSize
  min : 0 < c.minIndexTokens
  update : 0 < c.updateTokens
  avg_le_min : c.avgClusterSize ≤ c.minIndexTokens
  avg_le_update : c.avgClusterSize ≤ c.updateTokens

theorem refuse_bind {c : Prop} [Decidable c] {message : String} {r : Except PyError Unit} :
    (refuse c message >>= fun _ => r) = .ok () ↔ ¬ c ∧ r = .ok () := by
  unfold refuse
  split
  · next h => exact ⟨fun hr => (nomatch hr), fun hr => absurd h hr.1⟩
  · next h => exact ⟨fun hr => ⟨h, hr⟩, fun hr => hr.2⟩

theorem refuse_eq_ok {c : Prop} [Decidable c] {message : String} :
    refuse c message = .ok () ↔ ¬ c := by
  unfold refuse
  split
  · next h => exact ⟨fun hr => (nomatch hr), fun hr => absurd h hr⟩
  · next h => exact ⟨fun _ => h, fun _ => rfl⟩

theorem admitted_of_normalize {c : Config} (h : normalizeRetroinfer c = .ok ()) : Admitted c := by
  simp only [normalizeRetroinfer, checkPositive, checkRatio, refuse_bind, refuse_eq_ok,
    not_not] at h
  obtain ⟨hsink, -, havg, hmin, hupdate, -, -, -, -, hdivides, hdivides'⟩ := h
  have hupdate' := Nat.pos_of_ne_zero hupdate
  have hmin' := Nat.pos_of_ne_zero hmin
  exact ⟨Nat.pos_of_ne_zero hsink, Nat.pos_of_ne_zero havg, hmin', hupdate',
    Nat.le_of_dvd hmin' (Nat.dvd_of_mod_eq_zero hdivides'),
    Nat.le_of_dvd hupdate' (Nat.dvd_of_mod_eq_zero hdivides)⟩

/-- Every index of a live sequence covers the tokens between the sink and one end, which is the
same in all layers and leaves the recent tokens out. -/
structure Indexed (c : Config) (m : Manager) : Prop where
  rows : ∀ id length, m.rowSeqLens.get? id = some length → 0 < length
  indices : ∀ id built, m.indices.get? id = some built → ∃ length stop,
    m.rowSeqLens.get? id = some length ∧ stop + c.recentTokens ≤ length ∧
      built.length = c.numLayers ∧ ∀ index ∈ built, Covers c c.sinkTokens stop index

section

variable {c : Config} {m : Manager} {search : Search} {seqId length : Nat}

theorem mapM_exists {α β : Type} {f : α → Except PyError β} {P : β → Prop} :
    ∀ {l : List α}, (∀ a ∈ l, ∃ b, f a = .ok b ∧ P b) →
      ∃ r, l.mapM f = .ok r ∧ r.length = l.length ∧ ∀ b ∈ r, P b
  | [], _ => ⟨[], rfl, rfl, by simp⟩
  | a :: l, h => by
    obtain ⟨b, hb, hP⟩ := h a mem_cons_self
    obtain ⟨r, hr, hlength, hall⟩ := mapM_exists fun a ha => h a (mem_cons_of_mem _ ha)
    refine ⟨b :: r, by rw [mapM_cons, hb, hr]; rfl, by simp [hlength], fun b' hb' => ?_⟩
    rcases mem_cons.mp hb' with rfl | hb'
    · exact hP
    · exact hall b' hb'

theorem Indexed.set (inv : Indexed c m) {built : List RetroInferIndex} {stop : Nat}
    (hlive : m.rowSeqLens.get? seqId = some length) (hstop : stop + c.recentTokens ≤ length)
    (hbuilt : built.length = c.numLayers)
    (hcovers : ∀ index ∈ built, Covers c c.sinkTokens stop index) :
    Indexed c { m with indices := m.indices.set seqId built } where
  rows := inv.rows
  indices := by
    intro id built' hget
    rw [get?_set] at hget
    split at hget
    · next heq =>
      cases hget
      exact ⟨length, stop, heq ▸ hlive, hstop, hbuilt, hcovers⟩
    · exact inv.indices id built' hget

theorem extendIndex_spec (adm : Admitted c) :
    ∀ (fuel : Nat) (previous : List RetroInferIndex) (stop : Nat) (m : Manager), Indexed c m →
      m.rowSeqLens.get? seqId = some length → stop + c.recentTokens ≤ length →
      previous.length = c.numLayers → (∀ index ∈ previous, Covers c c.sinkTokens stop index) →
      length < fuel + stop →
      ∃ m', extendIndex c search seqId length fuel previous stop m = (.ok (), m') ∧ Indexed c m'
  | 0, _, stop, m, _, _, hstop, _, _, hfuel => by omega
  | fuel + 1, previous, stop, m, inv, hlive, hstop, hlength, hcovers, hfuel => by
    rw [extendIndex]
    split
    · next hroom =>
      have hupdate := adm.update
      have hext : ∀ e ∈ (List.range c.numLayers).zip previous, ∃ index, (do
          let new ← buildSegment c search seqId e.1 stop (stop + c.updateTokens) 1
          appendIndex e.2 new) = .ok index ∧
            Covers c c.sinkTokens (stop + c.updateTokens) index := by
        intro e he
        obtain ⟨new, hnew, hcover⟩ := (buildSegment_spec search seqId e.1 stop (stop + c.updateTokens) 1
          adm.avg Nat.one_pos (by have := adm.avg_le_update; omega) (by omega)).1
          (by have := adm.avg_le_update; omega)
        obtain ⟨index, hindex, hcover'⟩ :=
          covers_append (hcovers e.2 (of_mem_zip he).2) hcover
        exact ⟨index, by rw [hnew]; exact hindex, hcover'⟩
      obtain ⟨built, hbuilt, hsize, hall⟩ := mapM_exists hext
      have hstop' : stop + c.updateTokens + c.recentTokens ≤ length := by omega
      have hsize' : built.length = c.numLayers := by simp [hsize, hlength]
      obtain ⟨m', hrun, inv'⟩ := extendIndex_spec adm fuel built (stop + c.updateTokens) _
        (inv.set hlive hstop' hsize' hall) hlive hstop' hsize' hall (by omega)
      refine ⟨m', ?_, inv'⟩
      simp only [bind_run, PyM.lift_run, hbuilt, PyM.modify_run]
      exact hrun
    · exact ⟨m, rfl, inv⟩

def Blocked (c : Config) (m : Manager) (seqId : Nat) : Prop :=
  c.profiling = false ∧ m.indices.get? seqId = none ∧
    ∃ length, m.rowSeqLens.get? seqId = some length ∧
      c.sinkTokens + c.recentTokens + c.minIndexTokens ≤ length ∧
      length - c.recentTokens - c.sinkTokens <
        c.avgClusterSize * max 1 ((length - c.recentTokens - c.sinkTokens) / 8192)

theorem firstIndex_spec (adm : Admitted c) (inv : Indexed c m)
    (hlive : m.rowSeqLens.get? seqId = some length)
    (hmin : c.sinkTokens + c.recentTokens + c.minIndexTokens ≤ length) :
    (c.avgClusterSize * max 1 ((length - c.recentTokens - c.sinkTokens) / 8192) ≤
        length - c.recentTokens - c.sinkTokens →
      ∃ m', firstIndex c search seqId length m = (.ok (), m') ∧ Indexed c m') ∧
    (length - c.recentTokens - c.sinkTokens <
        c.avgClusterSize * max 1 ((length - c.recentTokens - c.sinkTokens) / 8192) →
      firstIndex c search seqId length m =
        (.error (.valueError "RetroInfer index has no clusters."), m)) := by
  have hlong : ¬ (length : Int) - c.recentTokens - c.sinkTokens < c.minIndexTokens := by omega
  have havg := adm.avg_le_min
  have hpos := adm.min
  have hsegment := fun layer => buildSegment_spec search seqId layer c.sinkTokens
    (length - c.recentTokens) (max 1 ((length - c.recentTokens - c.sinkTokens) / 8192)) adm.avg
    (by omega) (by omega) (by omega)
  simp only [firstIndex, if_neg hlong]
  constructor
  · intro hroom
    obtain ⟨built, hbuilt, hsize, hall⟩ := mapM_exists fun layer (_ : layer ∈
      List.range c.numLayers) => (hsegment layer).1 hroom
    refine ⟨_, by simp only [bind_run, PyM.lift_run, hbuilt, PyM.modify_run],
      inv.set hlive (by omega) (by simpa using hsize) hall⟩
  · intro hroom
    obtain ⟨n, hn⟩ : ∃ n, c.numLayers = n + 1 := ⟨c.numLayers - 1, by have := c.layers_pos; omega⟩
    rw [hn, range_succ_eq_map, mapM_cons, (hsegment 0).2 hroom]
    rfl

theorem updateIndex_spec (adm : Admitted c) (inv : Indexed c m) (search : Search) (seqId : Nat) :
    (¬ Blocked c m seqId → ∃ m', updateIndex c search seqId m = (.ok (), m') ∧ Indexed c m') ∧
    (Blocked c m seqId → updateIndex c search seqId m =
      (.error (.valueError "RetroInfer index has no clusters."), m)) := by
  constructor
  · intro hfree
    simp only [updateIndex, bind_run, PyM.get_run]
    cases hprofiling : c.profiling with
    | true => exact ⟨m, rfl, inv⟩
    | false =>
      cases hlive : m.rowSeqLens.get? seqId with
      | none => exact ⟨m, rfl, inv⟩
      | some length =>
        cases hindex : m.indices.get? seqId with
        | none =>
          by_cases hmin : c.sinkTokens + c.recentTokens + c.minIndexTokens ≤ length
          · refine (firstIndex_spec adm inv hlive hmin).1 (not_lt.mp fun hlt => hfree ?_)
            exact ⟨hprofiling, hindex, length, hlive, hmin, hlt⟩
          · refine ⟨m, ?_, inv⟩
            have hshort : (length : Int) - c.recentTokens - c.sinkTokens < c.minIndexTokens := by
              omega
            simp [firstIndex, hshort]
        | some previous =>
          obtain ⟨length', stop, hlive', hstop, hsize, hall⟩ := inv.indices seqId previous hindex
          rw [hlive] at hlive'
          cases hlive'
          cases previous with
          | nil => exact absurd hsize c.layers_pos.ne
          | cons first rest =>
            have hlast := (hall first mem_cons_self).last
            simp only [head?_cons, hlast]
            exact extendIndex_spec adm (length + 1) _ stop m inv hlive hstop hsize hall (by omega)
  · rintro ⟨hprofiling, hindex, length, hlive, hmin, hlt⟩
    simp only [updateIndex, bind_run, PyM.get_run, hprofiling, hlive, hindex]
    exact (firstIndex_spec adm inv hlive hmin).2 hlt

end

section

variable {c : Config} {m : Manager} {seqId length layer : Nat}

/-- `row` reaches over `length` tokens, and holds each once for every head. -/
structure Partitions (c : Config) (length : Nat) (row : DecodeRow) : Prop where
  last : row.recentEnd = length
  offsets : ∀ index, row.index = some index → ∀ h ∈ index.heads, h.offsets = prefixSums h.sizes
  positions : ∀ head < c.heads, (row.positions head).Perm (List.range length)

theorem decodeRow_spec (adm : Admitted c) (inv : Indexed c m)
    (hlive : m.rowSeqLens.get? seqId = some length) (hlayer : layer < c.numLayers) :
    ∃ row, decodeRow c m layer seqId = .ok row ∧ Partitions c length row := by
  have hpos := inv.rows seqId length hlive
  have hsink := adm.sink
  cases hindex : m.indices.get? seqId with
  | none =>
    have hin : 0 < min c.sinkTokens length ∧ min c.sinkTokens length ≤ min c.sinkTokens length ∧
        min c.sinkTokens length ≤ length := by omega
    refine ⟨⟨min c.sinkTokens length, min c.sinkTokens length, length, none⟩, ?_, rfl, by simp,
      fun head _ => ?_⟩
    · simp only [decodeRow, hlive, hindex]
      exact if_neg (not_not.mpr hin)
    · have hsplit := range'_split (Nat.zero_le (min c.sinkTokens length)) hin.2.2
      simp only [DecodeRow.positions, append_nil, range_eq_range']
      exact .of_eq hsplit.symm
  | some built =>
    obtain ⟨length', stop, hlive', hstop, hsize, hall⟩ := inv.indices seqId built hindex
    rw [hlive] at hlive'
    cases hlive'
    have hget : layer < built.length := hsize ▸ hlayer
    have hcovers := hall built[layer] (getElem_mem hget)
    have hle := hcovers.le
    have hmin : min c.sinkTokens length = c.sinkTokens := by omega
    have hin : 0 < c.sinkTokens ∧ c.sinkTokens ≤ stop ∧ stop ≤ length := by omega
    refine ⟨⟨c.sinkTokens, stop, length, some built[layer]⟩, ?_, rfl, ?_, fun head hhead => ?_⟩
    · simp only [decodeRow, hlive, hindex, getElem?_eq_getElem hget, pure_bind, hcovers.last,
        hmin]
      exact if_neg (not_not.mpr hin)
    · rintro index heq h hh
      cases heq
      exact (hcovers.covers h hh).offsets
    · have hheads : head < built[layer].heads.length := hcovers.heads ▸ hhead
      have hhead' := hcovers.covers _ (getElem_mem hheads)
      simp only [DecodeRow.positions, getElem?_eq_getElem hheads, Option.elim_some]
      rw [flatten_clusterLists hhead'.offsets hhead'.sizes, range_eq_range',
        range_eq_range', ← Nat.sub_zero length,
        range'_split (Nat.zero_le stop) (Nat.sub_zero length ▸ hin.2.2),
        range'_split (Nat.zero_le c.sinkTokens) hle, Nat.sub_zero]
      exact (hhead'.positions.append_left _).append_right _

theorem buildDecodeComputeView_spec (adm : Admitted c) (inv : Indexed c m)
    (hlayer : layer < c.numLayers) (hne : m.decodeSeqIds ≠ []) {queries : Nat}
    (hfit : m.decodeSeqIds.length ≤ queries)
    (hlive : ∀ id ∈ m.decodeSeqIds, m.rowSeqLens.contains id = true) :
    ∃ rows, buildDecodeComputeView c m layer queries = .ok rows ∧ rows.length = queries ∧
      ∀ row ∈ rows, Partitions c row.recentEnd row := by
  have hcheck : ¬ (m.decodeSeqIds = [] ∨ m.decodeSeqIds.length > queries) := by
    rintro (hnil | hlong)
    · exact hne hnil
    · exact absurd hfit (not_le.mpr hlong)
  obtain ⟨first, rest, hcons⟩ := exists_cons_of_ne_nil hne
  have hbatch : ∀ id ∈ m.decodeSeqIds ++
      replicate (queries - m.decodeSeqIds.length) (m.decodeSeqIds.headD 0),
      ∃ row, decodeRow c m layer id = .ok row ∧ Partitions c row.recentEnd row := by
    intro id hid
    have hmem : id ∈ m.decodeSeqIds := by
      rcases mem_append.mp hid with hid | hid
      · exact hid
      · rw [eq_of_mem_replicate hid, hcons]
        exact mem_cons_self
    obtain ⟨length, hlength⟩ := contains_iff.mp (hlive id hmem)
    obtain ⟨row, hrow, hparts⟩ := decodeRow_spec adm inv hlength hlayer
    exact ⟨row, hrow, hparts.last.symm ▸ hparts⟩
  obtain ⟨rows, hrows, hsize, hall⟩ := mapM_exists hbatch
  refine ⟨rows, ?_, ?_, hall⟩
  · simp only [buildDecodeComputeView, if_neg hcheck]
    exact hrows
  · rw [hsize, length_append, length_replicate]
    omega

end

section

variable {c : Config} {m m' : Manager}

theorem Indexed.growRow (inv : Indexed c m) {count : Nat} (hcount : 0 < count) (seqId : Nat) :
    Indexed c (growRow count m seqId) where
  rows := by
    intro id length hget
    simp only [RetroInfer.growRow, get?_set] at hget
    split at hget
    · cases hget
      omega
    · exact inv.rows id length hget
  indices := by
    intro id built hget
    obtain ⟨length, stop, hlive, hstop, hrest⟩ := inv.indices id built hget
    by_cases heq : id = seqId
    · subst heq
      exact ⟨length + count, stop, by simp [RetroInfer.growRow, hlive], by omega, hrest⟩
    · exact ⟨length, stop, by simp [RetroInfer.growRow, get?_set_ne _ _ heq, hlive], hstop, hrest⟩

theorem Indexed.step (adm : Admitted c) (inv : Indexed c m) (step : Step c m m') :
    Indexed c m' := by
  cases step with
  | prefill hcount => exact inv.growRow hcount _
  | @decode seqIds _ =>
    have hrows : Indexed c (seqIds.foldl (RetroInfer.growRow 1) m) :=
      foldlRecOn seqIds (RetroInfer.growRow 1) (motive := Indexed c) inv fun _ h id _ =>
        h.growRow Nat.one_pos id
    exact ⟨hrows.rows, hrows.indices⟩
  | forwardEnd search seqIds =>
    refine keeps_iff.mp (wp_mono (forEach_inv (I := fun _ m => Indexed c m)
      (fun id _ m inv => ?_) seqIds m inv) (fun _ _ h => h) fun _ _ h => h)
    by_cases hblocked : Blocked c m id
    · exact (wp_of_error ((updateIndex_spec adm inv search id).2 hblocked)).mpr inv
    · obtain ⟨m', hrun, inv'⟩ := (updateIndex_spec adm inv search id).1 hblocked
      exact (wp_of_ok hrun).mpr inv'
  | free seqId =>
    refine ⟨fun id length hget => ?_, fun id built hget => ?_⟩
    · simp only [freeSeq, get?_erase] at hget
      split at hget
      · cases hget
      · exact inv.rows id length hget
    · simp only [freeSeq, get?_erase] at hget ⊢
      split at hget
      · cases hget
      · next hne => simpa [if_neg hne] using inv.indices id built hget

theorem indexed_of_reachable (adm : Admitted c) (h : Reachable c m) : Indexed c m := by
  induction h with
  | refl => exact ⟨by simp, by simp⟩
  | tail _ step ih => exact ih.step adm step

/-- In every state of a history of a configuration that is admitted, also after failed updates, the
sink, the clusters and the tail of every live sequence hold each of its positions once, and the view
of a decode step is built. -/
theorem reachable_index_partitions (hok : normalizeRetroinfer c = .ok ()) (h : Reachable c m) :
    (∀ id length, m.rowSeqLens.get? id = some length → ∀ layer < c.numLayers,
      ∃ row, decodeRow c m layer id = .ok row ∧ Partitions c length row) ∧
    (m.decodeSeqIds ≠ [] → (∀ id ∈ m.decodeSeqIds, m.rowSeqLens.contains id = true) →
      ∀ layer < c.numLayers, ∀ queries, m.decodeSeqIds.length ≤ queries →
        ∃ rows, buildDecodeComputeView c m layer queries = .ok rows ∧ rows.length = queries ∧
          ∀ row ∈ rows, Partitions c row.recentEnd row) ∧
    (∀ search id, (∃ m', updateIndex c search id m = (.ok (), m')) ↔ ¬ Blocked c m id) ∧
    (c.avgClusterSize ≤ 8192 → ∀ id, ¬ Blocked c m id) := by
  have adm := admitted_of_normalize hok
  have inv := indexed_of_reachable adm h
  refine ⟨fun id length hlive layer hlayer => decodeRow_spec adm inv hlive hlayer,
    fun hne hlive layer hlayer queries hfit =>
      buildDecodeComputeView_spec adm inv hlayer hne hfit hlive, fun search id => ⟨?_, ?_⟩, ?_⟩
  · rintro ⟨m', hrun⟩ hblocked
    rw [(updateIndex_spec adm inv search id).2 hblocked] at hrun
    cases hrun
  · intro hfree
    obtain ⟨m', hrun, -⟩ := (updateIndex_spec adm inv search id).1 hfree
    exact ⟨m', hrun⟩
  · rintro hsmall id ⟨-, -, length, -, hmin, hlt⟩
    obtain ⟨span, hspan⟩ : ∃ span, span = length - c.recentTokens - c.sinkTokens := ⟨_, rfl⟩
    rw [← hspan] at hlt
    have havg := adm.avg_le_min
    rcases Nat.lt_or_ge 1 (span / 8192) with hmany | hone
    · rw [max_eq_right hmany.le] at hlt
      have hle := Nat.mul_le_mul_right (span / 8192) hsmall
      omega
    · rw [max_eq_left hone] at hlt
      omega

def firstCluster : Search := ⟨fun _ _ _ _ _ _ => 0, fun _ _ _ _ _ _ h => h⟩

def wideClusters : Config :=
  ⟨4, 64, 16384, 16384, 16384, 1 / 2, 1 / 4, false, 1, 1, Nat.one_pos, Nat.one_pos⟩

theorem wideClusters_ok : normalizeRetroinfer wideClusters = .ok () := by
  norm_num [normalizeRetroinfer, checkPositive, checkRatio, refuse_bind, refuse_eq_ok,
    wideClusters]

/-- A prompt of 16452 tokens is to be indexed in two parts of half a cluster each. -/
theorem wide_clusters_fail :
    normalizeRetroinfer wideClusters = .ok () ∧ ∃ m, Reachable wideClusters m ∧
      updateIndex wideClusters firstCluster 0 m =
        (.error (.valueError "RetroInfer index has no clusters."), m) := by
  refine ⟨wideClusters_ok, growRow 16452 {} 0, .single (.prefill (by decide)), ?_⟩
  rfl

def narrowClusters : Config :=
  ⟨1, 1, 2, 2, 2, 1 / 2, 1 / 4, false, 1, 1, Nat.one_pos, Nat.one_pos⟩

theorem narrowClusters_ok : normalizeRetroinfer narrowClusters = .ok () := by
  norm_num [normalizeRetroinfer, checkPositive, checkRatio, refuse_bind, refuse_eq_ok,
    narrowClusters]

/-- A prompt of four tokens is indexed. -/
def narrowPrompt : Manager :=
  (onForwardEnd narrowClusters firstCluster [0] (growRow 4 {} 0)).2

def narrowDecode (m : Manager) : Manager :=
  (onForwardEnd narrowClusters firstCluster [0] (prepareDecode [0] m)).2

theorem narrowDecode_reachable {m : Manager} (h : Reachable narrowClusters m)
    (live : m.rowSeqLens.contains 0 = true) : Reachable narrowClusters (narrowDecode m) :=
  (h.tail (.decode (by simpa using live))).tail (.forwardEnd firstCluster [0])

/-- After two decode steps the index has a second segment, up to position 5. -/
theorem reachable_index_partitions_appended :
    ∃ row, decodeRow narrowClusters (narrowDecode (narrowDecode narrowPrompt)) 0 0 = .ok row ∧
      row.recentStart = 5 ∧ Partitions narrowClusters 6 row := by
  have prompt : Reachable narrowClusters narrowPrompt :=
    (Relation.ReflTransGen.refl.tail (.prefill (by decide))).tail (.forwardEnd firstCluster [0])
  have run := narrowDecode_reachable (narrowDecode_reachable prompt rfl) rfl
  obtain ⟨row, hrow, parts⟩ :=
    (reachable_index_partitions narrowClusters_ok run).1 0 6 rfl 0 Nat.one_pos
  have start : (decodeRow narrowClusters (narrowDecode (narrowDecode narrowPrompt)) 0 0).map
      DecodeRow.recentStart = .ok 5 := rfl
  rw [hrow] at start
  exact ⟨row, hrow, Except.ok.inj start, parts⟩

end

end SparseEngine.RetroInfer
