import SparseEngine.CacheManager.Standard
import SparseEngine.PrefixCache.References

/-! Device and host pools are maps from token indices to values. -/

namespace SparseEngine

open List Function

theorem length_filter_zip (keep : Nat → Bool) : ∀ (offsets slots : List Nat),
    slots.length = offsets.length →
    (((offsets.zip slots).filter fun e => keep e.1).map Prod.snd).length =
      (offsets.filter keep).length
  | [], _, _ => by simp
  | o :: offsets, [], h => by simp at h
  | o :: offsets, x :: slots, h => by
    have ih := length_filter_zip keep offsets slots (by simpa using h)
    rw [zip_cons_cons, filter_cons, filter_cons]
    split <;> simpa using ih

theorem count_filter_split {α : Type} (keep : α → Bool) (f : α → Nat) (x : Nat) : ∀ l : List α,
    ((l.filter keep).map f).count x + ((l.filter fun a => !keep a).map f).count x =
      (l.map f).count x
  | [] => rfl
  | a :: l => by
    have ih := count_filter_split keep f x l
    rw [filter_cons, filter_cons, map_cons, count_cons]
    cases keep a
    · simp only [Bool.false_eq_true, if_false, Bool.not_false, if_true, map_cons,
        count_cons]
      omega
    · simp only [Bool.not_true, Bool.false_eq_true, if_false, if_true, map_cons,
        count_cons]
      omega

section

variable {V : Type}

def copyInto (target source : Nat → V) : List (Nat × Nat) → Nat → V
  | [] => target
  | e :: pairs => copyInto (update target e.1 (source e.2)) source pairs

theorem copyInto_of_not_mem {source : Nat → V} {x : Nat} : ∀ (pairs : List (Nat × Nat))
    (target : Nat → V), x ∉ pairs.map Prod.fst → copyInto target source pairs x = target x
  | [], _, _ => rfl
  | e :: pairs, target, outside => by
    rw [map_cons, mem_cons, not_or] at outside
    rw [copyInto, copyInto_of_not_mem pairs _ outside.2, update_of_ne outside.1]

theorem copyInto_eq {source : Nat → V} {x : Nat} {v : V} : ∀ (pairs : List (Nat × Nat))
    (target : Nat → V), (∀ e ∈ pairs, e.1 = x → source e.2 = v) →
    (target x = v ∨ x ∈ pairs.map Prod.fst) → copyInto target source pairs x = v
  | [], _, _, held => held.resolve_right (by simp)
  | e :: pairs, target, reads, held => by
    rw [copyInto]
    refine copyInto_eq pairs _ (fun e' he' => reads e' (mem_cons_of_mem e he')) ?_
    by_cases hx : x = e.1
    · left
      rw [hx, update_self]
      exact reads e mem_cons_self hx.symm
    · rw [update_of_ne hx]
      rcases held with held | held
      · exact Or.inl held
      · rw [map_cons, mem_cons] at held
        exact Or.inr (held.resolve_left hx)

end

def StandardPrefixBlockPayload.offsets (blockSize : Nat) (payload : StandardPrefixBlockPayload) :
    List Nat :=
  payload.retainedOffsets.getD (range blockSize)

def payloadDeviceSlots (blockSize : Nat) (payload : StandardPrefixBlockPayload) :
    Except PyError (List Nat) :=
  match payload.tokenSlots with
  | none => .error (.runtimeError "Prefix offload block has inconsistent device-slot payload")
  | some slots =>
    if slots.length = payload.residentTokens blockSize then .ok slots
    else .error (.runtimeError "Prefix offload block has inconsistent device-slot payload")

def payloadRetainedOffsets (blockSize : Nat) (payload : StandardPrefixBlockPayload) :
    Except PyError (Option (List Nat)) :=
  match payload.retainedOffsets with
  | none => .ok none
  | some offsets =>
    if offsets.any (blockSize ≤ ·) then
      .error (.runtimeError "Prefix block contains invalid retained token offsets.")
    else
      .ok (some offsets)

def tokenIndices (blockSize : Nat) (blockIndices : List Nat) : List Nat :=
  blockIndices.flatMap fun i => (range blockSize).map (i * blockSize + ·)

def retainedTokenIndices (blockSize : Nat) (blockIndices : List Nat)
    (retainedOffsets : List (Option (List Nat))) : Except PyError (List Nat) :=
  if blockIndices.length ≠ retainedOffsets.length then
    .error (.valueError "Host block indices and retained offsets must have equal length.")
  else if retainedOffsets.all Option.isNone then
    .ok (tokenIndices blockSize blockIndices)
  else
    .ok ((blockIndices.zip retainedOffsets).flatMap fun e =>
      (e.2.getD (range blockSize)).map (e.1 * blockSize + ·))

def hostTokenIndices (blockSize : Nat) (payloads : List StandardPrefixBlockPayload)
    (hostIndices : List Nat) : Except PyError (List Nat) := do
  let offsets ← payloads.mapM (payloadRetainedOffsets blockSize)
  retainedTokenIndices blockSize hostIndices offsets

/-- The index vectors that `submit_d2h` and `submit_h2d` give to the kernels. -/
def transferVectors (blockSize : Nat) (batch : List (StandardPrefixBlockPayload × Nat)) :
    Except PyError (List Nat × List Nat) := do
  let parts ← (batch.map Prod.fst).mapM (payloadDeviceSlots blockSize)
  let moving := (batch.zip parts).filter fun e => !e.2.isEmpty
  let hosts ← hostTokenIndices blockSize (moving.map (·.1.1)) (moving.map (·.1.2))
  return ((moving.map (·.2)).flatten, hosts)

/-- The slots of a block beside its host token indices at block index `h`. -/
def blockPairs (blockSize : Nat) (payload : StandardPrefixBlockPayload) (h : Nat) :
    List (Nat × Nat) :=
  (payload.tokenSlots.getD []).zip ((payload.offsets blockSize).map (h * blockSize + ·))

/-- The payload has one slot for each offset it keeps. -/
structure Transferable (blockSize : Nat) (payload : StandardPrefixBlockPayload) : Prop where
  sized : ∀ slots, payload.tokenSlots = some slots →
    slots.length = (payload.offsets blockSize).length
  inside : ∀ offset ∈ payload.offsets blockSize, offset < blockSize

theorem residentTokens_eq (blockSize : Nat) (payload : StandardPrefixBlockPayload) :
    payload.residentTokens blockSize = (payload.offsets blockSize).length := by
  unfold StandardPrefixBlockPayload.residentTokens StandardPrefixBlockPayload.offsets
  cases payload.retainedOffsets with
  | none => simp
  | some offsets => rfl

variable {blockSize : Nat}

theorem payloadDeviceSlots_ok {payload : StandardPrefixBlockPayload} {slots : List Nat}
    (ok : Transferable blockSize payload) (present : payload.tokenSlots = some slots) :
    payloadDeviceSlots blockSize payload = .ok slots := by
  rw [payloadDeviceSlots, present]
  exact if_pos ((ok.sized slots present).trans (residentTokens_eq ..).symm)

theorem payloadRetainedOffsets_ok {payload : StandardPrefixBlockPayload}
    (ok : Transferable blockSize payload) :
    payloadRetainedOffsets blockSize payload = .ok payload.retainedOffsets := by
  rw [payloadRetainedOffsets]
  cases h : payload.retainedOffsets with
  | none => rfl
  | some offsets =>
    have hall : offsets.any (blockSize ≤ ·) = false := by
      rw [any_eq_false]
      intro offset present
      have hlt := ok.inside offset (by rw [StandardPrefixBlockPayload.offsets, h]; exact present)
      simpa using hlt
    simp only [hall, Bool.false_eq_true, if_false]

theorem retainedTokenIndices_ok (blockSize : Nat) (batch : List (StandardPrefixBlockPayload × Nat)) :
    retainedTokenIndices blockSize (batch.map Prod.snd)
        (batch.map fun e => e.1.retainedOffsets) =
      .ok (batch.flatMap fun e => (e.1.offsets blockSize).map (e.2 * blockSize + ·)) := by
  have hzip : (batch.map Prod.snd).zip (batch.map fun e => e.1.retainedOffsets) =
      batch.map fun e => (e.2, e.1.retainedOffsets) := by
    rw [zip_map']
  unfold retainedTokenIndices
  rw [if_neg (by simp)]
  split
  · next full =>
    rw [tokenIndices, flatMap_map]
    refine congrArg Except.ok (flatMap_congr fun e present => ?_)
    have hnone := all_eq_true.mp full e.1.retainedOffsets (mem_map_of_mem present)
    rw [Option.isNone_iff_eq_none] at hnone
    rw [StandardPrefixBlockPayload.offsets, hnone, Option.getD_none]
  · rw [hzip, flatMap_map]
    rfl

theorem zip_flatMap {α β γ : Type} {f : α → List β} {g : α → List γ} : ∀ {l : List α},
    (∀ a ∈ l, (f a).length = (g a).length) →
    (l.flatMap f).zip (l.flatMap g) = l.flatMap fun a => (f a).zip (g a)
  | [], _ => rfl
  | a :: l, h => by
    rw [flatMap_cons, flatMap_cons, flatMap_cons,
      zip_append (h a mem_cons_self),
      zip_flatMap fun a' ha' => h a' (mem_cons_of_mem a ha')]

theorem flatMap_filter_of_empty {α β : Type} {keep : α → Bool} {f : α → List β} : ∀ {l : List α},
    (∀ a ∈ l, keep a = false → f a = []) → (l.filter keep).flatMap f = l.flatMap f
  | [], _ => rfl
  | a :: l, h => by
    have ih := flatMap_filter_of_empty fun a' ha' => h a' (mem_cons_of_mem a ha')
    rw [filter_cons, flatMap_cons]
    cases hk : keep a with
    | true => rw [if_pos rfl, flatMap_cons, ih]
    | false => rw [if_neg (by simp), h a mem_cons_self hk, nil_append, ih]

theorem transferVectors_ok {batch : List (StandardPrefixBlockPayload × Nat)}
    (ok : ∀ e ∈ batch, Transferable blockSize e.1)
    (present : ∀ e ∈ batch, e.1.tokenSlots.isSome = true) :
    ∃ devices hosts, transferVectors blockSize batch = .ok (devices, hosts) ∧
      devices.zip hosts = batch.flatMap (fun e => blockPairs blockSize e.1 e.2) ∧
      devices.length = hosts.length := by
  have hslots : ∀ e ∈ batch, e.1.tokenSlots = some (e.1.tokenSlots.getD []) := by
    intro e he
    obtain ⟨slots, hs⟩ := Option.isSome_iff_exists.mp (present e he)
    rw [hs, Option.getD_some]
  have hlen : ∀ e ∈ batch, (e.1.tokenSlots.getD []).length =
      ((e.1.offsets blockSize).map (e.2 * blockSize + ·)).length := by
    intro e he
    rw [length_map]
    exact (ok e he).sized _ (hslots e he)
  set keep : StandardPrefixBlockPayload × Nat → Bool := fun e => !(e.1.tokenSlots.getD []).isEmpty
    with hkeep
  have hparts : (batch.map Prod.fst).mapM (payloadDeviceSlots blockSize) =
      .ok (batch.map fun e => e.1.tokenSlots.getD []) := by
    rw [PyM.mapM_ok (g := fun payload => payload.tokenSlots.getD []), map_map]
    · rfl
    · intro payload hp
      obtain ⟨e, he, rfl⟩ := mem_map.mp hp
      exact payloadDeviceSlots_ok (ok e he) (hslots e he)
  have hmoving : (batch.zip (batch.map fun e => e.1.tokenSlots.getD [])).filter
      (fun e => !e.2.isEmpty) = (batch.filter keep).map fun e => (e, e.1.tokenSlots.getD []) := by
    have hzip : batch.zip (batch.map fun e => e.1.tokenSlots.getD []) =
        batch.map fun e => (e, e.1.tokenSlots.getD []) := by
      conv_lhs => rw [← map_id batch, map_map, zip_map']
      rfl
    rw [hzip, filter_map]
    rfl
  have hsub : ∀ e ∈ batch.filter keep, e ∈ batch := fun e he => (mem_filter.mp he).1
  have hhosts : hostTokenIndices blockSize ((batch.filter keep).map (·.1))
      ((batch.filter keep).map (·.2)) = .ok ((batch.filter keep).flatMap fun e =>
        (e.1.offsets blockSize).map (e.2 * blockSize + ·)) := by
    rw [hostTokenIndices, PyM.mapM_ok (g := fun payload => payload.retainedOffsets)]
    · rw [map_map]
      exact retainedTokenIndices_ok blockSize (batch.filter keep)
    · intro payload hp
      obtain ⟨e, he, rfl⟩ := mem_map.mp hp
      exact payloadRetainedOffsets_ok (ok e (hsub e he))
  refine ⟨(batch.filter keep).flatMap fun e => e.1.tokenSlots.getD [],
    (batch.filter keep).flatMap fun e => (e.1.offsets blockSize).map (e.2 * blockSize + ·),
    ?_, ?_, ?_⟩
  · simp only [transferVectors, hparts, bind, Except.bind, hmoving, map_map, comp_def,
      hhosts, pure, Except.pure, flatMap_def]
  · rw [zip_flatMap fun e he => hlen e (hsub e he)]
    refine flatMap_filter_of_empty fun e he hempty => ?_
    have hnil : e.1.tokenSlots.getD [] = [] := by simpa [hkeep] using hempty
    rw [hnil, zip_nil_left]
  · rw [length_flatMap, length_flatMap]
    exact congrArg sum (map_congr_left fun e he => hlen e (hsub e he))

/-- The slices of the promotion slots that `_attach_prefix_cache_if_needed` assigns. -/
def assignSlices (blockSize : Nat) : List StandardPrefixBlockPayload → List Nat →
    List StandardPrefixBlockPayload
  | [], _ => []
  | payload :: payloads, slots =>
    let n := payload.residentTokens blockSize
    { payload with tokenSlots := some (slots.take n) } ::
      assignSlices blockSize payloads (slots.drop n)

def promotionSlotCount (blockSize : Nat) (payloads : List StandardPrefixBlockPayload) : Nat :=
  (payloads.map (·.residentTokens blockSize)).sum

/-- The same payload on new slots. -/
structure AssignedTo (blockSize : Nat) (payload payload' : StandardPrefixBlockPayload) : Prop where
  slots : ∃ slots, payload'.tokenSlots = some slots ∧
    slots.length = (payload.offsets blockSize).length
  host : payload'.hostBlockIndex = payload.hostBlockIndex
  retained : payload'.retainedOffsets = payload.retainedOffsets

theorem assignSlices_spec : ∀ (payloads : List StandardPrefixBlockPayload)
    (slots : List Nat), slots.length = promotionSlotCount blockSize payloads →
    Forall₂ (AssignedTo blockSize) payloads (assignSlices blockSize payloads slots) ∧
      (assignSlices blockSize payloads slots).flatMap (·.tokenSlots.getD []) = slots
  | [], slots, h => by
    refine ⟨.nil, ?_⟩
    rw [promotionSlotCount, map_nil, sum_nil, length_eq_zero_iff] at h
    rw [h]
    rfl
  | payload :: payloads, slots, h => by
    rw [promotionSlotCount, map_cons, sum_cons] at h
    have hrest : (slots.drop (payload.residentTokens blockSize)).length =
        promotionSlotCount blockSize payloads := by
      rw [length_drop, promotionSlotCount]
      omega
    obtain ⟨hall, hflat⟩ := assignSlices_spec payloads _ hrest
    refine ⟨.cons ⟨⟨_, rfl, ?_⟩, rfl, rfl⟩ hall, ?_⟩
    · rw [length_take, ← residentTokens_eq]
      omega
    · simp only [assignSlices, flatMap_cons, Option.getD_some, hflat, take_append_drop]

/-- The offset is in the keep mask of the `k`-th block. -/
def keptOffset (blockSize : Nat) (selected : List Int) (k : Nat) (offset : Nat) : Bool :=
  decide (((k * blockSize + offset : Nat) : Int) ∈ selected)

/-- What the first loop of `prefix_cache_prune` collects. -/
structure PruneGather where
  newOffsets : List (List Nat) := []
  residentSlots : List Nat := []
  keepPositions : List Nat := []
  dropPositions : List Nat := []

/-- The first loop of `prefix_cache_prune`. -/
def gatherPrune (blockSize : Nat) (selected : List Int) :
    Nat → Nat → List StandardPrefixBlockPayload → Except PyError PruneGather
  | _, _, [] => .ok {}
  | k, cursor, payload :: payloads =>
    let oldOffsets := payload.offsets blockSize
    let keep := keptOffset blockSize selected k
    match payload.tokenSlots with
    | none => do
      let rest ← gatherPrune blockSize selected (k + 1) cursor payloads
      return { rest with newOffsets := oldOffsets.filter keep :: rest.newOffsets }
    | some oldSlots =>
      if oldSlots.length ≠ oldOffsets.length then
        .error (.runtimeError "prefix prune found inconsistent Standard device payload")
      else do
        let rest ← gatherPrune blockSize selected (k + 1) (cursor + oldOffsets.length) payloads
        return {
          newOffsets := oldOffsets.filter keep :: rest.newOffsets
          residentSlots := oldSlots ++ rest.residentSlots
          keepPositions :=
            ((oldOffsets.zipIdx cursor).filter fun e => keep e.1).map Prod.snd ++ rest.keepPositions
          dropPositions :=
            ((oldOffsets.zipIdx cursor).filter fun e => !keep e.1).map Prod.snd ++
              rest.dropPositions }

/-- `all_slots[positions]`. -/
def gatherSlots (slots positions : List Nat) : List Nat := positions.map (slots.getD · 0)

/-- The last loop of `prefix_cache_prune`. -/
def splitKept : List StandardPrefixBlockPayload → List (List Nat) → List Nat →
    List StandardPrefixBlockPayload
  | payload :: payloads, offsets :: newOffsets, kept =>
    match payload.tokenSlots with
    | none => { payload with retainedOffsets := some offsets } :: splitKept payloads newOffsets kept
    | some _ =>
      { payload with
        retainedOffsets := some offsets
        tokenSlots := some (kept.take offsets.length) } ::
        splitKept payloads newOffsets (kept.drop offsets.length)
  | _, _, _ => []

/-- `prefix_cache_prune` on the payloads of the affected blocks. -/
def prunePayloads (blockSize : Nat) (selected : List Int)
    (payloads : List StandardPrefixBlockPayload) :
    Except PyError (List StandardPrefixBlockPayload × List Nat) := do
  let gathered ← gatherPrune blockSize selected 0 0 payloads
  let kept := gatherSlots gathered.residentSlots gathered.keepPositions
  let dropped := gatherSlots gathered.residentSlots gathered.dropPositions
  return (splitKept payloads gathered.newOffsets kept, dropped)

/-- A payload that lost the offsets outside `keep`. -/
structure PrunedTo (blockSize : Nat) (keep : Nat → Bool)
    (payload payload' : StandardPrefixBlockPayload) : Prop where
  offsets : payload'.retainedOffsets = some ((payload.offsets blockSize).filter keep)
  host : payload'.hostBlockIndex = payload.hostBlockIndex
  absent : payload.tokenSlots = none → payload'.tokenSlots = none
  slots : ∀ slots, payload.tokenSlots = some slots → payload'.tokenSlots =
    some ((((payload.offsets blockSize).zip slots).filter fun e => keep e.1).map Prod.snd)

theorem gatherSlots_block (keep : Nat → Bool) (after : List Nat) : ∀ (offsets slots before : List Nat),
    slots.length = offsets.length →
    gatherSlots (before ++ (slots ++ after))
        (((offsets.zipIdx before.length).filter fun e => keep e.1).map Prod.snd) =
      ((offsets.zip slots).filter fun e => keep e.1).map Prod.snd
  | [], _, _, _ => by simp [gatherSlots]
  | offset :: offsets, [], _, h => by simp at h
  | offset :: offsets, slot :: slots, before, h => by
    have ih := gatherSlots_block keep after offsets slots (before ++ [slot]) (by simpa using h)
    rw [length_append, length_singleton, append_assoc, singleton_append] at ih
    have hget : (before ++ (slot :: slots ++ after)).getD before.length 0 = slot := by
      simp [getD_eq_getElem?_getD]
    rw [zipIdx_cons, zip_cons_cons, filter_cons, filter_cons]
    cases hk : keep offset with
    | true =>
      rw [if_pos rfl, if_pos rfl, map_cons, map_cons, gatherSlots, map_cons, hget]
      exact congrArg _ ih
    | false =>
      rw [if_neg (by simp), if_neg (by simp)]
      exact ih

def slotsOfAll (payloads : List StandardPrefixBlockPayload) : List Nat :=
  payloads.flatMap (·.tokenSlots.getD [])

theorem gatherPrune_spec {selected : List Int} :
    ∀ (payloads : List StandardPrefixBlockPayload) (k cursor : Nat) (gathered : PruneGather)
      (before after : List Nat), before.length = cursor →
      gatherPrune blockSize selected k cursor payloads = .ok gathered →
      ∀ pruned dropped, pruned = splitKept payloads gathered.newOffsets
          (gatherSlots (before ++ (gathered.residentSlots ++ after)) gathered.keepPositions) →
        dropped = gatherSlots (before ++ (gathered.residentSlots ++ after)) gathered.dropPositions →
        Forall₂ (fun p p' => ∃ keep, PrunedTo blockSize keep p p') payloads pruned ∧
          ∀ x, (slotsOfAll pruned).count x + dropped.count x = (slotsOfAll payloads).count x
  | [], k, cursor, gathered, before, after, hcursor, h, pruned, dropped, hpruned, hdropped => by
    cases h
    rw [hpruned, hdropped]
    exact ⟨.nil, fun x => by simp [slotsOfAll, splitKept, gatherSlots]⟩
  | payload :: payloads, k, cursor, gathered, before, after, hcursor, h, pruned, dropped, hpruned,
      hdropped => by
    rw [gatherPrune] at h
    cases hslots : payload.tokenSlots with
    | none =>
      rw [hslots] at h
      cases hrest : gatherPrune blockSize selected (k + 1) cursor payloads with
      | error e => simp only [hrest, bind, Except.bind] at h; cases h
      | ok rest =>
        simp only [hrest, bind, Except.bind, pure, Except.pure] at h
        cases h
        obtain ⟨hall, hcount⟩ := gatherPrune_spec payloads (k + 1) cursor rest before after hcursor
          hrest _ _ rfl rfl
        simp only [splitKept, hslots] at hpruned
        rw [hpruned, hdropped]
        refine ⟨.cons ⟨keptOffset blockSize selected k, rfl, rfl, fun _ => rfl,
          fun slots hs => ?_⟩ hall, fun x => ?_⟩
        · rw [hslots] at hs
          cases hs
        · have := hcount x
          simp only [slotsOfAll, flatMap_cons, hslots, Option.getD_none, nil_append] at this ⊢
          exact this
    | some oldSlots =>
      rw [hslots] at h
      simp only at h
      split at h
      · cases h
      · next hlen =>
        have hlen := not_not.mp hlen
        cases hrest : gatherPrune blockSize selected (k + 1)
            (cursor + (payload.offsets blockSize).length) payloads with
        | error e => simp only [hrest, bind, Except.bind] at h; cases h
        | ok rest =>
          simp only [hrest, bind, Except.bind, pure, Except.pure] at h
          cases h
          obtain ⟨hall, hcount⟩ := gatherPrune_spec payloads (k + 1) _ rest (before ++ oldSlots) after
            (by rw [length_append, hlen, hcursor]) hrest _ _ rfl rfl
          have hassoc : before ++ (oldSlots ++ rest.residentSlots ++ after) =
              before ++ oldSlots ++ (rest.residentSlots ++ after) := by
            simp only [append_assoc]
          have hblock := fun keep => gatherSlots_block keep (rest.residentSlots ++ after)
            (payload.offsets blockSize) oldSlots before hlen
          have hsplit : ∀ positions positions', gatherSlots
              (before ++ (oldSlots ++ rest.residentSlots ++ after)) (positions ++ positions') =
              gatherSlots (before ++ (oldSlots ++ (rest.residentSlots ++ after))) positions ++
                gatherSlots (before ++ oldSlots ++ (rest.residentSlots ++ after)) positions' := by
            intro positions positions'
            rw [gatherSlots, map_append, ← gatherSlots, ← gatherSlots, hassoc,
              append_assoc before oldSlots]
          have hsize := length_filter_zip (keptOffset blockSize selected k) _ _ hlen
          rw [hcursor.symm] at hpruned hdropped
          simp only [splitKept, hslots, hsplit, hblock] at hpruned
          rw [hsplit, hblock fun offset => !keptOffset blockSize selected k offset] at hdropped
          rw [← hsize, take_left, drop_left] at hpruned
          rw [hpruned, hdropped]
          refine ⟨.cons ⟨keptOffset blockSize selected k, rfl, rfl, fun hs => ?_,
            fun slots hs => ?_⟩ hall, fun x => ?_⟩
          · rw [hslots] at hs
            cases hs
          · rw [hslots] at hs
            cases hs
            rfl
          · have hparts := count_filter_split
              (fun e : Nat × Nat => keptOffset blockSize selected k e.1) Prod.snd x
              ((payload.offsets blockSize).zip oldSlots)
            rw [map_snd_zip hlen.le] at hparts
            have := hcount x
            simp only [slotsOfAll, flatMap_cons, hslots, Option.getD_some,
              count_append] at this ⊢
            omega

theorem prunePayloads_spec {selected : List Int} {payloads pruned : List StandardPrefixBlockPayload}
    {dropped : List Nat} (h : prunePayloads blockSize selected payloads = .ok (pruned, dropped)) :
    Forall₂ (fun p p' => ∃ keep, PrunedTo blockSize keep p p') payloads pruned ∧
      ∀ x, (slotsOfAll pruned).count x + dropped.count x = (slotsOfAll payloads).count x := by
  rw [prunePayloads] at h
  cases hg : gatherPrune blockSize selected 0 0 payloads with
  | error e => simp only [hg, bind, Except.bind] at h; cases h
  | ok gathered =>
    simp only [hg, bind, Except.bind, pure, Except.pure] at h
    cases h
    refine gatherPrune_spec payloads 0 0 gathered [] [] rfl hg _ _ ?_ ?_
    · rw [nil_append, append_nil]
    · rw [nil_append, append_nil]

end SparseEngine
