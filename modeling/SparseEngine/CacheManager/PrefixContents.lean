import SparseEngine.CacheManager.HitCapacity
import SparseEngine.CacheManager.LookupMemo

/-! What the prefix index is for: a set of token prefixes, in which a lookup finds the longest. -/

namespace SparseEngine.RadixPrefixIndex

open PyM

variable {ι π : Type} [LinearOrder ι] {cfg : PrefixIndexConfig ι} {s : RadixPrefixIndex ι π}
  {H : Set (List Int × Option ι)} {blocks : Dict ι (PrefixCacheBlock ι π)}

/-- The blocks from a root down to `last` hold `tokens`. -/
inductive Spells (blocks : Dict ι (PrefixCacheBlock ι π)) : Option ι → List Int → Prop
  | nil : Spells blocks none []
  | snoc {id : ι} {b : PrefixCacheBlock ι π} {tokens : List Int} : blocks.get? id = some b →
      Spells blocks b.parentBlockId tokens → Spells blocks (some id) (tokens ++ b.tokenIds)

def prefixes (s : RadixPrefixIndex ι π) : Set (List Int) :=
  { tokens | ∃ last, Spells s.blocks last tokens }

/-- A block of `H` as the cache managers complete it. -/
structure Filled (cfg : PrefixIndexConfig ι) (H : Set (List Int × Option ι))
    (b : PrefixCacheBlock ι π) : Prop where
  hashed : b.stableBlockId = cfg.hashBlock b.tokenIds b.parentBlockId
  full : b.tokenIds.length = cfg.blockSize
  mem : (b.tokenIds, b.parentBlockId) ∈ H

def AllFilled (cfg : PrefixIndexConfig ι) (H : Set (List Int × Option ι))
    (s : RadixPrefixIndex ι π) : Prop :=
  ∀ id b, s.blocks.get? id = some b → Filled cfg H b

/-- The indexes of the runs that insert blocks of `H` only. -/
inductive FilledReachable (cfg : PrefixIndexConfig ι) (H : Set (List Int × Option ι)) :
    RadixPrefixIndex ι π → Prop
  | init : FilledReachable cfg H {}
  | step {s : RadixPrefixIndex ι π} (op : Op ι π) : FilledReachable cfg H s →
      (∀ b, op = .insertBlock b → Filled cfg H b) → FilledReachable cfg H (op.next cfg s)

theorem FilledReachable.reachable (h : FilledReachable cfg H s) : Reachable cfg s := by
  induction h with
  | init => exact .init
  | step op _ _ ih => exact .step op ih

omit [LinearOrder ι] in
theorem Filled.sameIdentity {o n : PrefixCacheBlock ι π} (h : Filled cfg H o)
    (hid : SameIdentity o n) : Filled cfg H n := by
  refine ⟨?_, hid.tokenIds ▸ h.full, hid.tokenIds ▸ hid.parentBlockId ▸ h.mem⟩
  rw [hid.stableBlockId, hid.tokenIds, hid.parentBlockId, h.hashed]

theorem FilledReachable.filled (h : FilledReachable cfg H s) : AllFilled cfg H s := by
  induction h with
  | init => simp [AllFilled]
  | @step s op hr hop ih =>
    intro id b hb
    cases run_outcome hr.reachable.wf op with
    | steps hs =>
      obtain ⟨o, ho, hid⟩ := HitCapacityState.steps_back hs hb
      exact (ih id o ho).sameIdentity hid
    | @insert new n heq hins =>
      rw [hins.blocks, Dict.get?_set] at hb
      split at hb
      · cases hb
        exact (hop new heq).sameIdentity ⟨rfl, rfl, rfl, rfl, rfl⟩
      · exact ih id b hb
    | taken _ hs => exact ih id b (by rwa [hs] at hb)

omit [LinearOrder ι] in
theorem blockIdsLoop_snoc (n : Nat) : ∀ (tokens : List Int) (parent : Option ι),
    blockIdsLoop cfg (n + 1) tokens parent = blockIdsLoop cfg n tokens parent ++
      [cfg.hashBlock (blockTokens cfg.blockSize tokens n)
        ((blockIdsLoop cfg n tokens parent).getLast?.or parent)] := by
  induction n with
  | zero => simp [blockIdsLoop, blockTokens]
  | succ n ih =>
    intro tokens parent
    rw [blockIdsLoop, ih, blockIdsLoop, List.cons_append, List.getLast?_cons]
    simp [blockTokens, List.drop_drop, Nat.add_mul, Nat.add_comm, Option.or_some]

omit [LinearOrder ι] in
theorem blockIdsLoop_length (n : Nat) : ∀ (tokens : List Int) (parent : Option ι),
    (blockIdsLoop cfg n tokens parent).length = n := by
  induction n with
  | zero => simp [blockIdsLoop]
  | succ n ih => simp [blockIdsLoop, ih]

omit [LinearOrder ι] in
theorem take_blockIdsLoop {n k : Nat} (h : n ≤ k) (tokens : List Int) (parent : Option ι) :
    (blockIdsLoop cfg k tokens parent).take n = blockIdsLoop cfg n tokens parent := by
  refine List.ext_getElem? fun i => ?_
  rw [List.getElem?_take, blockIdsLoop_get, blockIdsLoop_get]
  by_cases hi : i < n
  · rw [if_pos hi, if_pos hi, if_pos (hi.trans_le h)]
  · rw [if_neg hi, if_neg hi]

omit [LinearOrder ι] in
theorem pathFrom_snoc {par : ParentMap ι} {b : ι} : ∀ {l : List ι} {q : Option ι},
    PathFrom par q (l ++ [b]) ↔ PathFrom par q l ∧ par b = some (l.getLast?.or q)
  | [], q => by simp [PathFrom]
  | a :: l, q => by
    rw [List.cons_append, PathFrom, PathFrom, pathFrom_snoc, List.getLast?_cons, and_assoc]
    simp

variable {tokens : List Int}

/-- An indexed chain of the ids of `tokens` holds these tokens: the ids separate their blocks. -/
theorem spells_of_pathFrom (separates : SeparatesBlocks cfg H) (hwf : WellFormed s)
    (hfilled : AllFilled cfg H s) (n : Nat)
    (hmem : ∀ i < n, (blockTokens cfg.blockSize tokens i, parentIdAt cfg tokens none i) ∈ H)
    (hn : n * cfg.blockSize ≤ tokens.length)
    (h : PathFrom (parentMap s.blocks) none (blockIdsLoop cfg n tokens none)) :
    Spells s.blocks (blockIdsLoop cfg n tokens none).getLast? (tokens.take (n * cfg.blockSize)) := by
  induction n with
  | zero => simpa [blockIdsLoop] using Spells.nil
  | succ n ih =>
    have hle : n * cfg.blockSize ≤ (n + 1) * cfg.blockSize := Nat.mul_le_mul_right _ (Nat.le_succ n)
    rw [blockIdsLoop_snoc, Option.or_none, pathFrom_snoc, Option.or_none] at h
    obtain ⟨b, hb, hparent⟩ := parentMap_eq.mp h.2
    have hfill := hfilled _ b hb
    have hlast : (blockIdsLoop cfg n tokens none).getLast? = parentIdAt cfg tokens none n := by
      cases n with
      | zero => rfl
      | succ n =>
        rw [List.getLast?_eq_getElem?, blockIdsLoop_length, Nat.add_sub_cancel, blockIdsLoop_get,
          if_pos (Nat.lt_succ_self n), parentIdAt]
    have htokens : b.tokenIds = blockTokens cfg.blockSize tokens n :=
      congrArg Prod.fst (separates hfill.mem (hmem n (Nat.lt_succ_self n)) (by
        rw [← hlast]
        exact hfill.hashed.symm.trans (hwf.ids _ b hb)))
    rw [blockIdsLoop_snoc, Option.or_none, List.getLast?_append, List.getLast?_singleton,
      Option.some_or, take_block, ← htokens]
    exact .snoc (htokens ▸ hb) (hparent.symm ▸ ih
      (fun i hi => hmem i (Nat.lt_succ_of_lt hi)) (hle.trans hn) h.1)

/-- A chain that holds `tokens` has the ids of `tokens`. -/
theorem pathFrom_of_spells (hwf : WellFormed s) (hfilled : AllFilled cfg H s) (n : Nat) :
    ∀ {last : Option ι}, n * cfg.blockSize ≤ tokens.length →
      Spells s.blocks last (tokens.take (n * cfg.blockSize)) →
      last = (blockIdsLoop cfg n tokens none).getLast? ∧
        PathFrom (parentMap s.blocks) none (blockIdsLoop cfg n tokens none) := by
  induction n with
  | zero =>
    intro last _ h
    rw [Nat.zero_mul, List.take_zero] at h
    generalize hnil : ([] : List Int) = l at h
    cases h with
    | nil => exact ⟨rfl, trivial⟩
    | @snoc id b prior hb _ =>
      have hlength := congrArg List.length hnil
      rw [List.length_append, (hfilled id b hb).full, List.length_nil] at hlength
      have := cfg.blockSize_pos
      omega
  | succ n ih =>
    intro last hn h
    have hle : n * cfg.blockSize ≤ (n + 1) * cfg.blockSize := Nat.mul_le_mul_right _ (Nat.le_succ n)
    rw [take_block] at h
    generalize hsplit : tokens.take (n * cfg.blockSize) ++ blockTokens cfg.blockSize tokens n = l at h
    have hblock : (blockTokens cfg.blockSize tokens n).length = cfg.blockSize := blockTokens_length hn
    cases h with
    | nil =>
      have hlength := congrArg List.length hsplit
      rw [List.length_append, hblock, List.length_nil] at hlength
      have := cfg.blockSize_pos
      omega
    | @snoc id b prior hb hprior =>
      obtain ⟨hhash, hfull, -⟩ := hfilled id b hb
      obtain ⟨rfl, htokens⟩ := List.append_inj' hsplit (hblock.trans hfull.symm)
      obtain ⟨hparent, hpath⟩ := ih (hle.trans hn) hprior
      have hid : id = cfg.hashBlock (blockTokens cfg.blockSize tokens n)
          (blockIdsLoop cfg n tokens none).getLast? := by
        rw [htokens, ← hparent, ← hhash, hwf.ids id b hb]
      rw [blockIdsLoop_snoc, Option.or_none, ← hid, List.getLast?_append, pathFrom_snoc,
        Option.or_none, parentMap_of_get hb, hparent]
      exact ⟨rfl, hpath, rfl⟩

/-- What a lookup of the first `maxTokens` tokens returns: the longest stored prefix of them. -/
structure LongestPrefix (cfg : PrefixIndexConfig ι) (s : RadixPrefixIndex ι π) (tokens : List Int)
    (maxTokens : Int) (n : Nat) (last : Option ι) : Prop where
  bounded : (n * cfg.blockSize : Int) ≤ max 0 (min maxTokens tokens.length)
  stored : Spells s.blocks last (tokens.take (n * cfg.blockSize))
  longest : ∀ m : Nat, (m * cfg.blockSize : Int) ≤ min maxTokens tokens.length →
    tokens.take (m * cfg.blockSize) ∈ prefixes s → m ≤ n

theorem lookup_longestPrefix (separates : SeparatesBlocks cfg H) (h : FilledReachable cfg H s)
    (maxTokens : Int) (hashed : ∀ b ∈ hashedForTokens cfg tokens maxTokens, b ∈ H) : ∃ n last,
      s.matchLongestBlockIds cfg (blockIdsForTokens cfg tokens (some maxTokens)) =
        .ok (n * cfg.blockSize, last, n) ∧ LongestPrefix cfg s tokens maxTokens n last := by
  have hwf := h.reachable.wf
  set k := (min maxTokens (tokens.length : Int)).toNat / cfg.blockSize with hk
  have hids : blockIdsForTokens cfg tokens (some maxTokens) = blockIdsLoop cfg k tokens none := rfl
  have hlength : (blockIdsLoop cfg k tokens none).length = k := blockIdsLoop_length k _ _
  set n := PathFrom.depth (parentMap s.blocks) none (blockIdsLoop cfg k tokens none) with hn
  have hle : n ≤ k := PathFrom.depth_le_length.trans hlength.le
  have hroom : ∀ m ≤ k, m * cfg.blockSize ≤ (min maxTokens (tokens.length : Int)).toNat := fun m hm =>
    (Nat.mul_le_mul_right _ hm).trans (Nat.div_mul_le_self _ _)
  have hspells : Spells s.blocks (blockIdsLoop cfg n tokens none).getLast?
      (tokens.take (n * cfg.blockSize)) := by
    refine spells_of_pathFrom separates hwf h.filled n (fun i hi => hashed _ ?_) ?_ ?_
    · refine List.mem_of_getElem? (i := i) ?_
      rw [hashedForTokens, hashedBlocks_get, if_pos (hi.trans_le hle)]
    · have := hroom n hle
      omega
    · rw [← take_blockIdsLoop hle]
      exact (PathFrom.take_iff_le_depth (hle.trans hlength.ge)).mpr le_rfl
  refine ⟨n, (blockIdsLoop cfg n tokens none).getLast?, ?_, ⟨?_, hspells, fun m hm hmem => ?_⟩⟩
  · rw [hids, matchLongestBlockIds_eq hwf, ← hn, hitResult, take_blockIdsLoop hle]
    split
    · next hzero => rw [hzero, Nat.zero_mul, blockIdsLoop, List.getLast?_nil]
    · rfl
  · have := hroom n hle
    omega
  · obtain ⟨last, hlast⟩ := hmem
    have hmk : m ≤ k := (Nat.le_div_iff_mul_le cfg.blockSize_pos).mpr (by omega)
    have hpath := (pathFrom_of_spells hwf h.filled m (by omega) hlast).2
    rw [← take_blockIdsLoop hmk] at hpath
    exact (PathFrom.take_iff_le_depth (hmk.trans hlength.ge)).mp hpath

theorem Spells.transfer {blocks' : Dict ι (PrefixCacheBlock ι π)} {last : Option ι}
    (h : Spells blocks last tokens) (hblocks : ∀ id o, blocks.get? id = some o →
      ∃ n, blocks'.get? id = some n ∧ n.tokenIds = o.tokenIds ∧ n.parentBlockId = o.parentBlockId) :
    Spells blocks' last tokens := by
  induction h with
  | nil => exact .nil
  | snoc hb _ ih =>
    obtain ⟨n, hn, htokens, hparent⟩ := hblocks _ _ hb
    rw [← htokens]
    exact .snoc hn (hparent.symm ▸ ih)

theorem Spells.unique {last : Option ι} {tokens' : List Int} (h : Spells blocks last tokens)
    (h' : Spells blocks last tokens') : tokens = tokens' := by
  induction h generalizing tokens' with
  | nil =>
    cases h'
    rfl
  | snoc hb _ ih =>
    cases h' with
    | snoc hb' hprior =>
      cases hb.symm.trans hb'
      rw [ih hprior]

theorem exists_spells (hwf : WellFormed s) : ∀ id ∈ s.blocks.keySet,
    ∃ tokens, Spells s.blocks (some id) tokens := by
  refine hwf.forest.parent_induction fun id hid ih => ?_
  obtain ⟨b, hb⟩ := Dict.mem_keySet.mp hid
  cases hp : b.parentBlockId with
  | none => exact ⟨[] ++ b.tokenIds, .snoc hb (by rw [hp]; exact .nil)⟩
  | some p =>
    obtain ⟨tokens, htokens⟩ := ih p ((parentMap_of_get hb).trans (by rw [hp]))
    exact ⟨tokens ++ b.tokenIds, .snoc hb (by rwa [hp])⟩

/-- An insertion adds the prefix that its block completes and nothing else. -/
theorem prefixes_insert (hwf : WellFormed s) {s' : RadixPrefixIndex ι π} {b : PrefixCacheBlock ι π}
    (h : InsertStep s b s') : ∃ tokens, Spells s.blocks b.parentBlockId tokens ∧
      prefixes s' = insert (tokens ++ b.tokenIds) (prefixes s) := by
  have hparent : ∃ tokens, Spells s.blocks b.parentBlockId tokens := by
    cases hp : b.parentBlockId with
    | none => exact ⟨[], .nil⟩
    | some p =>
      obtain ⟨pb, hpb, -⟩ := h.admissible.2 p hp
      exact exists_spells hwf p (Dict.mem_keySet.mpr ⟨pb, hpb⟩)
  obtain ⟨prior, hprior⟩ := hparent
  have hold : ∀ id o, s.blocks.get? id = some o → s'.blocks.get? id = some o := by
    intro id o ho
    rw [h.blocks, Dict.get?_set_ne _ _ (by rintro rfl; rw [h.new] at ho; cases ho)]
    exact ho
  have hmono : ∀ {last : Option ι} {tokens : List Int}, Spells s.blocks last tokens →
      Spells s'.blocks last tokens := fun hs => hs.transfer fun id o ho => ⟨o, hold id o ho, rfl, rfl⟩
  have hfresh : ∀ {c : PrefixCacheBlock ι π} {id : ι}, s.blocks.get? id = some c →
      c.parentBlockId ≠ some b.stableBlockId := fun hc heq => by
    obtain ⟨c, hindexed⟩ := Dict.mem_keySet.mp
      (hwf.forest.closed _ _ ((parentMap_of_get hc).trans (by rw [heq])))
    rw [h.new] at hindexed
    cases hindexed
  have hinserted : s'.blocks.get? b.stableBlockId = some b := by rw [h.blocks, Dict.get?_set_self]
  -- No indexed block continues the new one.
  have hback : ∀ {last : Option ι} {tokens : List Int}, Spells s'.blocks last tokens →
      Spells s.blocks last tokens ∨
      last = some b.stableBlockId ∧ tokens = prior ++ b.tokenIds := by
    intro last tokens hs
    induction hs with
    | nil => exact .inl .nil
    | @snoc id c tokens hc _ ih =>
      rw [h.blocks, Dict.get?_set] at hc
      split at hc
      · next hid =>
        cases hc
        rcases ih with hs | ⟨hself, -⟩
        · exact .inr ⟨by rw [hid], by rw [hs.unique hprior]⟩
        · obtain ⟨pb, hpb, -⟩ := h.admissible.2 _ hself
          rw [h.new] at hpb
          cases hpb
      · rcases ih with hs | ⟨hnew, -⟩
        · exact .inl (.snoc hc hs)
        · exact (hfresh hc hnew).elim
  refine ⟨prior, hprior, Set.ext fun tokens => ⟨?_, ?_⟩⟩
  · rintro ⟨last, hs⟩
    rcases hback hs with hs | ⟨-, rfl⟩
    · exact .inr ⟨last, hs⟩
    · exact .inl rfl
  · rintro (rfl | ⟨last, hs⟩)
    · exact ⟨_, .snoc hinserted (hmono hprior)⟩
    · exact ⟨last, hmono hs⟩

/-- The insertion of a block that is indexed already adds nothing. -/
theorem prefixes_existing (separates : SeparatesBlocks cfg H) (hwf : WellFormed s)
    (hfilled : AllFilled cfg H s) {b old : PrefixCacheBlock ι π} (hb : Filled cfg H b)
    (hold : s.blocks.get? b.stableBlockId = some old) : ∃ tokens,
      Spells s.blocks b.parentBlockId tokens ∧ tokens ++ b.tokenIds ∈ prefixes s := by
  have hfill := hfilled _ old hold
  obtain ⟨htokens, hparent⟩ : b.tokenIds = old.tokenIds ∧ b.parentBlockId = old.parentBlockId :=
    Prod.mk.inj (separates hb.mem hfill.mem
      (hb.hashed.symm.trans ((hwf.ids _ old hold).symm.trans hfill.hashed)))
  obtain ⟨tokens, hspells⟩ := exists_spells hwf _ (Dict.mem_keySet.mpr ⟨old, hold⟩)
  cases hspells with
  | @snoc _ c prior hc hprior =>
    cases hold.symm.trans hc
    rw [htokens, hparent]
    exact ⟨prior, hprior, _, .snoc hold hprior⟩

theorem Steps.prefixes_subset {s' : RadixPrefixIndex ι π} (h : Steps s s') :
    prefixes s' ⊆ prefixes s := by
  rintro tokens ⟨last, hspells⟩
  refine ⟨last, hspells.transfer fun id n hn => ?_⟩
  obtain ⟨o, ho, hid⟩ := HitCapacityState.steps_back h hn
  exact ⟨o, ho, hid.tokenIds.symm, hid.parentBlockId.symm⟩

/-- The index is a set of token prefixes: a lookup returns the longest one that starts its tokens, an
insertion that returns adds the prefix that its block completes, and nothing else adds one. -/
theorem index_refines_prefixes (separates : SeparatesBlocks cfg H) (h : FilledReachable cfg H s) :
    (∀ (tokens : List Int) maxTokens, (∀ b ∈ hashedForTokens cfg tokens maxTokens, b ∈ H) →
      ∃ n last, s.matchLongestBlockIds cfg (blockIdsForTokens cfg tokens (some maxTokens)) =
        .ok (n * cfg.blockSize, last, n) ∧ LongestPrefix cfg s tokens maxTokens n last) ∧
    (∀ b, Filled cfg H b → wp (insertBlock cfg b)
      (fun _ s' => ∃ tokens, Spells s.blocks b.parentBlockId tokens ∧
        prefixes s' = insert (tokens ++ b.tokenIds) (prefixes s))
      (fun _ s' => prefixes s' = prefixes s) s) ∧
    ∀ op : Op ι π, (∀ b, op ≠ .insertBlock b) → prefixes (op.next cfg s) ⊆ prefixes s := by
  have hwf := h.reachable.wf
  refine ⟨fun tokens maxTokens => lookup_longestPrefix separates h maxTokens, fun b hb => ?_,
    fun op hop => ?_⟩
  · refine wp_mono (insertBlock_spec cfg hwf b) ?_ fun _ s' hs => ?_
    · rintro r s' (⟨old, n, hold, rfl, hsteps, hblocks⟩ | ⟨n, rfl, hins⟩)
      · obtain ⟨tokens, hprior, hmem⟩ := prefixes_existing separates hwf h.filled hb hold
        refine ⟨tokens, hprior, (hsteps.prefixes_subset.antisymm ?_).trans
          (Set.insert_eq_of_mem hmem).symm⟩
        rintro other ⟨last, hspells⟩
        refine ⟨last, hspells.transfer fun id o ho => ?_⟩
        rw [hblocks, Dict.get?_set]
        split
        · next hid =>
          cases hold.symm.trans (hid ▸ ho)
          exact ⟨_, rfl, rfl, rfl⟩
        · exact ⟨o, ho, rfl, rfl⟩
      · obtain ⟨tokens, hprior, hprefixes⟩ := prefixes_insert hwf hins
        exact ⟨tokens, hprior, hprefixes⟩
    · rw [prefixes, hs.1.2]
      rfl
  · cases run_outcome hwf op with
    | steps hs => exact hs.prefixes_subset
    | insert heq _ => exact (hop _ heq).elim
    | taken _ hs =>
      rw [hs]
      exact subset_rfl

/-- A lookup and a second insertion of the indexed block. -/
theorem index_refines_prefixes_demo :
    let s := Op.next memoConfig (.insertBlock memoBlock) {}
    (∃ n last, s.matchLongestBlockIds memoConfig (blockIdsForTokens memoConfig [1, 2] (some 2)) =
      .ok (n * 1, last, n) ∧ LongestPrefix memoConfig s [1, 2] 2 n last) ∧
    wp (insertBlock memoConfig memoBlock)
      (fun _ s' => ∃ tokens, Spells s.blocks none tokens ∧
        prefixes s' = insert (tokens ++ [1]) (prefixes s))
      (fun _ s' => prefixes s' = prefixes s) s := by
  have filled : Filled memoConfig { b | b ∈ memoHashed } memoBlock := ⟨rfl, rfl, List.mem_cons_self⟩
  have collisionFree : NoCollision demoDigest [7] memoHashed := by decide +kernel
  have separates : SeparatesBlocks memoConfig { b | b ∈ memoHashed } :=
    collisionFree.separates rfl (by decide +kernel)
  have refines := index_refines_prefixes separates
    (.step (.insertBlock memoBlock) .init (by rintro b ⟨⟩; exact filled))
  exact ⟨refines.1 [1, 2] 2 fun _ hb => hb, refines.2.1 memoBlock filled⟩

end SparseEngine.RadixPrefixIndex
