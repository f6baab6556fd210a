import SparseEngine.Lib.Bytes
import SparseEngine.PrefixCache.Index

/-! A block id is the SHA-256 digest of the fingerprint, the id of the parent and the packed tokens
of the block. -/

namespace SparseEngine

abbrev Digest := List Byte

/-- `_pack_token_ids`. -/
def packTokenIds (tokenIds : List Int) : List Byte := packIntegers 8 tokenIds

/-- `struct.pack` accepts the token. -/
abbrev TokenFits (token : Int) : Prop := Fits 8 token

def parentBytes : Option Digest → List Byte
  | none => [0]
  | some parentBlockId => 1 :: parentBlockId

def stablePrefixBlockId (sha256 : List Byte → Digest) (fingerprint : List Byte)
    (tokenIds : List Int) (parentBlockId : Option Digest) : Digest :=
  sha256 (fingerprint ++ parentBytes parentBlockId ++ packTokenIds tokenIds)

/-- The hash loop of `block_ids_for_tokens` over `n` blocks of the packed tokens. -/
def packedBlockIdsLoop (sha256 : List Byte → Digest) (fingerprint : List Byte) (blockBytes : Nat) :
    Nat → List Byte → Option Digest → List Digest
  | 0, _, _ => []
  | n + 1, packed, parent =>
    let read :=
      match parent with
      | none => fingerprint ++ [0]
      | some parentBlockId => fingerprint ++ [1] ++ parentBlockId
    let blockId := sha256 (read ++ packed.take blockBytes)
    blockId :: packedBlockIdsLoop sha256 fingerprint blockBytes n (packed.drop blockBytes)
      (some blockId)

/-- `block_ids_for_tokens` as it runs. -/
def packedBlockIds (sha256 : List Byte → Digest) (fingerprint : List Byte) (blockSize : Nat)
    (tokenIds : List Int) (maxTokens : Option Int := none) : List Digest :=
  let tokenLimit : Int :=
    match maxTokens with
    | none => tokenIds.length
    | some m => min m tokenIds.length
  let tokenLimit := tokenLimit / blockSize * blockSize
  if tokenLimit ≤ 0 then
    []
  else
    let packed := packTokenIds (tokenIds.take tokenLimit.toNat)
    let blockBytes := blockSize * 8
    packedBlockIdsLoop sha256 fingerprint blockBytes ((packed.length + blockBytes - 1) / blockBytes)
      packed none

section

open RadixPrefixIndex

variable {cfg : PrefixIndexConfig Digest} {sha256 : List Byte → Digest} {fingerprint : List Byte}

theorem packedBlockIdsLoop_eq (hash : cfg.hashBlock = stablePrefixBlockId sha256 fingerprint)
    (n : Nat) : ∀ (tokens : List Int) (parent : Option Digest), n * cfg.blockSize ≤ tokens.length →
    packedBlockIdsLoop sha256 fingerprint (cfg.blockSize * 8) n (packTokenIds tokens) parent =
      blockIdsLoop cfg n tokens parent := by
  induction n with
  | zero => intros; rfl
  | succ n ih =>
    intro tokens parent enough
    rw [Nat.add_mul, Nat.one_mul] at enough
    obtain ⟨hfirst, hrest⟩ := packIntegers_split 8 cfg.blockSize tokens (by omega)
    have hread : (match parent with
        | none => fingerprint ++ [0]
        | some parentBlockId => fingerprint ++ [1] ++ parentBlockId) =
        fingerprint ++ parentBytes parent := by
      cases parent with
      | none => rfl
      | some p => simp [parentBytes]
    have hid : sha256 (fingerprint ++ parentBytes parent ++
          (packTokenIds tokens).take (cfg.blockSize * 8)) =
        cfg.hashBlock (tokens.take cfg.blockSize) parent := by
      rw [hash, stablePrefixBlockId, packTokenIds, packTokenIds, hfirst]
    simp only [packedBlockIdsLoop, blockIdsLoop]
    rw [hread, hid, show (packTokenIds tokens).drop (cfg.blockSize * 8) =
      packTokenIds (tokens.drop cfg.blockSize) from hrest]
    rw [ih _ _ (by rw [List.length_drop]; omega)]

theorem blockIdsLoop_take {ι : Type} (cfg : PrefixIndexConfig ι) (n : Nat) :
    ∀ (tokens : List Int) (parent : Option ι),
    blockIdsLoop cfg n (tokens.take (n * cfg.blockSize)) parent = blockIdsLoop cfg n tokens parent := by
  induction n with
  | zero => intros; rfl
  | succ n ih =>
    intro tokens parent
    have hsum : (n + 1) * cfg.blockSize = cfg.blockSize + n * cfg.blockSize := by ring
    have hfirst : (tokens.take ((n + 1) * cfg.blockSize)).take cfg.blockSize =
        tokens.take cfg.blockSize := by
      rw [List.take_take, Nat.min_eq_left (by omega)]
    have hrest : (tokens.take ((n + 1) * cfg.blockSize)).drop cfg.blockSize =
        (tokens.drop cfg.blockSize).take (n * cfg.blockSize) := by
      rw [hsum, List.drop_take, Nat.add_sub_cancel_left]
    simp only [blockIdsLoop]
    rw [hfirst, hrest, ih]

theorem steps_of_multiple {d : Nat} (hd : 0 < d) (q : Nat) : (q * d + d - 1) / d = q := by
  rw [Nat.add_sub_assoc hd, Nat.mul_comm q d, Nat.mul_add_div hd,
    Nat.div_eq_of_lt (show d - 1 < d by omega), Nat.add_zero]

theorem packedBlockIds_limit (hash : cfg.hashBlock = stablePrefixBlockId sha256 fingerprint)
    (tokens : List Int) (limit : Int) (hle : limit ≤ tokens.length) :
    (if limit / cfg.blockSize * cfg.blockSize ≤ 0 then
        []
      else
        packedBlockIdsLoop sha256 fingerprint (cfg.blockSize * 8)
          (((packTokenIds (tokens.take (limit / cfg.blockSize * cfg.blockSize).toNat)).length +
            cfg.blockSize * 8 - 1) / (cfg.blockSize * 8))
          (packTokenIds (tokens.take (limit / cfg.blockSize * cfg.blockSize).toNat)) none) =
      blockIdsLoop cfg (limit.toNat / cfg.blockSize) tokens none := by
  have hpos := cfg.blockSize_pos
  rcases lt_or_ge limit 0 with hneg | hnonneg
  · have hquot : limit / cfg.blockSize < 0 := Int.ediv_neg_of_neg_of_pos hneg (by omega)
    rw [if_pos (by nlinarith), Int.toNat_eq_zero.mpr hneg.le, Nat.zero_div]
    rfl
  · obtain ⟨m, hm⟩ := Int.eq_ofNat_of_zero_le hnonneg
    rw [hm, ← Int.natCast_ediv, ← Int.natCast_mul, Int.toNat_natCast, Int.toNat_natCast]
    have hmle : m / cfg.blockSize * cfg.blockSize ≤ m := Nat.div_mul_le_self _ _
    split
    · next hzero =>
      have hnone : m / cfg.blockSize = 0 := by
        have : m / cfg.blockSize * cfg.blockSize = 0 := by omega
        exact (Nat.mul_eq_zero.mp this).resolve_right hpos.ne'
      rw [hnone]
      rfl
    · have hlen : (tokens.take (m / cfg.blockSize * cfg.blockSize)).length =
          m / cfg.blockSize * cfg.blockSize := by
        rw [List.length_take]
        omega
      have hcount : ((packTokenIds (tokens.take (m / cfg.blockSize * cfg.blockSize))).length +
          cfg.blockSize * 8 - 1) / (cfg.blockSize * 8) = m / cfg.blockSize := by
        rw [packTokenIds, packIntegers_length, hlen, Nat.mul_assoc]
        exact steps_of_multiple (by omega) _
      rw [hcount, packedBlockIdsLoop_eq hash _ _ _ (by rw [hlen]), blockIdsLoop_take]

theorem packedBlockIds_eq (hash : cfg.hashBlock = stablePrefixBlockId sha256 fingerprint)
    (tokens : List Int) (maxTokens : Option Int) :
    packedBlockIds sha256 fingerprint cfg.blockSize tokens maxTokens =
      blockIdsForTokens cfg tokens maxTokens := by
  cases maxTokens with
  | none => exact packedBlockIds_limit hash tokens _ (le_refl _)
  | some m => exact packedBlockIds_limit hash tokens _ (min_le_right _ _)

end

section

open RadixPrefixIndex

variable {ι : Type} {cfg : PrefixIndexConfig ι}

/-- The tokens of block `i`. -/
def blockTokens (blockSize : Nat) (tokens : List Int) (i : Nat) : List Int :=
  (tokens.drop (i * blockSize)).take blockSize

/-- The id of block `i` below `parent`. -/
def blockIdAt (cfg : PrefixIndexConfig ι) (tokens : List Int) (parent : Option ι) : Nat → ι
  | 0 => cfg.hashBlock (blockTokens cfg.blockSize tokens 0) parent
  | i + 1 => cfg.hashBlock (blockTokens cfg.blockSize tokens (i + 1))
      (some (blockIdAt cfg tokens parent i))

/-- The parent of block `i`. -/
def parentIdAt (cfg : PrefixIndexConfig ι) (tokens : List Int) (parent : Option ι) : Nat → Option ι
  | 0 => parent
  | i + 1 => some (blockIdAt cfg tokens parent i)

theorem blockIdAt_eq (tokens : List Int) (parent : Option ι) (i : Nat) :
    blockIdAt cfg tokens parent i =
      cfg.hashBlock (blockTokens cfg.blockSize tokens i) (parentIdAt cfg tokens parent i) := by
  cases i <;> rfl

theorem blockTokens_succ (blockSize : Nat) (tokens : List Int) (i : Nat) :
    blockTokens blockSize tokens (i + 1) = blockTokens blockSize (tokens.drop blockSize) i := by
  rw [blockTokens, blockTokens, List.drop_drop, Nat.add_mul, Nat.one_mul, Nat.add_comm]

theorem blockIdAt_succ (tokens : List Int) (parent : Option ι) (i : Nat) :
    blockIdAt cfg tokens parent (i + 1) = blockIdAt cfg (tokens.drop cfg.blockSize)
      (some (cfg.hashBlock (tokens.take cfg.blockSize) parent)) i := by
  induction i with
  | zero =>
    show cfg.hashBlock (blockTokens cfg.blockSize tokens (0 + 1)) _ = _
    rw [blockTokens_succ]
    simp only [blockIdAt, blockTokens, Nat.zero_mul, List.drop_zero]
  | succ i ih => rw [blockIdAt, ih, blockTokens_succ, blockIdAt]

/-- The tokens and the parent of each block that the loop of `block_ids_for_tokens` hashes. -/
def hashedBlocks (cfg : PrefixIndexConfig ι) :
    Nat → List Int → Option ι → List (List Int × Option ι)
  | 0, _, _ => []
  | n + 1, tokens, parent =>
    (tokens.take cfg.blockSize, parent) :: hashedBlocks cfg n (tokens.drop cfg.blockSize)
      (some (cfg.hashBlock (tokens.take cfg.blockSize) parent))

/-- What `block_ids_for_tokens` hashes. -/
def hashedForTokens (cfg : PrefixIndexConfig ι) (tokens : List Int)
    (maxTokens : Int := tokens.length) : List (List Int × Option ι) :=
  hashedBlocks cfg ((min maxTokens tokens.length).toNat / cfg.blockSize) tokens none

theorem blockIdsLoop_eq_map (n : Nat) : ∀ (tokens : List Int) (parent : Option ι),
    blockIdsLoop cfg n tokens parent =
      (hashedBlocks cfg n tokens parent).map fun b => cfg.hashBlock b.1 b.2 := by
  induction n with
  | zero => intros; rfl
  | succ n ih => intros; rw [blockIdsLoop, hashedBlocks, List.map_cons, ih]

theorem hashedBlocks_get (n : Nat) : ∀ (tokens : List Int) (parent : Option ι) (i : Nat),
    (hashedBlocks cfg n tokens parent)[i]? = if i < n then
      some (blockTokens cfg.blockSize tokens i, parentIdAt cfg tokens parent i) else none := by
  induction n with
  | zero => intro tokens parent i; simp [hashedBlocks]
  | succ n ih =>
    intro tokens parent i
    cases i with
    | zero => simp [hashedBlocks, parentIdAt, blockTokens]
    | succ i =>
      have hparent : parentIdAt cfg (tokens.drop cfg.blockSize)
          (some (cfg.hashBlock (tokens.take cfg.blockSize) parent)) i =
          parentIdAt cfg tokens parent (i + 1) := by
        cases i with
        | zero => simp [parentIdAt, blockIdAt, blockTokens]
        | succ i => exact congrArg some (blockIdAt_succ ..).symm
      rw [hashedBlocks, List.getElem?_cons_succ, ih, hparent, blockTokens_succ]
      simp only [Nat.add_lt_add_iff_right]

theorem blockIdsLoop_get (n : Nat) (tokens : List Int) (parent : Option ι) (i : Nat) :
    (blockIdsLoop cfg n tokens parent)[i]? =
      if i < n then some (blockIdAt cfg tokens parent i) else none := by
  rw [blockIdsLoop_eq_map, List.getElem?_map, hashedBlocks_get, blockIdAt_eq]
  split <;> rfl

variable {tokens tokens' : List Int} {i : Nat}

theorem mem_hashedForTokens (full : (i + 1) * cfg.blockSize ≤ tokens.length) :
    (blockTokens cfg.blockSize tokens i, parentIdAt cfg tokens none i) ∈
      hashedForTokens cfg tokens := by
  refine List.mem_of_getElem? (i := i) ?_
  rw [hashedForTokens, hashedBlocks_get, min_self, Int.toNat_natCast, if_pos]
  exact (Nat.le_div_iff_mul_le cfg.blockSize_pos).mpr full

theorem hashedBlocks_tokens (n : Nat) : ∀ (tokens : List Int) (parent : Option ι),
    n * cfg.blockSize ≤ tokens.length → ∀ b ∈ hashedBlocks cfg n tokens parent,
      b.1.length = cfg.blockSize ∧ ∀ t ∈ b.1, t ∈ tokens := by
  induction n with
  | zero => intro tokens parent _ b hb; cases hb
  | succ n ih =>
    intro tokens parent enough b hb
    rw [Nat.add_mul, Nat.one_mul] at enough
    rcases List.mem_cons.mp hb with rfl | hb
    · refine ⟨?_, fun t ht => List.mem_of_mem_take ht⟩
      rw [List.length_take]
      omega
    · obtain ⟨hlen, hmem⟩ := ih _ _ (by rw [List.length_drop]; omega) b hb
      exact ⟨hlen, fun t ht => List.mem_of_mem_drop (hmem t ht)⟩

theorem blockIdsForTokens_get (tokens : List Int) (i : Nat) :
    (blockIdsForTokens cfg tokens)[i]? =
      if i < tokens.length / cfg.blockSize then some (blockIdAt cfg tokens none i) else none := by
  rw [blockIdsForTokens, Int.toNat_natCast, blockIdsLoop_get]

theorem take_block (blockSize : Nat) (tokens : List Int) (i : Nat) :
    tokens.take ((i + 1) * blockSize) =
      tokens.take (i * blockSize) ++ blockTokens blockSize tokens i := by
  rw [blockTokens, Nat.add_mul, Nat.one_mul, List.take_add]

theorem blockTokens_length {blockSize : Nat} (full : (i + 1) * blockSize ≤ tokens.length) :
    (blockTokens blockSize tokens i).length = blockSize := by
  rw [Nat.add_mul, Nat.one_mul] at full
  rw [blockTokens, List.length_take, List.length_drop]
  omega

/-- No two of the blocks of `H` collide. -/
def SeparatesBlocks (cfg : PrefixIndexConfig ι) (H : Set (List Int × Option ι)) : Prop :=
  Set.InjOn (fun b => cfg.hashBlock b.1 b.2) H

variable {H : Set (List Int × Option ι)}

theorem blockIdAt_inj (separates : SeparatesBlocks cfg H)
    (hashed : ∀ b ∈ hashedForTokens cfg tokens, b ∈ H)
    (hashed' : ∀ b ∈ hashedForTokens cfg tokens', b ∈ H) :
    ∀ i j : Nat, (i + 1) * cfg.blockSize ≤ tokens.length → (j + 1) * cfg.blockSize ≤ tokens'.length →
      blockIdAt cfg tokens none i = blockIdAt cfg tokens' none j →
      tokens.take ((i + 1) * cfg.blockSize) = tokens'.take ((j + 1) * cfg.blockSize) := by
  have hsame : ∀ i j : Nat, (i + 1) * cfg.blockSize ≤ tokens.length →
      (j + 1) * cfg.blockSize ≤ tokens'.length →
      blockIdAt cfg tokens none i = blockIdAt cfg tokens' none j →
      blockTokens cfg.blockSize tokens i = blockTokens cfg.blockSize tokens' j ∧
        parentIdAt cfg tokens none i = parentIdAt cfg tokens' none j := fun i j hi hj h => by
    rw [blockIdAt_eq, blockIdAt_eq] at h
    exact Prod.mk.inj (separates (hashed _ (mem_hashedForTokens hi))
      (hashed' _ (mem_hashedForTokens hj)) h)
  intro i
  induction i with
  | zero =>
    intro j hi hj h
    obtain ⟨htokens, hparent⟩ := hsame 0 j hi hj h
    cases j with
    | zero => rw [take_block, take_block, htokens, Nat.zero_mul, List.take_zero, List.take_zero]
    | succ j => cases hparent
  | succ i ih =>
    intro j hi hj h
    obtain ⟨htokens, hparent⟩ := hsame (i + 1) j hi hj h
    cases j with
    | zero => cases hparent
    | succ j =>
      have hshorter : ∀ k, (k + 1) * cfg.blockSize ≤ (k + 1 + 1) * cfg.blockSize := fun k =>
        Nat.mul_le_mul_right _ (Nat.le_succ _)
      have hbefore := ih j ((hshorter i).trans hi) ((hshorter j).trans hj) (Option.some.inj hparent)
      rw [take_block _ tokens (i + 1), take_block _ tokens' (j + 1), htokens, hbefore]

theorem blockIdAt_congr :
    ∀ i, tokens.take ((i + 1) * cfg.blockSize) = tokens'.take ((i + 1) * cfg.blockSize) →
      blockIdAt cfg tokens none i = blockIdAt cfg tokens' none i := by
  have hblock : ∀ i, tokens.take ((i + 1) * cfg.blockSize) = tokens'.take ((i + 1) * cfg.blockSize) →
      blockTokens cfg.blockSize tokens i = blockTokens cfg.blockSize tokens' i := by
    intro i h
    have hcut := congrArg (List.drop (i * cfg.blockSize)) h
    rw [List.drop_take, List.drop_take] at hcut
    have hsize : (i + 1) * cfg.blockSize - i * cfg.blockSize = cfg.blockSize := by
      rw [Nat.add_mul, Nat.one_mul, Nat.add_sub_cancel_left]
    rwa [hsize] at hcut
  intro i
  induction i with
  | zero => intro h; rw [blockIdAt, blockIdAt, hblock 0 h]
  | succ i ih =>
    intro h
    have hbefore := congrArg (List.take ((i + 1) * cfg.blockSize)) h
    rw [List.take_take, List.take_take,
      Nat.min_eq_left (Nat.mul_le_mul_right _ (Nat.le_succ _))] at hbefore
    rw [blockIdAt, blockIdAt, hblock (i + 1) h, ih hbefore]

theorem blockId_eq_iff (separates : SeparatesBlocks cfg H)
    (hashed : ∀ b ∈ hashedForTokens cfg tokens, b ∈ H)
    (hashed' : ∀ b ∈ hashedForTokens cfg tokens', b ∈ H) {j : Nat} {x y : ι}
    (hx : (blockIdsForTokens cfg tokens)[i]? = some x)
    (hy : (blockIdsForTokens cfg tokens')[j]? = some y) :
    x = y ↔ tokens.take ((i + 1) * cfg.blockSize) = tokens'.take ((j + 1) * cfg.blockSize) := by
  rw [blockIdsForTokens_get] at hx hy
  split at hx
  · next hi =>
    split at hy
    · next hj =>
      cases hx
      cases hy
      have hi' : (i + 1) * cfg.blockSize ≤ tokens.length :=
        (Nat.le_div_iff_mul_le cfg.blockSize_pos).mp hi
      have hj' : (j + 1) * cfg.blockSize ≤ tokens'.length :=
        (Nat.le_div_iff_mul_le cfg.blockSize_pos).mp hj
      constructor
      · exact blockIdAt_inj separates hashed hashed' i j hi' hj'
      · intro h
        have hlen := congrArg List.length h
        rw [List.length_take, List.length_take, Nat.min_eq_left hi', Nat.min_eq_left hj'] at hlen
        have hij : i = j := Nat.succ.inj (Nat.eq_of_mul_eq_mul_right cfg.blockSize_pos hlen)
        cases hij
        exact blockIdAt_congr i h
    · cases hy
  · cases hx

end

/-- The bytes that `_stable_prefix_block_id` hashes. -/
def hashedBytes (fingerprint : List Byte) (b : List Int × Option Digest) : List Byte :=
  fingerprint ++ parentBytes b.2 ++ packTokenIds b.1

/-- No two of the blocks collide under `sha256`. -/
def NoCollision (sha256 : List Byte → Digest) (fingerprint : List Byte)
    (blocks : List (List Int × Option Digest)) : Prop :=
  ∀ b ∈ blocks, ∀ b' ∈ blocks,
    sha256 (hashedBytes fingerprint b) = sha256 (hashedBytes fingerprint b') →
    hashedBytes fingerprint b = hashedBytes fingerprint b'

instance (sha256 : List Byte → Digest) (fingerprint : List Byte)
    (blocks : List (List Int × Option Digest)) :
    Decidable (NoCollision sha256 fingerprint blocks) :=
  inferInstanceAs (Decidable (∀ b ∈ blocks, ∀ b' ∈ blocks, _ → _))

theorem NoCollision.separates {cfg : PrefixIndexConfig Digest} {sha256 : List Byte → Digest}
    {fingerprint : List Byte} (hash : cfg.hashBlock = stablePrefixBlockId sha256 fingerprint)
    {blocks : List (List Int × Option Digest)} (collisionFree : NoCollision sha256 fingerprint blocks)
    (sized : ∀ b ∈ blocks, b.1.length = cfg.blockSize ∧ ∀ t ∈ b.1, TokenFits t) :
    SeparatesBlocks cfg { b | b ∈ blocks } := by
  rintro ⟨tokens, parent⟩ hb ⟨tokens', parent'⟩ hb' h
  obtain ⟨hlen, hfits⟩ := sized _ hb
  obtain ⟨hlen', hfits'⟩ := sized _ hb'
  have hlength := hlen.trans hlen'.symm
  simp only [hash, stablePrefixBlockId] at h
  have hbytes := collisionFree _ hb _ hb' h
  have hwidth : (packTokenIds tokens).length = (packTokenIds tokens').length := by
    rw [packTokenIds, packTokenIds, packIntegers_length, packIntegers_length, hlength]
  obtain ⟨hread, hpacked⟩ := List.append_inj' hbytes hwidth
  have hparent := List.append_cancel_left hread
  refine Prod.ext_iff.mpr ⟨packIntegers_injective hfits hfits' hlength hpacked, ?_⟩
  cases parent with
  | none =>
    cases parent' with
    | none => rfl
    | some p' => cases (List.cons.inj hparent).1
  | some p =>
    cases parent' with
    | none => cases (List.cons.inj hparent).1
    | some p' => exact congrArg some (List.cons.inj hparent).2

/-- A digest of 32 bytes. -/
def demoDigest (bytes : List Byte) : Digest :=
  littleEndian 32 (bytes.foldl (fun n b => (n * 257 + b.val + 1) % 2 ^ 61) 0)

end SparseEngine
