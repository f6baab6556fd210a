import Mathlib.Tactic

/-! `Dict K V` is a finite map that remembers the order in which its keys were first set. -/

namespace SparseEngine

/-- A finite map with distinct keys, listed in insertion order. -/
structure Dict (K V : Type) where
  entries : List (K × V)
  nodup : (entries.map Prod.fst).Nodup

namespace Dict

variable {K V : Type}

section

variable [DecidableEq K]

/-- The value stored for `k` in an entry list. -/
def lookupEntry (k : K) : List (K × V) → Option V
  | [] => none
  | (k', v) :: l => if k' = k then some v else lookupEntry k l

/-- Overwrite the entry of `k` in place. -/
def setEntry (k : K) (v : V) : List (K × V) → List (K × V)
  | [] => [(k, v)]
  | (k', v') :: l => if k' = k then (k, v) :: l else (k', v') :: setEntry k v l

/-- Drop the entry of `k`. -/
def eraseEntry (k : K) : List (K × V) → List (K × V)
  | [] => []
  | (k', v') :: l => if k' = k then l else (k', v') :: eraseEntry k l

variable {k a : K} {v : V} {l : List (K × V)}

theorem mem_keys_setEntry : a ∈ (setEntry k v l).map Prod.fst ↔ a = k ∨ a ∈ l.map Prod.fst := by
  induction l with
  | nil => simp [setEntry]
  | cons e l ih =>
    obtain ⟨k', v'⟩ := e
    simp only [setEntry]
    split
    · next h => subst h; simp
    · simp only [List.map_cons, List.mem_cons, ih]; tauto

theorem mem_keys_eraseEntry (h : a ∈ (eraseEntry k l).map Prod.fst) : a ∈ l.map Prod.fst := by
  induction l with
  | nil => simp [eraseEntry] at h
  | cons e l ih =>
    obtain ⟨k', v'⟩ := e
    simp only [eraseEntry] at h
    split at h
    · exact List.mem_cons_of_mem _ h
    · simp only [List.map_cons, List.mem_cons] at h ⊢
      exact h.imp id ih

theorem nodup_setEntry (h : (l.map Prod.fst).Nodup) : ((setEntry k v l).map Prod.fst).Nodup := by
  induction l with
  | nil => simp [setEntry]
  | cons e l ih =>
    obtain ⟨k', v'⟩ := e
    simp only [List.map_cons, List.nodup_cons] at h
    simp only [setEntry]
    split
    · next hk => subst hk; simpa using h
    · next hk =>
      simp only [List.map_cons, List.nodup_cons, mem_keys_setEntry, not_or]
      exact ⟨⟨hk, h.1⟩, ih h.2⟩

theorem nodup_eraseEntry (h : (l.map Prod.fst).Nodup) : ((eraseEntry k l).map Prod.fst).Nodup := by
  induction l with
  | nil => simp [eraseEntry]
  | cons e l ih =>
    obtain ⟨k', v'⟩ := e
    simp only [List.map_cons, List.nodup_cons] at h
    simp only [eraseEntry]
    split
    · exact h.2
    · simp only [List.map_cons, List.nodup_cons]
      exact ⟨fun hm => h.1 (mem_keys_eraseEntry hm), ih h.2⟩

theorem perm_setEntry (k : K) (v : V) :
    ∀ l : List (K × V), (setEntry k v l).Perm ((k, v) :: eraseEntry k l)
  | [] => .refl _
  | (k', v') :: l => by
    simp only [setEntry, eraseEntry]
    split
    · exact .refl _
    · exact ((perm_setEntry k v l).cons _).trans (.swap _ _ _)

theorem lookupEntry_setEntry :
    lookupEntry a (setEntry k v l) = if a = k then some v else lookupEntry a l := by
  induction l with
  | nil => simp [setEntry, lookupEntry, eq_comm]
  | cons e l ih =>
    obtain ⟨k', v'⟩ := e
    simp only [setEntry]
    split
    · next h => subst h; simp only [lookupEntry]; grind
    · simp only [lookupEntry, ih]; grind

theorem lookupEntry_isSome : (lookupEntry k l).isSome ↔ k ∈ l.map Prod.fst := by
  induction l with
  | nil => simp [lookupEntry]
  | cons e l ih =>
    obtain ⟨k', v'⟩ := e
    simp only [lookupEntry]
    split
    · next h => simp [h]
    · next h => simp only [ih, List.map_cons, List.mem_cons]; grind

theorem lookupEntry_eraseEntry (h : (l.map Prod.fst).Nodup) :
    lookupEntry a (eraseEntry k l) = if a = k then none else lookupEntry a l := by
  induction l with
  | nil => simp [eraseEntry, lookupEntry]
  | cons e l ih =>
    obtain ⟨k', v'⟩ := e
    simp only [List.map_cons, List.nodup_cons] at h
    simp only [eraseEntry]
    split
    · next hk =>
      subst hk
      by_cases ha : a = k'
      · subst ha
        have : ¬ (lookupEntry a l).isSome := fun hs => h.1 (lookupEntry_isSome.mp hs)
        simpa using this
      · simp [lookupEntry, ha, Ne.symm ha]
    · simp only [lookupEntry, ih h.2]; grind

theorem mem_iff_lookupEntry (h : (l.map Prod.fst).Nodup) :
    (k, v) ∈ l ↔ lookupEntry k l = some v := by
  induction l with
  | nil => simp [lookupEntry]
  | cons e l ih =>
    obtain ⟨k', v'⟩ := e
    simp only [List.map_cons, List.nodup_cons] at h
    simp only [List.mem_cons, Prod.mk.injEq, lookupEntry]
    split
    · next hk =>
      subst hk
      constructor
      · rintro (⟨_, rfl⟩ | hm)
        · rfl
        · exact absurd (List.mem_map_of_mem (f := Prod.fst) hm) h.1
      · intro hv; exact Or.inl ⟨rfl, (Option.some.inj hv).symm⟩
    · next hk => rw [ih h.2]; grind

end

def empty : Dict K V := ⟨[], List.nodup_nil⟩

instance : Inhabited (Dict K V) := ⟨empty⟩

def keys (d : Dict K V) : List K := d.entries.map Prod.fst

def values (d : Dict K V) : List V := d.entries.map Prod.snd

def size (d : Dict K V) : Nat := d.entries.length

def sumBy (f : K → V → Nat) (d : Dict K V) : Nat := (d.entries.map fun e => f e.1 e.2).sum

theorem keys_nodup (d : Dict K V) : d.keys.Nodup := d.nodup

@[simp] theorem sumBy_empty (f : K → V → Nat) : (empty : Dict K V).sumBy f = 0 := rfl

variable [DecidableEq K]

/-- The value of `k`, if it is a key. -/
def get? (d : Dict K V) (k : K) : Option V := lookupEntry k d.entries

/-- Whether `k` is a key. -/
def contains (d : Dict K V) (k : K) : Bool := (d.get? k).isSome

/-- Map `k` to `v`. -/
def set (d : Dict K V) (k : K) (v : V) : Dict K V := ⟨setEntry k v d.entries, nodup_setEntry d.nodup⟩

/-- Remove the key `k`. -/
def erase (d : Dict K V) (k : K) : Dict K V := ⟨eraseEntry k d.entries, nodup_eraseEntry d.nodup⟩

def keySet (d : Dict K V) : Finset K := d.keys.toFinset

@[simp] theorem get?_empty (k : K) : (empty : Dict K V).get? k = none := rfl

theorem get?_set (d : Dict K V) (k a : K) (v : V) :
    (d.set k v).get? a = if a = k then some v else d.get? a :=
  lookupEntry_setEntry

@[simp] theorem get?_set_self (d : Dict K V) (k : K) (v : V) : (d.set k v).get? k = some v := by
  simp [get?_set]

variable {k a : K}

theorem get?_set_ne (d : Dict K V) (v : V) (h : a ≠ k) : (d.set k v).get? a = d.get? a := by
  simp [get?_set, h]

variable {v : V}

/-- Setting a key to the value it has changes nothing. -/
theorem set_eq_self {d : Dict K V} (h : d.get? k = some v) : d.set k v = d := by
  have key : ∀ l : List (K × V), lookupEntry k l = some v → setEntry k v l = l := by
    intro l
    induction l with
    | nil => simp [lookupEntry]
    | cons e l ih =>
      obtain ⟨k', v'⟩ := e
      intro hl
      simp only [lookupEntry] at hl
      simp only [setEntry]
      split at hl
      · next hk => cases hl; simp [hk]
      · next hk => simp [hk, ih hl]
  cases d
  simp only [set, mk.injEq]
  exact key _ h

/-- The second of two writes to one key counts. -/
theorem set_set (d : Dict K V) (k : K) (v v' : V) : (d.set k v).set k v' = d.set k v' := by
  have key : ∀ l : List (K × V), setEntry k v' (setEntry k v l) = setEntry k v' l := by
    intro l
    induction l with
    | nil => simp [setEntry]
    | cons e l ih =>
      obtain ⟨k', w⟩ := e
      by_cases hk : k' = k <;> simp [setEntry, hk, ih]
  cases d
  simp only [set, mk.injEq]
  exact key _

/-- Erasing what is not there changes nothing. -/
theorem erase_eq_self {d : Dict K V} (h : d.get? k = none) : d.erase k = d := by
  have key : ∀ l : List (K × V), lookupEntry k l = none → eraseEntry k l = l := by
    intro l
    induction l with
    | nil => simp [eraseEntry]
    | cons e l ih =>
      obtain ⟨k', w⟩ := e
      intro hl
      simp only [lookupEntry] at hl
      split at hl
      · cases hl
      · next hk => simp [eraseEntry, hk, ih hl]
  cases d
  simp only [erase, mk.injEq]
  exact key _ h

theorem get?_erase (d : Dict K V) (k a : K) :
    (d.erase k).get? a = if a = k then none else d.get? a :=
  lookupEntry_eraseEntry d.nodup

@[simp] theorem get?_erase_self (d : Dict K V) (k : K) : (d.erase k).get? k = none := by
  simp [get?_erase]

theorem get?_erase_ne (d : Dict K V) (h : a ≠ k) : (d.erase k).get? a = d.get? a := by
  simp [get?_erase, h]

theorem contains_iff {d : Dict K V} : d.contains k = true ↔ ∃ v, d.get? k = some v := by
  simp [contains, Option.isSome_iff_exists]

theorem contains_eq_false {d : Dict K V} : d.contains k = false ↔ d.get? k = none := by
  simp [contains]

theorem mem_entries {d : Dict K V} : (k, v) ∈ d.entries ↔ d.get? k = some v :=
  mem_iff_lookupEntry d.nodup

theorem mem_keys {d : Dict K V} : k ∈ d.keys ↔ ∃ v, d.get? k = some v := by
  rw [← Option.isSome_iff_exists]
  exact lookupEntry_isSome.symm

@[simp] theorem mem_keySet {d : Dict K V} : k ∈ d.keySet ↔ ∃ v, d.get? k = some v := by
  simp [keySet, mem_keys]

theorem mem_values {d : Dict K V} : v ∈ d.values ↔ ∃ k, d.get? k = some v := by
  constructor
  · intro h
    obtain ⟨⟨k, v'⟩, hm, rfl⟩ := List.mem_map.mp h
    exact ⟨k, mem_entries.mp hm⟩
  · rintro ⟨k, h⟩
    exact List.mem_map.mpr ⟨(k, v), mem_entries.mpr h, rfl⟩

theorem card_keySet (d : Dict K V) : d.keySet.card = d.size := by
  rw [keySet, List.toFinset_card_of_nodup d.keys_nodup]
  simp [keys, size]

theorem perm_set (d : Dict K V) (k : K) (v : V) :
    (d.set k v).entries.Perm ((k, v) :: (d.erase k).entries) :=
  perm_setEntry k v d.entries

theorem perm_set_new {d : Dict K V} (v : V) (h : d.get? k = none) :
    (d.set k v).values.Perm (v :: d.values) := by
  have hperm := (d.perm_set k v).map Prod.snd
  rwa [erase_eq_self h] at hperm

theorem perm_erase {d : Dict K V} (h : d.get? k = some v) :
    d.values.Perm (v :: (d.erase k).values) := by
  have hperm := (d.perm_set k v).map Prod.snd
  rwa [set_eq_self h] at hperm

theorem keySet_set (d : Dict K V) (k : K) (v : V) : (d.set k v).keySet = insert k d.keySet := by
  ext a
  simp only [mem_keySet, get?_set, Finset.mem_insert]
  by_cases h : a = k <;> simp [h]

theorem keySet_erase (d : Dict K V) (k : K) : (d.erase k).keySet = d.keySet.erase k := by
  ext a
  simp only [mem_keySet, get?_erase, Finset.mem_erase]
  by_cases h : a = k <;> simp [h]

theorem size_set_new {d : Dict K V} (v : V) (h : d.get? k = none) :
    (d.set k v).size = d.size + 1 := by
  rw [← card_keySet, ← card_keySet, keySet_set, Finset.card_insert_of_notMem]
  simp [h]

theorem size_erase {d : Dict K V} (h : d.get? k = some v) : (d.erase k).size + 1 = d.size := by
  rw [← card_keySet, ← card_keySet, keySet_erase, Finset.card_erase_add_one]
  exact mem_keySet.mpr ⟨v, h⟩

theorem sumBy_congr {f g : K → V → Nat} {d : Dict K V}
    (h : ∀ k v, d.get? k = some v → f k v = g k v) : d.sumBy f = d.sumBy g := by
  unfold sumBy
  congr 1
  apply List.map_congr_left
  rintro ⟨k, v⟩ hm
  exact h k v (mem_entries.mp hm)

/-- A total of ones is the number of entries that have one. -/
theorem sumBy_eq_length_filter {f : K → V → Nat} {p : V → Bool} {d : Dict K V}
    (h : ∀ k v, d.get? k = some v → f k v = if p v then 1 else 0) :
    d.sumBy f = (d.values.filter p).length := by
  rw [sumBy_congr (g := fun _ v => if p v then 1 else 0) h]
  unfold sumBy values
  induction d.entries with
  | nil => rfl
  | cons e l ih =>
    rw [List.map_cons, List.map_cons, List.sum_cons, List.filter_cons, ih]
    dsimp only
    split
    · rw [List.length_cons, Nat.add_comm]
    · rw [Nat.zero_add]

theorem sumBy_set (f : K → V → Nat) (d : Dict K V) (k : K) (v : V) :
    (d.set k v).sumBy f = f k v + (d.erase k).sumBy f := by
  have hsum := ((d.perm_set k v).map fun e => f e.1 e.2).sum_eq
  rwa [List.map_cons, List.sum_cons] at hsum

theorem sumBy_set_new (f : K → V → Nat) {d : Dict K V} (v : V) (h : d.get? k = none) :
    (d.set k v).sumBy f = d.sumBy f + f k v := by
  rw [sumBy_set, erase_eq_self h, Nat.add_comm]

theorem sumBy_erase (f : K → V → Nat) {d : Dict K V} (h : d.get? k = some v) :
    (d.erase k).sumBy f + f k v = d.sumBy f := by
  rw [Nat.add_comm, ← sumBy_set, set_eq_self h]

theorem sumBy_set_old (f : K → V → Nat) {d : Dict K V} {v₀ : V} (v : V) (h : d.get? k = some v₀) :
    (d.set k v).sumBy f + f k v₀ = d.sumBy f + f k v := by
  rw [sumBy_set, Nat.add_assoc, sumBy_erase f h, Nat.add_comm]

/-- What the entry of `k`, if any, adds to a total. -/
def weightAt (f : K → V → Nat) (d : Dict K V) (k : K) : Nat := (d.get? k).elim 0 (f k)

theorem sumBy_eq_sum (f : K → V → Nat) (d : Dict K V) :
    d.sumBy f = ∑ k ∈ d.keySet, d.weightAt f k := by
  have hkeys : d.entries.map (fun e => f e.1 e.2) = d.keys.map fun k => d.weightAt f k := by
    rw [keys, List.map_map]
    refine List.map_congr_left fun e he => ?_
    have hget : d.get? e.1 = some e.2 := mem_entries.mp he
    simp [weightAt, hget]
  rw [sumBy, hkeys, keySet, List.sum_toFinset _ d.keys_nodup]

theorem weightAt_of_not_mem {f : K → V → Nat} {d : Dict K V} (h : k ∉ d.keySet) :
    d.weightAt f k = 0 := by
  have : d.get? k = none := by
    rw [mem_keySet] at h
    exact Option.eq_none_iff_forall_ne_some.mpr fun v hv => h ⟨v, hv⟩
  simp [weightAt, this]

/-- A total is a sum over any set that holds the keys. -/
theorem sumBy_eq_sum_of_subset (f : K → V → Nat) {d : Dict K V} {T : Finset K}
    (h : d.keySet ⊆ T) : d.sumBy f = ∑ k ∈ T, d.weightAt f k := by
  rw [sumBy_eq_sum]
  exact Finset.sum_subset h fun k _ hk => weightAt_of_not_mem hk

theorem sumBy_congr_at {V' : Type} {f : K → V → Nat} {g : K → V' → Nat} {d : Dict K V}
    {d' : Dict K V'} (h : ∀ k, d.weightAt f k = d'.weightAt g k) : d.sumBy f = d'.sumBy g := by
  have hd : d.keySet ⊆ d.keySet ∪ d'.keySet := Finset.subset_union_left
  have hd' : d'.keySet ⊆ d.keySet ∪ d'.keySet := Finset.subset_union_right
  rw [sumBy_eq_sum_of_subset f hd, sumBy_eq_sum_of_subset g hd']
  exact Finset.sum_congr rfl fun k _ => h k

theorem le_sumBy (f : K → V → Nat) (d : Dict K V) (k : K) : d.weightAt f k ≤ d.sumBy f := by
  rw [sumBy_eq_sum_of_subset f (Finset.subset_insert k d.keySet)]
  exact Finset.single_le_sum (fun _ _ => Nat.zero_le _) (Finset.mem_insert_self k _)

/-- A total over entries that each have a larger one under their key. -/
theorem sumBy_mono {V' : Type} {f : K → V → Nat} {g : K → V' → Nat} {d : Dict K V} {d' : Dict K V'}
    (h : ∀ k w, d'.get? k = some w → ∃ v, d.get? k = some v ∧ g k w ≤ f k v) :
    d'.sumBy g ≤ d.sumBy f := by
  have hd : d.keySet ⊆ d.keySet ∪ d'.keySet := Finset.subset_union_left
  have hd' : d'.keySet ⊆ d.keySet ∪ d'.keySet := Finset.subset_union_right
  rw [sumBy_eq_sum_of_subset f hd, sumBy_eq_sum_of_subset g hd']
  refine Finset.sum_le_sum fun k _ => ?_
  unfold weightAt
  cases hw : d'.get? k with
  | none => exact Nat.zero_le _
  | some w =>
    obtain ⟨v, hv, hle⟩ := h k w hw
    rw [hv]
    exact hle

/-- The entries of two keys are two parts of a total. -/
theorem add_weightAt_le_sumBy (f : K → V → Nat) (d : Dict K V) {k' : K} (h : k ≠ k') :
    d.weightAt f k + d.weightAt f k' ≤ d.sumBy f := by
  have hsub : d.keySet ⊆ insert k (insert k' d.keySet) := fun x hx => by simp [hx]
  rw [sumBy_eq_sum_of_subset f hsub]
  have hpair : ({k, k'} : Finset K) ⊆ insert k (insert k' d.keySet) := by
    intro x hx
    rcases Finset.mem_insert.mp hx with rfl | hx
    · exact Finset.mem_insert_self _ _
    · rw [Finset.mem_singleton.mp hx]
      exact Finset.mem_insert_of_mem (Finset.mem_insert_self _ _)
  rw [← Finset.sum_pair h]
  exact Finset.sum_le_sum_of_subset hpair

theorem weightAt_of_get {f : K → V → Nat} {d : Dict K V} (h : d.get? k = some v) :
    d.weightAt f k = f k v := by simp [weightAt, h]

/-- `Counter(l)`. -/
def counter (l : List K) : Dict K Nat :=
  l.foldl (fun d a => d.set a ((d.get? a).getD 0 + 1)) empty

theorem getD_get?_foldl_counter (a : K) : ∀ (l : List K) (d : Dict K Nat),
    ((l.foldl (fun d a => d.set a ((d.get? a).getD 0 + 1)) d).get? a).getD 0 =
      (d.get? a).getD 0 + l.count a
  | [], _ => rfl
  | b :: l, d => by
    rw [List.foldl_cons, getD_get?_foldl_counter a l, get?_set, List.count_cons]
    by_cases hab : a = b
    · subst hab
      simp
      omega
    · simp [hab, Ne.symm hab]

@[simp] theorem getD_get?_counter (l : List K) (a : K) : ((counter l).get? a).getD 0 = l.count a := by
  unfold counter
  rw [getD_get?_foldl_counter, get?_empty]
  exact Nat.zero_add _

theorem mem_keys_foldl_counter (a : K) : ∀ (l : List K) (d : Dict K Nat),
    a ∈ (l.foldl (fun d a => d.set a ((d.get? a).getD 0 + 1)) d).keys ↔ a ∈ d.keys ∨ a ∈ l
  | [], d => by simp
  | b :: l, d => by
    rw [List.foldl_cons, mem_keys_foldl_counter a l, List.mem_cons]
    have hset : a ∈ (d.set b ((d.get? b).getD 0 + 1)).keys ↔ a ∈ d.keys ∨ a = b := by
      rw [mem_keys, mem_keys, get?_set]
      by_cases hab : a = b
      · simp [hab]
      · simp [hab]
    rw [hset, or_assoc]

@[simp] theorem mem_keys_counter (l : List K) (a : K) : a ∈ (counter l).keys ↔ a ∈ l := by
  unfold counter
  rw [mem_keys_foldl_counter]
  simp [keys, empty]

/-- An entry of a counter says how often its key occurs. -/
theorem mem_entries_counter {l : List K} {n : Nat} (h : (a, n) ∈ (counter l).entries) :
    n = l.count a := by
  have hget := getD_get?_counter l a
  rw [mem_entries.mp h] at hget
  exact hget

/-- Every value mapped by `f`. -/
def mapValues {W : Type} (f : V → W) (d : Dict K V) : Dict K W where
  entries := d.entries.map fun e => (e.1, f e.2)
  nodup := by
    rw [List.map_map]
    exact d.nodup

section

variable {W : Type} (f : V → W) (d : Dict K V)

omit [DecidableEq K] in
@[simp] theorem keys_mapValues : (d.mapValues f).keys = d.keys := by
  show (d.entries.map _).map _ = _
  rw [List.map_map]
  rfl

omit [DecidableEq K] in
@[simp] theorem values_mapValues : (d.mapValues f).values = d.values.map f := by
  show (d.entries.map _).map _ = (d.entries.map _).map _
  rw [List.map_map, List.map_map]
  rfl

@[simp] theorem get?_mapValues (k : K) : (d.mapValues f).get? k = (d.get? k).map f := by
  have key : ∀ l : List (K × V),
      lookupEntry k (l.map fun e => (e.1, f e.2)) = (lookupEntry k l).map f := by
    intro l
    induction l with
    | nil => rfl
    | cons e l ih =>
      simp only [List.map_cons, lookupEntry, ih]
      split <;> rfl
  exact key d.entries

@[simp] theorem contains_mapValues (k : K) : (d.mapValues f).contains k = d.contains k := by
  unfold contains
  rw [get?_mapValues, Option.isSome_map]

theorem mapValues_set (k : K) (v : V) : (d.set k v).mapValues f = (d.mapValues f).set k (f v) := by
  have key : ∀ l : List (K × V), (setEntry k v l).map (fun e => (e.1, f e.2)) =
      setEntry k (f v) (l.map fun e => (e.1, f e.2)) := by
    intro l
    induction l with
    | nil => rfl
    | cons e l ih =>
      simp only [setEntry, List.map_cons]
      split
      · rfl
      · rw [List.map_cons, ih]
  simp only [mapValues, set, mk.injEq]
  exact key d.entries

theorem mapValues_erase (k : K) : (d.erase k).mapValues f = (d.mapValues f).erase k := by
  have key : ∀ l : List (K × V), (eraseEntry k l).map (fun e => (e.1, f e.2)) =
      eraseEntry k (l.map fun e => (e.1, f e.2)) := by
    intro l
    induction l with
    | nil => rfl
    | cons e l ih =>
      simp only [eraseEntry, List.map_cons]
      split
      · rfl
      · rw [List.map_cons, ih]
  simp only [mapValues, erase, mk.injEq]
  exact key d.entries

end

end Dict

end SparseEngine
