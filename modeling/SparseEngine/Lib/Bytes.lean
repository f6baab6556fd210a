import Mathlib.Data.Int.ModEq
import Mathlib.Data.List.Basic
import Mathlib.Tactic.Ring

/-! The little-endian encoding of signed integers in a fixed number of bytes. -/

namespace SparseEngine

abbrev Byte := Fin 256

instance byteNeZero : NeZero 256 := ⟨by decide⟩

/-- The `w` lowest bytes of `n`, least significant first. -/
def littleEndian : Nat → Int → List Byte
  | 0, _ => []
  | w + 1, n => Fin.ofNat 256 (n % 256).toNat :: littleEndian w (n / 256)

variable (w : Nat)

theorem littleEndian_length : ∀ n : Int, (littleEndian w n).length = w := by
  induction w with
  | zero => intro n; rfl
  | succ w ih => intro n; simp [littleEndian, ih]

/-- The bytes of a number determine it up to multiples of `256 ^ w`. -/
theorem littleEndian_dvd : ∀ n m : Int,
    littleEndian w n = littleEndian w m → (256 : Int) ^ w ∣ n - m := by
  induction w with
  | zero => intro n m _; simp
  | succ w ih =>
    intro n m h
    simp only [littleEndian, List.cons.injEq] at h
    obtain ⟨hlow, hhigh⟩ := h
    have hlow' : n % 256 = m % 256 := by
      have hval := congrArg Fin.val hlow
      simp only [Fin.ofNat] at hval
      omega
    obtain ⟨k, hk⟩ := ih _ _ hhigh
    refine ⟨k, ?_⟩
    have hsplit : n - m = 256 * (n / 256 - m / 256) := by omega
    rw [hsplit, hk]
    ring

/-- The numbers that `w` bytes hold in two's complement. -/
def Fits (n : Int) : Prop := -(256 : Int) ^ w ≤ 2 * n ∧ 2 * n < (256 : Int) ^ w

instance (w : Nat) (n : Int) : Decidable (Fits w n) := inferInstanceAs (Decidable (_ ∧ _))

theorem littleEndian_injective {w : Nat} {n m : Int} (hn : Fits w n) (hm : Fits w m)
    (h : littleEndian w n = littleEndian w m) : n = m := by
  obtain ⟨k, hk⟩ := littleEndian_dvd w n m h
  obtain ⟨hn₁, hn₂⟩ := hn
  obtain ⟨hm₁, hm₂⟩ := hm
  have hpos : (0 : Int) < 256 ^ w := Int.pow_pos (by decide)
  -- Two numbers that fit are less than `256 ^ w` apart.
  have hzero : k = 0 := by
    by_contra hne
    rcases lt_or_gt_of_ne hne with hlt | hgt
    · have := Int.mul_le_mul_of_nonneg_left (show k ≤ -1 by omega) hpos.le
      omega
    · have := Int.mul_le_mul_of_nonneg_left (show 1 ≤ k by omega) hpos.le
      omega
  rw [hzero, mul_zero] at hk
  omega

/-- The bytes of a list of integers, `w` for each. -/
def packIntegers (ns : List Int) : List Byte := ns.flatMap (littleEndian w)

theorem packIntegers_length (ns : List Int) :
    (packIntegers w ns).length = ns.length * w := by
  induction ns with
  | nil => simp [packIntegers]
  | cons n ns ih =>
    simp only [packIntegers] at ih
    simp only [packIntegers, List.flatMap_cons, List.length_append, littleEndian_length, ih,
      List.length_cons]
    ring

theorem packIntegers_append (ns ms : List Int) :
    packIntegers w (ns ++ ms) = packIntegers w ns ++ packIntegers w ms :=
  List.flatMap_append

/-- The first integers of a list take the first bytes, and the others the rest. -/
theorem packIntegers_split (w k : Nat) (ns : List Int) (hk : k ≤ ns.length) :
    (packIntegers w ns).take (k * w) = packIntegers w (ns.take k) ∧
      (packIntegers w ns).drop (k * w) = packIntegers w (ns.drop k) := by
  have hlen : (packIntegers w (ns.take k)).length = k * w := by
    rw [packIntegers_length, List.length_take, Nat.min_eq_left hk]
  have hcut : packIntegers w ns = packIntegers w (ns.take k) ++ packIntegers w (ns.drop k) := by
    rw [← packIntegers_append, List.take_append_drop]
  rw [hcut, ← hlen]
  exact ⟨List.take_left .., List.drop_left ..⟩

theorem packIntegers_injective {w : Nat} : ∀ {ns ms : List Int}, (∀ n ∈ ns, Fits w n) →
    (∀ m ∈ ms, Fits w m) → ns.length = ms.length → packIntegers w ns = packIntegers w ms →
    ns = ms
  | [], [], _, _, _, _ => rfl
  | n :: ns, m :: ms, hns, hms, hlen, h => by
    simp only [packIntegers, List.flatMap_cons] at h
    obtain ⟨hhead, htail⟩ := List.append_inj h (by rw [littleEndian_length, littleEndian_length])
    rw [littleEndian_injective (hns n List.mem_cons_self) (hms m List.mem_cons_self) hhead]
    rw [packIntegers_injective (fun x hx => hns x (List.mem_cons_of_mem _ hx))
      (fun x hx => hms x (List.mem_cons_of_mem _ hx)) (Nat.succ.inj hlen) htail]

end SparseEngine
