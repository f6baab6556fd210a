import Mathlib.Data.List.Sort
import Mathlib.Algebra.BigOperators.Group.List.Basic
import Mathlib.Tactic.Linarith

/-! A greedy policy takes the eligible item of least key, again and again, until what it took weighs
enough or nothing is eligible. -/

namespace SparseEngine

/-- What may be taken in a state, in which order, what it weighs and what taking it does. -/
structure GreedyPolicy (σ α κ : Type) where
  Eligible : σ → α → Prop
  key : α → κ
  weight : α → Int
  Take : σ → α → σ → Prop

namespace GreedyPolicy

variable {σ α κ : Type} [LinearOrder κ]

/-- `a` is eligible and no eligible item has a smaller key. -/
def Best (p : GreedyPolicy σ α κ) (s : σ) (a : α) : Prop :=
  p.Eligible s a ∧ ∀ b, p.Eligible s b → p.key a ≤ p.key b

/-- Keys tell eligible items apart, and taking an item has one result. -/
structure Deterministic (p : GreedyPolicy σ α κ) : Prop where
  key : ∀ s a b, p.Eligible s a → p.Eligible s b → p.key a = p.key b → a = b
  take : ∀ s a s₁ s₂, p.Take s a s₁ → p.Take s a s₂ → s₁ = s₂

theorem Deterministic.best_unique {p : GreedyPolicy σ α κ} (h : p.Deterministic) {s : σ} {a b : α}
    (ha : p.Best s a) (hb : p.Best s b) : a = b :=
  h.key s a b ha.1 hb.1 (le_antisymm (ha.2 b hb.1) (hb.2 a ha.1))

end GreedyPolicy

/-- The policy run from `s` with `total` taken so far. -/
inductive GreedyRun {σ α κ : Type} [LinearOrder κ] (p : GreedyPolicy σ α κ) (needed : Int) :
    Int → σ → List α → σ → Prop
  | enough {total : Int} {s : σ} : needed ≤ total → GreedyRun p needed total s [] s
  | exhausted {total : Int} {s : σ} : total < needed → (∀ a, ¬ p.Eligible s a) →
      GreedyRun p needed total s [] s
  | take {total : Int} {s s₁ s' : σ} {a : α} {as : List α} : total < needed → p.Best s a →
      p.Take s a s₁ → GreedyRun p needed (total + p.weight a) s₁ as s' →
      GreedyRun p needed total s (a :: as) s'

namespace GreedyRun

variable {σ α κ : Type} [LinearOrder κ] {p : GreedyPolicy σ α κ} {needed total : Int} {s s' : σ}
  {as : List α}

/-- A deterministic policy has one run. -/
theorem unique (hp : p.Deterministic) (h : GreedyRun p needed total s as s') {bs : List α} {t : σ}
    (h' : GreedyRun p needed total s bs t) : as = bs ∧ s' = t := by
  induction h generalizing bs t with
  | enough hle =>
    cases h' with
    | enough _ => exact ⟨rfl, rfl⟩
    | exhausted hlt _ => exact ⟨rfl, rfl⟩
    | take hlt _ _ _ => exact absurd hle (not_le.mpr hlt)
  | exhausted hlt hno =>
    cases h' with
    | enough _ => exact ⟨rfl, rfl⟩
    | exhausted _ _ => exact ⟨rfl, rfl⟩
    | take _ hbest _ _ => exact absurd hbest.1 (hno _)
  | take hlt hbest htake _ ih =>
    cases h' with
    | enough hle => exact absurd hle (not_le.mpr hlt)
    | exhausted _ hno => exact absurd hbest.1 (hno _)
    | take _ hbest' htake' hrun' =>
      cases hp.best_unique hbest hbest'
      cases hp.take _ _ _ _ htake htake'
      obtain ⟨rfl, rfl⟩ := ih hrun'
      exact ⟨rfl, rfl⟩

/-- With unit weights a run does not take more than it needs. -/
theorem length_le (hw : ∀ a, p.weight a = 1) (h : GreedyRun p needed total s as s')
    (hle : total ≤ needed) : total + as.length ≤ needed := by
  induction h with
  | enough _ => simpa using hle
  | exhausted _ _ => simpa using hle
  | take hlt _ _ _ ih =>
    rw [hw] at ih
    have := ih (by linarith)
    rw [List.length_cons]
    push_cast
    linarith

end GreedyRun

/-- `heap` is the sorted list of the keys in `E`. -/
structure Queue {κ : Type} [LinearOrder κ] (E : κ → Prop) (heap : List κ) : Prop where
  sorted : heap.Pairwise (· < ·)
  mem : ∀ k, k ∈ heap ↔ E k

namespace Queue

variable {κ : Type} [LinearOrder κ] {E : κ → Prop} {k : κ} {heap : List κ}

theorem congr {E' : κ → Prop} (h : Queue E heap) (hE : ∀ k, E k ↔ E' k) : Queue E' heap :=
  ⟨h.sorted, fun k => (h.mem k).trans (hE k)⟩

theorem none_of_nil (h : Queue E []) (k : κ) : ¬ E k := fun hk => by
  simpa using (h.mem k).mpr hk

theorem head_mem (h : Queue E (k :: heap)) : E k := (h.mem k).mp List.mem_cons_self

/-- The head is the least key. -/
theorem head_le (h : Queue E (k :: heap)) {x : κ} (hx : E x) : k ≤ x := by
  rcases List.mem_cons.mp ((h.mem x).mpr hx) with rfl | hx
  · exact le_refl x
  · exact (List.rel_of_pairwise_cons h.sorted hx).le

/-- Dropping the head drops its key. -/
theorem tail (h : Queue E (k :: heap)) : Queue (fun x => E x ∧ x ≠ k) heap := by
  refine ⟨h.sorted.of_cons, fun x => ⟨fun hx => ?_, fun hx => ?_⟩⟩
  · exact ⟨(h.mem x).mp (List.mem_cons_of_mem k hx),
      (List.rel_of_pairwise_cons h.sorted hx).ne'⟩
  · exact (List.mem_cons.mp ((h.mem x).mpr hx.1)).resolve_left hx.2

/-- A non-strictly sorted list without repetitions is a queue. -/
theorem of_sorted (hsorted : heap.Pairwise (· ≤ ·)) (hnd : heap.Nodup)
    (hmem : ∀ k, k ∈ heap ↔ E k) : Queue E heap :=
  ⟨(hsorted.and hnd).imp fun h => lt_of_le_of_ne h.1 h.2, hmem⟩

/-- Pushing a new key. -/
theorem push (h : Queue E heap) (hk : ¬ E k) :
    Queue (fun x => x = k ∨ E x) (heap.orderedInsert (· ≤ ·) k) := by
  have hperm := List.perm_orderedInsert (· ≤ ·) k heap
  have hnd : (k :: heap).Nodup :=
    List.nodup_cons.mpr ⟨fun hm => hk ((h.mem k).mp hm), h.sorted.imp ne_of_lt⟩
  refine .of_sorted ?_ (hperm.nodup_iff.mpr hnd) fun x => ?_
  · exact List.Pairwise.orderedInsert k heap (h.sorted.imp le_of_lt)
  · rw [List.mem_orderedInsert, h.mem]

/-- Building the queue. -/
theorem build (hnd : heap.Nodup) (hmem : ∀ k, k ∈ heap ↔ E k) :
    Queue E (heap.insertionSort (· ≤ ·)) := by
  have hperm := List.perm_insertionSort (· ≤ ·) heap
  refine .of_sorted (List.pairwise_insertionSort _ heap) (hperm.nodup_iff.mpr hnd) fun x => ?_
  rw [hperm.mem_iff, hmem]

end Queue

end SparseEngine
