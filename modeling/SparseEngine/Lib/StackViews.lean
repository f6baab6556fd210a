import Mathlib.Tactic

/-! A stack of free ids is an array with a top. -/

namespace SparseEngine

/-- An array of ids, free below `top`. -/
structure IdStack where
  storage : Nat → Nat
  top : Nat

/-- A slice of an array. -/
structure StackView where
  start : Nat
  len : Nat
deriving DecidableEq

namespace IdStack

variable {s : IdStack} {v : StackView} {ids : List Nat}

def read (s : IdStack) (v : StackView) : List Nat :=
  (List.range v.len).map fun j => s.storage (v.start + j)

/-- The view of the `n` ids below the top. -/
def topView (s : IdStack) (n : Nat) : StackView := ⟨s.top - n, n⟩

/-- The stack without its `n` top ids. -/
def take (s : IdStack) (n : Nat) : IdStack := { s with top := s.top - n }

def push (s : IdStack) (ids : List Nat) : IdStack where
  storage := fun k => if s.top ≤ k then (ids[k - s.top]?).getD (s.storage k) else s.storage k
  top := s.top + ids.length

/-- A push of `n` ids stays below the view. -/
def Clear (s : IdStack) (n : Nat) (v : StackView) : Prop := v.len = 0 ∨ s.top + n ≤ v.start

theorem read_congr {t : IdStack} (h : t.storage = s.storage) : t.read v = s.read v := by
  rw [read, h, read]

/-- A push below a view leaves what it shows. -/
theorem read_push (h : s.Clear ids.length v) : (s.push ids).read v = s.read v := by
  rcases h with h | h
  · rw [read, read, h]
    rfl
  · refine List.map_congr_left fun j _ => ?_
    have hout : ids.length ≤ v.start + j - s.top := by omega
    simp [push, List.getElem?_eq_none hout]

end IdStack

def writeAt (m : Nat → Option Nat) : List (Nat × Nat) → Nat → Option Nat
  | [] => m
  | e :: l => writeAt (Function.update m e.1 (some e.2)) l

/-- The map records the ids at their positions. -/
def Records (m : Nat → Option Nat) (writes : List (Nat × Nat)) : Prop :=
  ∀ e ∈ writes, m e.1 = some e.2

theorem records_nil (m : Nat → Option Nat) : Records m [] := fun e he => by cases he

theorem writeAt_of_not_mem : ∀ {l : List (Nat × Nat)} {m : Nat → Option Nat} {x : Nat},
    x ∉ l.map Prod.fst → writeAt m l x = m x
  | [], _, _, _ => rfl
  | e :: l, m, x, h => by
    have hx : x ≠ e.1 ∧ x ∉ l.map Prod.fst := by simpa using h
    rw [writeAt, writeAt_of_not_mem hx.2, Function.update_of_ne hx.1]

/-- Distinct positions are recorded as they were assigned. -/
theorem records_writeAt : ∀ {l : List (Nat × Nat)} {m : Nat → Option Nat},
    (l.map Prod.fst).Nodup → Records (writeAt m l) l
  | [], _, _ => fun e he => by cases he
  | d :: l, m, h => by
    obtain ⟨hd, hl⟩ := List.nodup_cons.mp h
    intro e he
    rcases List.mem_cons.mp he with rfl | he
    · rw [writeAt, writeAt_of_not_mem hd, Function.update_self]
    · exact records_writeAt hl e he

theorem zip_fst_sublist : ∀ l l' : List Nat, ((l.zip l').map Prod.fst).Sublist l
  | [], _ => .slnil
  | _ :: _, [] => List.nil_sublist _
  | x :: l, _ :: l' => .cons_cons x (zip_fst_sublist l l')

theorem records_zip_writeAt {positions ids : List Nat} {m : Nat → Option Nat}
    (h : positions.Nodup) : Records (writeAt m (positions.zip ids)) (positions.zip ids) :=
  records_writeAt (h.sublist (zip_fst_sublist positions ids))

end SparseEngine
