import Mathlib.Tactic

/-! A `ParentMap` sends a node to its parent (`some (some p)`), a root to `some none`. -/

namespace SparseEngine

open List Function Finset

variable {ι : Type}

/-- `some (some p)`: a node below `p`; `some none`: a root. -/
abbrev ParentMap (ι : Type) := ι → Option (Option ι)

/-- `d` is `b` or a descendant of `b`. -/
def Below (par : ParentMap ι) (b d : ι) : Prop :=
  Relation.ReflTransGen (fun x y => par y = some (some x)) b d

/-- `l` is the path from a root to `b`. -/
inductive RootPath (par : ParentMap ι) : ι → List ι → Prop
  | root {b : ι} : par b = some none → RootPath par b [b]
  | child {b p : ι} {l : List ι} :
      par b = some (some p) → RootPath par p l → RootPath par b (l ++ [b])

/-- `l` descends from `q`. -/
def PathFrom (par : ParentMap ι) : Option ι → List ι → Prop
  | _, [] => True
  | q, b :: l => par b = some q ∧ PathFrom par (some b) l

/-- `ok` holds of `b` and of all its descendants. -/
def Clear (par : ParentMap ι) (ok : ι → Prop) (b : ι) : Prop := ∀ d, Below par b d → ok d

/-- `S` is the node set of a forest. -/
structure Forest (S : Finset ι) (par : ParentMap ι) : Prop where
  nodes : ∀ b, b ∈ S ↔ ∃ q, par b = some q
  closed : ∀ b p, par b = some (some p) → p ∈ S
  ranked : ∃ r : ι → Nat, ∀ b p, par b = some (some p) → r p < r b

namespace RootPath

variable {par : ParentMap ι} {b : ι} {l l' : List ι}

theorem mem_last (h : RootPath par b l) : b ∈ l := by
  cases h <;> simp

theorem getLast?_eq (h : RootPath par b l) : l.getLast? = some b := by
  cases h <;> simp

theorem unique (h : RootPath par b l) (h' : RootPath par b l') : l = l' := by
  induction h generalizing l' with
  | root hr =>
    cases h' with
    | root => rfl
    | child hc => rw [hr] at hc; cases hc
  | child hc _ ih =>
    cases h' with
    | root hr => rw [hr] at hc; cases hc
    | child hc' h' =>
      rw [hc] at hc'
      cases hc'
      rw [ih h']

theorem mem_node (h : RootPath par b l) {a : ι} (ha : a ∈ l) : ∃ q, par a = some q := by
  induction h with
  | root hr => simp only [List.mem_singleton] at ha; subst ha; exact ⟨_, hr⟩
  | child hc _ ih =>
    rcases List.mem_append.mp ha with ha | ha
    · exact ih ha
    · simp only [List.mem_singleton] at ha; subst ha; exact ⟨_, hc⟩

end RootPath

namespace PathFrom

variable {par : ParentMap ι} {q : Option ι} {l l' : List ι}

/-- How far `l` descends from `q`. -/
def depth [DecidableEq ι] (par : ParentMap ι) : Option ι → List ι → Nat
  | _, [] => 0
  | q, b :: l => if par b = some q then depth par (some b) l + 1 else 0

theorem depth_le_length [DecidableEq ι] : depth par q l ≤ l.length := by
  induction l generalizing q with
  | nil => simp [depth]
  | cons b l ih =>
    simp only [depth]
    split
    · simpa using ih
    · simp

/-- `depth` is the length of the longest descending prefix. -/
theorem take_iff_le_depth [DecidableEq ι] {n : Nat} (hn : n ≤ l.length) :
    PathFrom par q (l.take n) ↔ n ≤ depth par q l := by
  induction l generalizing q n with
  | nil => simp_all [PathFrom]
  | cons b l ih =>
    cases n with
    | zero => simp [PathFrom]
    | succ n =>
      simp only [take_succ_cons, PathFrom, depth]
      split
      · next h => rw [ih (by simpa using hn)]; simp [h]
      · next h => simp [h]

theorem mem_node (h : PathFrom par q l) {a : ι} (ha : a ∈ l) : ∃ q', par a = some q' := by
  induction l generalizing q with
  | nil => simp at ha
  | cons b l ih =>
    rcases mem_cons.mp ha with rfl | ha
    · exact ⟨_, h.1⟩
    · exact ih h.2 ha

end PathFrom

namespace Below

variable {par : ParentMap ι} {a b c : ι}

/-- What is above a child is the child itself or is above its parent. -/
theorem parent (h : Below par a c) (hc : par c = some (some b)) : a = c ∨ Below par a b := by
  rcases Relation.ReflTransGen.cases_tail h with rfl | ⟨b', hab, hb'⟩
  · exact Or.inl rfl
  · rw [hc] at hb'
    cases hb'
    exact Or.inr hab

end Below

namespace Forest

variable {S : Finset ι} {par : ParentMap ι}

theorem mem_of_parent (h : Forest S par) {b p : ι} (hb : par b = some (some p)) : b ∈ S :=
  (h.nodes b).mpr ⟨_, hb⟩

/-- Induction from the parent to the child. -/
theorem parent_induction (h : Forest S par) {P : ι → Prop}
    (step : ∀ b ∈ S, (∀ p, par b = some (some p) → P p) → P b) : ∀ b ∈ S, P b := by
  obtain ⟨r, hr⟩ := h.ranked
  intro b
  induction hn : r b using Nat.strong_induction_on generalizing b with
  | _ n ih =>
    intro hb
    refine step b hb fun p hp => ih (r p) ?_ p rfl (h.closed b p hp)
    rw [← hn]
    exact hr b p hp

/-- Induction from the children to the parent. -/
theorem child_induction (h : Forest S par) {P : ι → Prop}
    (step : ∀ b ∈ S, (∀ c, par c = some (some b) → P c) → P b) : ∀ b ∈ S, P b := by
  obtain ⟨r, hr⟩ := h.ranked
  have hsup : ∀ b ∈ S, r b ≤ S.sup r := fun b hb => le_sup hb
  intro b
  induction hn : S.sup r - r b using Nat.strong_induction_on generalizing b with
  | _ n ih =>
    intro hb
    refine step b hb fun c hc => ?_
    have hcS := h.mem_of_parent hc
    have hlt := hr c b hc
    have hle := hsup c hcS
    exact ih _ (by omega) c rfl hcS

theorem exists_rootPath (h : Forest S par) : ∀ b ∈ S, ∃ l, RootPath par b l := by
  refine h.parent_induction fun b hb ih => ?_
  obtain ⟨q, hq⟩ := (h.nodes b).mp hb
  cases q with
  | none => exact ⟨[b], .root hq⟩
  | some p =>
    obtain ⟨l, hl⟩ := ih p hq
    exact ⟨l ++ [b], .child hq hl⟩

/-- A path visits no node twice, so it is no longer than the forest is large. -/
theorem rootPath_nodup (h : Forest S par) {b : ι} {l : List ι} (hl : RootPath par b l) :
    l.Nodup := by
  obtain ⟨r, hr⟩ := h.ranked
  have key : ∀ {b l}, RootPath par b l → l.Nodup ∧ ∀ a ∈ l, r a ≤ r b := by
    intro b l hl
    induction hl with
    | root => simp
    | @child b p l hc _ ih =>
      have hlt := hr b p hc
      constructor
      · rw [nodup_append]
        refine ⟨ih.1, by simp, fun a ha c hc' => ?_⟩
        simp only [List.mem_singleton] at hc'
        subst hc'
        rintro rfl
        have := ih.2 a ha
        omega
      · intro a ha
        rcases List.mem_append.mp ha with ha | ha
        · have := ih.2 a ha; omega
        · simp only [List.mem_singleton] at ha; subst ha; exact le_refl _
  exact (key hl).1

theorem rootPath_length_le (h : Forest S par) {b : ι} {l : List ι} (hl : RootPath par b l) :
    l.length ≤ S.card := by
  classical
  rw [← toFinset_card_of_nodup (h.rootPath_nodup hl)]
  refine card_le_card fun a ha => ?_
  exact (h.nodes a).mpr (hl.mem_node (mem_toFinset.mp ha))

/-- A child is not above its parent. -/
theorem not_below_parent (h : Forest S par) {b c : ι} (hc : par c = some (some b)) :
    ¬ Below par c b := by
  obtain ⟨r, hr⟩ := h.ranked
  intro hb
  have key : ∀ {x y}, Below par x y → r x ≤ r y := by
    intro x y hxy
    induction hxy with
    | refl => exact le_refl _
    | tail _ hstep ih => exact ih.trans (hr _ _ hstep).le
  have := key hb
  have := hr c b hc
  omega

theorem mem_of_below (h : Forest S par) {b d : ι} (hb : b ∈ S) (hd : Below par b d) : d ∈ S := by
  induction hd with
  | refl => exact hb
  | tail _ hstep _ => exact h.mem_of_parent hstep

/-- Adding a leaf below a node, or a new root. -/
theorem insert [DecidableEq ι] (h : Forest S par) {b : ι} {q : Option ι} (hb : b ∉ S)
    (hq : ∀ p, q = some p → p ∈ S) :
    Forest (insert b S) (update par b (some q)) := by
  obtain ⟨r, hr⟩ := h.ranked
  have hne : ∀ x p, par x = some (some p) → p ≠ b := by
    rintro x p hx rfl
    exact hb (h.closed x p hx)
  refine ⟨fun x => ?_, fun x p hx => ?_, ?_⟩
  · by_cases hx : x = b
    · subst hx; simp
    · simp [hx, h.nodes x]
  · by_cases hxb : x = b
    · subst hxb
      rw [update_self] at hx
      exact mem_insert_of_mem (hq p (Option.some.inj hx))
    · rw [update_of_ne hxb] at hx
      exact mem_insert_of_mem (h.closed x p hx)
  · -- The new node is ranked just below its parent; nothing has it as a parent yet.
    refine ⟨update r b ((q.map r).getD 0 + 1), fun x p hx => ?_⟩
    by_cases hxb : x = b
    · subst hxb
      rw [update_self] at hx
      have hqp : q = some p := Option.some.inj hx
      have hpx : p ≠ x := fun e => hb (e ▸ hq p hqp)
      rw [update_of_ne hpx, update_self, hqp]
      simp
    · rw [update_of_ne hxb] at hx
      rw [update_of_ne hxb, update_of_ne (hne x p hx)]
      exact hr x p hx

/-- Taking a leaf away. -/
theorem erase [DecidableEq ι] (h : Forest S par) {b : ι} (hleaf : ∀ c, par c ≠ some (some b)) :
    Forest (S.erase b) (update par b none) := by
  obtain ⟨r, hr⟩ := h.ranked
  have hpar : ∀ x q, update par b none x = some q → x ≠ b ∧ par x = some q := by
    intro x q hx
    by_cases hxb : x = b
    · subst hxb; simp at hx
    · rw [update_of_ne hxb] at hx; exact ⟨hxb, hx⟩
  refine ⟨fun x => ?_, fun x p hx => ?_, r, fun x p hx => hr x p (hpar x _ hx).2⟩
  · by_cases hx : x = b
    · subst hx; simp
    · simp [hx, h.nodes x]
  · obtain ⟨-, hx⟩ := hpar x _ hx
    exact mem_erase.mpr ⟨fun e => hleaf x (e ▸ hx), h.closed x p hx⟩

end Forest

section

variable {par : ParentMap ι} {ok : ι → Prop}

theorem Clear.self {b : ι} (h : Clear par ok b) : ok b := h b .refl

theorem Clear.child {b c : ι} (h : Clear par ok b) (hc : par c = some (some b)) :
    Clear par ok c := fun d hd => h d (Relation.ReflTransGen.head hc hd)

theorem clear_step {b : ι} : Clear par ok b ↔ ok b ∧ ∀ c, par c = some (some b) → Clear par ok c := by
  constructor
  · exact fun h => ⟨h.self, fun c hc => h.child hc⟩
  · rintro ⟨hb, hc⟩ d hd
    rcases Relation.ReflTransGen.cases_head hd with rfl | ⟨c, hbc, hcd⟩
    · exact hb
    · exact hc c hbc d hcd

/-- The one-step equation determines the clear nodes of a finite forest. -/
theorem clear_iff_of_fixpoint {S : Finset ι} (hf : Forest S par) {F : ι → Prop}
    (hF : ∀ b ∈ S, F b ↔ ok b ∧ ∀ c, par c = some (some b) → F c) :
    ∀ b ∈ S, F b ↔ Clear par ok b := by
  refine hf.child_induction fun b hb ih => ?_
  rw [hF b hb, clear_step]
  refine and_congr_right fun _ => ?_
  exact forall_congr' fun c => forall_congr' fun hc => ih c hc

end

section

variable [DecidableEq ι]

/-- The children of `b` inside `S` that are not in `F`. -/
def keptChildren (S : Finset ι) (par : ParentMap ι) (F : Finset ι) (b : ι) : Finset ι :=
  S.filter fun c => par c = some (some b) ∧ c ∉ F

theorem mem_keptChildren {S F : Finset ι} {par : ParentMap ι} {b c : ι} :
    c ∈ keptChildren S par F b ↔ c ∈ S ∧ par c = some (some b) ∧ c ∉ F := by
  simp [keptChildren]

/-- Taking `x` away removes it from the kept children of its parent. -/
theorem keptChildren_insert {S F : Finset ι} {par : ParentMap ι} {x b : ι} :
    keptChildren S par (insert x F) b = (keptChildren S par F b).erase x := by
  ext c
  simp only [mem_keptChildren, mem_erase, mem_insert]
  tauto

theorem keptChildren_insert_of_ne {S F : Finset ι} {par : ParentMap ι} {x b : ι}
    (h : par x ≠ some (some b)) : keptChildren S par (insert x F) b = keptChildren S par F b := by
  rw [keptChildren_insert, erase_eq_of_notMem]
  exact fun hx => h (mem_keptChildren.mp hx).2.1

theorem keptChildren_erase_of_ne {S F : Finset ι} {par : ParentMap ι} {x b : ι}
    (h : par x ≠ some (some b)) : keptChildren S par (F.erase x) b = keptChildren S par F b := by
  ext c
  simp only [mem_keptChildren, mem_erase]
  refine and_congr_right fun _ => and_congr_right fun hc => ?_
  have : c ≠ x := fun hx => h (hx ▸ hc)
  tauto

/-- Removing a child adds one to the number of kept children. -/
theorem card_keptChildren_erase {S F : Finset ι} {par : ParentMap ι} {x p : ι} (hx : x ∈ S)
    (hp : par x = some (some p)) (hF : x ∈ F) :
    (keptChildren S par (F.erase x) p).card = (keptChildren S par F p).card + 1 := by
  rw [← card_insert_of_notMem (a := x) (s := keptChildren S par F p)]
  · congr 1
    ext c
    simp only [mem_keptChildren, mem_erase, mem_insert]
    by_cases hc : c = x
    · subst hc; simp [hx, hp]
    · simp [hc]
  · exact fun h => (mem_keptChildren.mp h).2.2 hF

theorem card_keptChildren_insert {S F : Finset ι} {par : ParentMap ι} {x p : ι} (hx : x ∈ S)
    (hp : par x = some (some p)) (hF : x ∉ F) :
    (keptChildren S par (insert x F) p).card + 1 = (keptChildren S par F p).card := by
  rw [keptChildren_insert, card_erase_add_one]
  exact mem_keptChildren.mpr ⟨hx, hp, hF⟩

/-- The state of the peeling loop. -/
structure Peel (S : Finset ι) (par : ParentMap ι) (ok : ι → Prop) (F : Finset ι)
    (cnt : ι → Int) (stack : List ι) : Prop where
  sub : ∀ b ∈ F, b ∈ S
  count : ∀ b ∈ S, cnt b = (keptChildren S par F b).card
  free : ∀ b ∈ F, ok b ∧ cnt b = 0
  ready : ∀ b ∈ stack, b ∈ S ∧ b ∉ F ∧ cnt b = 0
  nodup : stack.Nodup
  done : ∀ b ∈ S, cnt b = 0 → b ∈ F ∨ b ∈ stack ∨ ¬ ok b

namespace Peel

variable {S F : Finset ι} {par : ParentMap ι} {ok : ι → Prop} {cnt : ι → Int} {b p : ι}
  {stack : List ι}

/-- How many more iterations the loop can make. -/
def measure (S : Finset ι) (cnt : ι → Int) (stack : List ι) : Nat :=
  (S.filter fun b => cnt b ≠ 0).card + stack.length

theorem pop_blocked (h : Peel S par ok F cnt (b :: stack)) (hb : ¬ ok b) :
    Peel S par ok F cnt stack where
  __ := h
  ready := fun x hx => h.ready x (List.mem_cons_of_mem _ hx)
  nodup := (nodup_cons.mp h.nodup).2
  done := fun x hx hx0 => by
    rcases h.done x hx hx0 with h1 | h1 | h1
    · exact Or.inl h1
    · rcases mem_cons.mp h1 with rfl | h1
      · exact Or.inr (Or.inr hb)
      · exact Or.inr (Or.inl h1)
    · exact Or.inr (Or.inr h1)

/-- The facts shared by the two ways of taking the head of the stack away. -/
theorem pop_ready (h : Peel S par ok F cnt (b :: stack)) :
    b ∈ S ∧ b ∉ F ∧ cnt b = 0 ∧ b ∉ stack ∧ stack.Nodup := by
  obtain ⟨hS, hF, h0⟩ := h.ready b List.mem_cons_self
  obtain ⟨hn, hs⟩ := nodup_cons.mp h.nodup
  exact ⟨hS, hF, h0, hn, hs⟩

/-- Taking away a node without a parent in `S`. -/
theorem pop_root (h : Peel S par ok F cnt (b :: stack)) (hb : ok b)
    (hp : ∀ x ∈ S, par b ≠ some (some x)) : Peel S par ok (insert b F) cnt stack := by
  obtain ⟨hS, hF, h0, hn, hs⟩ := h.pop_ready
  refine ⟨?_, ?_, ?_, ?_, hs, ?_⟩
  · intro x hx
    rcases mem_insert.mp hx with rfl | hx
    · exact hS
    · exact h.sub x hx
  · intro x hx
    rw [keptChildren_insert_of_ne (hp x hx)]
    exact h.count x hx
  · intro x hx
    rcases mem_insert.mp hx with rfl | hx
    · exact ⟨hb, h0⟩
    · exact h.free x hx
  · intro x hx
    obtain ⟨h1, h2, h3⟩ := h.ready x (List.mem_cons_of_mem _ hx)
    refine ⟨h1, ?_, h3⟩
    rw [mem_insert, not_or]
    exact ⟨fun hxb => hn (hxb ▸ hx), h2⟩
  · intro x hx hx0
    rcases h.done x hx hx0 with h1 | h1 | h1
    · exact Or.inl (mem_insert_of_mem h1)
    · rcases mem_cons.mp h1 with rfl | h1
      · exact Or.inl (mem_insert_self _ _)
      · exact Or.inr (Or.inl h1)
    · exact Or.inr (Or.inr h1)

/-- Taking away a child of `p`: the count of `p` drops by one, and `p` joins the
stack when that was its last child. -/
theorem pop_child (h : Peel S par ok F cnt (b :: stack)) (hb : ok b)
    (hp : par b = some (some p)) (hpS : p ∈ S) (hpb : p ≠ b) :
    Peel S par ok (insert b F) (update cnt p (cnt p - 1))
      (if cnt p - 1 = 0 then p :: stack else stack) := by
  obtain ⟨hS, hF, h0, hn, hs⟩ := h.pop_ready
  -- `p` still counts `b`, so it is neither taken away nor on the stack.
  have hcard : 0 < (keptChildren S par F p).card :=
    card_pos.mpr ⟨b, mem_keptChildren.mpr ⟨hS, hp, hF⟩⟩
  have hpcnt : cnt p ≠ 0 := by
    rw [h.count p hpS]
    omega
  have hpF : p ∉ F := fun hp' => hpcnt (h.free p hp').2
  have hpstack : p ∉ stack := fun hp' => hpcnt (h.ready p (List.mem_cons_of_mem _ hp')).2.2
  have hne : ∀ {x : ι}, x ≠ p → par b ≠ some (some x) := by
    rintro x hx hbx
    rw [hp] at hbx
    exact hx (Option.some.inj (Option.some.inj hbx)).symm
  refine ⟨?_, ?_, ?_, ?_, ?_, ?_⟩
  · intro x hx
    rcases mem_insert.mp hx with rfl | hx
    · exact hS
    · exact h.sub x hx
  · intro x hx
    by_cases hxp : x = p
    · subst hxp
      have := card_keptChildren_insert hS hp hF
      rw [update_self, h.count x hx]
      omega
    · rw [update_of_ne hxp, keptChildren_insert_of_ne (hne hxp)]
      exact h.count x hx
  · intro x hx
    rcases mem_insert.mp hx with rfl | hx
    · exact ⟨hb, by rw [update_of_ne (Ne.symm hpb)]; exact h0⟩
    · have hxp : x ≠ p := fun e => hpF (e ▸ hx)
      exact ⟨(h.free x hx).1, by rw [update_of_ne hxp]; exact (h.free x hx).2⟩
  · have hold : ∀ x ∈ stack, x ∈ S ∧ x ∉ insert b F ∧ update cnt p (cnt p - 1) x = 0 := by
      intro x hx
      obtain ⟨h1, h2, h3⟩ := h.ready x (List.mem_cons_of_mem _ hx)
      refine ⟨h1, ?_, ?_⟩
      · rw [mem_insert, not_or]
        exact ⟨fun hxb => hn (hxb ▸ hx), h2⟩
      · rw [update_of_ne (fun e : x = p => hpstack (e ▸ hx))]
        exact h3
    intro x hx
    split at hx
    · next h1 =>
      rcases mem_cons.mp hx with rfl | hx
      · refine ⟨hpS, ?_, by rw [update_self]; exact h1⟩
        rw [mem_insert, not_or]
        exact ⟨hpb, hpF⟩
      · exact hold x hx
    · exact hold x hx
  · split
    · exact nodup_cons.mpr ⟨hpstack, hs⟩
    · exact hs
  · intro x hx hx0
    by_cases hxp : x = p
    · subst hxp
      rw [update_self] at hx0
      rw [if_pos hx0]
      exact Or.inr (Or.inl List.mem_cons_self)
    · rw [update_of_ne hxp] at hx0
      rcases h.done x hx hx0 with h1 | h1 | h1
      · exact Or.inl (mem_insert_of_mem h1)
      · rcases mem_cons.mp h1 with rfl | h1
        · exact Or.inl (mem_insert_self _ _)
        · refine Or.inr (Or.inl ?_)
          split
          · exact List.mem_cons_of_mem _ h1
          · exact h1
      · exact Or.inr (Or.inr h1)

/-- When the stack is empty, what was taken away satisfies the one-step equation. -/
theorem fixpoint (h : Peel S par ok F cnt []) (hb : b ∈ S) :
    b ∈ F ↔ ok b ∧ ∀ c ∈ S, par c = some (some b) → c ∈ F := by
  have hcount : cnt b = 0 ↔ ∀ c ∈ S, par c = some (some b) → c ∈ F := by
    rw [h.count b hb, Int.natCast_eq_zero, card_eq_zero, eq_empty_iff_forall_notMem]
    simp only [mem_keptChildren]
    constructor
    · intro h1 c hc hcb
      by_contra hcF
      exact h1 c ⟨hc, hcb, hcF⟩
    · rintro h1 c ⟨hc, hcb, hcF⟩
      exact hcF (h1 c hc hcb)
  rw [← hcount]
  constructor
  · exact h.free b
  · rintro ⟨hok, h0⟩
    rcases h.done b hb h0 with h1 | h1 | h1
    · exact h1
    · exact absurd h1 not_mem_nil
    · exact absurd hok h1

omit [DecidableEq ι] in
/-- Popping a blocked node or a root makes the measure smaller. -/
theorem measure_pop (S : Finset ι) (cnt : ι → Int) (b : ι) (stack : List ι) :
    measure S cnt stack < measure S cnt (b :: stack) := by
  simp [measure]

/-- Popping a child makes the measure smaller even when its parent joins the stack. -/
theorem measure_pop_child (h : Peel S par ok F cnt (b :: stack))
    (hp : par b = some (some p)) (hpS : p ∈ S) :
    measure S (update cnt p (cnt p - 1)) (if cnt p - 1 = 0 then p :: stack else stack)
      < measure S cnt (b :: stack) := by
  obtain ⟨hS, hF, -, -, -⟩ := h.pop_ready
  have hpcnt : cnt p ≠ 0 := by
    have hcard : 0 < (keptChildren S par F p).card :=
      card_pos.mpr ⟨b, mem_keptChildren.mpr ⟨hS, hp, hF⟩⟩
    rw [h.count p hpS]
    omega
  have hpmem : p ∈ S.filter fun b => cnt b ≠ 0 := Finset.mem_filter.mpr ⟨hpS, hpcnt⟩
  unfold measure
  split
  · next h1 =>
    have hsub : (S.filter fun b => update cnt p (cnt p - 1) b ≠ 0)
        = (S.filter fun b => cnt b ≠ 0).erase p := by
      ext x
      simp only [Finset.mem_filter, mem_erase]
      by_cases hxp : x = p
      · subst hxp; simp [h1]
      · simp [hxp]
    have := card_erase_add_one hpmem
    rw [hsub]
    simp only [length_cons]
    omega
  · next h1 =>
    have hsub : (S.filter fun b => update cnt p (cnt p - 1) b ≠ 0)
        = S.filter fun b => cnt b ≠ 0 := by
      ext x
      simp only [Finset.mem_filter]
      by_cases hxp : x = p
      · subst hxp; simp [h1, hpcnt]
      · simp [hxp]
    rw [hsub]
    simp

end Peel

end

/-- The state of a traversal of the subtree of `b`. -/
structure Sweep (par : ParentMap ι) (b : ι) (result stack : List ι) : Prop where
  sound : ∀ d, d ∈ result ∨ d ∈ stack → Below par b d
  complete : ∀ d, Below par b d → d ∈ result ∨ ∃ s ∈ stack, Below par s d
  fresh : ∀ s ∈ stack, ∀ d ∈ result, ¬ Below par s d
  apart : stack.Pairwise fun s s' => ¬ Below par s s' ∧ ¬ Below par s' s
  nodup : result.Nodup

namespace Sweep

variable {S : Finset ι} {par : ParentMap ι} {b s : ι} {result stack cs : List ι}

/-- The start: nothing visited, the whole subtree to go. -/
theorem start : Sweep par b [] [b] where
  sound := by
    rintro d (h | h)
    · simp at h
    · simp only [List.mem_singleton] at h; subst h; exact .refl
  complete := fun d h => Or.inr ⟨b, by simp, h⟩
  fresh := by simp
  apart := by simp
  nodup := nodup_nil

/-- Visit the top of the stack and push its children. -/
theorem visit (hf : Forest S par) (h : Sweep par b result (s :: stack)) (hcs : cs.Nodup)
    (hmem : ∀ c, c ∈ cs ↔ par c = some (some s)) :
    Sweep par b (result ++ [s]) (cs ++ stack) := by
  have hap := pairwise_cons.mp h.apart
  have hs : Below par b s := h.sound s (Or.inr List.mem_cons_self)
  have hdown : ∀ c ∈ cs, Below par s c := fun c hc =>
    Relation.ReflTransGen.single ((hmem c).mp hc)
  refine ⟨?_, ?_, ?_, ?_, ?_⟩
  · intro d hd
    simp only [List.mem_append, List.mem_singleton] at hd
    rcases hd with (hd | rfl) | hd | hd
    · exact h.sound d (Or.inl hd)
    · exact hs
    · exact Relation.ReflTransGen.trans hs (hdown d hd)
    · exact h.sound d (Or.inr (List.mem_cons_of_mem _ hd))
  · intro d hd
    rcases h.complete d hd with h1 | ⟨t, ht, h1⟩
    · exact Or.inl (mem_append_left _ h1)
    · rcases mem_cons.mp ht with rfl | ht
      · rcases Relation.ReflTransGen.cases_head h1 with rfl | ⟨c, hc, hcd⟩
        · exact Or.inl (by simp)
        · exact Or.inr ⟨c, mem_append_left _ ((hmem c).mpr hc), hcd⟩
      · exact Or.inr ⟨t, mem_append_right _ ht, h1⟩
  · intro t ht d hd
    rcases List.mem_append.mp ht with ht | ht <;>
      rcases List.mem_append.mp hd with hd | hd
    · exact fun h1 => h.fresh s List.mem_cons_self d hd (Relation.ReflTransGen.trans (hdown t ht) h1)
    · simp only [List.mem_singleton] at hd
      subst hd
      exact hf.not_below_parent ((hmem t).mp ht)
    · exact h.fresh t (List.mem_cons_of_mem _ ht) d hd
    · simp only [List.mem_singleton] at hd
      subst hd
      exact (hap.1 t ht).2
  · rw [List.pairwise_append]
    refine ⟨?_, hap.2, fun c hc t ht => ⟨fun h1 => ?_, fun h1 => ?_⟩⟩
    · refine hcs.imp_of_mem fun {c c'} hc hc' hne => ?_
      have hsib : ∀ {x y}, x ∈ cs → y ∈ cs → x ≠ y → ¬ Below par x y := by
        intro x y hx hy hxy h1
        rcases h1.parent ((hmem y).mp hy) with h2 | h2
        · exact hxy h2
        · exact hf.not_below_parent ((hmem x).mp hx) h2
      exact ⟨hsib hc hc' hne, hsib hc' hc hne.symm⟩
    · exact (hap.1 t ht).1 (Relation.ReflTransGen.trans (hdown c hc) h1)
    · rcases h1.parent ((hmem c).mp hc) with rfl | h2
      · exact (hap.1 t ht).1 (hdown t hc)
      · exact (hap.1 t ht).2 h2
  · rw [nodup_append]
    refine ⟨h.nodup, by simp, fun d hd d' hd' => ?_⟩
    simp only [List.mem_singleton] at hd'
    subst hd'
    rintro rfl
    exact h.fresh d List.mem_cons_self d hd .refl

/-- When the stack is empty, the result lists the subtree. -/
theorem mem_iff (h : Sweep par b result []) {d : ι} : d ∈ result ↔ Below par b d := by
  constructor
  · exact fun hd => h.sound d (Or.inl hd)
  · intro hd
    rcases h.complete d hd with h1 | ⟨t, ht, -⟩
    · exact h1
    · simp at ht

theorem length_le (hf : Forest S par) (hb : b ∈ S) (h : Sweep par b result stack) :
    result.length + stack.length ≤ S.card := by
  classical
  have hstack : stack.Nodup := by
    refine h.apart.imp fun {x y} hxy => ?_
    rintro rfl
    exact hxy.1 .refl
  have hnd : (result ++ stack).Nodup := by
    rw [nodup_append]
    refine ⟨h.nodup, hstack, fun d hd t ht e => ?_⟩
    subst e
    exact h.fresh d ht d hd .refl
  rw [← length_append, ← toFinset_card_of_nodup hnd]
  refine card_le_card fun d hd => ?_
  rw [mem_toFinset, List.mem_append] at hd
  exact hf.mem_of_below hb (h.sound d hd)

end Sweep

end SparseEngine
