import SparseEngine.Lib.Py

/-! The immutable AVL set of block ids that routing snapshots share with the live index. -/

namespace SparseEngine

/-- `_PrefixCacheRoutingMembershipNode`. -/
inductive MembershipNode (ι : Type) where
  | leaf
  | node (left : MembershipNode ι) (blockId : ι) (right : MembershipNode ι) (height : Nat)
deriving DecidableEq, Repr

namespace MembershipNode

variable {ι : Type}

/-- `_routing_membership_height`. -/
def height : MembershipNode ι → Nat
  | leaf => 0
  | node _ _ _ h => h

/-- `_make_routing_membership_node`. -/
def makeNode (blockId : ι) (left right : MembershipNode ι) : MembershipNode ι :=
  node left blockId right (1 + max left.height right.height)

/-- `_rotate_routing_membership_left`. -/
def rotateLeft : MembershipNode ι → Except PyError (MembershipNode ι)
  | node left blockId (node pivotLeft pivotId pivotRight _) _ =>
    .ok (makeNode pivotId (makeNode blockId left pivotLeft) pivotRight)
  | _ => .error (.runtimeError "Cannot rotate prefix-cache routing membership left.")

/-- `_rotate_routing_membership_right`. -/
def rotateRight : MembershipNode ι → Except PyError (MembershipNode ι)
  | node (node pivotLeft pivotId pivotRight _) blockId right _ =>
    .ok (makeNode pivotId pivotLeft (makeNode blockId pivotRight right))
  | _ => .error (.runtimeError "Cannot rotate prefix-cache routing membership right.")

/-- `_balance_routing_membership`. -/
def balance : MembershipNode ι → Except PyError (MembershipNode ι)
  | leaf => .ok leaf
  | node left blockId right h =>
    if (left.height : Int) - right.height > 1 then
      match left with
      | leaf => .error (.runtimeError "Invalid left-heavy prefix-cache routing membership.")
      | node ll lid lr lh =>
        if ll.height < lr.height then do
          let left' ← rotateLeft (node ll lid lr lh)
          rotateRight (makeNode blockId left' right)
        else
          rotateRight (node (node ll lid lr lh) blockId right h)
    else if (left.height : Int) - right.height < -1 then
      match right with
      | leaf => .error (.runtimeError "Invalid right-heavy prefix-cache routing membership.")
      | node rl rid rr rh =>
        if rr.height < rl.height then do
          let right' ← rotateRight (node rl rid rr rh)
          rotateLeft (makeNode blockId left right')
        else
          rotateLeft (node left blockId (node rl rid rr rh) h)
    else
      .ok (node left blockId right h)

section

variable [LinearOrder ι]

/-- `_insert_routing_membership`. -/
def insertNode (blockId : ι) : MembershipNode ι → Except PyError (MembershipNode ι × Bool)
  | leaf => .ok (node leaf blockId leaf 1, true)
  | node left nodeId right h =>
    if blockId = nodeId then
      .ok (node left nodeId right h, false)
    else if blockId < nodeId then do
      let (left', inserted) ← insertNode blockId left
      if inserted then
        return (← balance (makeNode nodeId left' right), true)
      else
        return (node left nodeId right h, false)
    else do
      let (right', inserted) ← insertNode blockId right
      if inserted then
        return (← balance (makeNode nodeId left right'), true)
      else
        return (node left nodeId right h, false)

/-- `_minimum_routing_membership_node`. -/
def minimum (blockId : ι) : MembershipNode ι → ι
  | leaf => blockId
  | node left nodeId _ _ => minimum nodeId left

/-- `_remove_routing_membership`. -/
def removeNode (blockId : ι) : MembershipNode ι → Except PyError (MembershipNode ι × Bool)
  | leaf => .ok (leaf, false)
  | node left nodeId right h =>
    if blockId < nodeId then do
      let (left', removed) ← removeNode blockId left
      if removed then
        return (← balance (makeNode nodeId left' right), true)
      else
        return (node left nodeId right h, false)
    else if nodeId < blockId then do
      let (right', removed) ← removeNode blockId right
      if removed then
        return (← balance (makeNode nodeId left right'), true)
      else
        return (node left nodeId right h, false)
    else
      match left, right with
      | leaf, right => .ok (right, true)
      | left, leaf => .ok (left, true)
      | left, node rl rid rr rh => do
        let successor := minimum rid rl
        let (right', removed) ← removeNode successor (node rl rid rr rh)
        if removed then
          return (← balance (makeNode successor left right'), true)
        else
          .error (.runtimeError "Failed to remove prefix-cache routing membership successor.")

def contains (blockId : ι) : MembershipNode ι → Bool
  | leaf => false
  | node left nodeId right _ =>
    if blockId = nodeId then true
    else if blockId < nodeId then contains blockId left
    else contains blockId right

end

def toList : MembershipNode ι → List ι
  | leaf => []
  | node left blockId right _ => left.toList ++ blockId :: right.toList

@[simp] theorem toList_makeNode (blockId : ι) (left right : MembershipNode ι) :
    (makeNode blockId left right).toList = left.toList ++ blockId :: right.toList := rfl

theorem rotateLeft_toList {t t' : MembershipNode ι} (h : rotateLeft t = .ok t') :
    t'.toList = t.toList := by
  unfold rotateLeft at h
  split at h
  · cases h; simp [toList]
  · cases h

theorem rotateRight_toList {t t' : MembershipNode ι} (h : rotateRight t = .ok t') :
    t'.toList = t.toList := by
  unfold rotateRight at h
  split at h
  · cases h; simp [toList]
  · cases h

theorem rotateLeft_ok (left : MembershipNode ι) (blockId : ι) {right : MembershipNode ι} (h : Nat)
    (hr : 0 < right.height) : ∃ t l i r k, rotateLeft (node left blockId right h) = .ok t ∧
      t = node l i r k := by
  cases right with
  | leaf => simp [height] at hr
  | node pl pid pr ph => exact ⟨_, _, _, _, _, rfl, rfl⟩

theorem rotateRight_ok {left : MembershipNode ι} (blockId : ι) (right : MembershipNode ι) (h : Nat)
    (hl : 0 < left.height) : ∃ t l i r k, rotateRight (node left blockId right h) = .ok t ∧
      t = node l i r k := by
  cases left with
  | leaf => simp [height] at hl
  | node pl pid pr ph => exact ⟨_, _, _, _, _, rfl, rfl⟩

theorem balance_spec (t : MembershipNode ι) : ∃ t', balance t = .ok t' ∧ t'.toList = t.toList := by
  cases t with
  | leaf => exact ⟨leaf, rfl, rfl⟩
  | node left blockId right h =>
    simp only [balance]
    by_cases hgt : (left.height : Int) - right.height > 1
    · rw [if_pos hgt]
      cases left with
      | leaf => simp only [height] at hgt; omega
      | node ll lid lr lh =>
        by_cases hlt : ll.height < lr.height
        · obtain ⟨t, l, i, r, k, hrot, rfl⟩ :=
            rotateLeft_ok ll lid lh (Nat.zero_lt_of_lt hlt)
          have hlist := rotateLeft_toList hrot
          refine ⟨_, by simp only [if_pos hlt, hrot]; rfl, ?_⟩
          simp only [toList, toList_makeNode] at hlist ⊢
          rw [← hlist]
          simp
        · exact ⟨_, by simp only [if_neg hlt]; rfl, by simp [toList]⟩
    · rw [if_neg hgt]
      by_cases hlt : (left.height : Int) - right.height < -1
      · rw [if_pos hlt]
        cases right with
        | leaf => simp only [height] at hlt; omega
        | node rl rid rr rh =>
          by_cases hlt' : rr.height < rl.height
          · obtain ⟨t, l, i, r, k, hrot, rfl⟩ :=
              rotateRight_ok rid rr rh (Nat.zero_lt_of_lt hlt')
            have hlist := rotateRight_toList hrot
            refine ⟨_, by simp only [if_pos hlt', hrot]; rfl, ?_⟩
            simp only [toList, toList_makeNode] at hlist ⊢
            rw [← hlist]
            simp
          · exact ⟨_, by simp only [if_neg hlt']; rfl, by simp [toList]⟩
      · exact ⟨_, if_neg hlt, rfl⟩

section

variable [LinearOrder ι]

def Sorted (t : MembershipNode ι) : Prop := t.toList.Pairwise (· < ·)

theorem sorted_node {left right : MembershipNode ι} {blockId : ι} {h : Nat} :
    Sorted (node left blockId right h) ↔
      Sorted left ∧ Sorted right ∧ (∀ x ∈ left.toList, x < blockId) ∧
        (∀ x ∈ right.toList, blockId < x) := by
  unfold Sorted
  rw [toList, List.pairwise_append, List.pairwise_cons]
  constructor
  · rintro ⟨h1, ⟨h2, h3⟩, h4⟩
    exact ⟨h1, h3, fun x hx => h4 x hx blockId List.mem_cons_self, h2⟩
  · rintro ⟨h1, h2, h3, h4⟩
    refine ⟨h1, ⟨h4, h2⟩, fun x hx y hy => ?_⟩
    rcases List.mem_cons.mp hy with rfl | hy
    · exact h3 x hx
    · exact (h3 x hx).trans (h4 y hy)

theorem sorted_of_toList_eq {t t' : MembershipNode ι} (h : t'.toList = t.toList) :
    Sorted t' ↔ Sorted t := by
  rw [Sorted, Sorted, h]

theorem contains_iff {t : MembershipNode ι} (ht : Sorted t) (b : ι) :
    contains b t = true ↔ b ∈ t.toList := by
  induction t with
  | leaf => simp [contains, toList]
  | node left nodeId right h ihl ihr =>
    obtain ⟨hl, hr, hlt, hgt⟩ := sorted_node.mp ht
    simp only [contains, toList, List.mem_append, List.mem_cons]
    split
    · next he => simp [he]
    · next hne =>
      split
      · next hb =>
        rw [ihl hl]
        constructor
        · exact Or.inl
        · rintro (h1 | h1 | h1)
          · exact h1
          · exact absurd h1 hne
          · exact absurd (hgt b h1) (not_lt_of_gt hb)
      · next hb =>
        rw [ihr hr]
        constructor
        · exact fun h1 => Or.inr (Or.inr h1)
        · rintro (h1 | h1 | h1)
          · exact absurd (hlt b h1) hb
          · exact absurd h1 hne
          · exact h1

theorem insert_spec {t : MembershipNode ι} (ht : Sorted t) (b : ι) :
    ∃ t' inserted, insertNode b t = .ok (t', inserted) ∧ (inserted = true ↔ b ∉ t.toList) ∧
      Sorted t' ∧ ∀ x, x ∈ t'.toList ↔ x = b ∨ x ∈ t.toList := by
  induction t with
  | leaf => exact ⟨_, _, rfl, by simp [toList], by simp [Sorted, toList], by simp [toList]⟩
  | node left nodeId right h ihl ihr =>
    obtain ⟨hl, hr, hlt, hgt⟩ := sorted_node.mp ht
    unfold insertNode
    split
    · next he =>
      subst he
      refine ⟨_, _, rfl, by simp [toList], ht, fun x => ?_⟩
      simp only [toList, List.mem_append, List.mem_cons]
      tauto
    · next hne =>
      split
      · next hb =>
        obtain ⟨t', inserted, hins, hiff, hs, hmem⟩ := ihl hl
        have hnr : b ∉ right.toList := fun h1 => absurd (hgt b h1) (not_lt_of_gt hb)
        rw [hins]
        cases inserted with
        | false =>
          have hbl : b ∈ left.toList := by simpa using hiff
          refine ⟨_, _, rfl, ?_, ht, fun x => ?_⟩
          · simp [toList, hbl]
          · simp only [toList, List.mem_append, List.mem_cons]
            constructor
            · exact Or.inr
            · rintro (rfl | h1)
              · exact Or.inl hbl
              · exact h1
        | true =>
          obtain ⟨t'', hbal, hlist⟩ := balance_spec (makeNode nodeId t' right)
          have hbl : b ∉ left.toList := by simpa using hiff
          refine ⟨t'', true, by simp [bind, Except.bind, hbal, pure, Except.pure], ?_, ?_, fun x => ?_⟩
          · simp [toList, hbl, hne, hnr]
          · rw [sorted_of_toList_eq hlist, makeNode, sorted_node]
            refine ⟨hs, hr, fun x hx => ?_, hgt⟩
            rcases (hmem x).mp hx with rfl | hx
            · exact hb
            · exact hlt x hx
          · rw [hlist, toList_makeNode]
            simp only [toList, List.mem_append, List.mem_cons, hmem]
            tauto
      · next hb =>
        have hb' : nodeId < b := lt_of_le_of_ne (not_lt.mp hb) (Ne.symm hne)
        obtain ⟨t', inserted, hins, hiff, hs, hmem⟩ := ihr hr
        have hnl : b ∉ left.toList := fun h1 => hb (hlt b h1)
        rw [hins]
        cases inserted with
        | false =>
          have hbr : b ∈ right.toList := by simpa using hiff
          refine ⟨_, _, rfl, ?_, ht, fun x => ?_⟩
          · simp [toList, hbr]
          · simp only [toList, List.mem_append, List.mem_cons]
            constructor
            · exact Or.inr
            · rintro (rfl | h1)
              · exact Or.inr (Or.inr hbr)
              · exact h1
        | true =>
          obtain ⟨t'', hbal, hlist⟩ := balance_spec (makeNode nodeId left t')
          have hbr : b ∉ right.toList := by simpa using hiff
          refine ⟨t'', true, by simp [bind, Except.bind, hbal, pure, Except.pure], ?_, ?_, fun x => ?_⟩
          · simp [toList, hbr, hne, hnl]
          · rw [sorted_of_toList_eq hlist, makeNode, sorted_node]
            refine ⟨hl, hs, hlt, fun x hx => ?_⟩
            rcases (hmem x).mp hx with rfl | hx
            · exact hb'
            · exact hgt x hx
          · rw [hlist, toList_makeNode]
            simp only [toList, List.mem_append, List.mem_cons, hmem]
            tauto

theorem minimum_spec {left right : MembershipNode ι} {b : ι} {h : Nat}
    (ht : Sorted (node left b right h)) :
    minimum b left ∈ (node left b right h).toList ∧
      ∀ x ∈ (node left b right h).toList, minimum b left ≤ x := by
  induction left generalizing b right h with
  | leaf =>
    obtain ⟨-, -, -, hgt⟩ := sorted_node.mp ht
    refine ⟨by simp [minimum, toList], fun x hx => ?_⟩
    simp only [toList, List.nil_append, List.mem_cons] at hx
    rcases hx with rfl | hx
    · exact le_refl _
    · exact (hgt x hx).le
  | node ll lid lr lh ihl _ =>
    obtain ⟨hl, -, hlt, hgt⟩ := sorted_node.mp ht
    obtain ⟨hm, hmin⟩ := ihl hl
    refine ⟨by rw [toList]; exact List.mem_append_left _ hm, fun x hx => ?_⟩
    rw [toList, List.mem_append, List.mem_cons] at hx
    rcases hx with hx | rfl | hx
    · exact hmin x hx
    · exact (hlt _ hm).le
    · exact (hlt _ hm).le.trans (hgt x hx).le

theorem remove_spec {t : MembershipNode ι} (ht : Sorted t) (b : ι) :
    ∃ t' removed, removeNode b t = .ok (t', removed) ∧ (removed = true ↔ b ∈ t.toList) ∧
      Sorted t' ∧ ∀ x, x ∈ t'.toList ↔ x ≠ b ∧ x ∈ t.toList := by
  induction t generalizing b with
  | leaf => exact ⟨_, _, rfl, by simp [toList], by simp [Sorted, toList], by simp [toList]⟩
  | node left nodeId right h ihl ihr =>
    obtain ⟨hl, hr, hlt, hgt⟩ := sorted_node.mp ht
    unfold removeNode
    split
    · next hb =>
      obtain ⟨t', removed, hrem, hiff, hs, hmem⟩ := ihl hl b
      have hnr : b ∉ right.toList := fun h1 => absurd (hgt b h1) (not_lt_of_gt hb)
      have hne : b ≠ nodeId := ne_of_lt hb
      rw [hrem]
      cases removed with
      | false =>
        have hbl : b ∉ left.toList := by simpa using hiff
        have hbt : b ∉ (node left nodeId right h).toList := by simp [toList, hbl, hne, hnr]
        refine ⟨_, _, rfl, by simpa using hbt, ht, fun x => ?_⟩
        exact ⟨fun hx => ⟨fun e => hbt (e ▸ hx), hx⟩, fun hx => hx.2⟩
      | true =>
        obtain ⟨t'', hbal, hlist⟩ := balance_spec (makeNode nodeId t' right)
        refine ⟨t'', true, by simp [bind, Except.bind, hbal, pure, Except.pure], ?_, ?_, fun x => ?_⟩
        · have hbl : b ∈ left.toList := by simpa using hiff
          simp [toList, hbl]
        · rw [sorted_of_toList_eq hlist, makeNode, sorted_node]
          exact ⟨hs, hr, fun x hx => hlt x ((hmem x).mp hx).2, hgt⟩
        · rw [hlist, toList_makeNode]
          simp only [toList, List.mem_append, List.mem_cons, hmem]
          constructor
          · rintro (h1 | rfl | h1)
            · exact ⟨h1.1, Or.inl h1.2⟩
            · exact ⟨hne.symm, Or.inr (Or.inl rfl)⟩
            · exact ⟨fun e => hnr (e ▸ h1), Or.inr (Or.inr h1)⟩
          · rintro ⟨h0, h1 | rfl | h1⟩
            · exact Or.inl ⟨h0, h1⟩
            · exact Or.inr (Or.inl rfl)
            · exact Or.inr (Or.inr h1)
    · next hb =>
      split
      · next hb' =>
        obtain ⟨t', removed, hrem, hiff, hs, hmem⟩ := ihr hr b
        have hnl : b ∉ left.toList := fun h1 => hb (hlt b h1)
        have hne : b ≠ nodeId := (ne_of_lt hb').symm
        rw [hrem]
        cases removed with
        | false =>
          have hbr : b ∉ right.toList := by simpa using hiff
          have hbt : b ∉ (node left nodeId right h).toList := by simp [toList, hbr, hne, hnl]
          refine ⟨_, _, rfl, by simpa using hbt, ht, fun x => ?_⟩
          exact ⟨fun hx => ⟨fun e => hbt (e ▸ hx), hx⟩, fun hx => hx.2⟩
        | true =>
          obtain ⟨t'', hbal, hlist⟩ := balance_spec (makeNode nodeId left t')
          refine ⟨t'', true, by simp [bind, Except.bind, hbal, pure, Except.pure], ?_, ?_, fun x => ?_⟩
          · have hbr : b ∈ right.toList := by simpa using hiff
            simp [toList, hbr]
          · rw [sorted_of_toList_eq hlist, makeNode, sorted_node]
            exact ⟨hl, hs, hlt, fun x hx => hgt x ((hmem x).mp hx).2⟩
          · rw [hlist, toList_makeNode]
            simp only [toList, List.mem_append, List.mem_cons, hmem]
            constructor
            · rintro (h1 | rfl | h1)
              · exact ⟨fun e => hnl (e ▸ h1), Or.inl h1⟩
              · exact ⟨hne.symm, Or.inr (Or.inl rfl)⟩
              · exact ⟨h1.1, Or.inr (Or.inr h1.2)⟩
            · rintro ⟨h0, h1 | rfl | h1⟩
              · exact Or.inl h1
              · exact Or.inr (Or.inl rfl)
              · exact Or.inr (Or.inr ⟨h0, h1⟩)
      · next hb' =>
        have he : b = nodeId := le_antisymm (not_lt.mp hb') (not_lt.mp hb)
        subst he
        have hnl : b ∉ left.toList := fun h1 => lt_irrefl b (hlt b h1)
        have hnr : b ∉ right.toList := fun h1 => lt_irrefl b (hgt b h1)
        split
        · refine ⟨_, _, rfl, by simp [toList], hr, fun x => ?_⟩
          simp only [toList, List.nil_append, List.mem_cons]
          exact ⟨fun hx => ⟨fun e => hnr (e ▸ hx), Or.inr hx⟩,
            fun hx => hx.2.resolve_left hx.1⟩
        · refine ⟨_, _, rfl, by simp [toList], hl, fun x => ?_⟩
          simp only [toList, List.mem_append, List.mem_cons, List.not_mem_nil, or_false]
          exact ⟨fun hx => ⟨fun e => hnl (e ▸ hx), Or.inl hx⟩,
            fun hx => hx.2.resolve_right hx.1⟩
        · rename_i rl rid rr rh _
          obtain ⟨hmin, hle⟩ := minimum_spec hr
          obtain ⟨t', removed, hrem, hiff, hs, hmem⟩ := ihr hr (minimum rid rl)
          have htrue : removed = true := hiff.mpr hmin
          subst htrue
          obtain ⟨t'', hbal, hlist⟩ := balance_spec (makeNode (minimum rid rl) left t')
          refine ⟨t'', true, ?_, by simp [toList], ?_, fun x => ?_⟩
          · simp [hrem, bind, Except.bind, hbal, pure, Except.pure]
          · rw [sorted_of_toList_eq hlist, makeNode, sorted_node]
            refine ⟨hl, hs, fun x hx => (hlt x hx).trans (hgt _ hmin), fun x hx => ?_⟩
            obtain ⟨hne, hx⟩ := (hmem x).mp hx
            exact lt_of_le_of_ne (hle x hx) hne.symm
          · rw [hlist, toList_makeNode]
            rw [toList, List.mem_append, List.mem_append, List.mem_cons, List.mem_cons, hmem]
            constructor
            · rintro (h1 | rfl | h1)
              · exact ⟨fun e => hnl (e ▸ h1), Or.inl h1⟩
              · exact ⟨fun e => hnr (e ▸ hmin), Or.inr (Or.inr hmin)⟩
              · exact ⟨fun e => hnr (e ▸ h1.2), Or.inr (Or.inr h1.2)⟩
            · rintro ⟨h0, h1 | rfl | h1⟩
              · exact Or.inl h1
              · exact absurd rfl h0
              · by_cases hx : x = minimum rid rl
                · exact Or.inr (Or.inl hx)
                · exact Or.inr (Or.inr ⟨hx, h1⟩)

end

end MembershipNode

/-- `_PrefixCacheRoutingMembership`. -/
structure RoutingMembership (ι : Type) where
  root : MembershipNode ι := .leaf
  liveBlocks : Nat := 0

namespace RoutingMembership

variable {ι : Type} [LinearOrder ι]

def contains (m : RoutingMembership ι) (blockId : ι) : Bool := m.root.contains blockId

def insert (m : RoutingMembership ι) (blockId : ι) : Except PyError (RoutingMembership ι) := do
  let (root, inserted) ← m.root.insertNode blockId
  if inserted then
    return { root := root, liveBlocks := m.liveBlocks + 1 }
  else
    .error (.runtimeError "Prefix-cache routing membership already contains inserted block.")

def remove (m : RoutingMembership ι) (blockId : ι) : Except PyError (RoutingMembership ι) := do
  let (root, removed) ← m.root.removeNode blockId
  if removed then
    return { root := root, liveBlocks := m.liveBlocks - 1 }
  else
    .error (.runtimeError "Prefix-cache routing membership is missing removed block.")

/-- `m` holds exactly the ids of `S`, in search order, and counts them. -/
structure Holds (m : RoutingMembership ι) (S : Finset ι) : Prop where
  sorted : m.root.Sorted
  mem : ∀ b, b ∈ m.root.toList ↔ b ∈ S
  live : m.liveBlocks = S.card

theorem holds_empty : (({} : RoutingMembership ι)).Holds ∅ :=
  ⟨by simp [MembershipNode.Sorted, MembershipNode.toList], by simp [MembershipNode.toList], rfl⟩

variable {m : RoutingMembership ι} {S : Finset ι}

theorem Holds.contains_iff (h : m.Holds S) (b : ι) : m.contains b = true ↔ b ∈ S := by
  rw [contains, MembershipNode.contains_iff h.sorted, h.mem]

theorem Holds.insert (h : m.Holds S) {b : ι} (hb : b ∉ S) :
    ∃ m', m.insert b = .ok m' ∧ m'.Holds (Insert.insert b S) := by
  obtain ⟨t', inserted, hins, hiff, hs, hmem⟩ := MembershipNode.insert_spec h.sorted b
  have htrue : inserted = true := hiff.mpr (fun hm => hb ((h.mem b).mp hm))
  subst htrue
  refine ⟨_, by simp only [RoutingMembership.insert, hins]; rfl, hs, fun x => ?_, ?_⟩
  · rw [hmem, Finset.mem_insert, h.mem]
  · simp [h.live, Finset.card_insert_of_notMem hb]

theorem Holds.remove (h : m.Holds S) {b : ι} (hb : b ∈ S) :
    ∃ m', m.remove b = .ok m' ∧ m'.Holds (S.erase b) := by
  obtain ⟨t', removed, hrem, hiff, hs, hmem⟩ := MembershipNode.remove_spec h.sorted b
  have htrue : removed = true := hiff.mpr ((h.mem b).mpr hb)
  subst htrue
  refine ⟨_, by simp only [RoutingMembership.remove, hrem]; rfl, hs, fun x => ?_, ?_⟩
  · rw [hmem, Finset.mem_erase, h.mem]
  · simp [h.live, Finset.card_erase_of_mem hb]

end RoutingMembership

end SparseEngine
