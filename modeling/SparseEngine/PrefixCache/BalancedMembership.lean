import SparseEngine.PrefixCache.RoutingMembership

/-! `RoutingMembership` shows that insertion and removal keep the search order. -/

namespace SparseEngine

namespace MembershipNode

variable {ι : Type}

def Balanced : MembershipNode ι → Prop
  | leaf => True
  | node left _ right h =>
    left.Balanced ∧ right.Balanced ∧ h = 1 + max left.height right.height ∧
      left.height ≤ right.height + 1 ∧ right.height ≤ left.height + 1

@[simp] theorem height_leaf : (leaf : MembershipNode ι).height = 0 := rfl

@[simp] theorem height_node (left : MembershipNode ι) (blockId : ι) (right : MembershipNode ι)
    (h : Nat) : (node left blockId right h).height = h := rfl

@[simp] theorem height_makeNode (blockId : ι) (left right : MembershipNode ι) :
    (makeNode blockId left right).height = 1 + max left.height right.height := rfl

variable {left right : MembershipNode ι}

theorem balanced_makeNode {blockId : ι} :
    (makeNode blockId left right).Balanced ↔ left.Balanced ∧ right.Balanced ∧
      left.height ≤ right.height + 1 ∧ right.height ≤ left.height + 1 := by
  simp only [makeNode, Balanced, true_and]

def NearlyBalanced (left right : MembershipNode ι) : Prop :=
  left.Balanced ∧ right.Balanced ∧ left.height ≤ right.height + 2 ∧ right.height ≤ left.height + 2

theorem balance_leftHeavy (blockId : ι) (h : NearlyBalanced left right)
    (hheavy : left.height = right.height + 2) :
    ∃ t, balance (makeNode blockId left right) = .ok t ∧ t.Balanced ∧
      left.height ≤ t.height ∧ t.height ≤ left.height + 1 := by
  obtain ⟨hl, hr, -, -⟩ := h
  cases left with
  | leaf => simp at hheavy
  | node ll lid lr lh =>
    obtain ⟨hll, hlr, hlh, hlr1, hlr2⟩ := hl
    simp only [height_node] at hheavy
    have hgt : ((node ll lid lr lh).height : Int) - right.height > 1 := by
      simp only [height_node]
      omega
    by_cases hin : ll.height < lr.height
    · -- The inner grandchild cannot be a leaf: it is the taller one.
      cases lr with
      | leaf => simp at hin
      | node lrl lrid lrr lrh =>
        obtain ⟨hlrl, hlrr, hlrh, hlr3, hlr4⟩ := hlr
        simp only [height_node] at hin hlh hlr1 hlr2
        refine ⟨makeNode lrid (makeNode lid ll lrl) (makeNode blockId lrr right), ?_, ?_, ?_⟩
        · simp only [balance, makeNode]
          rw [if_pos hgt, if_pos (by simpa using hin)]
          rfl
        · simp only [balanced_makeNode, height_makeNode]
          refine ⟨⟨hll, hlrl, ?_, ?_⟩, ⟨hlrr, hr, ?_, ?_⟩, ?_, ?_⟩ <;> omega
        · simp only [height_makeNode, height_node]
          omega
    · refine ⟨makeNode lid ll (makeNode blockId lr right), ?_, ?_, ?_⟩
      · simp only [balance, makeNode]
        rw [if_pos hgt, if_neg hin]
        rfl
      · simp only [balanced_makeNode, height_makeNode]
        refine ⟨hll, ⟨hlr, hr, ?_, ?_⟩, ?_, ?_⟩ <;> omega
      · simp only [height_makeNode, height_node]
        omega

theorem balance_rightHeavy (blockId : ι) (h : NearlyBalanced left right)
    (hheavy : right.height = left.height + 2) :
    ∃ t, balance (makeNode blockId left right) = .ok t ∧ t.Balanced ∧
      right.height ≤ t.height ∧ t.height ≤ right.height + 1 := by
  obtain ⟨hl, hr, -, -⟩ := h
  cases right with
  | leaf => simp at hheavy
  | node rl rid rr rh =>
    obtain ⟨hrl, hrr, hrh, hrl1, hrl2⟩ := hr
    simp only [height_node] at hheavy
    have hgt : ¬ ((left.height : Int) - (node rl rid rr rh).height > 1) := by
      simp only [height_node]
      omega
    have hlt : (left.height : Int) - (node rl rid rr rh).height < -1 := by
      simp only [height_node]
      omega
    by_cases hin : rr.height < rl.height
    · cases rl with
      | leaf => simp at hin
      | node rll rlid rlr rlh =>
        obtain ⟨hrll, hrlr, hrlh, hrl3, hrl4⟩ := hrl
        simp only [height_node] at hin hrh hrl1 hrl2
        refine ⟨makeNode rlid (makeNode blockId left rll) (makeNode rid rlr rr), ?_, ?_, ?_⟩
        · simp only [balance, makeNode]
          rw [if_neg hgt, if_pos hlt, if_pos (by simpa using hin)]
          rfl
        · simp only [balanced_makeNode, height_makeNode]
          refine ⟨⟨hl, hrll, ?_, ?_⟩, ⟨hrlr, hrr, ?_, ?_⟩, ?_, ?_⟩ <;> omega
        · simp only [height_makeNode, height_node]
          omega
    · refine ⟨makeNode rid (makeNode blockId left rl) rr, ?_, ?_, ?_⟩
      · simp only [balance, makeNode]
        rw [if_neg hgt, if_pos hlt, if_neg hin]
        rfl
      · simp only [balanced_makeNode, height_makeNode]
        refine ⟨⟨hl, hrl, ?_, ?_⟩, hrr, ?_, ?_⟩ <;> omega
      · simp only [height_makeNode, height_node]
        omega

theorem balance_balanced (blockId : ι) (h : NearlyBalanced left right) :
    ∃ t, balance (makeNode blockId left right) = .ok t ∧ t.Balanced ∧
      max left.height right.height ≤ t.height ∧ t.height ≤ 1 + max left.height right.height ∧
      (left.height ≤ right.height + 1 → right.height ≤ left.height + 1 →
        t.height = 1 + max left.height right.height) := by
  obtain ⟨hl, hr, hle, hge⟩ := id h
  by_cases hleft : left.height = right.height + 2
  · obtain ⟨t, hrun, hbal, h1, h2⟩ := balance_leftHeavy blockId h hleft
    exact ⟨t, hrun, hbal, by omega, by omega, by omega⟩
  · by_cases hright : right.height = left.height + 2
    · obtain ⟨t, hrun, hbal, h1, h2⟩ := balance_rightHeavy blockId h hright
      exact ⟨t, hrun, hbal, by omega, by omega, by omega⟩
    · refine ⟨makeNode blockId left right, ?_, ?_, ?_⟩
      · simp only [balance, makeNode]
        rw [if_neg (by omega), if_neg (by omega)]
      · rw [balanced_makeNode]
        exact ⟨hl, hr, by omega, by omega⟩
      · rw [height_makeNode]
        omega

theorem balance_run (blockId : ι) (h : NearlyBalanced left right) {t : MembershipNode ι}
    {changed : Bool}
    (hrun : (do let t ← balance (makeNode blockId left right); pure (t, true)) = .ok (t, changed)) :
    t.Balanced ∧ max left.height right.height ≤ t.height ∧
      t.height ≤ 1 + max left.height right.height ∧
      (left.height ≤ right.height + 1 → right.height ≤ left.height + 1 →
        t.height = 1 + max left.height right.height) := by
  obtain ⟨t', hrun', balanced⟩ := balance_balanced blockId h
  rw [hrun'] at hrun
  cases hrun
  exact balanced

section

variable [LinearOrder ι]

theorem insertNode_balanced {t t' : MembershipNode ι} {b : ι} {inserted : Bool}
    (ht : t.Balanced) (hrun : insertNode b t = .ok (t', inserted)) :
    t'.Balanced ∧ t.height ≤ t'.height ∧ t'.height ≤ t.height + 1 := by
  induction t generalizing t' inserted with
  | leaf =>
    cases hrun
    simp [Balanced]
  | node left nodeId right h ihl ihr =>
    obtain ⟨hl, hr, hh, hlr, hrl⟩ := id ht
    unfold insertNode at hrun
    split at hrun
    · cases hrun
      exact ⟨ht, le_refl _, Nat.le_succ _⟩
    · split at hrun
      · cases hins : insertNode b left with
        | error e => rw [hins] at hrun; cases hrun
        | ok r =>
          obtain ⟨left', inserted'⟩ := r
          obtain ⟨hbal, h1, h2⟩ := ihl hl hins
          rw [hins] at hrun
          cases inserted' with
          | false =>
            cases hrun
            exact ⟨ht, le_refl _, Nat.le_succ _⟩
          | true =>
            obtain ⟨hbal₁, h3, h4, h5⟩ :=
              balance_run nodeId (⟨hbal, hr, by omega, by omega⟩ : NearlyBalanced left' right) hrun
            refine ⟨hbal₁, ?_, ?_⟩ <;> simp only [height_node] <;> omega
      · cases hins : insertNode b right with
        | error e => rw [hins] at hrun; cases hrun
        | ok r =>
          obtain ⟨right', inserted'⟩ := r
          obtain ⟨hbal, h1, h2⟩ := ihr hr hins
          rw [hins] at hrun
          cases inserted' with
          | false =>
            cases hrun
            exact ⟨ht, le_refl _, Nat.le_succ _⟩
          | true =>
            obtain ⟨hbal₁, h3, h4, h5⟩ :=
              balance_run nodeId (⟨hl, hbal, by omega, by omega⟩ : NearlyBalanced left right') hrun
            refine ⟨hbal₁, ?_, ?_⟩ <;> simp only [height_node] <;> omega

theorem removeNode_balanced {t t' : MembershipNode ι} {b : ι} {removed : Bool}
    (ht : t.Balanced) (hrun : removeNode b t = .ok (t', removed)) :
    t'.Balanced ∧ t'.height ≤ t.height ∧ t.height ≤ t'.height + 1 := by
  induction t generalizing b t' removed with
  | leaf =>
    cases hrun
    simp [Balanced]
  | node left nodeId right h ihl ihr =>
    obtain ⟨hl, hr, hh, hlr, hrl⟩ := id ht
    unfold removeNode at hrun
    split at hrun
    · cases hrem : removeNode b left with
      | error e => rw [hrem] at hrun; cases hrun
      | ok r =>
        obtain ⟨left', removed'⟩ := r
        obtain ⟨hbal, h1, h2⟩ := ihl hl hrem
        rw [hrem] at hrun
        cases removed' with
        | false =>
          cases hrun
          exact ⟨ht, le_refl _, Nat.le_succ _⟩
        | true =>
          obtain ⟨hbal₁, h3, h4, h5⟩ :=
            balance_run nodeId (⟨hbal, hr, by omega, by omega⟩ : NearlyBalanced left' right) hrun
          refine ⟨hbal₁, ?_, ?_⟩ <;> simp only [height_node] <;> omega
    · split at hrun
      · cases hrem : removeNode b right with
        | error e => rw [hrem] at hrun; cases hrun
        | ok r =>
          obtain ⟨right', removed'⟩ := r
          obtain ⟨hbal, h1, h2⟩ := ihr hr hrem
          rw [hrem] at hrun
          cases removed' with
          | false =>
            cases hrun
            exact ⟨ht, le_refl _, Nat.le_succ _⟩
          | true =>
            obtain ⟨hbal₁, h3, h4, h5⟩ :=
              balance_run nodeId (⟨hl, hbal, by omega, by omega⟩ : NearlyBalanced left right') hrun
            refine ⟨hbal₁, ?_, ?_⟩ <;> simp only [height_node] <;> omega
      · split at hrun
        · cases hrun
          simp only [height_node, height_leaf] at hh ⊢
          exact ⟨hr, by omega, by omega⟩
        · cases hrun
          simp only [height_node, height_leaf] at hh ⊢
          exact ⟨hl, by omega, by omega⟩
        · -- The successor leaves the right subtree; its id moves to the root.
          rename_i rl rid rr rh _
          cases hrem : removeNode (minimum rid rl) (node rl rid rr rh) with
          | error e => simp only [hrem] at hrun; cases hrun
          | ok r =>
            obtain ⟨right', removed'⟩ := r
            obtain ⟨hbal, h1, h2⟩ := ihr hr hrem
            simp only [height_node] at h1 h2 hh hlr hrl
            simp only [hrem] at hrun
            cases removed' with
            | false => cases hrun
            | true =>
              obtain ⟨hbal₁, h3, h4, h5⟩ :=
                balance_run (minimum rid rl) (⟨hl, hbal, by omega, by omega⟩ : NearlyBalanced left right') hrun
              refine ⟨hbal₁, ?_, ?_⟩ <;> simp only [height_node] <;> omega

end

end MembershipNode

namespace RoutingMembership

variable {ι : Type} [LinearOrder ι]

inductive MembershipCall (ι : Type) where
  | insert (blockId : ι)
  | remove (blockId : ι)
deriving DecidableEq, Repr

/-- The call on the membership `m`. -/
def MembershipCall.run (m : RoutingMembership ι) :
    MembershipCall ι → Except PyError (RoutingMembership ι)
  | .insert b => m.insert b
  | .remove b => m.remove b

abbrev Version (ι : Type) := RoutingMembership ι × List (MembershipCall ι)

inductive VersionStep (versions : List (Version ι)) : List (Version ι) → Prop
  | returned {m m' : RoutingMembership ι} {calls : List (MembershipCall ι)}
      {call : MembershipCall ι} : (m, calls) ∈ versions → call.run m = .ok m' →
      VersionStep versions (versions ++ [(m', calls ++ [call])])
  | raised {m : RoutingMembership ι} {calls : List (MembershipCall ι)}
      {call : MembershipCall ι} {e : PyError} : (m, calls) ∈ versions → call.run m = .error e →
      VersionStep versions (versions ++ [(m, calls ++ [call])])

abbrev VersionRun (versions : List (Version ι)) : Prop :=
  Relation.ReflTransGen VersionStep [({}, [])] versions

/-- `b` was inserted by one of `calls` and not removed since. -/
def StillIn (calls : List (MembershipCall ι)) (b : ι) : Prop :=
  ∃ before after, calls = before ++ .insert b :: after ∧ MembershipCall.remove b ∉ after

/-- A balanced set of exactly the ids that `calls` left in. -/
structure BalancedSet (v : Version ι) : Prop where
  sorted : v.1.root.Sorted
  balanced : v.1.root.Balanced
  contains : ∀ b, v.1.contains b = true ↔ StillIn v.2 b
  live : v.1.liveBlocks = {b | StillIn v.2 b}.ncard

omit [LinearOrder ι] in
theorem not_stillIn_nil (b : ι) : ¬ StillIn ([] : List (MembershipCall ι)) b := by
  rintro ⟨before, after, h, -⟩
  simp at h

variable {calls : List (MembershipCall ι)} {call : MembershipCall ι} {b : ι}

omit [LinearOrder ι] in
theorem stillIn_snoc :
    StillIn (calls ++ [call]) b ↔
      call = .insert b ∨ (StillIn calls b ∧ call ≠ .remove b) := by
  constructor
  · rintro ⟨before, after, h, hno⟩
    rcases List.eq_nil_or_concat after with rfl | ⟨after, last, rfl⟩
    · have := List.append_inj_right' h rfl
      exact Or.inl (by simpa using this)
    · rw [List.concat_eq_append] at h hno
      rw [← List.cons_append, ← List.append_assoc] at h
      obtain ⟨h1, h2⟩ := List.append_inj' h rfl
      have hlast : call = last := by simpa using h2
      rw [List.mem_append, not_or] at hno
      exact Or.inr ⟨⟨before, after, h1, hno.1⟩, by simpa [hlast, eq_comm] using hno.2⟩
  · rintro (rfl | ⟨⟨before, after, rfl, hno⟩, hne⟩)
    · exact ⟨calls, [], rfl, by simp⟩
    · refine ⟨before, after ++ [call], by simp, ?_⟩
      simp only [List.mem_append, List.mem_singleton, not_or]
      exact ⟨hno, hne.symm⟩

structure HoldsVersion (v : Version ι) (S : Finset ι) : Prop where
  holds : v.1.Holds S
  balanced : v.1.root.Balanced
  mem : ∀ b, b ∈ S ↔ StillIn v.2 b

variable {S : Finset ι}

theorem HoldsVersion.balancedSet {v : Version ι} (h : HoldsVersion v S) :
    BalancedSet v where
  sorted := h.holds.sorted
  balanced := h.balanced
  contains := fun b => (h.holds.contains_iff b).trans (h.mem b)
  live := by
    have hset : {b | StillIn v.2 b} = (S : Set ι) := by
      ext b
      exact (h.mem b).symm
    rw [h.holds.live, hset, Set.ncard_coe_finset]

theorem holdsVersion_empty : HoldsVersion (({}, []) : Version ι) ∅ where
  holds := holds_empty
  balanced := trivial
  mem := fun b => by simp [not_stillIn_nil]

variable {m : RoutingMembership ι}

theorem Holds.insert_raises (h : m.Holds S) (hb : b ∈ S) : m.insert b = .error (.runtimeError
      "Prefix-cache routing membership already contains inserted block.") := by
  obtain ⟨t', inserted, hins, hiff, -, -⟩ := MembershipNode.insert_spec h.sorted b
  have hfalse : inserted = false := by
    rw [← Bool.not_eq_true, hiff, not_not]
    exact (h.mem b).mpr hb
  subst hfalse
  simp [RoutingMembership.insert, hins, bind, Except.bind]

theorem Holds.remove_raises (h : m.Holds S) (hb : b ∉ S) : m.remove b = .error (.runtimeError
      "Prefix-cache routing membership is missing removed block.") := by
  obtain ⟨t', removed, hrem, hiff, -, -⟩ := MembershipNode.remove_spec h.sorted b
  have hfalse : removed = false := by
    rw [← Bool.not_eq_true, hiff]
    exact fun hm => hb ((h.mem b).mp hm)
  subst hfalse
  simp [RoutingMembership.remove, hrem, bind, Except.bind]

variable {m' : RoutingMembership ι}

theorem insert_balanced (hm : m.root.Balanced) (hrun : m.insert b = .ok m') : m'.root.Balanced := by
  unfold RoutingMembership.insert at hrun
  cases hins : m.root.insertNode b with
  | error e => rw [hins] at hrun; cases hrun
  | ok r =>
    rw [hins] at hrun
    obtain ⟨root, inserted⟩ := r
    cases inserted with
    | false => cases hrun
    | true =>
      cases hrun
      exact (MembershipNode.insertNode_balanced hm hins).1

theorem remove_balanced (hm : m.root.Balanced) (hrun : m.remove b = .ok m') : m'.root.Balanced := by
  unfold RoutingMembership.remove at hrun
  cases hrem : m.root.removeNode b with
  | error e => rw [hrem] at hrun; cases hrun
  | ok r =>
    rw [hrem] at hrun
    obtain ⟨root, removed⟩ := r
    cases removed with
    | false => cases hrun
    | true =>
      cases hrun
      exact (MembershipNode.removeNode_balanced hm hrem).1

theorem HoldsVersion.returned (h : HoldsVersion (m, calls) S) (hrun : call.run m = .ok m') :
    ∃ S', HoldsVersion (m', calls ++ [call]) S' := by
  cases call with
  | insert b =>
    have hb : b ∉ S := fun hb => by
      have := h.holds.insert_raises hb
      rw [show m.insert b = .ok m' from hrun] at this
      cases this
    obtain ⟨m₁, hrun₁, hholds⟩ := h.holds.insert hb
    have hm : m₁ = m' := Except.ok.inj (hrun₁.symm.trans hrun)
    subst hm
    refine ⟨Insert.insert b S, hholds, insert_balanced h.balanced hrun, fun x => ?_⟩
    rw [Finset.mem_insert, h.mem, stillIn_snoc]
    simp [eq_comm]
  | remove b =>
    have hb : b ∈ S := by
      by_contra hb
      have := h.holds.remove_raises hb
      rw [show m.remove b = .ok m' from hrun] at this
      cases this
    obtain ⟨m₁, hrun₁, hholds⟩ := h.holds.remove hb
    have hm : m₁ = m' := Except.ok.inj (hrun₁.symm.trans hrun)
    subst hm
    refine ⟨S.erase b, hholds, remove_balanced h.balanced hrun, fun x => ?_⟩
    rw [Finset.mem_erase, h.mem, stillIn_snoc]
    simp [and_comm, eq_comm]

theorem HoldsVersion.raised (h : HoldsVersion (m, calls) S) {e : PyError}
    (hrun : call.run m = .error e) : HoldsVersion (m, calls ++ [call]) S := by
  refine ⟨h.holds, h.balanced, fun x => ?_⟩
  rw [h.mem, stillIn_snoc]
  cases call with
  | insert b =>
    have hb : b ∈ S := by
      by_contra hb
      obtain ⟨m₁, hrun₁, -⟩ := h.holds.insert hb
      rw [show m.insert b = .error e from hrun] at hrun₁
      cases hrun₁
    constructor
    · exact fun hx => Or.inr ⟨hx, by simp⟩
    · rintro (hx | hx)
      · obtain rfl : b = x := MembershipCall.insert.inj hx
        exact (h.mem b).mp hb
      · exact hx.1
  | remove b =>
    have hb : b ∉ S := fun hb => by
      obtain ⟨m₁, hrun₁, -⟩ := h.holds.remove hb
      rw [show m.remove b = .error e from hrun] at hrun₁
      cases hrun₁
    constructor
    · intro hx
      refine Or.inr ⟨hx, fun hxb => ?_⟩
      obtain rfl : b = x := MembershipCall.remove.inj hxb
      exact hb ((h.mem b).mpr hx)
    · rintro (hx | hx)
      · cases hx
      · exact hx.1

theorem VersionRun.holds {versions : List (Version ι)} (h : VersionRun versions) :
    ∀ v ∈ versions, ∃ S, HoldsVersion v S := by
  induction h with
  | refl =>
    rintro v hv
    rw [List.mem_singleton.mp hv]
    exact ⟨∅, holdsVersion_empty⟩
  | tail _ hstep ih =>
    rintro v hv
    cases hstep with
    | returned hmem hrun =>
      rcases List.mem_append.mp hv with hv | hv
      · exact ih v hv
      · obtain ⟨S, hS⟩ := ih _ hmem
        rw [List.mem_singleton.mp hv]
        exact hS.returned hrun
    | raised hmem hrun =>
      rcases List.mem_append.mp hv with hv | hv
      · exact ih v hv
      · obtain ⟨S, hS⟩ := ih _ hmem
        rw [List.mem_singleton.mp hv]
        exact ⟨S, hS.raised hrun⟩

theorem VersionStep.prefix {versions versions' : List (Version ι)}
    (h : VersionStep versions versions') : versions <+: versions' := by
  cases h with
  | returned _ _ => exact List.prefix_append _ _
  | raised _ _ => exact List.prefix_append _ _

/-- Every version that a run made is a balanced set of the ids its calls left in. -/
theorem membership_versions {versions versions' : List (Version ι)} (h : VersionRun versions)
    (hlater : Relation.ReflTransGen VersionStep versions versions') :
    versions <+: versions' ∧ ∀ v ∈ versions', BalancedSet v ∧
      (∀ b, (∃ e, v.1.insert b = .error e) ↔ StillIn v.2 b) ∧
      (∀ b, (∃ e, v.1.remove b = .error e) ↔ ¬ StillIn v.2 b) ∧
      (∀ b e, v.1.insert b = .error e → e = .runtimeError
        "Prefix-cache routing membership already contains inserted block.") ∧
      ∀ b e, v.1.remove b = .error e → e = .runtimeError
        "Prefix-cache routing membership is missing removed block." := by
  refine ⟨?_, fun v hv => ?_⟩
  · induction hlater with
    | refl => exact List.prefix_rfl
    | tail _ hstep ih => exact ih.trans hstep.prefix
  · obtain ⟨S, hS⟩ := VersionRun.holds (h.trans hlater) v hv
    have hins : ∀ b, b ∈ S → v.1.insert b = .error _ := fun b hb => hS.holds.insert_raises hb
    have hrem : ∀ b, b ∉ S → v.1.remove b = .error _ := fun b hb => hS.holds.remove_raises hb
    refine ⟨hS.balancedSet, fun b => ?_, fun b => ?_, fun b e he => ?_, fun b e he => ?_⟩
    · rw [← hS.mem]
      refine ⟨fun ⟨e, he⟩ => ?_, fun hb => ⟨_, hins b hb⟩⟩
      by_contra hb
      obtain ⟨m', hm', -⟩ := hS.holds.insert hb
      rw [he] at hm'
      cases hm'
    · rw [← hS.mem]
      refine ⟨fun ⟨e, he⟩ hb => ?_, fun hb => ⟨_, hrem b hb⟩⟩
      obtain ⟨m', hm', -⟩ := hS.holds.remove hb
      rw [he] at hm'
      cases hm'
    · by_cases hb : b ∈ S
      · rw [hins b hb] at he
        exact (Except.error.inj he).symm
      · obtain ⟨m', hm', -⟩ := hS.holds.insert hb
        rw [he] at hm'
        cases hm'
    · by_cases hb : b ∈ S
      · obtain ⟨m', hm', -⟩ := hS.holds.remove hb
        rw [he] at hm'
        cases hm'
      · rw [hrem b hb] at he
        exact (Except.error.inj he).symm

def demoThree : RoutingMembership Nat where
  root := .node (.node .leaf 1 .leaf 1) 2 (.node .leaf 3 .leaf 1) 2
  liveBlocks := 3

theorem demoThree_run : ∃ versions, VersionRun versions ∧
    (demoThree, [.insert 1, .insert 2, .insert 3]) ∈ versions := by
  have h₁ : VersionStep ([({}, [])] : List (Version Nat))
      [({}, []), (⟨.node .leaf 1 .leaf 1, 1⟩, [.insert 1])] :=
    .returned (List.mem_singleton.mpr rfl) (show MembershipCall.run _ (.insert 1) = _ from rfl)
  have h₂ : VersionStep ([({}, []), (⟨.node .leaf 1 .leaf 1, 1⟩, [.insert 1])] : List (Version Nat))
      [({}, []), (⟨.node .leaf 1 .leaf 1, 1⟩, [.insert 1]),
        (⟨.node .leaf 1 (.node .leaf 2 .leaf 1) 2, 2⟩, [.insert 1, .insert 2])] :=
    .returned (.tail _ (.head _)) (show MembershipCall.run _ (.insert 2) = _ from rfl)
  have h₃ : VersionStep ([({}, []), (⟨.node .leaf 1 .leaf 1, 1⟩, [.insert 1]),
        (⟨.node .leaf 1 (.node .leaf 2 .leaf 1) 2, 2⟩, [.insert 1, .insert 2])] : List (Version Nat))
      [({}, []), (⟨.node .leaf 1 .leaf 1, 1⟩, [.insert 1]),
        (⟨.node .leaf 1 (.node .leaf 2 .leaf 1) 2, 2⟩, [.insert 1, .insert 2]),
        (demoThree, [.insert 1, .insert 2, .insert 3])] :=
    .returned (.tail _ (.tail _ (.head _))) (show MembershipCall.run _ (.insert 3) = _ from rfl)
  exact ⟨_, .tail (.tail (.single h₁) h₂) h₃, .tail _ (.tail _ (.tail _ (.head _)))⟩

theorem membership_versions_demo :
    BalancedSet ((demoThree, [.insert 1, .insert 2, .insert 3]) : Version Nat) ∧
      ∃ e, demoThree.insert 3 = .error e := by
  obtain ⟨versions, hrun, hmem⟩ := demoThree_run
  obtain ⟨-, hall⟩ := membership_versions hrun .refl
  obtain ⟨hset, hins, -⟩ := hall _ hmem
  exact ⟨hset, (hins 3).mpr ⟨[.insert 1, .insert 2], [], rfl, by simp⟩⟩

end RoutingMembership

end SparseEngine
