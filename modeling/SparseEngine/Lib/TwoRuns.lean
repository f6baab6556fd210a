import SparseEngine.Lib.Py

/-! `Agree R V m n s t` compares a run of `m` from `s` with a run of `n` from `t`. -/

namespace SparseEngine.PyM

variable {σ τ σ' τ' α β γ δ ε : Type}

/-- Both outcomes are values, related by `V`, or both are errors. -/
def SameOutcome (V : α → β → Prop) : Except PyError α → Except PyError β → Prop
  | .ok a, .ok b => V a b
  | .error _, .error _ => True
  | _, _ => False

/-- The runs have the same outcome and leave related states. -/
def Agree (R : σ → τ → Prop) (V : α → β → Prop) (m : PyM σ α) (n : PyM τ β) (s : σ) (t : τ) : Prop :=
  SameOutcome V (m s).1 (n t).1 ∧ R (m s).2 (n t).2

variable {R R' : σ → τ → Prop} {V V' : α → β → Prop} {W : γ → δ → Prop} {m : PyM σ α} {n : PyM τ β}
  {s : σ} {t : τ}

/-- The two ways in which runs agree. -/
theorem agree_iff : Agree R V m n s t ↔
    (∃ a b s' t', m s = (.ok a, s') ∧ n t = (.ok b, t') ∧ V a b ∧ R s' t') ∨
      ∃ e e' s' t', m s = (.error e, s') ∧ n t = (.error e', t') ∧ R s' t' := by
  unfold Agree
  rcases m s with ⟨_ | a, s'⟩ <;> rcases n t with ⟨_ | b, t'⟩ <;> simp [SameOutcome]

theorem SameOutcome.rfl {r : Except PyError α} : SameOutcome Eq r r := by
  cases r with
  | ok a => exact Eq.refl a
  | error e => trivial

theorem SameOutcome.mono {r : Except PyError α} {r' : Except PyError β} (h : SameOutcome V r r')
    (hV : ∀ a b, V a b → V' a b) : SameOutcome V' r r' := by
  cases r <;> cases r'
  · trivial
  · exact h.elim
  · exact h.elim
  · exact hV _ _ h

theorem Agree.mono (h : Agree R V m n s t) (hV : ∀ a b, V a b → V' a b)
    (hR : ∀ s' t', R s' t' → R' s' t') : Agree R' V' m n s t := by
  refine agree_iff.mpr ((agree_iff.mp h).imp ?_ ?_)
  · rintro ⟨a, b, s', t', hm, hn, hv, hr⟩
    exact ⟨a, b, s', t', hm, hn, hV a b hv, hR s' t' hr⟩
  · rintro ⟨e, e', s', t', hm, hn, hr⟩
    exact ⟨e, e', s', t', hm, hn, hR s' t' hr⟩

/-- Runs with the specifications `Q`, `E` and `Q'`, `E'` agree when the four combinations say so. -/
theorem agree_of_wp {Q : α → σ → Prop} {E : PyError → σ → Prop} {Q' : β → τ → Prop}
    {E' : PyError → τ → Prop} (hm : wp m Q E s) (hn : wp n Q' E' t)
    (hok : ∀ a s' b t', Q a s' → Q' b t' → V a b ∧ R s' t')
    (herror : ∀ e s' e' t', E e s' → E' e' t' → R s' t')
    (hleft : ∀ a s' e' t', Q a s' → ¬ E' e' t') (hright : ∀ e s' b t', E e s' → ¬ Q' b t') :
    Agree R V m n s t := by
  unfold wp at hm hn
  unfold Agree
  revert hm hn
  rcases m s with ⟨_ | a, s'⟩ <;> rcases n t with ⟨_ | b, t'⟩ <;> intro hm hn
  · exact ⟨trivial, herror _ _ _ _ hm hn⟩
  · exact absurd hn (hright _ _ _ _ hm)
  · exact absurd hn (hleft _ _ _ _ hm)
  · exact hok _ _ _ _ hm hn

/-- What the left run does to its state, beside the comparison. -/
theorem Agree.along {P : σ → σ → Prop} (h : Agree R V m n s t) (hm : Along P m) :
    Agree (fun s' t' => R s' t' ∧ P s s') V m n s t := ⟨h.1, h.2, hm s⟩

theorem agree_pure {a : α} {b : β} (hv : V a b) (hr : R s t) : Agree R V (pure a) (pure b) s t :=
  ⟨hv, hr⟩

theorem agree_raise (e e' : PyError) (hr : R s t) : Agree R V (raise e) (raise e') s t :=
  ⟨trivial, hr⟩

theorem agree_bind {f : α → PyM σ γ} {g : β → PyM τ δ} (h : Agree R' V m n s t)
    (hfg : ∀ a b s' t', V a b → R' s' t' → Agree R W (f a) (g b) s' t')
    (herror : ∀ s' t', R' s' t' → R s' t') : Agree R W (m >>= f) (n >>= g) s t := by
  rcases agree_iff.mp h with ⟨a, b, s', t', hm, hn, hv, hr⟩ | ⟨e, e', s', t', hm, hn, hr⟩
  · unfold Agree
    rw [bind_ok hm, bind_ok hn]
    exact hfg a b s' t' hv hr
  · unfold Agree
    rw [bind_error hm, bind_error hn]
    exact ⟨trivial, herror s' t' hr⟩

/-- The sequence rule when one relation is kept throughout. -/
theorem agree_seq {f : α → PyM σ γ} {g : β → PyM τ δ} (h : Agree R V m n s t)
    (hfg : ∀ a b s' t', V a b → R s' t' → Agree R W (f a) (g b) s' t') :
    Agree R W (m >>= f) (n >>= g) s t :=
  agree_bind h hfg fun _ _ hr => hr

theorem agree_get {f : σ → PyM σ γ} {g : τ → PyM τ δ} (h : Agree R W (f s) (g t) s t) :
    Agree R W (get >>= f) (get >>= g) s t := h

theorem agree_modify {f : σ → σ} {g : τ → τ} (h : R (f s) (g t)) :
    Agree R (fun _ _ => True) (modify f) (modify g) s t := ⟨trivial, h⟩

theorem agree_raiseIf {c d : Prop} [Decidable c] [Decidable d] (e e' : PyError) (hcd : c ↔ d)
    (hr : R s t) : Agree R (fun _ _ => True) (raiseIf c e) (raiseIf d e') s t := by
  unfold Agree raiseIf
  by_cases hc : c
  · rw [if_pos hc, if_pos (hcd.mp hc)]
    exact ⟨trivial, hr⟩
  · rw [if_neg hc, if_neg fun hd => hc (hcd.mpr hd)]
    exact ⟨trivial, hr⟩

theorem agree_lift {r : Except PyError α} {r' : Except PyError β} (h : SameOutcome V r r')
    (hr : R s t) : Agree R V (lift r) (lift r') s t := ⟨h, hr⟩

theorem agree_ite {c d : Prop} [Decidable c] [Decidable d] {m' : PyM σ α} {n' : PyM τ β} (hcd : c ↔ d)
    (h : c → Agree R V m n s t) (h' : ¬ c → Agree R V m' n' s t) :
    Agree R V (if c then m else m') (if d then n else n') s t := by
  by_cases hc : c
  · rw [if_pos hc, if_pos (hcd.mp hc)]
    exact h hc
  · rw [if_neg hc, if_neg fun hd => hc (hcd.mpr hd)]
    exact h' hc

theorem agree_tryExcept {handler : PyError → PyM σ α} {handler' : PyError → PyM τ β}
    (h : Agree R V m n s t)
    (hh : ∀ e e' s' t', R s' t' → Agree R V (handler e) (handler' e') s' t') :
    Agree R V (tryExcept m handler) (tryExcept n handler') s t := by
  unfold Agree tryExcept
  rcases agree_iff.mp h with ⟨a, b, s', t', hm, hn, hv, hr⟩ | ⟨e, e', s', t', hm, hn, hr⟩
  · rw [hm, hn]
    exact ⟨hv, hr⟩
  · rw [hm, hn]
    exact hh e e' s' t' hr

theorem agree_forEach {f : ε → PyM σ Unit} {g : ε → PyM τ Unit}
    (h : ∀ b s t, R s t → Agree R (fun _ _ => True) (f b) (g b) s t) :
    ∀ (l : List ε) {s : σ} {t : τ}, R s t → Agree R (fun _ _ => True) (forEach f l) (forEach g l) s t
  | [], _, _, hr => ⟨trivial, hr⟩
  | b :: l, s, t, hr => agree_seq (h b s t hr) fun _ _ _ _ _ hr' => agree_forEach h l hr'

/-- A component of each state. -/
theorem agree_zoom {view : σ' → σ} {put : σ → σ' → σ'} {view' : τ' → τ} {put' : τ → τ' → τ'}
    {S : σ' → τ' → Prop} {s : σ'} {t : τ'} (h : Agree R V m n (view s) (view' t))
    (hput : ∀ a b, R a b → S (put a s) (put' b t)) :
    Agree S V (zoom view put m) (zoom view' put' n) s t := by
  unfold Agree zoom
  rcases agree_iff.mp h with ⟨a, b, s', t', hm, hn, hv, hr⟩ | ⟨e, e', s', t', hm, hn, hr⟩
  · rw [hm, hn]
    exact ⟨hv, hput s' t' hr⟩
  · rw [hm, hn]
    exact ⟨trivial, hput s' t' hr⟩

end SparseEngine.PyM
