import Mathlib.Tactic

/-! `PyM σ α` is a program over a mutable state `σ` that returns an `α` or raises. -/

namespace SparseEngine

/-- What a program can raise. -/
inductive PyError where
  | runtimeError (message : String)
  | valueError (message : String)
  | keyError (message : String)
  | indexError (message : String)
  | memoryError (message : String)
  | overflowError (message : String)
  | custom (kind : Nat) (message : String)
  | outOfFuel
deriving DecidableEq, Repr

/-- A program over the state `σ`. -/
def PyM (σ α : Type) : Type := σ → Except PyError α × σ

namespace PyM

variable {σ τ α β : Type}

instance : Monad (PyM σ) where
  pure a := fun s => (.ok a, s)
  bind m f := fun s =>
    match m s with
    | (.ok a, s') => f a s'
    | (.error e, s') => (.error e, s')

def raise (e : PyError) : PyM σ α := fun s => (.error e, s)

def get : PyM σ σ := fun s => (.ok s, s)

def modify (f : σ → σ) : PyM σ Unit := fun s => (.ok (), f s)

/-- `if c: raise e`. -/
def raiseIf (c : Prop) [Decidable c] (e : PyError) : PyM σ Unit := fun s =>
  if c then (.error e, s) else (.ok (), s)

/-- Run a pure computation that may raise. -/
def lift (r : Except PyError α) : PyM σ α := fun s => (r, s)

/-- `try: m except: handler`. -/
def tryExcept (m : PyM σ α) (handler : PyError → PyM σ α) : PyM σ α := fun s =>
  match m s with
  | (.ok a, s') => (.ok a, s')
  | (.error e, s') => handler e s'

/-- `try: m finally: cleanup`. -/
def tryFinally (m : PyM σ α) (cleanup : PyM σ Unit) : PyM σ α := fun s =>
  match m s with
  | (r, s') =>
    match cleanup s' with
    | (.ok _, s'') => (r, s'')
    | (.error e, s'') => (.error e, s'')

/-- Run `f` on every element, in order. -/
def forEach (f : β → PyM σ Unit) : List β → PyM σ Unit
  | [] => pure ()
  | b :: l => do
    f b
    forEach f l

/-- Run a program on a component of a larger state. -/
def zoom (view : τ → σ) (put : σ → τ → τ) (m : PyM σ α) : PyM τ α := fun t =>
  match m (view t) with
  | (r, s') => (r, put s' t)

/-- Run a program that keeps local variables beside the state. -/
def withLocals (l : τ) (m : PyM (σ × τ) α) : PyM σ α := fun s =>
  match m (s, l) with
  | (r, t) => (r, t.1)

/-- A program over the state, inside one with locals. -/
def outer (m : PyM σ α) : PyM (σ × τ) α := zoom Prod.fst (fun s t => (s, t.2)) m

/-- Run `m` and return the error it raised, if any. -/
def attempt (m : PyM σ Unit) : PyM σ (Option PyError) := fun s =>
  match m s with
  | (.ok _, s') => (.ok none, s')
  | (.error e, s') => (.ok (some e), s')

/-- `f` on every element until one raises: the elements done, and the error. -/
def untilError (f : β → PyM σ Unit) : List β → PyM σ (List β × Option PyError)
  | [] => pure ([], none)
  | b :: l => do
    match ← attempt (f b) with
    | some e => return ([], some e)
    | none => do
      let (done, e) ← untilError f l
      return (b :: done, e)

/-- A run of `m` from `s` ends in `Q` when it returns and in `E` when it raises. -/
def wp (m : PyM σ α) (Q : α → σ → Prop) (E : PyError → σ → Prop) (s : σ) : Prop :=
  match m s with
  | (.ok a, s') => Q a s'
  | (.error e, s') => E e s'

/-- Every run of `m` from `s`, failing ones included, ends in a state of `I`. -/
def Keeps (I : σ → Prop) (m : PyM σ α) (s : σ) : Prop := wp m (fun _ => I) (fun _ => I) s

variable {m : PyM σ α} {Q Q' : α → σ → Prop} {E E' : PyError → σ → Prop} {s : σ}

theorem keeps_iff {I : σ → Prop} : Keeps I m s ↔ I (m s).2 := by
  unfold Keeps wp
  split <;> next h => simp [h]

theorem wp_mono (h : wp m Q E s) (hQ : ∀ a s', Q a s' → Q' a s') (hE : ∀ e s', E e s' → E' e s') :
    wp m Q' E' s := by
  unfold wp at h ⊢
  split <;> next hm => simp only [hm] at h; first | exact hQ _ _ h | exact hE _ _ h

theorem wp_and (h : wp m Q E s) (h' : wp m Q' E' s) :
    wp m (fun a s' => Q a s' ∧ Q' a s') (fun e s' => E e s' ∧ E' e s') s := by
  unfold wp at h h' ⊢
  split <;> next hm => simp only [hm] at h h'; exact ⟨h, h'⟩

/-- What a run is given as its own outcome. -/
theorem wp_self : wp m (fun a s' => m s = (.ok a, s')) (fun e s' => m s = (.error e, s')) s := by
  unfold wp
  split <;> assumption

/-- What does not depend on the run holds after it. -/
theorem wp_const {p : Prop} (h : p) : wp m (fun _ _ => p) (fun _ _ => p) s := by
  unfold wp
  split <;> exact h

variable {a : α} {s' : σ}

theorem wp_of_ok (h : m s = (.ok a, s')) : wp m Q E s ↔ Q a s' := by
  simp [wp, h]

variable {e : PyError}

theorem wp_of_error (h : m s = (.error e, s')) : wp m Q E s ↔ E e s' := by
  simp [wp, h]

/-- A run that never raises returns. -/
theorem exists_of_wp (run : wp m Q (fun _ _ => False) s) : ∃ a s', m s = (.ok a, s') ∧ Q a s' := by
  unfold wp at run
  split at run
  · exact ⟨_, _, ‹_›, run⟩
  · exact run.elim

@[simp] theorem pure_run (a : α) : (Pure.pure a : PyM σ α) s = (.ok a, s) := rfl

theorem bind_run (f : α → PyM σ β) : (m >>= f) s =
    match m s with
    | (.ok a, s') => f a s'
    | (.error e, s') => (.error e, s') := rfl

variable {f : α → PyM σ β}

theorem bind_ok (h : m s = (.ok a, s')) : (m >>= f) s = f a s' := by
  rw [bind_run, h]

theorem bind_error (h : m s = (.error e, s')) : (m >>= f) s = (.error e, s') := by
  rw [bind_run, h]

variable {m' : PyM σ α}

/-- Two binds agree on a state when their parts agree on the states they reach. -/
theorem bind_congr_at {f' : α → PyM σ β} (hm : m s = m' s)
    (hf : wp m (fun a s' => f a s' = f' a s') (fun _ _ => True) s) :
    (m >>= f) s = (m' >>= f') s := by
  rw [bind_run, bind_run, ← hm]
  unfold wp at hf
  cases hr : m s with
  | mk r s' =>
    rw [hr] at hf
    cases r with
    | ok a => exact hf
    | error e => rfl

@[simp] theorem raise_run (e : PyError) : (raise e : PyM σ α) s = (.error e, s) := rfl

@[simp] theorem get_run : (get : PyM σ σ) s = (.ok s, s) := rfl

@[simp] theorem modify_run (f : σ → σ) : modify f s = (.ok (), f s) := rfl

@[simp] theorem lift_run (r : Except PyError α) : (lift r : PyM σ α) s = (r, s) := rfl

variable {c : Prop}

theorem ite_run [Decidable c] : (if c then m else m') s = if c then m s else m' s := by
  split <;> rfl

@[simp] theorem wp_pure : wp (Pure.pure a : PyM σ α) Q E s ↔ Q a s := Iff.rfl

@[simp] theorem wp_bind {Q : β → σ → Prop} :
    wp (m >>= f) Q E s ↔ wp m (fun a s' => wp (f a) Q E s') E s := by
  unfold wp
  rw [bind_run]
  cases m s with
  | mk r s' => cases r <;> rfl

@[simp] theorem wp_raise : wp (raise e : PyM σ α) Q E s ↔ E e s := Iff.rfl

@[simp] theorem wp_get {Q : σ → σ → Prop} : wp get Q E s ↔ Q s s := Iff.rfl

@[simp] theorem wp_modify {f : σ → σ} {Q : Unit → σ → Prop} :
    wp (modify f) Q E s ↔ Q () (f s) := Iff.rfl

@[simp] theorem wp_lift {r : Except PyError α} :
    wp (lift r) Q E s ↔ match r with
      | .ok a => Q a s
      | .error e => E e s := by
  cases r <;> rfl

@[simp] theorem wp_raiseIf [Decidable c] {Q : Unit → σ → Prop} :
    wp (raiseIf c e) Q E s ↔ (c → E e s) ∧ (¬ c → Q () s) := by
  unfold wp raiseIf
  split <;> next h => split at h <;> simp_all

theorem wp_tryExcept {handler : PyError → PyM σ α} :
    wp (tryExcept m handler) Q E s ↔ wp m Q (fun e s' => wp (handler e) Q E s') s := by
  unfold wp tryExcept
  cases m s with
  | mk r s' => cases r <;> rfl

theorem wp_tryFinally {cleanup : PyM σ Unit} :
    wp (tryFinally m cleanup) Q E s ↔
      wp m (fun a s' => wp cleanup (fun _ s'' => Q a s'') E s')
        (fun e s' => wp cleanup (fun _ s'' => E e s'') E s') s := by
  unfold wp tryFinally
  cases m s with
  | mk r s' =>
    cases hc : cleanup s' with
    | mk c s'' => cases r <;> cases c <;> simp [hc]

theorem wp_zoom {view : τ → σ} {put : σ → τ → τ} {t : τ} {Q : α → τ → Prop}
    {E : PyError → τ → Prop} :
    wp (zoom view put m) Q E t ↔
      wp m (fun a s' => Q a (put s' t)) (fun e s' => E e (put s' t)) (view t) := by
  unfold wp zoom
  cases m (view t) with
  | mk r s' => cases r <;> rfl

theorem wp_withLocals {l : τ} {m : PyM (σ × τ) α} :
    wp (withLocals l m) Q E s ↔ wp m (fun a t => Q a t.1) (fun e t => E e t.1) (s, l) := by
  unfold wp withLocals
  cases m (s, l) with
  | mk r t => cases r <;> rfl

theorem wp_outer {t : σ × τ} {Q : α → σ × τ → Prop} {E : PyError → σ × τ → Prop} :
    wp (outer m) Q E t ↔ wp m (fun a s' => Q a (s', t.2)) (fun e s' => E e (s', t.2)) t.1 :=
  wp_zoom

theorem wp_attempt {m : PyM σ Unit} {Q : Option PyError → σ → Prop} :
    wp (attempt m) Q E s ↔ wp m (fun _ s' => Q none s') (fun e s' => Q (some e) s') s := by
  unfold wp attempt
  cases m s with
  | mk r s' => cases r <;> rfl

theorem wp_ite [Decidable c] :
    wp (if c then m else m') Q E s ↔ if c then wp m Q E s else wp m' Q E s := by
  split <;> rfl

theorem forEach_congr {f g : β → PyM σ Unit} :
    ∀ {l : List β}, (∀ b ∈ l, f b = g b) → forEach f l = forEach g l
  | [], _ => rfl
  | b :: l, h => by
    rw [forEach, forEach, h b List.mem_cons_self,
      forEach_congr fun c hc => h c (List.mem_cons_of_mem b hc)]

/-- The loop rule: a property of the state and of the elements still to come that
every iteration re-establishes holds at the end. -/
theorem forEach_inv {f : β → PyM σ Unit} {I : List β → σ → Prop} {E : PyError → σ → Prop}
    (step : ∀ b l s, I (b :: l) s → wp (f b) (fun _ s' => I l s') E s) :
    ∀ (l : List β) (s : σ), I l s → wp (forEach f l) (fun _ s' => I [] s') E s
  | [], _, h => h
  | b :: l, s, h => by
    simp only [forEach, wp_bind]
    exact wp_mono (step b l s h) (fun _ s' h' => forEach_inv step l s' h') (fun _ _ h' => h')

/-- The rule for `untilError`. -/
theorem untilError_inv {f : β → PyM σ Unit} {I : List β → σ → Prop}
    {R : List β → PyError → σ → Prop} {E : PyError → σ → Prop} :
    ∀ (l done : List β) (s : σ), I done s →
      (∀ b d s, b ∈ l → I d s → wp (f b) (fun _ s' => I (d ++ [b]) s') (fun e s' => R d e s') s) →
      wp (untilError f l) (fun r s' => match r.2 with
        | none => r.1 = l ∧ I (done ++ l) s'
        | some e => R (done ++ r.1) e s') E s
  | [], done, s, h, _ => by simpa [untilError] using h
  | b :: l, done, s, h, step => by
    simp only [untilError, wp_bind, wp_attempt]
    refine wp_mono (step b done s List.mem_cons_self h) (fun _ s' h' => ?_) (fun e s' h' => ?_)
    · refine wp_mono (untilError_inv l (done ++ [b]) s' h'
        fun b' d s hb' => step b' d s (List.mem_cons_of_mem b hb')) (fun r s'' hr => ?_)
        (fun _ _ he => he)
      obtain ⟨d, e⟩ := r
      cases e with
      | none =>
        obtain ⟨rfl, hI⟩ := hr
        exact ⟨rfl, by simpa using hI⟩
      | some e => simpa using hr
    · simpa using h'

/-- A pure map that never raises. -/
theorem mapM_ok {f : β → Except PyError α} {g : β → α} :
    ∀ {l : List β}, (∀ b ∈ l, f b = .ok (g b)) → l.mapM f = .ok (l.map g)
  | [], _ => rfl
  | b :: l, h => by
    have hb := h b List.mem_cons_self
    have ih := mapM_ok (f := f) (g := g) (l := l) fun c hc => h c (List.mem_cons_of_mem b hc)
    simp [List.mapM_cons, hb, ih]
    rfl

/-- A pure map that did not raise. -/
theorem forall₂_of_mapM {f : β → Except PyError α} :
    ∀ {l : List β} {r : List α}, l.mapM f = .ok r → List.Forall₂ (fun b a => f b = .ok a) l r
  | [], r, h => by
    cases h
    exact .nil
  | b :: l, r, h => by
    rw [List.mapM_cons] at h
    cases hb : f b with
    | error e => rw [hb] at h; cases h
    | ok a =>
      cases hl : l.mapM f with
      | error e => simp only [hb, hl, bind, Except.bind] at h; cases h
      | ok r' =>
        simp only [hb, hl, bind, Except.bind, pure, Except.pure] at h
        cases h
        exact .cons hb (forall₂_of_mapM hl)

/-- A loop over a component is a loop on the component. -/
theorem forEach_zoom {view : τ → σ} {put : σ → τ → τ} (hview : ∀ s t, view (put s t) = s)
    (hput : ∀ s s' t, put s (put s' t) = put s t) (hself : ∀ t, put (view t) t = t)
    (f : β → PyM σ Unit) :
    ∀ l : List β, forEach (fun b => zoom view put (f b)) l = zoom view put (forEach f l)
  | [] => by
    funext t
    show (Except.ok (), t) = (Except.ok (), put (view t) t)
    rw [hself]
  | b :: l => by
    funext t
    simp only [forEach, forEach_zoom hview hput hself f l, bind_run, zoom]
    cases f b (view t) with
    | mk r s =>
      cases r with
      | error e => rfl
      | ok u => simp only [hview, hput]

section

variable {R : σ → σ → Prop}

/-- Every run of `m`, failing ones included, moves the state along `R`. -/
def Along (R : σ → σ → Prop) (m : PyM σ α) : Prop := ∀ s, R s (m s).2

theorem along_modify {f : σ → σ} (h : ∀ s, R s (f s)) : Along R (modify f) := h

/-- A component moves along a relation when the program on it does. -/
theorem along_zoom {R' : τ → τ → Prop} {view : τ → σ} {put : σ → τ → τ} (h : Along R m)
    (hput : ∀ t s', R (view t) s' → R' t (put s' t)) : Along R' (zoom view put m) :=
  fun t => hput t _ (h (view t))

instance [Std.Refl R] : Std.Refl fun s t : σ × τ => R s.1 t.1 := ⟨fun s => refl s.1⟩

instance [IsTrans σ R] : IsTrans (σ × τ) fun s t => R s.1 t.1 :=
  ⟨fun _ _ _ h h' => IsTrans.trans (r := R) _ _ _ h h'⟩

theorem along_outer (h : Along R m) :
    Along (fun s t : σ × τ => R s.1 t.1) (outer m : PyM (σ × τ) α) := fun t => h t.1

theorem along_withLocals {l : τ} {m : PyM (σ × τ) α}
    (h : Along (fun s t : σ × τ => R s.1 t.1) m) : Along R (withLocals l m) := fun s => h (s, l)

theorem along_pure [Std.Refl R] (a : α) : Along R (Pure.pure a : PyM σ α) := fun s => refl s

theorem along_raise [Std.Refl R] (e : PyError) : Along R (raise e : PyM σ α) := fun s => refl s

theorem along_get [Std.Refl R] : Along R (get : PyM σ σ) := fun s => refl s

theorem along_lift [Std.Refl R] (r : Except PyError α) : Along R (lift r : PyM σ α) :=
  fun s => refl s

theorem along_raiseIf [Std.Refl R] (c : Prop) [Decidable c] (e : PyError) :
    Along R (raiseIf c e : PyM σ Unit) := by
  intro s
  unfold raiseIf
  split <;> exact refl s

theorem along_ite {c : Prop} [Decidable c] {m' : PyM σ α} (h : Along R m) (h' : Along R m') :
    Along R (if c then m else m') := by
  split
  · exact h
  · exact h'

/-- What a program that moves along a relation ends in. -/
theorem Along.wp {Q : α → σ → Prop} {E : PyError → σ → Prop} (h : Along R m)
    (hQ : ∀ a s', R s s' → Q a s') (hE : ∀ e s', R s s' → E e s') : PyM.wp m Q E s :=
  wp_mono (keeps_iff.mpr (h s)) hQ hE

/-- A program that reads the state first. -/
theorem along_bind_get {f : σ → PyM σ α} (h : ∀ s, R s (f s s).2) : Along R (get >>= f) := h

theorem along_attempt {m : PyM σ Unit} (hm : Along R m) : Along R (attempt m) := by
  intro s
  have h := hm s
  unfold attempt
  revert h
  cases m s with
  | mk r s' => cases r <;> exact fun h => h

variable [IsTrans σ R]

theorem along_bind {f : α → PyM σ β} (hm : Along R m) (hf : ∀ a, Along R (f a)) :
    Along R (m >>= f) := by
  intro s
  have h := hm s
  rw [bind_run]
  revert h
  cases m s with
  | mk r s' =>
    cases r with
    | ok a => exact fun h => IsTrans.trans _ _ _ h (hf a s')
    | error e => exact fun h => h

theorem along_tryExcept {handler : PyError → PyM σ α} (hm : Along R m)
    (hh : ∀ e, Along R (handler e)) : Along R (tryExcept m handler) := by
  intro s
  have h := hm s
  unfold tryExcept
  revert h
  cases m s with
  | mk r s' =>
    cases r with
    | ok a => exact fun h => h
    | error e => exact fun h => IsTrans.trans _ _ _ h (hh e s')

theorem along_forEach [Std.Refl R] {f : β → PyM σ Unit} :
    ∀ {l : List β}, (∀ b ∈ l, Along R (f b)) → Along R (forEach f l)
  | [], _ => along_pure ()
  | b :: _, h => along_bind (h b List.mem_cons_self)
      fun _ => along_forEach fun c hc => h c (List.mem_cons_of_mem b hc)

theorem along_untilError [Std.Refl R] {f : β → PyM σ Unit} (h : ∀ b, Along R (f b)) :
    ∀ l : List β, Along R (untilError f l)
  | [] => along_pure _
  | b :: l => by
    refine along_bind (along_attempt (h b)) fun e => ?_
    cases e with
    | some e => exact along_pure _
    | none => exact along_bind (along_untilError h l) fun _ => along_pure _

end

section

variable {R : σ → σ → Prop}

/-- Every run of `m` that returns moves the state along `R`. -/
def Returns (R : σ → σ → Prop) (m : PyM σ α) : Prop :=
  ∀ s, wp m (fun _ s' => R s s') (fun _ _ => True) s

theorem Along.returns (h : Along R m) : Returns R m := fun s =>
  wp_mono (keeps_iff.mpr (h s)) (fun _ _ hr => hr) fun _ _ _ => trivial

theorem returns_bind [IsTrans σ R] {f : α → PyM σ β} (hm : Returns R m)
    (hf : ∀ a, Returns R (f a)) : Returns R (m >>= f) := by
  intro s
  rw [wp_bind]
  refine wp_mono (hm s) (fun a s' h => ?_) fun _ _ ht => ht
  exact wp_mono (hf a s') (fun _ _ h' => IsTrans.trans _ _ _ h h') fun _ _ ht => ht

/-- What ends in a `raise` does not return. -/
theorem raises_bind {f : α → PyM σ β}
    (hf : ∀ a s, wp (f a) (fun _ _ => False) (fun _ _ => True) s) (s : σ) :
    wp (m >>= f) (fun _ _ => False) (fun _ _ => True) s := by
  rw [wp_bind]
  exact wp_mono (wp_const trivial) (fun a s' _ => hf a s') fun _ _ ht => ht

theorem returns_of_raises (h : ∀ s, wp m (fun _ _ => False) (fun _ _ => True) s) : Returns R m :=
  fun s => wp_mono (h s) (fun _ _ hf => hf.elim) fun _ _ ht => ht

/-- A handler that raises again. -/
theorem returns_tryExcept {handler : PyError → PyM σ α} (hm : Returns R m)
    (hh : ∀ e s, wp (handler e) (fun _ _ => False) (fun _ _ => True) s) :
    Returns R (tryExcept m handler) := by
  intro s
  rw [wp_tryExcept]
  refine wp_mono (hm s) (fun _ _ h => h) fun e s' _ => ?_
  exact wp_mono (hh e s') (fun _ _ h => h.elim) fun _ _ ht => ht

theorem returns_outer (h : Returns R m) :
    Returns (fun s t : σ × τ => R s.1 t.1) (outer m) := fun t => by
  rw [wp_outer]
  exact h t.1

theorem returns_withLocals {l : τ} {m : PyM (σ × τ) α}
    (h : Returns (fun s t => R s.1 t.1) m) : Returns R (withLocals l m) := fun s => by
  rw [wp_withLocals]
  exact h (s, l)

end

end PyM

end SparseEngine
