import Mathlib.Algebra.Group.Nat.Defs
import Mathlib.Data.List.Forall2
import StateSpace.Fault

/-!
# Outcomes of actions

`Ensures` is total correctness: an action ends without a fault, and its result and the state that it
leaves have a property. A diagram numbers its cells with 31 bits, so what is true of actions on
diagrams is true as long as the cells fit. `EnsuresFit` is total correctness under the condition that
the cells fit *after* the action; no action drops cells (`Grows`), so they fit at every moment before.
`EnsuresOk` is partial correctness: it tells nothing of an action that faults.
-/

namespace StateSpace

/-- States with a diagram whose cells are counted. -/
class HasCells (σ : Type) where
  /-- The number of cells, the sentry apart. -/
  cells : σ → Nat

/-- Every cell of the diagram has an index of its own. -/
def Fits {σ : Type} [HasCells σ] (s : σ) : Prop := HasCells.cells s < 2 ^ 31

instance {σ : Type} [HasCells σ] (s : σ) : Decidable (Fits s) := inferInstanceAs (Decidable (_ < _))

/-! ## Results that may be errors -/

section Results

variable {ε α β : Type}

theorem except_bind_eq_ok {x : Except ε α} {f : α → Except ε β} {b : β} :
    (x >>= f) = .ok b ↔ ∃ a, x = .ok a ∧ f a = .ok b := by
  cases x with
  | error e => simp [bind, Except.bind]
  | ok a => simp [bind, Except.bind]

theorem except_map_eq_ok {x : Except ε α} {f : α → β} {b : β} :
    x.map f = .ok b ↔ ∃ a, x = .ok a ∧ f a = b := by
  cases x with
  | error e => simp [Except.map]
  | ok a => simp [Except.map]

theorem exists_ok_of_any {x : Except ε α} {p : α → Bool} (h : x.toOption.any p = true) :
    ∃ a, x = .ok a ∧ p a = true := by
  cases x with
  | error e => cases h
  | ok a => exact ⟨a, rfl, h⟩

/-- A list of results, each that of an element. -/
theorem mapM_eq_ok {f : α → Except ε β} {as : List α} {bs : List β} :
    as.mapM f = .ok bs ↔ List.Forall₂ (fun a b => f a = .ok b) as bs := by
  induction as generalizing bs with
  | nil =>
    rw [List.mapM_nil, List.forall₂_nil_left_iff]
    exact ⟨fun h => (Except.ok.inj h).symm, fun h => by rw [h]; rfl⟩
  | cons a as ih =>
    rw [List.mapM_cons, List.forall₂_cons_left_iff, except_bind_eq_ok]
    constructor
    · rintro ⟨b, hb, h⟩
      obtain ⟨bs', hbs, h⟩ := except_bind_eq_ok.1 h
      cases h
      exact ⟨b, bs', hb, ih.1 hbs, rfl⟩
    · rintro ⟨b, bs', hb, hbs, rfl⟩
      exact ⟨b, hb, except_bind_eq_ok.2 ⟨bs', ih.2 hbs, rfl⟩⟩

theorem estate_bind_eq_ok {σ : Type} {x : EStateM ε σ α} {f : α → EStateM ε σ β} {b : β}
    {s s'' : σ} : (x >>= f) s = .ok b s'' ↔ ∃ a s', x s = .ok a s' ∧ f a s' = .ok b s'' := by
  show EStateM.bind x f s = _ ↔ _
  unfold EStateM.bind
  cases x s with
  | ok a s' => simp
  | error e s' => simp

theorem estate_bind_eq_error {σ : Type} {x : EStateM ε σ α} {f : α → EStateM ε σ β} {e : ε}
    {s s' : σ} : (x >>= f) s = .error e s' ↔
      x s = .error e s' ∨ ∃ a s₁, x s = .ok a s₁ ∧ f a s₁ = .error e s' := by
  show EStateM.bind x f s = _ ↔ _
  unfold EStateM.bind
  cases x s <;> simp

theorem state_bind_eq_ok {σ : Type} {x : StateT σ (Except ε) α} {f : α → StateT σ (Except ε) β}
    {b : β} {s s'' : σ} : (x >>= f) s = .ok (b, s'') ↔
      ∃ a s', x s = .ok (a, s') ∧ f a s' = .ok (b, s'') := by
  show (x s >>= fun p => f p.1 p.2) = _ ↔ _
  rw [except_bind_eq_ok]
  exact Prod.exists

/-- A result in the list is that of some element. -/
theorem mem_of_mapM_eq_ok {f : α → Except ε β} {as : List α} {bs : List β} {b : β}
    (h : as.mapM f = .ok bs) (hb : b ∈ bs) : ∃ a ∈ as, f a = .ok b := by
  have hall := mapM_eq_ok.1 h
  clear h
  induction hall with
  | nil => cases hb
  | cons hab _ ih =>
    rcases List.mem_cons.1 hb with rfl | hb
    · exact ⟨_, List.mem_cons_self, hab⟩
    · obtain ⟨a, ha, hab⟩ := ih hb
      exact ⟨a, List.mem_cons_of_mem _ ha, hab⟩

/-- Where every element has a result, so has the list. -/
theorem exists_mapM_ok {f : α → Except ε β} {as : List α} (h : ∀ a ∈ as, ∃ b, f a = .ok b) :
    ∃ bs, as.mapM f = .ok bs := by
  induction as with
  | nil => exact ⟨[], rfl⟩
  | cons a as ih =>
    obtain ⟨b, hb⟩ := h a List.mem_cons_self
    obtain ⟨bs, hbs⟩ := ih fun a' ha' => h a' (List.mem_cons_of_mem _ ha')
    refine ⟨b :: bs, ?_⟩
    rw [List.mapM_cons]
    exact except_bind_eq_ok.2 ⟨b, hb, except_bind_eq_ok.2 ⟨bs, hbs, rfl⟩⟩

end Results

namespace Action

variable {σ α β : Type}

/-- The state that an action leaves, whether it faults or not. -/
def after (x : Action σ α) (s : σ) : σ := (x.outcome s).2

/-- The action ends without a fault, with a result and a state that have a property. -/
def Ensures (x : Action σ α) (s : σ) (Q : α → σ → Prop) : Prop :=
  ∃ a s', x s = .ok a s' ∧ Q a s'

/-! ## Running actions -/

theorem after_ok {x : Action σ α} {s s' : σ} {a : α} (h : x s = .ok a s') : x.after s = s' := by
  unfold after outcome
  rw [h]

theorem after_error {x : Action σ α} {s s' : σ} {e : Fault} (h : x s = .error e s') :
    x.after s = s' := by
  unfold after outcome
  rw [h]

theorem exists_ok_of_outcome {x : Action σ α} {s : σ} {p : α → Bool}
    (h : (x.outcome s).1.toOption.any p = true) : ∃ a s', x s = .ok a s' ∧ p a = true := by
  unfold outcome at h
  cases hx : x s with
  | ok a s' =>
    rw [hx] at h
    exact ⟨a, s', rfl, h⟩
  | error e s' =>
    rw [hx] at h
    cases h

theorem bind_ok {x : Action σ α} {s s' : σ} {a : α} (h : x s = .ok a s') (f : α → Action σ β) :
    (x >>= f) s = f a s' := by
  show EStateM.bind x f s = _
  unfold EStateM.bind
  rw [h]

theorem bind_error {x : Action σ α} {s s' : σ} {e : Fault} (h : x s = .error e s')
    (f : α → Action σ β) : (x >>= f) s = .error e s' := by
  show EStateM.bind x f s = _
  unfold EStateM.bind
  rw [h]

/-- Actions that do the same from a state do the same in front of others. -/
theorem bind_congr_apply {x y : Action σ α} {s : σ} {f : α → Action σ β} (h : x s = y s) :
    (x >>= f) s = (y >>= f) s := by
  show EStateM.bind x f s = EStateM.bind y f s
  unfold EStateM.bind
  rw [h]

theorem after_bind_ok {x : Action σ α} {s s' : σ} {a : α} (h : x s = .ok a s')
    (f : α → Action σ β) : (x >>= f).after s = (f a).after s' := by
  unfold after outcome
  rw [bind_ok h]

/-- Another answer changes nothing. -/
theorem after_return (x : Action σ α) (f : α → β) (s : σ) :
    (do return f (← x) : Action σ β).after s = x.after s := by
  cases h : x s with
  | ok a s' => rw [after_bind_ok h, after_ok h]; rfl
  | error e s' => rw [after_error (bind_error h _), after_error h]

/-- Leaving the answer out changes nothing. -/
theorem after_discard (x : Action σ α) (s : σ) : (do let _ ← x : Action σ Unit).after s = x.after s :=
  after_return x (fun _ => ()) s

@[simp] theorem pure_apply (a : α) (s : σ) : (pure a : Action σ α) s = .ok a s := rfl

@[simp] theorem get_apply (s : σ) : (get : Action σ σ) s = .ok s s := rfl

@[simp] theorem modify_apply (f : σ → σ) (s : σ) : (modify f : Action σ Unit) s = .ok () (f s) := rfl

theorem reading_ok {f : σ → Except Fault α} {s : σ} {a : α} (h : f s = .ok a) :
    reading f s = .ok a s := by
  unfold reading
  rw [h]

theorem reading_eq_ok {f : σ → Except Fault α} {s s' : σ} {a : α} :
    reading f s = .ok a s' ↔ f s = .ok a ∧ s' = s := by
  unfold reading
  cases f s with
  | ok b => simp [eq_comm]
  | error e => simp

theorem ofExcept_ok {r : Except Fault α} {a : α} (h : r = .ok a) (s : σ) :
    ofExcept r s = .ok a s := by
  unfold ofExcept
  rw [h]

/-- Nothing is caught where nothing faults. -/
theorem tryCatch_ok {x : Action σ α} {s s' : σ} {a : α} (h : x s = .ok a s')
    (f : Fault → Action σ α) : (tryCatch x f) s = .ok a s' := by
  show EStateM.tryCatch x f s = _
  unfold EStateM.tryCatch
  simp only [h]

theorem tryCatch_error {x : Action σ α} {s s' : σ} {e : Fault} (h : x s = .error e s')
    (f : Fault → Action σ α) : (tryCatch x f) s = f e s' := by
  show EStateM.tryCatch x f s = _
  unfold EStateM.tryCatch
  simp only [h]
  rfl

/-! ## Total correctness -/

theorem Ensures.mono {x : Action σ α} {s : σ} {P Q : α → σ → Prop} (h : Ensures x s P)
    (hPQ : ∀ a s', P a s' → Q a s') : Ensures x s Q := by
  obtain ⟨a, s', hx, hP⟩ := h
  exact ⟨a, s', hx, hPQ a s' hP⟩

theorem Ensures.pure {a : α} {s : σ} {Q : α → σ → Prop} (h : Q a s) :
    Ensures (Pure.pure a) s Q := ⟨a, s, rfl, h⟩

theorem Ensures.bind {x : Action σ α} {f : α → Action σ β} {s : σ} {P : α → σ → Prop}
    {Q : β → σ → Prop} (hx : Ensures x s P) (hf : ∀ a s', P a s' → Ensures (f a) s' Q) :
    Ensures (x >>= f) s Q := by
  obtain ⟨a, s', hxs, hP⟩ := hx
  obtain ⟨b, s'', hfs, hQ⟩ := hf a s' hP
  exact ⟨b, s'', (bind_ok hxs f).trans hfs, hQ⟩

/-- What runs first is known already. -/
theorem Ensures.of_ok {x : Action σ α} {f : α → Action σ β} {s s' : σ} {a : α}
    {Q : β → σ → Prop} (hx : x s = .ok a s') (hf : Ensures (f a) s' Q) : Ensures (x >>= f) s Q := by
  unfold Ensures
  rwa [bind_ok hx]

/-! ## Partial correctness -/

/-- If the action ends without a fault, its result and the state that it leaves have a property. -/
def EnsuresOk (x : Action σ α) (s : σ) (Q : α → σ → Prop) : Prop :=
  ∀ a s', x s = .ok a s' → Q a s'

theorem Ensures.ok {x : Action σ α} {s : σ} {Q : α → σ → Prop} (h : Ensures x s Q) :
    EnsuresOk x s Q := by
  obtain ⟨a, s', hx, hQ⟩ := h
  intro b s'' hx'
  cases hx.symm.trans hx'
  exact hQ

theorem EnsuresOk.mono {x : Action σ α} {s : σ} {P Q : α → σ → Prop} (h : EnsuresOk x s P)
    (hPQ : ∀ a s', P a s' → Q a s') : EnsuresOk x s Q := fun a s' hx => hPQ a s' (h a s' hx)

theorem EnsuresOk.pure {a : α} {s : σ} {Q : α → σ → Prop} (h : Q a s) :
    EnsuresOk (Pure.pure a) s Q := (Ensures.pure h).ok

theorem EnsuresOk.throw {e : Fault} {s : σ} {Q : α → σ → Prop} :
    EnsuresOk (throw e : Action σ α) s Q := fun _ _ h => by cases h

theorem EnsuresOk.reading {f : σ → Except Fault α} {s : σ} {Q : α → σ → Prop}
    (h : ∀ a, f s = .ok a → Q a s) : EnsuresOk (Action.reading f) s Q := by
  intro a s' hx
  obtain ⟨hf, rfl⟩ := reading_eq_ok.1 hx
  exact h a hf

theorem EnsuresOk.bind {x : Action σ α} {f : α → Action σ β} {s : σ} {P : α → σ → Prop}
    {Q : β → σ → Prop} (hx : EnsuresOk x s P) (hf : ∀ a s', P a s' → EnsuresOk (f a) s' Q) :
    EnsuresOk (x >>= f) s Q := by
  intro b s'' h
  obtain ⟨a, s', hxs, hfs⟩ := estate_bind_eq_ok.1 h
  exact hf a s' (hx a s' hxs) b s'' hfs

/-- What runs first is known already. -/
theorem EnsuresOk.of_ok {x : Action σ α} {f : α → Action σ β} {s s' : σ} {a : α}
    {Q : β → σ → Prop} (hx : x s = .ok a s') (hf : EnsuresOk (f a) s' Q) :
    EnsuresOk (x >>= f) s Q := by
  intro b s'' h
  rw [bind_ok hx] at h
  exact hf b s'' h

theorem EnsuresOk.get {f : σ → Action σ β} {s : σ} {Q : β → σ → Prop}
    (h : EnsuresOk (f s) s Q) : EnsuresOk (get >>= f) s Q := .of_ok (get_apply s) h

/-- A fault that is caught is of no concern if the handler faults. -/
theorem EnsuresOk.tryCatch {x : Action σ α} {f : Fault → Action σ α} {s : σ} {Q : α → σ → Prop}
    (hx : EnsuresOk x s Q) (hf : ∀ e s', EnsuresOk (f e) s' Q) : EnsuresOk (tryCatch x f) s Q := by
  intro a s' h
  cases hxs : x s with
  | ok b s'' =>
    rw [tryCatch_ok hxs f] at h
    cases h
    exact hx a s' hxs
  | error e s'' =>
    rw [tryCatch_error hxs f] at h
    exact hf e s'' a s' h

/-! ## Invariants -/

/-- The action keeps an invariant, whether it faults or not. -/
def Keeps (I : σ → Prop) (x : Action σ α) : Prop := ∀ s, I s → I (x.after s)

section Keeps

variable {I : σ → Prop}

theorem Keeps.ensuresOk {x : Action σ α} (h : Keeps I x) {s : σ} (hs : I s) :
    EnsuresOk x s fun _ s' => I s' := fun _ _ hx => after_ok hx ▸ h s hs

theorem keeps_pure (a : α) : Keeps I (pure a : Action σ α) := fun _ h => h

theorem keeps_throw (e : Fault) : Keeps I (throw e : Action σ α) := fun _ h => h

theorem keeps_get : Keeps I (get : Action σ σ) := fun _ h => h

theorem keeps_reading (f : σ → Except Fault α) : Keeps I (reading f) := by
  intro s hs
  cases h : f s with
  | ok a => rwa [after_ok (reading_ok h)]
  | error e =>
    have hs' : reading f s = .error e s := by unfold reading; rw [h]
    rwa [after_error hs']

theorem keeps_ofExcept (r : Except Fault α) : Keeps I (ofExcept r : Action σ α) :=
  keeps_reading fun _ => r

theorem keeps_modify {f : σ → σ} (h : ∀ s, I s → I (f s)) : Keeps I (modify f : Action σ Unit) := h

theorem keeps_bind {x : Action σ α} {f : α → Action σ β} (hx : Keeps I x)
    (hf : ∀ a, Keeps I (f a)) : Keeps I (x >>= f) := by
  intro s hs
  have hs' := hx s hs
  cases h : x s with
  | ok a s' =>
    rw [after_ok h] at hs'
    rw [after_bind_ok h]
    exact hf a s' hs'
  | error e s' =>
    rw [after_error h] at hs'
    rwa [after_error (bind_error h f)]

theorem keeps_foldlM {x : β → α → Action σ β} (hx : ∀ b a, Keeps I (x b a)) (as : List α) (b : β) :
    Keeps I (as.foldlM x b) := by
  induction as generalizing b with
  | nil => exact keeps_pure b
  | cons a as ih =>
    rw [List.foldlM_cons]
    exact keeps_bind (hx b a) ih

/-- What follows may depend on a state with the invariant. -/
theorem keeps_get_bind {f : σ → Action σ β} (hf : ∀ s, I s → Keeps I (f s)) :
    Keeps I (get >>= f) := fun s hs => hf s hs s hs

theorem keeps_tryCatch {x : Action σ α} {f : Fault → Action σ α} (hx : Keeps I x)
    (hf : ∀ e, Keeps I (f e)) : Keeps I (tryCatch x f) := by
  intro s hs
  have hs' := hx s hs
  cases h : x s with
  | ok a s' =>
    rw [after_ok h] at hs'
    rwa [after_ok (tryCatch_ok h f)]
  | error e s' =>
    rw [after_error h] at hs'
    have hfs : (tryCatch x f).after s = (f e).after s' := by
      unfold after outcome
      rw [tryCatch_error h f]
    rw [hfs]
    exact hf e s' hs'

end Keeps

/-! ## Histories -/

/-- Calls with these outcomes lead from one state to another, the latest one first. Calls that fault are
among them. -/
inductive Past {γ : Type} (run : γ → Action σ α) (s₀ : σ) : List (γ × Except Fault α) → σ → Prop where
  | nil : Past run s₀ [] s₀
  | call {es : List (γ × Except Fault α)} {s : σ} (h : Past run s₀ es s) (c : γ) :
      Past run s₀ ((c, ((run c).outcome s).1) :: es) ((run c).after s)

section Past

variable {γ : Type} {run : γ → Action σ α} {s₀ s : σ} {es : List (γ × Except Fault α)}

theorem Past.of_outcome {c : γ} {r : Except Fault α} (h : Past run s₀ es s)
    (hc : ((run c).outcome s).1 = r) : Past run s₀ ((c, r) :: es) ((run c).after s) := hc ▸ h.call c

/-- A past goes on from what its first call left. -/
theorem past_concat {c : γ} {r : Except Fault α} : Past run s₀ (es ++ [(c, r)]) s ↔
    ((run c).outcome s₀).1 = r ∧ Past run ((run c).after s₀) es s := by
  induction es generalizing s with
  | nil =>
    constructor
    · intro h
      cases h with
      | call h _ =>
        cases h
        exact ⟨rfl, .nil⟩
    · rintro ⟨rfl, h⟩
      cases h
      exact Past.nil.call c
  | cons e es ih =>
    constructor
    · intro h
      cases h with
      | call h c' => exact (ih.1 h).imp_right fun h => h.call c'
    · rintro ⟨hr, h⟩
      cases h with
      | call h c' => exact (ih.2 ⟨hr, h⟩).call c'

/-- What every call keeps holds after all of them. -/
theorem Past.invariant {I : σ → Prop} (h : Past run s₀ es s) (hkeeps : ∀ c, Keeps I (run c))
    (h₀ : I s₀) : I s := by
  induction h with
  | nil => exact h₀
  | call _ c ih => exact hkeeps c _ ih

end Past

/-! ## Growing diagrams -/

section Cells

variable [HasCells σ]

/-- The action drops no cell, whether it faults or not. -/
def Grows (x : Action σ α) : Prop := ∀ s, HasCells.cells s ≤ HasCells.cells (x.after s)

/-- The action ensures a property if the cells fit in the state that it leaves. -/
def EnsuresFit (x : Action σ α) (s : σ) (Q : α → σ → Prop) : Prop :=
  Fits (x.after s) → Ensures x s Q

theorem grows_iff {x : Action σ α} : Grows x ↔ ∀ n, Keeps (fun s => n ≤ HasCells.cells s) x :=
  ⟨fun h _ s hn => Nat.le_trans hn (h s), fun h s => h _ s (Nat.le_refl _)⟩

@[simp] theorem grows_pure (a : α) : Grows (pure a : Action σ α) := fun _ => Nat.le_refl _

@[simp] theorem grows_throw (e : Fault) : Grows (throw e : Action σ α) := fun _ => Nat.le_refl _

@[simp] theorem grows_reading (f : σ → Except Fault α) : Grows (reading f) :=
  grows_iff.2 fun _ => keeps_reading f

@[simp] theorem grows_ofExcept (r : Except Fault α) : Grows (ofExcept r : Action σ α) :=
  grows_reading fun _ => r

@[simp] theorem grows_bind {x : Action σ α} {f : α → Action σ β} (hx : Grows x)
    (hf : ∀ a, Grows (f a)) : Grows (x >>= f) :=
  grows_iff.2 fun n => keeps_bind (grows_iff.1 hx n) fun a => grows_iff.1 (hf a) n

@[simp] theorem grows_map {x : Action σ α} (f : α → β) (hx : Grows x) : Grows (f <$> x) :=
  grows_bind hx fun a => grows_pure (f a)

/-- What fits after two actions fits between them. -/
theorem fits_of_bind {x : Action σ α} {f : α → Action σ β} {s : σ} (hf : ∀ a, Grows (f a))
    (h : Fits ((x >>= f).after s)) : Fits (x.after s) := by
  cases hx : x s with
  | ok a s' =>
    rw [after_bind_ok hx] at h
    rw [after_ok hx]
    exact Nat.lt_of_le_of_lt (hf a s') h
  | error e s' =>
    rw [after_error (bind_error hx f)] at h
    rwa [after_error hx]

theorem Ensures.fit {x : Action σ α} {s : σ} {Q : α → σ → Prop} (h : Ensures x s Q) :
    EnsuresFit x s Q := fun _ => h

theorem EnsuresFit.mono {x : Action σ α} {s : σ} {P Q : α → σ → Prop} (h : EnsuresFit x s P)
    (hPQ : ∀ a s', P a s' → Q a s') : EnsuresFit x s Q := fun hfit => (h hfit).mono hPQ

theorem EnsuresFit.pure {a : α} {s : σ} {Q : α → σ → Prop} (h : Q a s) :
    EnsuresFit (Pure.pure a) s Q := (Ensures.pure h).fit

theorem EnsuresFit.of_ok {x : Action σ α} {f : α → Action σ β} {s s' : σ} {a : α}
    {Q : β → σ → Prop} (hx : x s = .ok a s') (hf : EnsuresFit (f a) s' Q) :
    EnsuresFit (x >>= f) s Q := by
  intro hfit
  rw [after_bind_ok hx] at hfit
  exact .of_ok hx (hf hfit)

/-- The cells fit before the fault is caught because catching it does not drop any. -/
theorem EnsuresFit.tryCatch {x : Action σ α} {f : Fault → Action σ α} {s : σ} {Q : α → σ → Prop}
    (hx : EnsuresFit x s Q) (hf : ∀ e, Grows (f e)) : EnsuresFit (tryCatch x f) s Q := by
  intro hfit
  have hfit' : Fits (x.after s) := by
    cases h : x s with
    | ok a s' =>
      rw [after_ok (tryCatch_ok h f)] at hfit
      rwa [after_ok h]
    | error e s' =>
      have hgrow := hf e s'
      unfold after outcome at hfit hgrow
      rw [tryCatch_error h f] at hfit
      rw [after_error h]
      exact Nat.lt_of_le_of_lt hgrow hfit
  obtain ⟨a, s', hrun, hQ⟩ := hx hfit'
  exact ⟨a, s', tryCatch_ok hrun f, hQ⟩

/-- The cells fit after the first action because the rest does not drop any. -/
theorem EnsuresFit.bind {x : Action σ α} {f : α → Action σ β} {s : σ} {P : α → σ → Prop}
    {Q : β → σ → Prop} (hx : EnsuresFit x s P) (hg : ∀ a, Grows (f a))
    (hf : ∀ a s', P a s' → EnsuresFit (f a) s' Q) : EnsuresFit (x >>= f) s Q := by
  intro hfit
  obtain ⟨a, s', hxs, hP⟩ := hx (fits_of_bind hg hfit)
  rw [after_bind_ok hxs] at hfit
  obtain ⟨b, s'', hfs, hQ⟩ := hf a s' hP hfit
  exact ⟨b, s'', (bind_ok hxs f).trans hfs, hQ⟩

end Cells

end Action

end StateSpace
