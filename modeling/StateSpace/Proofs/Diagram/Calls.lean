import StateSpace.Diagram.Path
import StateSpace.Proofs.Diagram.Ite

/-!
# Sequences of calls

A client builds functions by calls on the edges that earlier calls returned. Whatever the calls were,
the next one ends, its result has the meaning of the call, and the edges from before keep their
values. Nothing here asks for variables to be in order: an unordered node is a decision all the same.
-/

namespace StateSpace.Manager

open StateSpace.Action

variable {ordered : Prop} {d d' d'' : Manager} {e r : Edge} {es es' : List Edge}

/-- A request to build a function. -/
inductive Call where
  | var (v : UInt32)
  | node (v : UInt32) (low high : Edge)
  | cube (lits : List Int32)
  | not (f : Edge)
  | ite (f g h : Edge)
  | and (f g : Edge)
  | andMany (fs : List Edge)

/-- Whether a signed literal is true. -/
def literalHolds (a : UInt32 → Bool) (lit : Int32) : Bool :=
  if lit < 0 then !a (literalVar lit) else a (literalVar lit)

namespace Call

variable {c : Call}

/-- The edges that the call refers to. -/
def operands : Call → List Edge
  | var _ => []
  | node _ low high => [low, high]
  | cube _ => []
  | not f => [f]
  | ite f g h => [f, g, h]
  | and f g => [f, g]
  | andMany fs => fs

/-- The call on a manager. -/
def run : Call → Action Manager Edge
  | var v => Manager.var v
  | node v low high => Manager.node v low high
  | cube lits => Manager.cube lits
  | not f => pure (-f)
  | ite f g h => Manager.ite f g h
  | and f g => Manager.and f g
  | andMany fs => Manager.andMany fs

/-- The call on a manager, where no if-then-else splits deeper than `fuel`. -/
def runWithin (fuel : Nat) : Call → Action Manager Edge
  | ite f g h => iteWithin fuel f g h
  | and f g => iteWithin fuel f g .zero
  | andMany fs => fs.foldlM (fun f g => iteWithin fuel f g .zero) .one
  | c => c.run

/-- A variable has a place in the order: above the terminal, and not 0. -/
def InOrder (v : UInt32) : Prop := 0 < v.toNat ∧ v.toNat < 2 ^ 32 - 1

instance (v : UInt32) : Decidable (InOrder v) := inferInstanceAs (Decidable (_ ∧ _))

/-- The variables of the call have places in the order. -/
def Admissible : Call → Prop
  | var v => InOrder v
  | node v _ _ => InOrder v
  | cube lits => ∀ lit ∈ lits, lit ≠ 0
  | _ => True

/-- The call leaves the order of the variables to the manager. -/
def KeepsOrder : Call → Prop
  | node _ _ _ => False
  | cube _ => False
  | _ => True

/-- The call has variables with places in the order, and leaves the order to the manager. -/
def Ordered (c : Call) : Prop := c.Admissible ∧ c.KeepsOrder

/-- The function that the call asks for, from those of its operands. -/
def meaning (a : UInt32 → Bool) (value : Edge → Bool) : Call → Bool
  | var v => a v
  | node v low high => if a v then value high else value low
  | cube lits => lits.all (literalHolds a)
  | not f => !value f
  | ite f g h => if value f then value g else value h
  | and f g => value f && value g
  | andMany fs => fs.all value

end Call

/-! ## Conjunctions from the left -/

/-- A fold whose steps are conjunctions is the conjunction of them all, and in order if every step
keeps the order. -/
theorem foldlM_spec {β : Type} {x : Edge → β → Action Manager Edge} {bs : List β}
    {m : (UInt32 → Bool) → β → Bool} (keeps : Prop) (hgrow : ∀ e b, Grows (x e b))
    (hd : Sound ordered d) (he : d.Stored e)
    (hx : ∀ d₁ e, ∀ b ∈ bs, Extends d d₁ → Sound ordered d₁ → d₁.Stored e →
      EnsuresFit (x e b) d₁ fun r d₂ => Grown ordered d₁ r d₂ ∧
        (∀ a, d₂.value a r = (d₁.value a e && m a b)) ∧
        (keeps → d₁.Ordered 0 e → d₂.Ordered 0 r)) :
    EnsuresFit (bs.foldlM x e) d fun r d' => Grown ordered d r d' ∧
      (∀ a, d'.value a r = (d.value a e && bs.all (m a))) ∧
      (keeps → d.Ordered 0 e → d'.Ordered 0 r) := by
  induction bs generalizing d e with
  | nil => exact EnsuresFit.pure ⟨.refl hd he, fun a => by simp, fun _ ho => ho⟩
  | cons b bs ih =>
    rw [List.foldlM_cons]
    refine (hx d e b List.mem_cons_self (.refl d) hd he).bind (grows_foldlM hgrow bs)
      fun e₁ d₁ ⟨hgrown₁, hval₁, hkeeps₁⟩ => ?_
    refine (ih hgrown₁.sound hgrown₁.stored fun d₂ e₂ b₂ hb₂ hx₂ =>
      hx d₂ e₂ b₂ (List.mem_cons_of_mem _ hb₂) (hgrown₁.extend.trans hx₂)).mono
        fun r d' ⟨hgrown, hval, hkeeps⟩ => ⟨hgrown.after hgrown₁.extend, fun a => ?_,
          fun hk ho => hkeeps hk (hkeeps₁ hk ho)⟩
    rw [hval, hval₁, List.all_cons, Bool.and_assoc]

theorem and_spec {f g : Edge} (hd : Sound ordered d) (hf : d.Stored f) (hg : d.Stored g) :
    EnsuresFit (and f g) d fun r d' => Grown ordered d r d' ∧
      (∀ a, d'.value a r = (d.value a f && d.value a g)) ∧
      ∀ v, d.Ordered v f → d.Ordered v g → d'.Ordered v r := by
  have h0 := hd.toShaped
  refine (ite_spec hd hf hg h0.stored_zero).mono fun r d' ⟨hgrown, hans⟩ => ⟨hgrown, fun a => ?_,
    fun v hof hog => hans.order v (hof.extends hgrown.extend) (hog.extends hgrown.extend)
      (ordered_zero d' v)⟩
  have h' := hgrown.sound.toShaped
  rw [hans.value, value_extends hf h0 h' hgrown.extend, value_extends hg h0 h' hgrown.extend]
  cases d.value a f <;> rfl

theorem andMany_spec {fs : List Edge} (hd : Sound ordered d) (hs : ∀ f ∈ fs, d.Stored f) :
    EnsuresFit (andMany fs) d fun r d' => Grown ordered d r d' ∧
      ∀ a, d'.value a r = fs.all (d.value a) := by
  have h0 := hd.toShaped
  refine (foldlM_spec (m := fun a f => d.value a f) False grows_and hd h0.stored_one
    fun d₁ e f hf hx hd₁ he => ?_).mono fun r d' ⟨hgrown, hval, _⟩ => ⟨hgrown, fun a => ?_⟩
  · refine (and_spec hd₁ he ((hs f hf).mono h0 hx)).mono fun r d₂ ⟨hgrown, hval, _⟩ =>
      ⟨hgrown, fun a => ?_, False.elim⟩
    rw [hval, value_extends (hs f hf) h0 hd₁.toShaped hx]
  · rw [hval, value_one, Bool.true_and]

/-! ## Conjunctions of literals -/

theorem toNat_literalVar (lit : Int32) : (literalVar lit).toNat = lit.toInt.natAbs := by
  have h₁ := Int32.le_toInt lit
  have h₂ := Int32.toInt_lt lit
  unfold literalVar
  rw [UInt32.toNat_ofNat_of_lt' (by show _ < 2 ^ 32; omega)]

theorem inOrder_literalVar {lit : Int32} (h : lit ≠ 0) : Call.InOrder (literalVar lit) := by
  have h₁ := Int32.le_toInt lit
  have h₂ := Int32.toInt_lt lit
  have h0 : lit.toInt ≠ 0 := fun h0 => h (Int32.toInt_inj.1 h0)
  unfold Call.InOrder
  rw [toNat_literalVar]
  omega

theorem addLiteral_spec {lit : Int32} (hno : ¬ordered) (hd : Sound ordered d) (he : d.Stored e)
    (h0 : lit ≠ 0) : EnsuresFit (addLiteral e lit) d fun r d' => Grown ordered d r d' ∧
      ∀ a, d'.value a r = (d.value a e && literalHolds a lit) := by
  have hv := inOrder_literalVar h0
  have hz := hd.stored_zero
  unfold addLiteral literalHolds
  by_cases hneg : lit < 0
  · rw [if_pos hneg]
    refine (node_spec hd hv.1 hv.2 he hz fun ho => absurd ho hno).mono
      fun r d' ⟨hgrown, hval, _⟩ =>
      ⟨hgrown, fun a => ?_⟩
    rw [hval, if_pos hneg]
    cases a (literalVar lit) <;> simp
  · rw [if_neg hneg]
    refine (node_spec hd hv.1 hv.2 hz he fun ho => absurd ho hno).mono
      fun r d' ⟨hgrown, hval, _⟩ =>
      ⟨hgrown, fun a => ?_⟩
    rw [hval, if_neg hneg]
    cases a (literalVar lit) <;> simp

@[simp] theorem grows_addLiteral (e : Edge) (lit : Int32) : Grows (addLiteral e lit) := by
  unfold addLiteral
  split
  · exact grows_node _ _ _
  · exact grows_node _ _ _

@[simp] theorem grows_cube (lits : List Int32) : Grows (cube lits) :=
  grows_foldlM grows_addLiteral _ _

/-- The order in which literals are added is no part of the function. -/
theorem cube_spec {lits : List Int32} (hno : ¬ordered) (hd : Sound ordered d)
    (h0 : ∀ lit ∈ lits, lit ≠ 0) : EnsuresFit (cube lits) d fun r d' => Grown ordered d r d' ∧
      ∀ a, d'.value a r = lits.all (literalHolds a) := by
  have hperm := List.mergeSort_perm lits fun a b => decide (literalVar b ≤ literalVar a)
  refine (foldlM_spec (m := literalHolds) False grows_addLiteral hd hd.stored_one
    fun d₁ e lit hlit _ hd₁ he => (addLiteral_spec hno hd₁ he (h0 lit (hperm.mem_iff.1 hlit))).mono
      fun r d₂ ⟨hgrown, hval⟩ => ⟨hgrown, hval, False.elim⟩).mono
        fun r d' ⟨hgrown, hval, _⟩ => ⟨hgrown, fun a => ?_⟩
  rw [hval, value_one, Bool.true_and]
  exact hperm.all_eq

/-! ## One call -/

namespace Call

variable {c : Call}

@[simp] theorem grows_run (c : Call) : Grows c.run := by
  cases c with
  | var v => exact grows_node v _ _
  | node v low high => exact grows_node v low high
  | cube lits => exact grows_cube lits
  | not f => exact grows_pure _
  | ite f g h => exact grows_ite f g h
  | and f g => exact grows_and f g
  | andMany fs => exact grows_andMany fs

theorem run_spec (hd : Sound ordered d) (hc : c.Admissible) (ho : ordered → c.KeepsOrder)
    (hs : ∀ e ∈ c.operands, d.Stored e) :
    EnsuresFit c.run d fun r d' => Grown ordered d r d' ∧
      ∀ a, d'.value a r = c.meaning a (d.value a) := by
  have h0 := hd.toShaped
  cases c with
  | var v =>
    exact (var_spec hd hc.1 hc.2).mono fun r d' ⟨hgrown, hval, _⟩ => ⟨hgrown, hval⟩
  | node v low high =>
    refine (node_spec hd hc.1 hc.2 (hs low (by simp [operands])) (hs high (by simp [operands]))
      fun h => (ho h).elim).mono fun r d' ⟨hgrown, hval, _⟩ => ⟨hgrown, hval⟩
  | cube lits => exact cube_spec (fun h => (ho h).elim) hd hc
  | not f =>
    have hf := hs f (by simp [operands])
    exact EnsuresFit.pure ⟨(Grown.refl hd hf).neg, fun a => value_neg h0 hf⟩
  | ite f g h =>
    have hf := hs f (by simp [operands])
    have hg := hs g (by simp [operands])
    have hh := hs h (by simp [operands])
    refine (ite_spec hd hf hg hh).mono fun r d' ⟨hgrown, hans⟩ => ⟨hgrown, fun a => ?_⟩
    have h' := hgrown.sound.toShaped
    have hx := hgrown.extend
    rw [hans.value, value_extends hf h0 h' hx, value_extends hg h0 h' hx,
      value_extends hh h0 h' hx]
    rfl
  | and f g =>
    exact (and_spec hd (hs f (by simp [operands])) (hs g (by simp [operands]))).mono
      fun r d' ⟨hgrown, hval, _⟩ => ⟨hgrown, hval⟩
  | andMany fs => exact andMany_spec hd hs

/-- With enough fuel a call does not depend on it. -/
theorem foldlM_and_eq {fs : List Edge} (hd : Sound ordered d) (he : d.Stored e)
    (hs : ∀ f ∈ fs, d.Stored f) (hfit : Fits ((fs.foldlM Manager.and e).after d)) :
    ∃ n, ∀ m, n ≤ m →
      fs.foldlM (fun f g => iteWithin m f g .zero) e d = fs.foldlM Manager.and e d := by
  induction fs generalizing d e with
  | nil => exact ⟨0, fun _ _ => rfl⟩
  | cons f fs ih =>
    have h0 := hd.toShaped
    have hf := hs f List.mem_cons_self
    rw [List.foldlM_cons] at hfit
    have hfit₁ := fits_of_bind (grows_foldlM grows_and fs) hfit
    obtain ⟨e₁, d₁, hrun, hgrown, -⟩ := and_spec hd he hf hfit₁
    rw [after_bind_ok hrun] at hfit
    obtain ⟨n, hn⟩ := ih hgrown.sound hgrown.stored
      (fun g hg => (hs g (List.mem_cons_of_mem _ hg)).mono h0 hgrown.extend) hfit
    refine ⟨max n (weight (e, f, Edge.zero) + 1), fun m hm => ?_⟩
    have hand : iteWithin m e f .zero d = Manager.and e f d :=
      iteWithin_eq_of_lt hd he hf h0.stored_zero (Nat.lt_succ_self _) (by omega) hfit₁
    rw [List.foldlM_cons, List.foldlM_cons, bind_ok hrun, bind_ok (hand.trans hrun)]
    exact hn m (by omega)

theorem runWithin_spec (hd : Sound ordered d) (hs : ∀ e ∈ c.operands, d.Stored e)
    (hfit : Fits (c.run.after d)) : ∃ n, ∀ m, n ≤ m → c.runWithin m d = c.run d := by
  have h0 := hd.toShaped
  cases c with
  | ite f g h =>
    refine ⟨weight (f, g, h) + 1, fun m hm => ?_⟩
    exact iteWithin_eq_of_lt hd (hs f (by simp [operands])) (hs g (by simp [operands]))
      (hs h (by simp [operands])) (Nat.lt_succ_self _) hm hfit
  | and f g =>
    refine ⟨weight (f, g, Edge.zero) + 1, fun m hm => ?_⟩
    exact iteWithin_eq_of_lt hd (hs f (by simp [operands])) (hs g (by simp [operands]))
      h0.stored_zero (Nat.lt_succ_self _) hm hfit
  | andMany fs => exact foldlM_and_eq hd h0.stored_one hs hfit
  | var v => exact ⟨0, fun _ _ => rfl⟩
  | node v low high => exact ⟨0, fun _ _ => rfl⟩
  | cube lits => exact ⟨0, fun _ _ => rfl⟩
  | not f => exact ⟨0, fun _ _ => rfl⟩

end Call

/-! ## Sequences of calls -/

/-- Allowed calls lead from `d` to another manager. The edges in hand are those of the list, and every
call adds the edge that it returns. The cells fit all along. -/
inductive Calls (allowed : Call → Prop) (d : Manager) (es : List Edge) :
    Manager → List Edge → Prop where
  | nil : Calls allowed d es d es
  | call {d' d'' : Manager} {es' : List Edge} {c : Call} {r : Edge} (h : Calls allowed d es d' es')
      (hc : allowed c) (ho : ∀ e ∈ c.operands, e ∈ es') (hrun : c.run d' = .ok r d'')
      (hfit : Fits d'') : Calls allowed d es d'' (r :: es')

/-- Allowed calls lead from a new manager, of any storage size, to `d` with the edges `es` in hand. -/
def Reached (allowed : Call → Prop) (d : Manager) (es : List Edge) : Prop :=
  ∃ bits d₀, create bits = .ok d₀ ∧ Calls allowed d₀ [.one, .zero] d es

variable {allowed : Call → Prop} {c : Call}

theorem Calls.grown (h : Calls allowed d es d' es') (hd : Sound ordered d)
    (hs : ∀ e ∈ es, d.Stored e) (hc : ∀ c, allowed c → c.Admissible)
    (ho : ordered → ∀ c, allowed c → c.KeepsOrder) :
    Sound ordered d' ∧ Extends d d' ∧ ∀ e ∈ es', d'.Stored e := by
  induction h with
  | nil => exact ⟨hd, .refl d, hs⟩
  | call h hallowed hop hrun hfit ih =>
    obtain ⟨hd', hx, hs'⟩ := ih
    obtain ⟨r', d₁, hrun', hgrown, -⟩ := Call.run_spec hd' (hc _ hallowed)
      (fun hord => ho hord _ hallowed) (fun e he => hs' e (hop e he)) (by rwa [after_ok hrun])
    rw [hrun] at hrun'
    cases hrun'
    refine ⟨hgrown.sound, hx.trans hgrown.extend, fun e he => ?_⟩
    rcases List.mem_cons.1 he with rfl | he
    · exact hgrown.stored
    · exact (hs' e he).mono hd'.toShaped hgrown.extend

theorem Reached.sound (h : Reached allowed d es) (hc : ∀ c, allowed c → c.Admissible)
    (ho : ordered → ∀ c, allowed c → c.KeepsOrder) :
    Sound ordered d ∧ ∀ e ∈ es, d.Stored e := by
  obtain ⟨bits, d₀, hcreate, hcalls⟩ := h
  have hd₀ : Sound ordered d₀ := create_sound hcreate
  have hs₀ : ∀ e ∈ [Edge.one, .zero], d₀.Stored e := by
    intro e he
    rcases List.mem_pair.1 he with rfl | rfl
    · exact hd₀.stored_one
    · exact hd₀.stored_zero
  obtain ⟨hd, -, hs⟩ := hcalls.grown hd₀ hs₀ hc ho
  exact ⟨hd, hs⟩

theorem Calls.mono {allowed' : Call → Prop} (h : Calls allowed d es d' es')
    (hc : ∀ c, allowed c → allowed' c) : Calls allowed' d es d' es' := by
  induction h with
  | nil => exact .nil
  | call _ hallowed ho hrun hfit ih => exact .call ih (hc _ hallowed) ho hrun hfit

theorem Reached.mono {allowed' : Call → Prop} (h : Reached allowed d es)
    (hc : ∀ c, allowed c → allowed' c) : Reached allowed' d es := by
  obtain ⟨bits, d₀, hcreate, hcalls⟩ := h
  exact ⟨bits, d₀, hcreate, hcalls.mono hc⟩

/-- An allowed call with edges in hand gets one more, with the meaning of the call. The functions of the
others stay. -/
theorem Reached.run_spec (h : Reached allowed d es) (hadm : ∀ c, allowed c → c.Admissible)
    (hc : allowed c) (ho : ∀ e ∈ c.operands, e ∈ es) :
    EnsuresFit c.run d fun r d' => Reached allowed d' (r :: es) ∧
      (∀ a, d'.value a r = c.meaning a (d.value a)) ∧ ∀ a, ∀ e ∈ es, d'.value a e = d.value a e := by
  intro hfit
  obtain ⟨hd, hs⟩ : Sound False d ∧ ∀ e ∈ es, d.Stored e := h.sound hadm False.elim
  obtain ⟨r, d', hrun, hgrown, hval⟩ :=
    Call.run_spec hd (hadm c hc) False.elim (fun e he => hs e (ho e he)) hfit
  obtain ⟨bits, d₀, hcreate, hcalls⟩ := h
  exact ⟨r, d', hrun, ⟨bits, d₀, hcreate, .call hcalls hc ho hrun (by rwa [← after_ok hrun])⟩, hval,
    fun a e he => value_extends (hs e he) hd.toShaped hgrown.sound.toShaped hgrown.extend⟩

/-- A single variable can be made first. -/
theorem reached_var {v : UInt32} (hv : Call.InOrder v) : ∃ d x,
    Reached (· = .var v) d [x, .one, .zero] ∧ d.nodes.cells.size ≤ 3 ∧
      ∀ a, d.eval a x = .ok (a v) := by
  obtain ⟨d₀, hcreate⟩ : ∃ d₀, create 4 = .ok d₀ := ⟨_, rfl⟩
  have hd₀ : Sound False d₀ := create_sound hcreate
  have hsize : d₀.nodes.cells.size = 2 := by
    cases hcreate
    rfl
  have hle := size_node_le hd₀.toShaped v .zero .one
  have hfit : Fits ((var v).after d₀) := by
    show ((node v .zero .one).after d₀).nodes.cells.size - 1 < 2 ^ 31
    omega
  obtain ⟨x, d, hrun, hgrown, hx, -⟩ := var_spec hd₀ hv.1 hv.2 hfit
  have hd := hgrown.sound.toShaped
  refine ⟨d, x, ⟨4, d₀, hcreate, .call .nil (c := .var v) rfl (by simp [Call.operands]) hrun
    (after_ok hrun ▸ hfit)⟩, ?_, fun a => ?_⟩
  · rw [show node v .zero .one = var v from rfl, after_ok hrun, hsize] at hle
    exact hle
  · rw [eval_eq hd a hgrown.stored, hx]

/-- After any sequence of calls, the next call ends with an edge that has the meaning of the call,
whatever the cache has kept; no limit on the depth of the recursion cuts it short. Edges in hand have
values, and all later calls preserve them. -/
theorem call_correct (hr : Reached Call.Admissible d es) (hc : c.Admissible)
    (ho : ∀ e ∈ c.operands, e ∈ es) (hfit : Fits (c.run.after d)) :
    ∃ r d', c.run d = .ok r d' ∧
      (∃ n, ∀ m, n ≤ m → c.runWithin m d = .ok r d') ∧
      (∀ a, ∃ value : Edge → Bool, (∀ e ∈ es, d.eval a e = .ok (value e)) ∧
        d'.eval a r = .ok (c.meaning a value)) ∧
      (∀ a, ∀ e ∈ r :: es, ∀ m, e.index < m → d'.evalWithin a m e = d'.eval a e) ∧
      ∀ d'' es'', Calls Call.Admissible d' (r :: es) d'' es'' → ∀ a,
        (∀ e ∈ es, d''.eval a e = d.eval a e) ∧ d''.eval a r = d'.eval a r := by
  obtain ⟨hd, hs⟩ : Sound False d ∧ ∀ e ∈ es, d.Stored e := hr.sound (fun _ => id) False.elim
  have hs' := fun e he => hs e (ho e he)
  obtain ⟨r, d', hrun, hgrown, hval⟩ := Call.run_spec hd hc False.elim hs' hfit
  have h0 := hd.toShaped
  have h' := hgrown.sound.toShaped
  have hstored : ∀ e ∈ r :: es, d'.Stored e := by
    intro e he
    rcases List.mem_cons.1 he with rfl | he
    · exact hgrown.stored
    · exact (hs e he).mono h0 hgrown.extend
  refine ⟨r, d', hrun, ?_, fun a => ⟨d.value a, fun e he => eval_eq h0 a (hs e he), ?_⟩,
    fun a e he m hm => ?_, fun d'' es'' hcalls a => ?_⟩
  · rw [← hrun]
    exact Call.runWithin_spec hd hs' hfit
  · rw [eval_eq h' a hgrown.stored, hval]
  · rw [evalWithin_eq h' a (hstored e he) hm, eval_eq h' a (hstored e he)]
  · obtain ⟨hd'', hx, hs''⟩ := hcalls.grown hgrown.sound hstored (fun _ => id) False.elim
    have h'' := hd''.toShaped
    refine ⟨fun e he => ?_, ?_⟩
    · have hx' := hgrown.extend.trans hx
      rw [eval_eq h'' a ((hs e he).mono h0 hx'), eval_eq h0 a (hs e he),
        value_extends (hs e he) h0 h'' hx']
    · rw [eval_eq h'' a (hgrown.stored.mono h' hx), eval_eq h' a hgrown.stored,
        value_extends hgrown.stored h' h'' hx]

/-- A node on variable 3 above one on variable 1, against the order, is the conjunction of both. -/
theorem call_correct_unordered : ∃ d x, Reached Call.Admissible d [x, .one, .zero] ∧
    Fits ((Call.node 3 .zero x).run.after d) ∧
    ∃ r d', (Call.node 3 .zero x).run d = .ok r d' ∧
      ∀ a, d'.eval a r = .ok (a 3 && a 1) := by
  obtain ⟨d, x, hreached, hsize, hx⟩ := reached_var (v := 1) (by decide)
  have hadm : Reached Call.Admissible d [x, .one, .zero] := hreached.mono (by
    rintro c rfl
    exact show Call.InOrder 1 by decide)
  have hd : Sound False d := (hadm.sound (fun _ => id) False.elim).1
  have hle := size_node_le hd.toShaped 3 .zero x
  have hfit : Fits ((Call.node 3 .zero x).run.after d) := by
    show ((node 3 .zero x).after d).nodes.cells.size - 1 < 2 ^ 31
    omega
  obtain ⟨r, d', hr, -, hval, -⟩ :=
    call_correct hadm (c := .node 3 .zero x) (show Call.InOrder 3 by decide)
      (by simp [Call.operands]) hfit
  refine ⟨d, x, hadm, hfit, r, d', hr, fun a => ?_⟩
  obtain ⟨value, hes, hra⟩ := hval a
  have hzero := hes .zero (by simp)
  rw [eval_eq hd.toShaped a hd.stored_zero, Except.ok.injEq, value_zero] at hzero
  have hone := hes x (by simp)
  rw [hx, Except.ok.injEq] at hone
  rw [hra, Call.meaning, ← hzero, ← hone]
  cases a 3 <;> rfl

end StateSpace.Manager
