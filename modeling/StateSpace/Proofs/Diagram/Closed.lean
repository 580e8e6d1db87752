import Mathlib
import StateSpace.Proofs.Diagram.Calls

/-!
# Closed managers

Cell 0 holds no node, and the children of the terminal mean nothing. In a closed manager no edge leads to
cell 0; then calls do not fault, and walks come to an end. The terminal's place in the order is
2 ^ 32 - 1, so a split at a variable with that number would go on with the children of the terminal.

1. As long as variables have places above the terminal, no split reads the terminal: one that must not do
   so splits the same way (`iteStrict_eq`, `Call.runStrict_eq`).
2. With the variable 2 ^ 32 - 1 it happens: the conjunction of this variable with itself has a child that
   leads to cell 0 (`exists_and_last`).

So the variables above the terminal are those for which every manager is closed (`closed_iff`).
-/

namespace StateSpace.Manager

open StateSpace.Action

variable {ordered : Prop} {d d' : Manager} {e f g h : Edge} {es : List Edge} {k : Edge × Edge × Edge}
  {s : UInt32 × (Edge × Edge × Edge) × (Edge × Edge × Edge)} {fuel : Nat} {V : UInt32 → Prop}

/-! ## Edges that lead somewhere -/

/-- The edge leads to the terminal or to the cell of a node. -/
def Designates (d : Manager) (e : Edge) : Prop := ∃ n, d.nodes.get e.index = .ok n

/-- The edges in hand lead somewhere, and so do the children of all nodes but the terminal. -/
structure Closed (d : Manager) (es : List Edge) : Prop where
  edges : ∀ e ∈ es, d.Designates e
  children : ∀ i n, i ≠ 1 → d.nodes.get i = .ok n → d.Designates n.low ∧ d.Designates n.high

theorem Shaped.designates (hd : Shaped ordered d) (he : d.Stored e) : d.Designates e := by
  obtain ⟨n, hn⟩ := hd.wellFormed.full hd.free he.1 he.2
  exact ⟨n, Table.get_of_value? hn⟩

theorem Shaped.closed (hd : Shaped ordered d) (hs : ∀ e ∈ es, d.Stored e) : Closed d es where
  edges e he := hd.designates (hs e he)
  children i n hi hn := by
    have hn := Table.get_eq_ok_iff.1 hn
    have hpos := Table.pos_of_value? hn
    have hlt := Table.lt_size_of_value? hn
    have hshaped := hd.node i n (by omega) hn
    exact ⟨hd.designates (hshaped.stored_child hlt false), hd.designates (hshaped.stored_child hlt true)⟩

/-! ## Splits that do not read the terminal -/

/-- Both restrictions of an edge, except of the terminal by the variable in its place. -/
def cofactorsStrict (d : Manager) (e : Edge) (v : UInt32) : Except Fault (Edge × Edge) :=
  if e.isTerminal ∧ v = 0xFFFFFFFF then .error (.vacant e.index) else d.cofactors e v

/-- The two halves of a call, without the children of the terminal. -/
def splitStrict (d : Manager) (f g h : Edge) :
    Except Fault (UInt32 × (Edge × Edge × Edge) × (Edge × Edge × Edge)) := do
  let v ← d.topVariable f g h
  let (f₀, f₁) ← d.cofactorsStrict f v
  let (g₀, g₁) ← d.cofactorsStrict g v
  let (h₀, h₁) ← d.cofactorsStrict h v
  .ok (v, (f₀, g₀, h₀), (f₁, g₁, h₁))

/-- The answer from the cache, else from the two halves. -/
def iteSolveStrict (solve : Edge → Edge → Edge → Action Manager Edge) (k : Edge × Edge × Edge) :
    Action Manager Edge := do
  match ← lookUp k with
  | some r => pure r
  | none => do
    let s ← reading (·.splitStrict k.1 k.2.1 k.2.2)
    iteHalves solve k s

/-- If-then-else along at most `fuel` splits that do not read the children of the terminal. -/
def iteStrict : Nat → Edge → Edge → Edge → Action Manager Edge
  | 0, _, g, _ => pure g
  | fuel + 1, f, g, h =>
    match iteTerminal f g h with
    | some r => pure r
    | none => do
      let r ← iteSolveStrict (iteStrict fuel) (iteNormal f g h).1
      pure (if (iteNormal f g h).2 then -r else r)

/-- Conjunction without the children of the terminal. -/
def andStrict (f g : Edge) : Action Manager Edge := iteStrict (f.index + g.index + 1 + 1) f g .zero

theorem splitStrict_eq (hs : Split d k s) (hsplit : d.split k.1 k.2.1 k.2.2 = .ok s) :
    d.splitStrict k.1 k.2.1 k.2.2 = .ok s := by
  obtain ⟨v, htop, hrest⟩ := except_bind_eq_ok.1 hsplit
  have hv : s.1 = v := by
    obtain ⟨_, -, hrest⟩ := except_bind_eq_ok.1 hrest
    obtain ⟨_, -, hrest⟩ := except_bind_eq_ok.1 hrest
    obtain ⟨_, -, hrest⟩ := except_bind_eq_ok.1 hrest
    cases hrest
    rfl
  have hstrict : ∀ e, d.cofactorsStrict e v = d.cofactors e v := by
    intro e
    refine if_neg fun hlast => ?_
    have hlt := hs.var_lt
    rw [hv, hlast.2] at hlt
    exact absurd hlt (by decide)
  refine except_bind_eq_ok.2 ⟨v, htop, ?_⟩
  simp only [hstrict]
  exact hrest

/-- In a sound manager if-then-else never reads the children of the terminal. -/
theorem iteStrict_eq (hd : Sound ordered d) (hf : d.Stored f) (hg : d.Stored g) (hh : d.Stored h)
    (hlt : weight (f, g, h) < fuel) (hfit : Fits ((iteWithin fuel f g h).after d)) :
    iteStrict fuel f g h d = iteWithin fuel f g h d := by
  induction fuel generalizing d f g h with
  | zero => rfl
  | succ fuel ih =>
    rw [iteWithin_succ] at hfit ⊢
    unfold iteStrict
    cases ht : iteTerminal f g h with
    | some r => rfl
    | none =>
      rw [ht] at hfit
      dsimp only at hfit ⊢
      have hnorm := iteNormal_spec hf hg hh hd.toShaped
      have hlighter : weight (iteNormal f g h).1 ≤ fuel := by
        rw [hnorm.weight]
        exact Nat.le_of_lt_succ hlt
      have h1 : (iteNormal f g h).1.1.index ≠ 1 := by
        rw [hnorm.condition]
        exact index_ne_one_of_iteTerminal ht
      refine bind_congr_apply (iteSolve_congr splitStrict_eq (fun d f g h hd hf hg hh hlt => ?_)
        (grows_iteWithin fuel) (fun hd hf hg hh hlt hfit => ?_) hd hnorm.stored.1 hnorm.stored.2.1
        hnorm.stored.2.2 h1 (fits_of_bind (fun _ => grows_pure _) hfit))
      · exact iteWithin_solves ordered fuel d f g h hd hf hg hh (Nat.lt_of_lt_of_le hlt hlighter)
      · exact ih hd hf hg hh (Nat.lt_of_lt_of_le hlt hlighter) hfit

theorem andStrict_eq (hd : Sound ordered d) (hf : d.Stored f) (hg : d.Stored g)
    (hfit : Fits ((Manager.and f g).after d)) : andStrict f g d = Manager.and f g d :=
  iteStrict_eq hd hf hg hd.stored_zero (Nat.lt_succ_self _) hfit

theorem foldlM_andStrict_eq {fs : List Edge} (hd : Sound ordered d) (he : d.Stored e)
    (hs : ∀ f ∈ fs, d.Stored f) (hfit : Fits ((fs.foldlM Manager.and e).after d)) :
    fs.foldlM andStrict e d = fs.foldlM Manager.and e d := by
  induction fs generalizing d e with
  | nil => rfl
  | cons f fs ih =>
    rw [List.foldlM_cons] at hfit
    have hf := hs f List.mem_cons_self
    have hfit₁ := fits_of_bind (grows_foldlM grows_and fs) hfit
    obtain ⟨e₁, d₁, hrun, hgrown, -⟩ := and_spec hd he hf hfit₁
    rw [after_bind_ok hrun] at hfit
    rw [List.foldlM_cons, List.foldlM_cons, bind_ok hrun,
      bind_ok ((andStrict_eq hd he hf hfit₁).trans hrun)]
    exact ih hgrown.sound hgrown.stored
      (fun g hg => (hs g (List.mem_cons_of_mem _ hg)).mono hd.toShaped hgrown.extend) hfit

/-! ## Calls over a set of variables -/

namespace Call

variable {c : Call}

/-- The call leaves the order to the manager, and its variable is one of `V`. -/
def Over (V : UInt32 → Prop) : Call → Prop
  | var v => V v
  | node _ _ _ => False
  | cube _ => False
  | _ => True

/-- The call on a manager, without the children of the terminal. -/
def runStrict : Call → Action Manager Edge
  | ite f g h => iteStrict (f.index + g.index + h.index + 1) f g h
  | and f g => andStrict f g
  | andMany fs => fs.foldlM andStrict .one
  | c => c.run

theorem Over.admissible (hc : Over V c) (hV : ∀ v, V v → InOrder v) : c.Admissible := by
  cases c with
  | var v => exact hV v hc
  | node v low high => exact hc.elim
  | cube lits => exact hc.elim
  | not f => trivial
  | ite f g h => trivial
  | and f g => trivial
  | andMany fs => trivial

theorem runStrict_eq (hd : Sound ordered d) (hs : ∀ e ∈ c.operands, d.Stored e)
    (hfit : Fits (c.run.after d)) : c.runStrict d = c.run d := by
  cases c with
  | ite f g h =>
    exact iteStrict_eq hd (hs f (by simp [operands])) (hs g (by simp [operands]))
      (hs h (by simp [operands])) (Nat.lt_succ_self _) hfit
  | and f g => exact andStrict_eq hd (hs f (by simp [operands])) (hs g (by simp [operands])) hfit
  | andMany fs => exact foldlM_andStrict_eq hd hd.stored_one hs hfit
  | var v => rfl
  | node v low high => rfl
  | cube lits => rfl
  | not f => rfl

end Call

/-! ## The variable in the place of the terminal -/

/-- The last variable in conjunction with itself: its node has a child that leads to cell 0, and a walk
that comes there ends with a fault. -/
theorem exists_and_last : ∃ d₀ x d₁ y d₂ n, create 4 = .ok d₀ ∧ var 0xFFFFFFFF d₀ = .ok x d₁ ∧
    Fits d₁ ∧ and x x d₁ = .ok y d₂ ∧ Fits d₂ ∧ y.index ≠ 1 ∧ d₂.nodes.get y.index = .ok n ∧
    n.low.index = 0 ∧ d₂.eval (fun _ => false) y = .error .zeroIndex := by
  obtain ⟨d₀, hcreate, hrun⟩ := exists_ok_of_any (x := create 4)
    (p := fun d => match var 0xFFFFFFFF d with
      | .ok x d₁ => decide (Fits d₁) && match and x x d₁ with
        | .ok y d₂ => decide (Fits d₂) && match d₂.nodes.get y.index with
          | .ok n => decide (y.index ≠ 1 ∧ n.low.index = 0 ∧
              d₂.eval (fun _ => false) y = .error .zeroIndex)
          | .error _ => false
        | .error _ _ => false
      | .error _ _ => false) (by cbv)
  cases hx : var 0xFFFFFFFF d₀ with
  | error e d₁ =>
    rw [hx] at hrun
    cases hrun
  | ok x d₁ =>
    rw [hx] at hrun
    obtain ⟨hfit₁, hrun⟩ := Bool.and_eq_true_iff.1 hrun
    cases hy : and x x d₁ with
    | error e d₂ =>
      rw [hy] at hrun
      cases hrun
    | ok y d₂ =>
      rw [hy] at hrun
      obtain ⟨hfit₂, hrun⟩ := Bool.and_eq_true_iff.1 hrun
      cases hn : d₂.nodes.get y.index with
      | error e =>
        rw [hn] at hrun
        cases hrun
      | ok n =>
        rw [hn] at hrun
        obtain ⟨h1, hlow, heval⟩ := of_decide_eq_true hrun
        exact ⟨d₀, x, d₁, y, d₂, n, hcreate, hx, of_decide_eq_true hfit₁, hy,
          of_decide_eq_true hfit₂, h1, hn, hlow, heval⟩

/-- No edge to cell 0 leads somewhere. -/
theorem not_designates (h0 : e.index = 0) : ¬d.Designates e := by
  rintro ⟨n, hn⟩
  rw [h0] at hn
  cases hn

/-- Calls that leave the order to the manager keep it closed, return an edge without reading the children of
the terminal, and return edges with values, if and only if all variables are above the terminal. Other
variables are 0, for which a call faults, and 2 ^ 32 - 1. -/
theorem closed_iff : (∀ d es, Reached (Call.Over V) d es → Closed d es ∧
      (∀ e ∈ es, ∀ a, ∃ b, d.eval a e = .ok b) ∧
      ∀ c, Call.Over V c → (∀ e ∈ c.operands, e ∈ es) → Fits (c.run.after d) →
        ∃ r d', c.run d = .ok r d' ∧ c.runStrict d = .ok r d') ↔
    ∀ v, V v → Call.InOrder v := by
  constructor
  · intro hall v hv
    by_contra hout
    obtain rfl | rfl : v = 0 ∨ v = 0xFFFFFFFF := by
      have hlt := v.toNat_lt
      rw [← UInt32.toNat_inj, ← UInt32.toNat_inj]
      unfold Call.InOrder at hout
      show v.toNat = 0 ∨ v.toNat = 2 ^ 32 - 1
      omega
    · obtain ⟨d, hcreate⟩ : ∃ d, create 4 = .ok d := ⟨_, rfl⟩
      have hfit : Fits d := by
        cases hcreate
        decide
      obtain ⟨-, -, hcalls⟩ := hall d _ ⟨4, d, hcreate, .nil⟩
      obtain ⟨r, d', hrun, -⟩ := hcalls (.var 0) hv (by simp [Call.operands]) hfit
      cases hrun
    · obtain ⟨d₀, x, d₁, y, d₂, n, hcreate, hx, hfit₁, hy, hfit₂, h1, hn, hlow, -⟩ := exists_and_last
      have hvar : Calls (Call.Over V) d₀ [.one, .zero] d₁ [x, .one, .zero] :=
        .call .nil (c := .var 0xFFFFFFFF) hv (by simp [Call.operands]) hx hfit₁
      have hand : Calls (Call.Over V) d₀ [.one, .zero] d₂ [y, x, .one, .zero] :=
        .call hvar (c := .and x x) trivial (by simp [Call.operands]) hy hfit₂
      obtain ⟨hclosed, -⟩ := hall d₂ _ ⟨4, d₀, hcreate, hand⟩
      exact not_designates hlow (hclosed.children _ n h1 hn).1
  · intro hV d es hreached
    obtain ⟨hd, hs⟩ : Sound False d ∧ ∀ e ∈ es, d.Stored e :=
      hreached.sound (fun c hc => hc.admissible hV) False.elim
    have h0 := hd.toShaped
    refine ⟨h0.closed hs, fun e he a => ⟨_, eval_eq h0 a (hs e he)⟩, fun c hc ho hfit => ?_⟩
    have hs' := fun e he => hs e (ho e he)
    obtain ⟨r, d', hrun, -⟩ := Call.run_spec hd (hc.admissible hV) False.elim hs' hfit
    exact ⟨r, d', hrun, (Call.runStrict_eq hd hs' hfit).trans hrun⟩

/-- The conjunction of the last variable with itself is no longer closed, and has no value. -/
theorem last_variable_not_closed : ∃ d₀ x d₁ y d₂, create 4 = .ok d₀ ∧
    var 0xFFFFFFFF d₀ = .ok x d₁ ∧ and x x d₁ = .ok y d₂ ∧ ¬Closed d₂ [y, x] ∧
    d₂.eval (fun _ => false) y = .error .zeroIndex := by
  obtain ⟨d₀, x, d₁, y, d₂, n, hcreate, hx, -, hy, -, h1, hn, hlow, heval⟩ := exists_and_last
  exact ⟨d₀, x, d₁, y, d₂, hcreate, hx, hy,
    fun hclosed => not_designates hlow (hclosed.children _ n h1 hn).1, heval⟩

end StateSpace.Manager
