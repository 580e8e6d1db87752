import Mathlib
import StateSpace.Proofs.Diagram.Canonical

/-!
# Reduced managers

Where calls leave the order of the variables to the manager, every stored node decides between two
different branches below it, and no node is stored twice. Every function has one edge then
(`canonical`).
-/

namespace StateSpace.Manager

open StateSpace.Action

variable {d : Manager} {es : List Edge} {i : Nat} {n : Node}

/-- The node decides between two different branches, of which the high one is plain, and both are
below its variable. -/
structure NodeReduced (d : Manager) (n : Node) : Prop where
  plain : n.high.isComplemented = false
  different : n.low ≠ n.high
  below_low : ∃ l, d.level n.low = .ok l ∧ n.var < l
  below_high : ∃ l, d.level n.high = .ok l ∧ n.var < l

theorem Sound.nodeReduced (hd : Sound True d) (hi : i ≠ 1) (hn : d.nodes.value? i = some n) :
    NodeReduced d n := by
  have hpos := Table.pos_of_value? hn
  have hs := hd.node i n (by omega) hn
  have hlt := Table.lt_size_of_value? hn
  obtain ⟨l, hl, hlr⟩ := level_eq hd.toShaped (hs.stored_child hlt false)
  obtain ⟨h, hh, hhr⟩ := level_eq hd.toShaped (hs.stored_child hlt true)
  have hinc := hs.increasing trivial
  refine ⟨hs.plain, hs.reduced, ⟨l, hl, ?_⟩, ⟨h, hh, ?_⟩⟩
  · rw [UInt32.lt_iff_toNat_lt, hlr]
    exact hinc.1
  · rw [UInt32.lt_iff_toNat_lt, hhr]
    exact hinc.2

/-- Calls that leave the order to the manager return equal edges for equal functions, and the stored
nodes are reduced, ordered and all different. -/
theorem canonical (h : Reached Call.Ordered d es) :
    (∀ f ∈ es, ∀ g ∈ es, (∀ a, ∃ b, d.eval a f = .ok b) ∧
      (f = g ↔ ∀ a, d.eval a f = d.eval a g) ∧ (f = .zero ↔ ∀ a, d.eval a f = .ok false)) ∧
    (∀ i n, d.nodes.get i = .ok n → i ≠ 1 → NodeReduced d n) ∧
    ∀ i j n, d.nodes.get i = .ok n → d.nodes.get j = .ok n → i = j := by
  obtain ⟨hd, hs⟩ : Sound True d ∧ ∀ e ∈ es, d.Stored e :=
    h.sound (fun _ hc => hc.1) fun _ _ hc => hc.2
  have h0 := hd.toShaped
  refine ⟨fun f hf g hg => ⟨fun a => ⟨_, eval_eq h0 a (hs f hf)⟩, ?_, ?_⟩, ?_, ?_⟩
  · refine ⟨fun hfg a => by rw [hfg], fun heval => ?_⟩
    refine eq_of_value_eq h0 (hs f hf) (hs g hg) fun a => ?_
    have := heval a
    rwa [eval_eq h0 a (hs f hf), eval_eq h0 a (hs g hg), Except.ok.injEq] at this
  · refine ⟨?_, fun heval => ?_⟩
    · rintro rfl a
      rw [eval_eq h0 a h0.stored_zero, value_zero]
    · refine eq_of_value_eq h0 (hs f hf) h0.stored_zero fun a => ?_
      have := heval a
      rwa [eval_eq h0 a (hs f hf), Except.ok.injEq] at this
  · exact fun i n hn hi => hd.nodeReduced hi (Table.get_eq_ok_iff.1 hn)
  · exact fun i j n hi hj => h0.index_unique (Table.get_eq_ok_iff.1 hi) (Table.get_eq_ok_iff.1 hj)

/-- The conjunction of two variables, the same function by another if-then-else, and one that no
assignment satisfies. -/
def conjunctions : Action Manager (Edge × Edge × Edge) := do
  let x ← (Call.var 1).run
  let y ← (Call.var 2).run
  let f ← (Call.and x y).run
  let g ← (Call.ite y x y).run
  let z ← (Call.ite x .zero f).run
  pure (f, g, z)

theorem conjunctions_spec (hr : Reached Call.Ordered d [.one, .zero]) :
    EnsuresFit conjunctions d fun (f, g, z) d' => ∃ es, Reached Call.Ordered d' es ∧
      (f ∈ es ∧ g ∈ es ∧ z ∈ es) ∧ ∀ a, d'.value a f = (a 1 && a 2) ∧
        d'.value a g = (a 1 && a 2) ∧ d'.value a z = false := by
  have hadm : ∀ c : Call, c.Ordered → c.Admissible := fun _ hc => hc.1
  have hv : ∀ v, Call.InOrder v → (Call.var v).Ordered := fun _ h => ⟨h, trivial⟩
  refine (hr.run_spec hadm (hv 1 (by decide)) (by simp [Call.operands])).bind
    (fun _ => ?_) fun x d₁ hd₁ => ?_
  · repeat refine grows_bind (Call.grows_run _) fun _ => ?_
    exact grows_pure _
  obtain ⟨h₁, hx, -⟩ := hd₁
  refine (h₁.run_spec hadm (hv 2 (by decide)) (by simp [Call.operands])).bind
    (fun _ => ?_) fun y d₂ hd₂ => ?_
  · repeat refine grows_bind (Call.grows_run _) fun _ => ?_
    exact grows_pure _
  obtain ⟨h₂, hy, hk₂⟩ := hd₂
  refine (h₂.run_spec hadm (c := .and x y) ⟨trivial, trivial⟩ (by simp [Call.operands])).bind
    (fun _ => ?_) fun f d₃ hd₃ => ?_
  · repeat refine grows_bind (Call.grows_run _) fun _ => ?_
    exact grows_pure _
  obtain ⟨h₃, hf, hk₃⟩ := hd₃
  refine (h₃.run_spec hadm (c := .ite y x y) ⟨trivial, trivial⟩ (by simp [Call.operands])).bind
    (fun _ => grows_bind (Call.grows_run _) fun _ => grows_pure _) fun g d₄ hd₄ => ?_
  obtain ⟨h₄, hg, hk₄⟩ := hd₄
  refine (h₄.run_spec hadm (c := .ite x .zero f) ⟨trivial, trivial⟩ (by simp [Call.operands])).bind
    (fun _ => grows_pure _) fun z d₅ hd₅ => ?_
  obtain ⟨h₅, hz, hk₅⟩ := hd₅
  refine EnsuresFit.pure ⟨_, h₅, ⟨by simp, by simp, by simp⟩, fun a => ?_⟩
  have hx₂ : d₂.value a x = a 1 := (hk₂ a x (by simp)).trans (hx a)
  have hy₂ : d₂.value a y = a 2 := hy a
  have hf₃ : d₃.value a f = (a 1 && a 2) := by rw [hf, Call.meaning, hx₂, hy₂]
  have hg₄ : d₄.value a g = (a 1 && a 2) := by
    rw [hg, Call.meaning, hk₃ a x (by simp), hk₃ a y (by simp), hx₂, hy₂]
    cases a 2 <;> simp
  have hf₄ := (hk₄ a f (by simp)).trans hf₃
  refine ⟨(hk₅ a f (by simp)).trans hf₄, (hk₅ a g (by simp)).trans hg₄, ?_⟩
  rw [hz, Call.meaning, hf₄, hk₄ a x (by simp), hk₃ a x (by simp), hx₂, value_zero]
  cases a 1 <;> rfl

/-- Two diagrams of the conjunction of two variables are one edge, and a contradiction is the constant
false. -/
theorem canonical_conjunctions : ∃ d d' f g z es, create 4 = .ok d ∧ conjunctions d = .ok (f, g, z) d' ∧
    Reached Call.Ordered d' es ∧ f = g ∧ z = .zero ∧ ∀ a, d'.eval a f = .ok (a 1 && a 2) := by
  obtain ⟨d, hcreate, hfit⟩ := exists_ok_of_any (x := create 4)
    (p := fun d => decide (Fits (conjunctions.after d))) (by cbv)
  obtain ⟨⟨f, g, z⟩, d', hrun, es, hreached, ⟨hf, hg, hz⟩, hval⟩ :=
    conjunctions_spec ⟨4, d, hcreate, .nil⟩ (of_decide_eq_true hfit)
  obtain ⟨hd, hs⟩ : Sound True d' ∧ ∀ e ∈ es, d'.Stored e :=
    hreached.sound (fun _ hc => hc.1) fun _ _ hc => hc.2
  have heval := fun a e he => eval_eq hd.toShaped a (hs e he)
  obtain ⟨hcanonical, -⟩ := canonical hreached
  refine ⟨d, d', f, g, z, es, hcreate, hrun, hreached, (hcanonical f hf g hg).2.1.2 fun a => ?_,
    (hcanonical z hz z hz).2.2.2 fun a => ?_, fun a => ?_⟩
  · rw [heval a f hf, heval a g hg, (hval a).1, (hval a).2.1]
  · rw [heval a z hz, (hval a).2.2]
  · rw [heval a f hf, (hval a).1]

end StateSpace.Manager
