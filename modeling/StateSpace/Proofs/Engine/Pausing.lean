import StateSpace.Engine.Choice
import StateSpace.Proofs.Engine.Graph

/-!
# Pauses

An engine counts how often reclamation was paused and not resumed. Only the two requests for that
change the count; enumerating states never does, whatever the network is and whether it faults or not.
-/

namespace StateSpace

open StateSpace.Action

/-- An engine that counts its pauses. -/
class PausingEngine (ε : Type) [Engine ε] where
  /-- How often reclamation was paused and not resumed. -/
  paused : ε → Nat
  pause : ∀ e : ε, paused (Engine.pause e) = paused e + 1
  resume : ∀ {e e' : ε}, Engine.resume e = .ok () e' → paused e = paused e' + 1
  initial : ∀ n, Keeps (fun e : ε => paused e = n) Engine.initial
  outgoing : ∀ (inUse : InUse) (s : EngineState) n,
    Keeps (fun e : ε => paused e = n) (Engine.outgoing inUse s)

/-! ## Graphs -/

namespace Graph

variable {k : Nat}

theorem keeps_paused_intern (c : Configuration) :
    Keeps (fun g : Graph => g.paused = k) (intern c) := by
  intro g hg
  obtain ⟨s, g', hrun, -, hkept⟩ := intern_spec c g
  rw [after_ok hrun]
  exact hkept.paused.trans hg

theorem keeps_paused_startObjects (n : Network) (vs : List (List Nat)) :
    Keeps (fun g : Graph => g.paused = k) (startObjects n vs) := by
  induction vs with
  | nil => exact keeps_pure _
  | cons v vs ih =>
    refine keeps_bind (keeps_ofExcept _) fun holds => ?_
    split
    · exact keeps_bind (keeps_paused_intern _) fun _ => keeps_bind ih fun _ => keeps_pure _
    · exact ih

theorem keeps_paused_fireAll (n : Network) (c : Configuration) (ess : List (List Network.Edge)) :
    Keeps (fun g : Graph => g.paused = k) (fireAll n c ess) := by
  induction ess with
  | nil => exact keeps_pure _
  | cons es ess ih =>
    refine keeps_bind (keeps_ofExcept _) fun r => ?_
    cases r with
    | none => exact ih
    | some target =>
      exact keeps_bind (keeps_paused_intern target) fun _ => keeps_bind ih fun _ => keeps_pure _

theorem keeps_paused_initial : Keeps (fun g : Graph => g.paused = k) initial := by
  unfold initial
  exact keeps_bind keeps_get fun g => keeps_paused_startObjects _ _

theorem keeps_paused_outgoing (inUse : InUse) (s : EngineState) :
    Keeps (fun g : Graph => g.paused = k) (outgoing inUse s) := by
  unfold outgoing
  refine keeps_bind (keeps_modify fun g hg => (kept_reclaimIfDue inUse g).paused.trans hg) fun _ => ?_
  refine keeps_bind keeps_get fun g => keeps_bind (keeps_ofExcept _) fun c => ?_
  exact keeps_bind (keeps_ofExcept _) fun ess => keeps_paused_fireAll _ _ _

/-- A pause that is taken back was there. -/
theorem paused_of_resume {g g' : Graph} (h : resume g = .ok () g') : g.paused = g'.paused + 1 := by
  unfold resume at h
  split at h
  · cases h
  · rename_i hpos
    cases h
    exact (Nat.succ_pred hpos).symm

instance : PausingEngine Graph where
  paused g := g.paused
  pause _ := rfl
  resume := paused_of_resume
  initial _ := keeps_paused_initial
  outgoing inUse s _ := keeps_paused_outgoing inUse s

end Graph

/-! ## Tabulated engines, and the choice of an engine -/

instance : PausingEngine Tabulated where
  paused t := t.paused
  pause _ := rfl
  resume {t t'} h := by
    change (if t.paused = 0 then _ else _) = _ at h
    split at h
    · cases h
    · rename_i hpos
      cases h
      exact (Nat.succ_pred hpos).symm
  initial _ := keeps_reading _
  outgoing _ _ _ := keeps_reading _

namespace EngineChoice

variable {α : Type} {x : Action Graph α} {y : Action Tabulated α} {a : α} {e : EngineChoice}

/-- How often the chosen engine was paused. -/
def paused : EngineChoice → Nat
  | graph g => g.paused
  | tabulated t => t.paused

theorem run_after_graph (g : Graph) : (run x y).after (graph g) = graph (x.after g) := by
  cases h : x g <;> simp only [after, outcome, run, h]

theorem run_after_tabulated (t : Tabulated) :
    (run x y).after (tabulated t) = tabulated (y.after t) := by
  cases h : y t <;> simp only [after, outcome, run, h]

theorem of_run_graph {g : Graph} (h : run x y (graph g) = .ok a e) :
    ∃ g', x g = .ok a g' ∧ e = graph g' := by
  unfold run at h
  cases hx : x g with
  | ok b g' =>
    simp only [hx] at h
    cases h
    exact ⟨g', rfl, rfl⟩
  | error f g' =>
    simp only [hx] at h
    cases h

theorem of_run_tabulated {t : Tabulated} (h : run x y (tabulated t) = .ok a e) :
    ∃ t', y t = .ok a t' ∧ e = tabulated t' := by
  unfold run at h
  cases hy : y t with
  | ok b t' =>
    simp only [hy] at h
    cases h
    exact ⟨t', rfl, rfl⟩
  | error f t' =>
    simp only [hy] at h
    cases h

/-- What keeps the count of either engine keeps that of the chosen one. -/
theorem keeps_paused_run {n : Nat} (hx : Keeps (fun g => g.paused = n) x)
    (hy : Keeps (fun t => t.paused = n) y) :
    Keeps (fun e : EngineChoice => e.paused = n) (run x y) := by
  rintro (g | t) he
  · rw [run_after_graph]
    exact hx g he
  · rw [run_after_tabulated]
    exact hy t he

instance : PausingEngine EngineChoice where
  paused := paused
  pause := by
    rintro (g | t)
    · rfl
    · rfl
  resume {e e'} h := by
    cases e with
    | graph g =>
      obtain ⟨g', hg, rfl⟩ := of_run_graph h
      exact PausingEngine.resume hg
    | tabulated t =>
      obtain ⟨t', ht, rfl⟩ := of_run_tabulated h
      exact PausingEngine.resume ht
  initial n := keeps_paused_run (PausingEngine.initial n) (PausingEngine.initial n)
  outgoing inUse s n := keeps_paused_run (PausingEngine.outgoing inUse s n)
    (PausingEngine.outgoing inUse s n)

end EngineChoice

end StateSpace
