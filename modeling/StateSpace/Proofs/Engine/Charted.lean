import StateSpace.Proofs.Engine.Pausing
import StateSpace.Proofs.Pool

/-!
# Charts of engines

A chart says all that an engine answers: what its states are, how they are shown, where it starts and
where each state leads. An engine is charted if its answers are those of the chart at any time, whatever
it was asked before. The graph of a valid network is charted by the steps between configurations.
-/

namespace StateSpace

open StateSpace.Action

/-- The answers of an engine. Its states are known by keys. -/
structure Chart (κ : Type) where
  state : κ → EngineState
  label : κ → Except Fault String
  starts : List κ
  targets : κ → List κ
  /-- The engine's bound on the number of states. -/
  bound : Nat
  /-- States differ exactly if their keys do. -/
  differs : ∀ c c', ∃ b, (state c).differs (state c') = .ok b ∧ (b = false ↔ c = c')

theorem Chart.state_inj {κ : Type} (m : Chart κ) {c c' : κ} : m.state c = m.state c' ↔ c = c' := by
  refine ⟨fun h => ?_, congrArg m.state⟩
  obtain ⟨b, hb, hself⟩ := m.differs c c
  obtain ⟨b', hb', hiff⟩ := m.differs c c'
  rw [← h] at hb'
  cases hb.symm.trans hb'
  exact hiff.1 (hself.2 rfl)

/-- Handles of states compare as equal exactly if the keys are equal, whatever the hashes are. -/
theorem Chart.compare_spec {κ : Type} (m : Chart κ) {p : Pool} {s t : Handle} {o o' : Shared} {c c' : κ}
    (h : p.Has s o) (h' : p.Has t o') (hc : o.state = m.state c) (hc' : o'.state = m.state c') :
    ∃ r, p.compare s t = .ok r ∧ (r = .eq ↔ c = c') := by
  obtain ⟨b, hb, hiff⟩ := m.differs c c'
  rw [← m.state_inj, ← hc, ← hc'] at hiff
  rw [← hc, ← hc'] at hb
  obtain ⟨r, hr, heq⟩ := Pool.compare_eq_iff h h' hb hiff
  exact ⟨r, hr, by rw [heq, hc, hc', m.state_inj]⟩

/-- An engine that answers as its chart says, which no request changes. -/
class ChartedEngine (ε : Type) (κ : outParam Type) [Engine ε] [LawfulEngine ε] [PausingEngine ε] where
  chart : ε → Chart κ
  formatState : ∀ (e : ε) (c : κ), Engine.formatState e ((chart e).state c) = (chart e).label c
  bound : ∀ e : ε, Engine.bound e = (chart e).bound
  pause : ∀ e : ε, chart (Engine.pause e) = chart e
  resume : ∀ {e : ε}, PausingEngine.paused e ≠ 0 →
    Ensures Engine.resume e fun _ e' => chart e' = chart e
  initial : ∀ {e : ε}, LawfulEngine.Good e → Ensures Engine.initial e fun ss e' =>
    chart e' = chart e ∧ ss.map (·.state) = (chart e).starts.map (chart e).state
  outgoing : ∀ {e : ε} {c : κ} (inUse : InUse), LawfulEngine.Good e →
    LawfulEngine.Proper ε (Engine.network e) ((chart e).state c) →
    Ensures (Engine.outgoing inUse ((chart e).state c)) e fun items e' =>
      chart e' = chart e ∧ items.map (·.1.state) = ((chart e).targets c).map (chart e).state

/-! ## Networks -/

/-- What the graph of a network answers. -/
def Network.chart (n : Network) : Chart Configuration where
  state := .configuration
  label c := n.formatState (.configuration c)
  starts := n.starts
  targets := n.targets
  bound := n.configurationBound
  differs c c' := ⟨_, rfl, by simp⟩

instance : ChartedEngine Graph Configuration where
  chart g := g.network.chart
  formatState _ _ := rfl
  bound _ := rfl
  pause _ := rfl
  resume {g} h := by
    have hresume : (Engine.resume : Action Graph Unit) g = .ok () { g with paused := g.paused - 1 } :=
      if_neg h
    exact ⟨_, _, hresume, rfl⟩
  initial {g} hv := (Graph.initial_spec hv).mono fun _ _ ⟨hk, hss⟩ =>
    ⟨congrArg Network.chart hk.network, hss⟩
  outgoing {g c} inUse hv hc := by
    obtain ⟨c', hc', hadm⟩ := hc
    obtain rfl : c = c' := EngineState.configuration.inj hc'
    exact (Graph.outgoing_targets hv hadm inUse).mono fun _ _ ⟨hk, hitems⟩ =>
      ⟨congrArg Network.chart hk.network, hitems⟩

end StateSpace
