import StateSpace.CommandLine.Reply
import StateSpace.Proofs.Engine.Reachable
import StateSpace.Proofs.Exploration.Explore
import StateSpace.Proofs.Network.LocationNames

/-!
# The bound on configurations

The bound of a network counts every configuration that its graphs hand out, over runs of any length:
they are all admitted, and the admitted ones are enumerated by a list as long as the bound. The states
of a complete exploration are such configurations, each listed once, so there are no more of them than
the command line says next to their number.
-/

namespace StateSpace

open StateSpace.Action World

variable {n : Network} {w w' : World Graph} {limit : Option Nat} {x : Exploration}

namespace Graph

/-- The states that are handed out are no more than the bound. -/
theorem encard_reached_le (hv : n.Valid) :
    {s | Reached n s}.encard ≤ n.configurationBound := by
  have hsub : {s | Reached n s} ⊆
      ((n.allConfigurations.map EngineState.configuration).toFinset : Set EngineState) := by
    intro s hs
    obtain ⟨c, rfl, hc⟩ := Reached.exists_admits hv hs
    exact Finset.mem_coe.2 (List.mem_toFinset.2
      (List.mem_map_of_mem (Network.mem_allConfigurations hv hc)))
  refine (Set.encard_le_encard hsub).trans ?_
  rw [Set.encard_coe_eq_coe_finsetCard, Nat.cast_le,
    ← Network.length_allConfigurations hv.toCoherent,
    ← List.length_map (f := EngineState.configuration)]
  exact List.toFinset_card_le _

end Graph

namespace Kripke

/-- An exploration that lists states began at the only initial state. -/
theorem exists_start_of_explore (h : w.Sound) (hrun : explore limit w = .ok (.ok x) w') :
    ∃ c₀, w.kripke.engine.network.starts = [c₀] := by
  have hgood := LawfulEngine.pause h.good
  have h₁ := (h.withEngine hgood.1 hgood.2).withRest w.kripke.aps (w.kripke.sessions + 1) h.retired
  obtain ⟨r, w₂, hinit, -, ss, g, hg, hstarted⟩ := initialState_spec h₁
  obtain ⟨ss', g', hg', -, hss⟩ := Graph.initial_spec h₁.good
  cases hg.symm.trans hg'
  have hfails : ∀ e, r = .error e → ∀ x, explore limit w ≠ .ok (.ok x) w' := by
    rintro e rfl x hx
    obtain ⟨r, y, hfirst, -, hr⟩ := Search.within_eq_ok (show Search.within limit _ = _ from hx)
    have hstop : Search.run limit (Search.start _) = .ok (.error e) _ :=
      (bind_ok (Search.onWorld_ok hinit) _).trans rfl
    cases hfirst.symm.trans hstop
    cases hr
  match ss, hss, hstarted with
  | [], _, hstarted => exact absurd hrun (hfails _ hstarted.1 x)
  | [o], hss, _ =>
    obtain ⟨c₀, hstart, -⟩ := List.map_eq_singleton_iff.1 hss.symm
    exact ⟨c₀, hstart⟩
  | _ :: _ :: _, _, hstarted => exact absurd hrun (hfails _ hstarted.1 x)

/-- An exploration without a limit lists no more states than the bound. -/
theorem size_le_of_explore (h : w.Sound) (hrun : explore none w = .ok (.ok x) w')
    (hfit : Fits w') : x.states.size ≤ w.kripke.engine.network.configurationBound := by
  obtain ⟨c₀, hstart⟩ := exists_start_of_explore h hrun
  obtain ⟨_, w'', hrun', x', cs, rfl, hx, -⟩ := explore_spec h hstart (by rwa [after_ok hrun])
  cases hrun.symm.trans hrun'
  rw [hx.size]
  exact Search.length_le_of_leads h.good
    (Network.admits_of_starts h.good (hstart ▸ List.mem_singleton_self c₀)) hx.breadthFirst.nodup
    fun c => (hx.breadthFirst.mem c).1

/-- In a network that is read from a text, the bound is an exact number: the product of the numbers of
locations that each process knows by name and of the widths of all domains. The states that graphs of
the network hand out, as initial ones or after any number of steps, are no more than that, and neither
are the states of any exploration without a limit. The command line prints both numbers. -/
theorem explored_le_bound {text : String} {ws : List Network.Warning}
    (hparse : Network.parse text = .ok (n, ws)) :
    ((n.configurationBound : Int) =
      ((List.range n.processes.size).map fun p =>
        ({name | (n.findLocation? p name).isSome = true}.ncard : Int)).prod *
      (n.domains.toList.map fun d => d.max.toInt - d.min.toInt + 1).prod) ∧
    {s | Graph.Reached n s}.encard ≤ n.configurationBound ∧
    ∀ (w w' : World Graph) (x : Exploration), w.Reached → w.kripke.engine.network = n →
      explore none w = .ok (.ok x) w' → Fits w' →
      x.states.size ≤ n.configurationBound ∧ ∀ (sem : ZoneSemantics) (dead : DeadPolicy),
        "discrete configurations (bound): " ++ toString n.configurationBound ∈
            CommandLine.report n sem dead x ∧
          "states: " ++ toString x.states.size ∈ CommandLine.report n sem dead x := by
  have hv := Network.parse_valid hparse
  refine ⟨Network.configurationBound_eq hv,
    Graph.encard_reached_le hv, fun w w' x hw hnet hrun hfit => ⟨?_, fun sem dead => ?_⟩⟩
  · exact hnet ▸ size_le_of_explore hw.sound hrun hfit
  · simp [CommandLine.report]

/-- A process with two locations and a variable over all 32-bit numbers. -/
theorem explored_le_bound_wide : ∃ (n : Network) (ws : List Network.Warning) (w w' : World Graph)
    (x : Exploration),
    Network.parse ("system:s\nint:1:-2147483648:2147483647:0:v\nprocess:P\n" ++
      "location:P:a\x7binitial:\x7d\nlocation:P:b\nevent:e\nedge:P:a:b:e\x7bdo: v=7\x7d") =
        .ok (n, ws) ∧
    w.Reached ∧ explore none w = .ok (.ok x) w' ∧ n.configurationBound = 2 * 2 ^ 32 ∧
    x.states.size ≤ n.configurationBound := by
  obtain ⟨⟨n, ws⟩, hparse, hread⟩ := exists_ok_of_any (x := Network.parse
    ("system:s\nint:1:-2147483648:2147483647:0:v\nprocess:P\n" ++
      "location:P:a\x7binitial:\x7d\nlocation:P:b\nevent:e\nedge:P:a:b:e\x7bdo: v=7\x7d"))
    (p := fun y => y.1.starts = [⟨[0], [0]⟩] ∧ y.1.configurationBound = 2 * 2 ^ 32)
    (by decide +kernel)
  obtain ⟨hstarts, hbound⟩ := of_decide_eq_true hread
  obtain ⟨w, hreached, hengine, hplain, hfit⟩ := exists_reached_plain (Network.parse_valid hparse)
  have hafter : Fits ((explore none).after w) := fits_explore_plain hplain hfit none
  have hstart : w.kripke.engine.network.starts = [⟨[0], [0]⟩] := by rw [hengine, hstarts]
  obtain ⟨_, w', hexplore, x, -, rfl, -⟩ := explore_spec hreached.sound hstart hafter
  have hle := (explored_le_bound hparse).2.2 _ w' x hreached hengine hexplore
    (by rwa [after_ok hexplore] at hafter)
  exact ⟨n, ws, _, w', x, hparse, hreached, hexplore, hbound, hle.1⟩

end Kripke

end StateSpace
