import StateSpace.Proofs.Exploration.Limited

/-!
# Truncated explorations

Over any charted engine, also one without an end of states, an exploration with a limit returns. It lists
different states that can be reached, and is truncated exactly if it misses one. It keeps to its limit
unless that is 0: the initial state is listed without a look at the limit.
-/

namespace StateSpace

open StateSpace.Action World

namespace Kripke

/-! ## Structures to explore -/

/-- Over a network with one initial state there is a structure that observes nothing. Its explorations
fit into the cells, and the bound has room for all that steps lead to. -/
theorem exists_started {n : Network} {c₀ : Configuration} (hv : n.Valid) (hstarts : n.starts = [c₀]) :
    ∃ (w : World Graph) (o₀ : Shared) (g₀ : Graph), w.Reached ∧ w.kripke.engine.network = n ∧
      Engine.initial w.kripke.engine = .ok [o₀] g₀ ∧ o₀.state = .configuration c₀ ∧
      (∀ cs : List Configuration, cs.Nodup → (∀ c ∈ cs, ∃ k, Leads n.targets c₀ k c) →
        cs.length ≤ n.configurationBound) ∧
      ∀ limit, Fits ((explore limit).after w) := by
  obtain ⟨w, hreached, hengine, hplain, hfit⟩ := exists_reached_plain hv
  obtain ⟨ss, g, hinit, -, hss⟩ := Graph.initial_spec (g := w.kripke.engine) hreached.sound.good
  rw [hengine, hstarts] at hss
  obtain ⟨o₀, rfl, ho₀⟩ := List.map_eq_singleton_iff.1 hss
  exact ⟨w, o₀, g, hreached, hengine, hinit, ho₀, fun cs => Search.length_le_of_leads hv
    (Network.admits_of_starts hv (hstarts ▸ List.mem_singleton_self c₀)),
    fits_explore_plain hplain hfit⟩

/-! ## Explorations up to a limit -/

section Charted

variable {ε κ : Type} [Engine ε] [LawfulEngine ε] [PausingEngine ε] [ChartedEngine ε κ]
  {w : World ε} {o₀ : Shared} {e₀ : ε} {c₀ : κ} {n : Nat}

/-- The only initial state is the start of the chart. -/
theorem starts_of_initial (h : w.Sound) (hinit : Engine.initial w.kripke.engine = .ok [o₀] e₀)
    (hc₀ : o₀.state = w.chart.state c₀) : w.chart.starts = [c₀] := by
  obtain ⟨_, _, hinit', -, hss⟩ := ChartedEngine.initial h.good
  cases hinit.symm.trans hinit'
  obtain ⟨c, hstart, hc⟩ := List.map_eq_singleton_iff.1 hss.symm
  obtain rfl : c = c₀ := w.chart.state_inj.1 (hc.trans hc₀)
  exact hstart

variable [DecidableEq κ]

/-- An exploration with a limit finds what a survey with that limit does. -/
theorem explore_limit_found (h : w.Sound) (hstart : w.chart.starts = [c₀])
    (hbound : ∀ cs : List κ, cs.Nodup → (∀ c ∈ cs, ∃ k, Leads w.chart.targets c₀ k c) →
      cs.length ≤ max n 1 → cs.length ≤ w.chart.bound) :
    EnsuresFit (explore (some n)) w fun r _ => ∃ x sv, r = .ok x ∧
      Survey.Limited w.chart.targets c₀ n sv ∧
      Found w.chart w.kripke.profile w.dict.registry x sv sv.states.length := by
  have hfuel : ∀ cs : List κ, cs.Nodup → (∀ c ∈ cs, ∃ k, Leads (Search.next w) c₀ k c) →
      cs.length ≤ max n 1 → cs.length ≤ w.chart.bound := fun cs hnd hcs =>
    hbound cs hnd fun c hc => exists_leads_withLoops.1 (hcs c hc)
  have hlimited : Survey.Limited (Search.next w) c₀ n (Search.survey w (some n) c₀) :=
    Survey.survey_limited _ c₀ n hfuel
  exact (explore_found h hstart (hfuel _ hlimited.nodup hlimited.leads hlimited.length)).mono
    fun _ _ ⟨x, hr, hx, _⟩ => ⟨x, _, hr, hlimited.of_withLoops, hx⟩

/-- A structure over a charted engine with one initial state is explored up to a limit, if the engine's
bound has room for so many states. The states listed are different ones that steps lead to, the initial
one first, with their labels. They are no more than the limit exactly if that is not 0; under a limit of
0 there is one. The exploration is truncated exactly if a state that steps lead to is not listed. -/
theorem explore_truncated_iff (hw : w.Reached)
    (hinit : Engine.initial w.kripke.engine = .ok [o₀] e₀) (hc₀ : o₀.state = w.chart.state c₀) (n : Nat)
    (hbound : ∀ cs : List κ, cs.Nodup → (∀ c ∈ cs, ∃ k, Leads w.chart.targets c₀ k c) →
      cs.length ≤ max n 1 → cs.length ≤ Engine.bound w.kripke.engine)
    (hfit : Fits ((explore (some n)).after w)) :
    ∃ (x : Exploration) (w' : World ε) (cs : List κ), explore (some n) w = .ok (.ok x) w' ∧
      x.states.size = cs.length ∧
      (∀ (i : Nat) (c : κ) (st : ExploredState), cs[i]? = some c → x.states[i]? = some st →
        Engine.formatState w.kripke.engine (w.chart.state c) = .ok st.label) ∧
      cs[0]? = some c₀ ∧ cs.Nodup ∧ (∀ c ∈ cs, ∃ k, Leads w.chart.targets c₀ k c) ∧
      (x.states.size ≤ n ↔ n ≠ 0) ∧ (n = 0 → x.states.size = 1) ∧
      (x.truncated = true ↔ ∃ c, (∃ k, Leads w.chart.targets c₀ k c) ∧ c ∉ cs) := by
  have hstart := starts_of_initial hw.sound hinit hc₀
  rw [ChartedEngine.bound] at hbound
  obtain ⟨_, w', hrun, x, sv, rfl, h, hx⟩ := explore_limit_found hw.sound hstart hbound hfit
  have hpos : 0 < sv.states.length := (List.getElem?_eq_some_iff.1 h.first).1
  have hlen := h.length
  refine ⟨x, w', sv.states, hrun, hx.size, fun i c st hc hst => ?_, h.first, h.nodup, h.leads, ?_, ?_,
    ?_⟩
  · exact (ChartedEngine.formatState w.kripke.engine c).trans (hx.label i c st hc hst)
  · rw [hx.size]
    omega
  · rw [hx.size]
    omega
  · rw [hx.truncated]
    exact h.truncated

end Charted

/-- Under a limit of 1, the second state of two is not listed. -/
theorem explore_truncated_iff_pair : ∃ (n : Network) (ws : List Network.Warning) (w w' : World Graph)
    (x : Exploration),
    Network.parse ("system:s\nprocess:P\nlocation:P:a\x7binitial:\x7d\nlocation:P:b\nevent:e\n" ++
      "edge:P:a:b:e") = .ok (n, ws) ∧
    w.Reached ∧ explore (some 1) w = .ok (.ok x) w' ∧ x.states.size = 1 ∧ x.truncated = true := by
  obtain ⟨⟨n, ws⟩, hparse, hread⟩ := exists_ok_of_any (x := Network.parse
    ("system:s\nprocess:P\nlocation:P:a\x7binitial:\x7d\nlocation:P:b\nevent:e\n" ++
      "edge:P:a:b:e")) (p := fun y => y.1.starts = [⟨[0], []⟩] ∧
    y.1.targets ⟨[0], []⟩ = [⟨[1], []⟩]) (by decide +kernel)
  obtain ⟨hstarts, htargets⟩ := of_decide_eq_true hread
  obtain ⟨w, o₀, g₀, hw, rfl, hinit, ho₀, hbound, hfit⟩ :=
    exists_started (Network.parse_valid hparse) hstarts
  obtain ⟨x, w', cs, hrun, hsize, -, hfirst, -, -, hle, -, htruncated⟩ :=
    explore_truncated_iff hw hinit ho₀ 1 (fun cs hnd hcs _ => hbound cs hnd hcs) (hfit _)
  have hlen : cs.length ≤ 1 := hsize ▸ hle.2 (by decide)
  obtain ⟨c, rfl⟩ : ∃ c, cs = [c] := by
    match cs, hlen, hfirst with
    | [c], _, _ => exact ⟨c, rfl⟩
  obtain rfl : c = ⟨[0], []⟩ := Option.some.inj hfirst
  refine ⟨_, ws, w, w', x, hparse, hw, hrun, hsize, htruncated.2 ⟨⟨[1], []⟩, ⟨1, .step .start ?_⟩, ?_⟩⟩
  · show _ ∈ w.kripke.engine.network.targets _
    rw [htargets]
    exact List.mem_singleton_self _
  · decide

/-- Under a limit of 0, one state is listed. -/
theorem explore_exceeds_limit : ∃ (n : Network) (ws : List Network.Warning) (w w' : World Graph)
    (o₀ : Shared) (g₀ : Graph) (x : Exploration),
    Network.parse "system:s\nprocess:P\nlocation:P:a\x7binitial:\x7d" = .ok (n, ws) ∧
    w.Reached ∧ w.kripke.engine.network = n ∧ Engine.initial w.kripke.engine = .ok [o₀] g₀ ∧
    explore (some 0) w = .ok (.ok x) w' ∧ ¬x.states.size ≤ 0 := by
  obtain ⟨⟨n, ws⟩, hparse, hread⟩ := exists_ok_of_any (x := Network.parse
    "system:s\nprocess:P\nlocation:P:a\x7binitial:\x7d") (p := fun y => y.1.starts = [⟨[0], []⟩])
    (by decide +kernel)
  have hstarts := of_decide_eq_true hread
  obtain ⟨w, o₀, g₀, hw, rfl, hinit, -, hbound, hfit⟩ :=
    exists_started (Network.parse_valid hparse) hstarts
  obtain ⟨_, w', hrun, x, sv, rfl, h, hx⟩ := explore_limit_found hw.sound hstarts
    (fun cs hnd hcs _ => hbound cs hnd hcs) (hfit (some 0))
  refine ⟨_, ws, w, w', o₀, g₀, x, hparse, hw, rfl, hinit, hrun, ?_⟩
  rw [hx.size]
  exact Nat.not_le_of_gt (List.getElem?_eq_some_iff.1 h.first).1

end Kripke

end StateSpace
