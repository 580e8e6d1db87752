import StateSpace.Proofs.Exploration.Explore

/-!
# Explorations with a limit

What is found is determined by the survey: labels, conditions and dead states are those that the chart
has, and the condition of an edge is that of its source. So two explorations agree wherever
their surveys do, although each of them builds its conditions in a diagram that other calls have filled.
An exploration with a limit is therefore the one without, cut as its survey is.
-/

namespace StateSpace

open StateSpace.Action World

variable {w w' w₁ w₂ : World Graph} {c c₀ : Configuration} {o₀ : Shared} {g₀ : Graph}

/-! ## What is found is determined by the survey -/

namespace Found

variable {κ : Type} {m : Chart κ} {p : Profile} {r : Registry} {f f' : Exploration}
  {sv sv' : Survey κ} {c : κ} {i j n : Nat}

/-- Two complete findings have the same to say about a state. -/
theorem state_unique {st st' : ExploredState} (h : Found m p r f sv sv.states.length)
    (h' : Found m p r f' sv' sv'.states.length) (hc : sv.states[i]? = some c)
    (hc' : sv'.states[j]? = some c) (hst : f.states[i]? = some st)
    (hst' : f'.states[j]? = some st') : st = st' := by
  have hlabel : st.label = st'.label :=
    Except.ok.inj ((h.label i c st hc hst).symm.trans (h'.label j c st' hc' hst'))
  have hcondition : st.condition = st'.condition :=
    (h.condition i c st hc hst).unique (h'.condition j c st' hc' hst')
  have hdead : st.dead = st'.dead := by
    rw [h.dead i c st hc hst, h'.dead j c st' hc' hst',
      decide_eq_true (List.getElem?_eq_some_iff.1 hc).1,
      decide_eq_true (List.getElem?_eq_some_iff.1 hc').1]
  cases st
  cases st'
  exact congr (congr (congrArg ExploredState.mk hlabel) hcondition) hdead

/-- Edges between the same numbers carry the same condition if their source is the same. -/
theorem edge_unique {v v' : Nat} {e e' : ExploredEdge} (h : Found m p r f sv v)
    (h' : Found m p r f' sv' v') (he : e ∈ f.edges.toList) (he' : e' ∈ f'.edges.toList)
    (hstates : ∀ (i : Nat) (c : κ), sv'.states[i]? = some c → sv.states[i]? = some c)
    (hends : (e.source, e.target) = (e'.source, e'.target)) : e = e' := by
  obtain ⟨hsource, htarget⟩ := Prod.mk.inj hends
  obtain ⟨c, hc, hwrites⟩ := h.allows e he
  obtain ⟨c', hc', hwrites'⟩ := h'.allows e' he'
  have hcc : some c = some c' := hc.symm.trans (hsource ▸ hstates _ _ hc')
  have hcondition : e.condition = e'.condition := hwrites.unique (Option.some.inj hcc ▸ hwrites')
  cases e
  cases e'
  exact congr (congr (congrArg ExploredEdge.mk hsource) htarget) hcondition

/-- The states that are found when the survey is cut. -/
theorem states_cut (h : Found m p r f sv sv.states.length)
    (h' : Found m p r f' (sv.cut n) (sv.cut n).states.length) :
    f'.states.toList = f.states.toList.take n := by
  refine List.ext_getElem ?_ fun i hi hi' => ?_
  · rw [List.length_take, Array.length_toList, Array.length_toList, h.size, h'.size]
    exact List.length_take
  · have hlt : i < (sv.cut n).states.length := h'.size ▸ hi
    obtain ⟨c, hc⟩ : ∃ c, (sv.cut n).states[i]? = some c := ⟨_, List.getElem?_eq_getElem hlt⟩
    rw [List.getElem_take]
    refine (state_unique h h' (getElem?_extend (List.take_prefix n _) hc) hc ?_ ?_).symm
    · rw [← Array.getElem?_toList]
      exact List.getElem?_eq_getElem _
    · rw [← Array.getElem?_toList]
      exact List.getElem?_eq_getElem _

/-- The edges that are found when the survey is cut. -/
theorem edges_cut (h : Found m p r f sv sv.states.length)
    (h' : Found m p r f' (sv.cut n) (sv.cut n).states.length) :
    f'.edges.toList = f.edges.toList.filter fun e => e.source < n ∧ e.target < n := by
  have hends : f'.edges.toList.map (fun e => (e.source, e.target)) =
      (f.edges.toList.filter fun e => e.source < n ∧ e.target < n).map
        fun e => (e.source, e.target) := by
    rw [h'.edges, Survey.cut, ← h.edges, List.filter_map]
    rfl
  refine List.ext_getElem (by simpa using congrArg List.length hends) fun i hi hi' => ?_
  refine (edge_unique h h' (List.mem_of_mem_filter (List.getElem_mem hi')) (List.getElem_mem hi)
    (fun i c => getElem?_extend (List.take_prefix n _)) ?_).symm
  have hget := congrArg (·[i]?) hends
  simp only [List.getElem?_map, List.getElem?_eq_getElem hi, List.getElem?_eq_getElem hi'] at hget
  exact (Option.some.inj hget).symm

theorem truncated_cut (h : Found m p r f sv sv.states.length)
    (h' : Found m p r f' (sv.cut n) (sv.cut n).states.length) :
    f'.truncated = true ↔ n < f.states.size := by
  rw [h'.truncated, h.size]
  exact decide_eq_true_iff

end Found

/-! ## Before and between explorations -/

/-- Moves that leave all names alone, and explorations with any limit, lead from a world to another
one. The cells fit all along. -/
inductive World.Onward (w : World Graph) : World Graph → Prop where
  | refl : Onward w w
  | explore {w₁ w₂ : World Graph} {limit : Option Nat} {r : Except Kripke.StartError Exploration}
      (h : Onward w w₁) (hrun : Kripke.explore limit w₁ = .ok r w₂) (hfit : Fits w₂) : Onward w w₂
  | move {w₁ w₂ : World Graph} {m : Move} (h : Onward w w₁) (hm : m.Possible w₁)
      (hrun : m.run w₁ = .ok () w₂) (hfit : Fits w₂)
      (hnames : w₂.dict.registry = w₁.dict.registry) : Onward w w₂

theorem World.Onward.kept (h : w.Onward w') (hw : w.Sound)
    (hstart : w.kripke.engine.network.starts = [c₀]) :
    w.Kept w' ∧ w'.dict.registry = w.dict.registry := by
  induction h with
  | refl => exact ⟨.refl hw, rfl⟩
  | @explore w₁ w₂ limit r _ hrun hfit ih =>
    obtain ⟨hkept, hreg⟩ := ih
    have hnet : w₁.kripke.engine.network = w.kripke.engine.network := hkept.network
    obtain ⟨_, _, hrun', -, -, -, hwithin, -⟩ :=
      Kripke.explore_found hkept.sound (hnet ▸ hstart)
        (Search.length_survey_le hkept.sound (hnet ▸ hstart) limit) (by rwa [after_ok hrun])
    cases hrun.symm.trans hrun'
    exact ⟨hkept.trans hwithin.toKept, hwithin.registry.trans hreg⟩
  | move _ hm hrun hfit hnames ih =>
    obtain ⟨hkept, hreg⟩ := ih
    exact ⟨hkept.trans (Move.kept_run hkept.sound hm hrun hfit), hnames.trans hreg⟩

/-- Explorations find the same whatever went on before. -/
theorem World.Onward.explore_found (h : w.Onward w') (hw : w.Sound)
    (hstart : w.kripke.engine.network.starts = [c₀]) (limit : Option Nat) :
    EnsuresFit (Kripke.explore limit) w' fun r _ => ∃ x, r = .ok x ∧
      Found w.chart w.kripke.profile w.dict.registry x (Search.survey w limit c₀)
        (Search.survey w limit c₀).states.length := by
  obtain ⟨hkept, hreg⟩ := h.kept hw hstart
  have hnet : w'.kripke.engine.network = w.kripke.engine.network := hkept.network
  have hchart : w'.chart = w.chart := congrArg Network.chart hnet
  have hsurvey : Search.survey w' limit c₀ = Search.survey w limit c₀ := by
    unfold Search.survey Search.next
    rw [hchart, hkept.profile]
  refine (Kripke.explore_found hkept.sound (hnet ▸ hstart)
    (Search.length_survey_le hkept.sound (hnet ▸ hstart) limit)).mono
    fun r _ ⟨x, hr, hx, _⟩ => ⟨x, hr, ?_⟩
  rwa [hchart, hkept.profile, hreg, hsurvey] at hx

namespace Kripke

/-- An exploration with a limit finds the first states of the one without, at least one, with the same
labels, conditions and dead states, and those edges that lead from such a state to such a state, in the
same order. It is truncated exactly if there are more states than that. Neither of them depends on what
was explored before, or else built in the dictionary. -/
theorem explore_limited (hw : w.Reached)
    (hinit : Engine.initial w.kripke.engine = .ok [o₀] g₀) (h₁ : w.Onward w₁) (h₂ : w.Onward w₂)
    (n : Nat) (hfit₁ : Fits ((explore none).after w₁))
    (hfit₂ : Fits ((explore (some n)).after w₂)) :
    ∃ x w₁' x' w₂', explore none w₁ = .ok (.ok x) w₁' ∧ explore (some n) w₂ = .ok (.ok x') w₂' ∧
      x'.states.toList = x.states.toList.take (max n 1) ∧
      x'.edges.toList =
        x.edges.toList.filter (fun e => e.source < max n 1 ∧ e.target < max n 1) ∧
      (x'.truncated = true ↔ max n 1 < x.states.size) := by
  have hsound := hw.sound
  obtain ⟨ss, g, hrun, -, hss⟩ := Graph.initial_spec (g := w.kripke.engine) hsound.good
  cases hinit.symm.trans hrun
  obtain ⟨c₀, hstart, -⟩ := List.map_eq_singleton_iff.1 hss.symm
  obtain ⟨_, w₁', hrun₁, x, rfl, hx⟩ := h₁.explore_found hsound hstart none hfit₁
  obtain ⟨_, w₂', hrun₂, x', rfl, hx'⟩ := h₂.explore_found hsound hstart (some n) hfit₂
  have hcut : Search.survey w (some n) c₀ = (Search.survey w none c₀).cut (max n 1) :=
    Survey.survey_cut ..
  rw [hcut] at hx'
  exact ⟨x, w₁', x', w₂', hrun₁, hrun₂, hx.states_cut hx', hx.edges_cut hx', hx.truncated_cut hx'⟩

/-- Under a limit of 0 the initial one of two states is found, also after both of them were. -/
theorem explore_limited_pair : ∃ (n : Network) (ws : List Network.Warning) (w w₁ w₂ : World Graph)
    (x x' : Exploration),
    Network.parse ("system:s\nprocess:P\nlocation:P:a\x7binitial:\x7d\nlocation:P:b\nevent:e\n" ++
      "edge:P:a:b:e") = .ok (n, ws) ∧
    w.Reached ∧ explore none w = .ok (.ok x) w₁ ∧ explore (some 0) w₁ = .ok (.ok x') w₂ ∧
    x.states.size = 2 ∧ x'.states.toList = x.states.toList.take 1 ∧ x'.truncated = true := by
  obtain ⟨⟨n, ws⟩, hparse, hread⟩ := exists_ok_of_any (x := Network.parse
    ("system:s\nprocess:P\nlocation:P:a\x7binitial:\x7d\nlocation:P:b\nevent:e\n" ++
      "edge:P:a:b:e")) (p := fun y => y.1.starts = [⟨[0], []⟩] ∧
    y.1.targets ⟨[0], []⟩ = [⟨[1], []⟩] ∧ y.1.targets ⟨[1], []⟩ = []) (by decide +kernel)
  obtain ⟨hstarts, hfirst, hsecond⟩ := of_decide_eq_true hread
  obtain ⟨w, hreached, hengine, hplain, hfit⟩ := exists_reached_plain (Network.parse_valid hparse)
  have hafter : Fits ((explore none).after w) := fits_explore_plain hplain hfit none
  have hstart : w.kripke.engine.network.starts = [⟨[0], []⟩] := by rw [hengine, hstarts]
  obtain ⟨_, w₁, hexplore, x, cs, rfl, hx, -⟩ := explore_spec hreached.sound hstart hafter
  obtain ⟨hprofile, hdict⟩ := explore_plain_after hplain none
  rw [after_ok hexplore] at hprofile hdict
  have hafter₁ : Fits ((explore (some 0)).after w₁) :=
    fits_explore_plain (hprofile ▸ hplain) (hdict ▸ hfit) (some 0)
  obtain ⟨ss, g, hinit, -, hss⟩ := Graph.initial_spec (g := w.kripke.engine) hreached.sound.good
  rw [hstart] at hss
  obtain ⟨o₀, rfl, -⟩ := List.map_eq_singleton_iff.1 hss
  obtain ⟨y, _, x', w₂, hagain, hlimited, hstates, -, htrunc⟩ := explore_limited hreached hinit .refl
    (.explore .refl hexplore (after_ok hexplore ▸ hafter)) 0 hafter hafter₁
  cases hexplore.symm.trans hagain
  rw [hengine] at hx
  obtain rfl := hx.breadthFirst.eq_pair hfirst hsecond (by decide)
  exact ⟨n, ws, _, w₁, w₂, x, x', hparse, hreached, hexplore, hlimited, hx.size, hstates,
    htrunc.2 (by rw [hx.size]; decide)⟩

end Kripke

end StateSpace
