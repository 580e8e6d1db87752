import StateSpace.Proofs.Engine.Graph

/-!
# The transitions of a network

`Takes` is the transition relation of a network: what is offered, not forbidden by a committed
location, guarded by what holds, assigns within the domains and leads where the invariants hold. The
graph of a network that is read from a text tells exactly these transitions for every configuration
with the shape of the network, whatever its values are. A single edge is told once, and a joint choice
once for each declaration of its synchronisation.
-/

namespace StateSpace

open StateSpace.Action

namespace Network

variable {n : Network} {c c' : Configuration} {es es' : List Edge}

/-- The configuration may take the edges together, and they lead to another one. -/
structure Takes (n : Network) (c : Configuration) (es : List Edge) (c' : Configuration) : Prop where
  offered : n.Offers c.locations es
  permitted : n.Permits c.locations es
  guards : ∀ e ∈ es, e.guard.holds c.ints = .ok true
  assigns : n.Assigns c.ints (es.flatMap (·.updates)) c'.ints
  moves : Moves es c.locations c'.locations
  endures : n.Endures c'.ints c'.locations

/-- Offered edges fire exactly if they can be taken. -/
theorem target?_eq_some_iff (hv : n.Valid) (hm : n.SyncsMatch) (hc : n.HasShape c)
    (ho : n.Offers c.locations es) (hp : n.Permits c.locations es) :
    n.target? c es = some c' ↔ n.Takes c es c' := by
  obtain ⟨r, hr⟩ := exists_fire hv hc ho.hasEdge
  have hmoves : moveAll c.locations es = .ok c'.locations ↔ Moves es c.locations c'.locations :=
    moveAll_eq_ok_iff (ho.processes_nodup hv hm hc.locations)
  have hfire : n.target? c es = some c' ↔ n.fire c es = .ok (some c') := by
    unfold target?
    simp [hr]
  rw [hfire, fire_eq_some_iff, hmoves]
  constructor
  · rintro ⟨hguards, hassigns, hmoves, hendures⟩
    exact ⟨ho, hp, hguards, hassigns, hmoves, hendures⟩
  · intro h
    exact ⟨h.guards, h.assigns, h.moves, h.endures⟩

/-- The steps of a configuration are the transitions that it takes. -/
theorem mem_steps_iff (hv : n.Valid) (hm : n.SyncsMatch) (hc : n.HasShape c) {t : Transition} :
    (c', t) ∈ n.steps c ↔ ∃ es, t = es.map (·.id) ∧ n.Takes c es c' := by
  obtain ⟨ess, hess, hmem⟩ := exists_candidates hv hm hc.locations
  unfold steps
  simp only [hess, List.mem_filterMap, Option.map_eq_some_iff, Prod.mk.injEq]
  constructor
  · rintro ⟨es, hes, c₁, hc₁, rfl, rfl⟩
    obtain ⟨ho, hp⟩ := (hmem es).1 hes
    exact ⟨es, rfl, (target?_eq_some_iff hv hm hc ho hp).1 hc₁⟩
  · rintro ⟨es, rfl, h⟩
    refine ⟨es, (hmem es).2 ⟨h.offered, h.permitted⟩, c', ?_, rfl, rfl⟩
    exact (target?_eq_some_iff hv hm hc h.offered h.permitted).2 h

/-! ## Multiplicities -/

/-- Declared edges are told apart by their numbers. -/
theorem eq_of_ids (hv : n.Valid) (h : ∀ e ∈ es, n.HasEdge e) (h' : ∀ e ∈ es', n.HasEdge e)
    (heq : es.map (·.id) = es'.map (·.id)) : es = es' := by
  have hfind : ∀ es : List Edge, (∀ e ∈ es, n.HasEdge e) →
      (es.map (·.id)).map (n.edges[·]?) = es.map some := by
    intro es h
    rw [List.map_map]
    apply List.map_congr_left
    intro e he
    exact (h e he).getElem?_id hv
  have hsome := hfind es h
  rw [heq, hfind es' h'] at hsome
  exact (List.map_inj_right fun _ _ => Option.some.inj).1 hsome.symm

theorem count_candidates (hv : n.Valid) (hm : n.SyncsMatch) (hls : n.IsVector c.locations)
    (ho : n.Offers c.locations es) (hp : n.Permits c.locations es) {ess : List (List Edge)}
    (hess : n.candidates c = .ok ess) :
    ess.count es = if es.length = 1 then 1 else n.syncs.count (es.map Edge.action) := by
  rw [candidates_eq hv hls] at hess
  rw [← count_offered hv hm hls ho, ← Except.ok.inj hess]
  split
  · rename_i hany
    apply List.count_filter
    rw [List.any_eq_true] at hany ⊢
    exact hp hany
  · rfl

/-- How often a transition is among the steps: a single edge once, and a joint choice once for each
declaration of its synchronisation. -/
theorem count_steps (hv : n.Valid) (hm : n.SyncsMatch) (hc : n.HasShape c) (h : n.Takes c es c') :
    ((n.steps c).map Prod.snd).count (es.map (·.id)) =
      if es.length = 1 then 1 else n.syncs.count (es.map Edge.action) := by
  obtain ⟨ess, hess, hmem⟩ := exists_candidates hv hm hc.locations
  have htarget := (target?_eq_some_iff hv hm hc h.offered h.permitted).2 h
  rw [← count_candidates hv hm hc.locations h.offered h.permitted hess]
  unfold steps
  simp only [hess, List.map_filterMap, Option.map_map, Function.comp_def]
  rw [List.count_eq_countP, List.count_eq_countP, List.countP_filterMap]
  apply List.countP_congr
  intro es' hes'
  constructor
  · intro hcount
    cases ht : n.target? c es' with
    | none => simp [ht] at hcount
    | some c₁ =>
      simp only [ht, Option.map_some, Option.getD_some, beq_iff_eq] at hcount
      rw [beq_iff_eq]
      exact eq_of_ids hv ((hmem es').1 hes').1.hasEdge h.offered.hasEdge hcount
  · intro heq
    rw [beq_iff_eq.1 heq, htarget]
    simp

end Network

namespace Graph

variable {n : Network} {c : Configuration}

/-- For every configuration with the shape of a network that is read from a text, the graph tells the
transitions that the configuration takes, and no others: a single edge once, and a joint choice once
for each declaration of its synchronisation. -/
theorem outgoing_takes {text : String} {ws : List Network.Warning} {g : Graph}
    (hparse : Network.parse text = .ok (n, ws)) (hg : g.network = n) (hc : n.HasShape c)
    (inUse : InUse) :
    Ensures (outgoing inUse (.configuration c)) g fun items _ =>
      (∀ s t, (∃ x ∈ items, x.1.state = s ∧ x.2 = t) ↔
        ∃ es c', s = .configuration c' ∧ t = es.map (·.id) ∧ n.Takes c es c') ∧
      ∀ es c', n.Takes c es c' → (items.map (·.2)).count (es.map (·.id)) =
        if es.length = 1 then 1 else n.syncs.count (es.map Network.Edge.action) := by
  subst hg
  have hv := Network.parse_valid hparse
  have hm := Network.parse_syncsMatch hparse
  refine (outgoing_steps hv hc inUse).mono fun items g' ⟨_, hitems⟩ => ⟨fun s t => ?_, fun es c' h => ?_⟩
  · have hpair : (∃ x ∈ items, x.1.state = s ∧ x.2 = t) ↔
        (s, t) ∈ items.map fun x => (x.1.state, x.2) := by
      simp [List.mem_map]
    rw [hpair, hitems]
    simp only [List.mem_map, Prod.mk.injEq, Prod.exists]
    constructor
    · rintro ⟨c', _, hstep, rfl, rfl⟩
      obtain ⟨es, rfl, h⟩ := (Network.mem_steps_iff hv hm hc).1 hstep
      exact ⟨es, c', rfl, rfl, h⟩
    · rintro ⟨es, c', rfl, rfl, h⟩
      exact ⟨c', _, (Network.mem_steps_iff hv hm hc).2 ⟨es, rfl, h⟩, rfl, rfl⟩
  · have hsnd : items.map (·.2) = (g.network.steps c).map Prod.snd := by
      have := congrArg (List.map Prod.snd) hitems
      rw [List.map_map, List.map_map] at this
      exact this
    rw [hsnd]
    exact Network.count_steps hv hm hc h

/-- A joint choice whose synchronisation is declared twice is told twice. -/
theorem outgoing_takes_twice : ∃ (n : Network) (ws : List Network.Warning),
    Network.parse ("system:s\nevent:e\nprocess:P\nlocation:P:a\x7binitial:\x7d\nlocation:P:b\n" ++
      "edge:P:a:b:e\nprocess:Q\nlocation:Q:c\x7binitial:\x7d\nedge:Q:c:c:e\nsync:P@e:Q@e\n" ++
      "sync:P@e:Q@e") = .ok (n, ws) ∧ n.HasShape ⟨[0, 2], []⟩ ∧
    ∀ (g : Graph) (inUse : InUse), g.network = n →
      Ensures (outgoing inUse (.configuration ⟨[0, 2], []⟩)) g fun items _ =>
        (items.map (·.2)).count [0, 1] = 2 := by
  obtain ⟨⟨n, ws⟩, hparse, hread⟩ := exists_ok_of_any (x := Network.parse
    ("system:s\nevent:e\nprocess:P\nlocation:P:a\x7binitial:\x7d\nlocation:P:b\n" ++
      "edge:P:a:b:e\nprocess:Q\nlocation:Q:c\x7binitial:\x7d\nedge:Q:c:c:e\nsync:P@e:Q@e\n" ++
      "sync:P@e:Q@e")) (p := fun y => ⟨[0, 2], []⟩ ∈ y.1.starts ∧
    y.1.edges[0]? = some ⟨0, 0, 0, 1, 0, .const 1, []⟩ ∧
    y.1.edges[1]? = some ⟨1, 1, 2, 2, 0, .const 1, []⟩ ∧
    y.1.syncs = [[(0, 0), (1, 0)], [(0, 0), (1, 0)]] ∧
    (⟨[1, 2], []⟩, [0, 1]) ∈ y.1.steps ⟨[0, 2], []⟩) (by decide +kernel)
  obtain ⟨hstart, hfirst, hsecond, hsyncs, hstep⟩ := of_decide_eq_true hread
  have hv := Network.parse_valid hparse
  have hm := Network.parse_syncsMatch hparse
  have hc := (Network.admits_of_starts hv hstart).hasShape
  obtain ⟨es, hids, htakes⟩ := (Network.mem_steps_iff hv hm hc).1 hstep
  have hes : [_, _] = es := Network.eq_of_ids hv
    (List.forall_mem_cons.2 ⟨⟨0, hfirst⟩, List.forall_mem_singleton.2 ⟨1, hsecond⟩⟩)
    htakes.offered.hasEdge hids
  subst hes
  refine ⟨n, ws, hparse, hc, fun g inUse hg => ?_⟩
  refine (outgoing_takes hparse hg hc inUse).mono fun items _ ⟨_, hcount⟩ => ?_
  refine (hcount _ _ htakes).trans ?_
  rw [hsyncs]
  rfl

end Graph

end StateSpace
