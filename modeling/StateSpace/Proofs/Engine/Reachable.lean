import StateSpace.Proofs.Engine.Graph
import StateSpace.Proofs.Proposition.Compile

/-!
# Reachable states of a network

`Reached` collects the states that graphs of a network hand out, from the initial ones on and step
after step, whatever else the graphs did before. All of them are admitted configurations: this is what
one step keeps. So everything that is asked about them has an answer, and no number that is read from
them points past the end of what it is looked up in.
-/

namespace StateSpace

open StateSpace.Action

variable {n : Network} {c c' : Configuration} {s : EngineState}

namespace Graph

/-- A graph of the network hands out the state: as an initial one, or as a successor of a state that
was handed out before. -/
inductive Reached (n : Network) : EngineState → Prop
  | initial {g g' : Graph} {ss : List Shared} {o : Shared} (hg : g.network = n)
      (h : Graph.initial g = .ok ss g') (ho : o ∈ ss) : Reached n o.state
  | outgoing {g g' : Graph} {inUse : InUse} {s : EngineState} {items : List (Shared × Transition)}
      {x : Shared × Transition} (hs : Reached n s) (hg : g.network = n)
      (h : Graph.outgoing inUse s g = .ok items g') (hx : x ∈ items) : Reached n x.1.state

/-- Every state that is handed out is an admitted configuration. -/
theorem Reached.exists_admits (hv : n.Valid) (h : Reached n s) :
    ∃ c, s = .configuration c ∧ n.Admits c := by
  induction h with
  | @initial g g' ss o hg h ho =>
    subst hg
    obtain ⟨_, _, hrun, -, hss⟩ := initial_spec hv
    cases h.symm.trans hrun
    have hmem : o.state ∈ g.network.starts.map .configuration := hss ▸ List.mem_map_of_mem ho
    obtain ⟨c, hc, hco⟩ := List.mem_map.1 hmem
    exact ⟨c, hco.symm, Network.admits_of_starts hv hc⟩
  | @outgoing g g' inUse s items x _ hg h hx ih =>
    subst hg
    obtain ⟨c, rfl, hc⟩ := ih
    obtain ⟨_, _, hrun, -, hitems⟩ := outgoing_targets hv hc inUse
    cases h.symm.trans hrun
    have hmem : x.1.state ∈ (g.network.targets c).map .configuration :=
      hitems ▸ List.mem_map.2 ⟨x, hx, rfl⟩
    obtain ⟨c', hc', hcx⟩ := List.mem_map.1 hmem
    obtain ⟨step, hstep, rfl⟩ := List.mem_map.1 hc'
    exact ⟨step.1, hcx.symm, Network.admits_of_steps hv hc hstep⟩

theorem reached_of_starts (hv : n.Valid) (hc : c ∈ n.starts) : Reached n (.configuration c) := by
  obtain ⟨ss, g', hrun, -, hss⟩ := initial_spec (g := Graph.create n .standard) hv
  have hmem : EngineState.configuration c ∈ ss.map (·.state) := hss ▸ List.mem_map_of_mem hc
  obtain ⟨o, ho, hoc⟩ := List.mem_map.1 hmem
  exact hoc ▸ .initial rfl hrun ho

theorem Reached.step (hv : n.Valid) (h : Reached n (.configuration c)) (hc' : c' ∈ n.targets c) :
    Reached n (.configuration c') := by
  obtain ⟨_, heq, hc⟩ := h.exists_admits hv
  cases heq
  obtain ⟨items, g', hrun, -, hitems⟩ :=
    outgoing_targets (g := Graph.create n .standard) hv hc fun _ => []
  have hmem : EngineState.configuration c' ∈ items.map (fun x => x.1.state) :=
    hitems ▸ List.mem_map_of_mem hc'
  obtain ⟨x, hx, hxc⟩ := List.mem_map.1 hmem
  exact hxc ▸ .outgoing h rfl hrun hx

end Graph

/-! ## Answers about states -/

namespace Network

/-- The state is an admitted configuration, and everything that is asked about it has an answer: its
successors, its text, and the truth of every compiled proposition. -/
structure Answers (n : Network) (s : EngineState) : Prop where
  admitted : ∃ c, s = .configuration c ∧ n.Admits c
  outgoing : ∀ (g : Graph) (inUse : InUse), g.network = n →
    ∃ items g', Graph.outgoing inUse s g = .ok items g'
  formatState : ∃ text, n.formatState s = .ok text
  holds : ∀ (d d' : Dictionary) (names : List String) (dead : Option String) (l : PropositionList),
    PropositionList.compile n names dead d = .ok (.ok l) d' →
    ∀ p ∈ l.records, ∃ b, p.atom.holds s = .ok b

theorem Admits.answers (hv : n.Valid) (hc : n.Admits c) : n.Answers (.configuration c) where
  admitted := ⟨c, rfl, hc⟩
  outgoing g inUse hg := by
    subst hg
    obtain ⟨items, g', hrun, -⟩ := Graph.outgoing_spec hv hc inUse
    exact ⟨items, g', hrun⟩
  formatState := exists_formatState hc
  holds d d' names dead l hcompile p hp := by
    apply Atom.exists_holds (PropositionList.compile_within hcompile p hp)
    exact ⟨hc.locations.length.ge, hc.ints.length.ge⟩

/-- What is stored in the network points to what it declares: a location lists edges between
locations, and a synchronisation names processes. -/
structure Linked (n : Network) : Prop where
  leaving : n.leaving.size = n.locations.size
  edge : ∀ (l : Nat) (ids : List Nat), n.leaving[l]? = some ids → ∀ i ∈ ids,
    ∃ e, n.edges[i]? = some e ∧ e.process < n.processes.size ∧
      e.source < n.locations.size ∧ e.target < n.locations.size
  sync : ∀ s ∈ n.syncs, ∀ a ∈ s, a.1 < n.processes.size

theorem Valid.linked (hv : n.Valid) : n.Linked where
  leaving := hv.leaving_size
  edge l ids hids i hi := by
    rw [hv.leaving l ids hids] at hi
    obtain ⟨-, hany⟩ := List.mem_filter.1 hi
    obtain ⟨e, he, -⟩ := (Option.any_eq_true _ _).1 hany
    have hedge := hv.edge i e he
    exact ⟨e, he, hv.process_lt hedge.source, belongs_lt hedge.source, belongs_lt hedge.target⟩
  sync s hs a ha := (hv.sync s hs a ha).1

end Network

/-- In a network that is read from a text, all numbers point to what is declared, the graph always
tells initial states, every state that is reached from them is an admitted configuration about which
everything has an answer, and every assigned value fits the 32 bits in which it is stored. -/
theorem Graph.reached_answers {text : String} {ws : List Network.Warning}
    (hparse : Network.parse text = .ok (n, ws)) :
    n.Linked ∧ (∀ g : Graph, g.network = n → ∃ ss g', Graph.initial g = .ok ss g') ∧
    (∀ s, Reached n s → n.Answers s) ∧
    ∀ (row row' : List Int32) (id : Nat) (e : Expr), n.update row (.int id e) = .ok (some row') →
      ∃ v, e.eval row = .ok v ∧ row' = row.set id v.toInt32 ∧ v.toInt32.toInt64 = v := by
  have hv := Network.parse_valid hparse
  refine ⟨hv.linked, fun g hg => ?_, fun s hs => ?_, fun row row' id e h => ?_⟩
  · subst hg
    obtain ⟨ss, g', hrun, -⟩ := initial_spec hv
    exact ⟨ss, g', hrun⟩
  · obtain ⟨c, rfl, hc⟩ := hs.exists_admits hv
    exact hc.answers hv
  · obtain ⟨v, d, he, -, hin, -, hrow⟩ := Network.update_int_eq_some_iff.1 h
    exact ⟨v, he, hrow, Network.toInt64_toInt32 hin⟩

/-- A counter is reached at its bound, where everything about it is still answered. -/
theorem Graph.reached_answers_counter : ∃ (n : Network) (ws : List Network.Warning),
    Network.parse ("system:s\nevent:e\nint:1:-1:1:0:v\nprocess:P\nlocation:P:a\x7binitial:\x7d\n" ++
      "edge:P:a:a:e\x7bdo: v=v+1\x7d") = .ok (n, ws) ∧
    Reached n (.configuration ⟨[0], [1]⟩) ∧ n.Answers (.configuration ⟨[0], [1]⟩) := by
  obtain ⟨⟨n, ws⟩, hparse, hread⟩ := exists_ok_of_any (x := Network.parse
    ("system:s\nevent:e\nint:1:-1:1:0:v\nprocess:P\nlocation:P:a\x7binitial:\x7d\n" ++
      "edge:P:a:a:e\x7bdo: v=v+1\x7d")) (p := fun y => ⟨[0], [0]⟩ ∈ y.1.starts ∧
    ⟨[0], [1]⟩ ∈ y.1.targets ⟨[0], [0]⟩) (by decide +kernel)
  obtain ⟨hstart, hstep⟩ := of_decide_eq_true hread
  have hv := Network.parse_valid hparse
  have hreached := (reached_of_starts hv hstart).step hv hstep
  exact ⟨n, ws, hparse, hreached, (reached_answers hparse).2.2.1 _ hreached⟩

end StateSpace
