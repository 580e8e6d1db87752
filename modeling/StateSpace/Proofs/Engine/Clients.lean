import StateSpace.Proofs.Engine.Interned

/-!
# Clients of a graph

Clients ask a graph for states, hold the objects that they get, copy and drop them, and tell the graph
to collect or not to. What is in use are the objects that some client holds. Whatever the clients did,
the graph is in order, an object that is held is interned, and so equal configurations that are held are
one object.
-/

namespace StateSpace

open StateSpace.Action

namespace Graph

/-- What clients of a graph do. -/
inductive Event where
  | initial
  | outgoing (s : EngineState)
  | collect
  | pause
  | resume
  | copy (position : Nat)
  | drop (position : Nat)

/-- A graph with the objects that its clients hold, each as often as there are references to it. -/
structure Served where
  graph : Graph
  held : List Shared

namespace Served

variable {w : Served}

/-- The tokens of the objects that clients hold. -/
def tokens (w : Served) : List Nat := w.held.map (·.token)

/-- What the graph is told when it may drop objects. -/
def inUse (w : Served) : InUse := fun _ => w.tokens

/-- A client asks the graph, and holds the objects of the answer if there is one. -/
def ask (w : Served) (x : Action Graph (List Shared)) : Served :=
  match x w.graph with
  | .ok objects g => ⟨g, objects ++ w.held⟩
  | .error _ g => ⟨g, w.held⟩

/-- The objects of the successors of a state. -/
def successors (w : Served) (s : EngineState) : Action Graph (List Shared) := do
  let items ← outgoing w.inUse s
  pure (items.map (·.1))

/-- The graph and its clients after an event. -/
def step (w : Served) : Event → Served
  | .initial => w.ask Graph.initial
  | .outgoing s => w.ask (w.successors s)
  | .collect => ⟨(w.graph.reclaim w.tokens).2, w.held⟩
  | .pause => ⟨w.graph.pause, w.held⟩
  | .resume => ⟨Graph.resume.after w.graph, w.held⟩
  | .copy i => ⟨w.graph, w.held[i]?.toList ++ w.held⟩
  | .drop i => ⟨w.graph, w.held.eraseIdx i⟩

/-- The graph of a network and its clients after a history. -/
def after (n : Network) (s : ZoneSemantics) (history : List Event) : Served :=
  history.foldl step ⟨create n s, []⟩

end Served

/-- The number of pauses after an event; to resume without a pause is refused. -/
def Event.pauses (k : Nat) : Event → Nat
  | .pause => k + 1
  | .resume => k - 1
  | _ => k

/-- How many more pauses there were in a history than times when one was taken back. -/
def depth (history : List Event) : Nat := history.foldl Event.pauses 0

/-! ## The invariant -/

namespace Served

variable {w : Served} {n : Network} {k : Nat} {o o' : Shared}

/-- The graph of a network is in order and paused so many times, and what is held is interned. -/
structure Sound (w : Served) (n : Network) (k : Nat) : Prop where
  interns : w.graph.Interns
  held : ∀ o ∈ w.held, w.graph.Has o
  network : w.graph.network = n
  paused : w.graph.paused = k

theorem create_sound (n : Network) (s : ZoneSemantics) : Sound ⟨create n s, []⟩ n 0 :=
  ⟨create_interns n s, by simp, rfl, rfl⟩

/-- The clients hold on to what they have, and to objects of the graph. -/
theorem Sound.withHeld (hw : w.Sound n k) {held : List Shared}
    (h : ∀ o ∈ held, o ∈ w.held) : Sound ⟨w.graph, held⟩ n k :=
  ⟨hw.interns, fun o ho => hw.held o (h o ho), hw.network, hw.paused⟩

/-- A graph that has grown still has what is held, and its answer may be held as well. -/
theorem Sound.grown (hw : w.Sound n k) {g : Graph} (hg : Grown w.graph g) {objects : List Shared}
    (h : ∀ o ∈ objects, g.Has o) : Sound ⟨g, objects ++ w.held⟩ n k where
  interns := hg.interns
  held o ho := (List.mem_append.1 ho).elim (h o) fun ho => hg.has (hw.held o ho)
  network := hg.kept.network.trans hw.network
  paused := hg.kept.paused.trans hw.paused

/-- Graphs that drop nothing in use still have what is held. -/
theorem Sound.withGraph (hw : w.Sound n k) {g : Graph} (hg : g.Interns) (hkept : w.graph.Kept g)
    (h : ∀ i ∈ w.graph.objects, i.token ∈ w.tokens → i ∈ g.objects) : Sound ⟨g, w.held⟩ n k where
  interns := hg
  held o ho := by
    obtain ⟨i, hi, rfl⟩ := hw.held o ho
    exact ⟨i, h i hi (List.mem_map.2 ⟨_, ho, rfl⟩), rfl⟩
  network := hkept.network.trans hw.network
  paused := hkept.paused.trans hw.paused

/-- An interned object is in use exactly if it is held. -/
theorem Sound.mem_tokens_iff (hw : w.Sound n k) {i : Interned} (hi : i ∈ w.graph.objects) :
    i.token ∈ w.tokens ↔ i.shared ∈ w.held := by
  refine ⟨fun h => ?_, fun h => List.mem_map.2 ⟨_, h, rfl⟩⟩
  obtain ⟨o, ho, htoken⟩ := List.mem_map.1 h
  obtain ⟨j, hj, rfl⟩ := hw.held o ho
  rwa [hw.interns.eq_of_token hi hj htoken.symm]

/-- Configurations that are held and equal are one object. -/
theorem Sound.eq_of_held (hw : w.Sound n k) (ho : o ∈ w.held) (ho' : o' ∈ w.held)
    (hl : o.state.locations = o'.state.locations) (hi : o.state.ints = o'.state.ints) : o = o' := by
  obtain ⟨i, hmem, rfl⟩ := hw.held o ho
  obtain ⟨j, hmem', rfl⟩ := hw.held o' ho'
  have hc : i.configuration = j.configuration := by
    cases i with | mk t c => cases j with | mk u c' => cases c; cases c'; exact congrArg₂ _ hl hi
  rw [hw.interns.eq_of_configuration hmem hmem' hc]

theorem Sound.ask_initial (hw : w.Sound n k) : (w.ask Graph.initial).Sound n k := by
  have hrun : Graph.initial w.graph =
      startObjects w.graph.network w.graph.network.startVectors w.graph := by
    unfold Graph.initial
    rw [bind_ok (get_apply _)]
  obtain ⟨hgrown, hhas⟩ := startObjects_grown hw.interns w.graph.network w.graph.network.startVectors
  unfold ask
  rw [hrun]
  cases h : startObjects w.graph.network w.graph.network.startVectors w.graph with
  | ok ss g =>
    rw [after_ok h] at hgrown
    exact hw.grown hgrown (hhas ss g h)
  | error e g =>
    rw [after_error h] at hgrown
    exact hw.grown hgrown (List.forall_mem_nil _)

/-- Reclaiming comes before the search, and spares what is held. -/
theorem Sound.ask_successors (hw : w.Sound n k) (s : EngineState) :
    (w.ask (w.successors s)).Sound n k := by
  obtain ⟨hinterns, hkept, hspared⟩ := reclaimIfDue_spec hw.interns w.inUse
  have h₁ := hw.withGraph hinterns hkept hspared
  have hanswers := outgoing_answers hw.interns w.inUse s
  unfold ask successors
  generalize w.graph.network.successors s = r at hanswers
  generalize hout : Graph.outgoing w.inUse s w.graph = out at hanswers
  cases hanswers with
  | told hgrown htells =>
    rw [bind_ok hout]
    refine h₁.grown hgrown fun o ho => ?_
    obtain ⟨x, hx, rfl⟩ := List.mem_map.1 ho
    exact htells.1 x hx
  | faulted hgrown =>
    rw [bind_error hout]
    exact h₁.grown hgrown (List.forall_mem_nil _)

theorem Sound.collect (hw : w.Sound n k) : (w.step .collect).Sound n k := by
  cases hp : w.graph.isPaused with
  | true =>
    show Sound ⟨(w.graph.reclaim w.tokens).2, w.held⟩ n k
    rw [reclaim_paused hp]
    exact hw
  | false =>
    have h := reclaim_spec hw.interns hp w.tokens
    refine hw.withGraph h.interns h.kept fun i hi ht => ?_
    exact h.objects.mem_iff.2 (List.mem_filter.2 ⟨hi, decide_eq_true ht⟩)

theorem after_resume (g : Graph) : resume.after g = { g with paused := g.paused - 1 } := by
  by_cases hp : g.paused = 0
  · have hrun : resume g = .error .notPaused g := if_pos hp
    rw [after_error hrun, hp, Nat.zero_sub, ← hp]
  · have hrun : resume g = .ok () { g with paused := g.paused - 1 } := if_neg hp
    rw [after_ok hrun]

/-- Every event keeps the graph in order, and counts the pauses. -/
theorem Sound.step (hw : w.Sound n k) (e : Event) : (w.step e).Sound n (e.pauses k) := by
  cases e with
  | initial => exact hw.ask_initial
  | outgoing s => exact hw.ask_successors s
  | collect => exact hw.collect
  | pause =>
    exact ⟨hw.interns.withControl _ _, hw.held, hw.network, congrArg (· + 1) hw.paused⟩
  | resume =>
    show Sound ⟨Graph.resume.after w.graph, w.held⟩ n (k - 1)
    rw [after_resume]
    exact ⟨hw.interns.withControl _ _, hw.held, hw.network, congrArg (· - 1) hw.paused⟩
  | copy i =>
    refine hw.withHeld fun o ho => ?_
    rcases List.mem_append.1 ho with ho | ho
    · exact List.mem_of_getElem? (Option.mem_toList.1 ho)
    · exact ho
  | drop i => exact hw.withHeld fun o ho => List.mem_of_mem_eraseIdx ho

theorem after_sound (n : Network) (s : ZoneSemantics) (history : List Event) :
    (after n s history).Sound n (depth history) := by
  have h : ∀ (w : Served) (k : Nat), w.Sound n k →
      (history.foldl Served.step w).Sound n (history.foldl Event.pauses k) := by
    induction history with
    | nil => exact fun _ _ hw => hw
    | cons e history ih => exact fun w k hw => ih _ _ (hw.step e)
  exact h _ 0 (create_sound n s)

/-- What is told about the successors of a state is in no way due to what clients did. -/
theorem Sound.outgoing_eq (hw : w.Sound n k) (s : EngineState) :
    ((Graph.outgoing w.inUse s).outcome w.graph).1.map (·.map fun x => (x.1.state, x.2)) =
      (n.successors s).map (·.map fun p => (.configuration p.1, p.2)) := by
  have h := outgoing_answers hw.interns w.inUse s
  rw [hw.network] at h
  unfold outcome
  generalize n.successors s = r at h ⊢
  generalize Graph.outgoing w.inUse s w.graph = out at h ⊢
  cases h with
  | told _ htells => exact congrArg Except.ok htells.2
  | faulted _ => rfl

end Served

/-- Whatever clients did with a graph: no configuration has two objects, each object is in the bucket
of its hash, and they are counted exactly. Equal configurations that are held are one object. To
collect drops exactly the objects that nobody holds and tells their number; while it is paused, nothing
happens. The configurations that are told as successors of a state, and the edges, depend on the network
and the state only. -/
theorem interned_once (n : Network) (semantics : ZoneSemantics) (history : List Event) :
    let w := Served.after n semantics history
    w.graph.Interns ∧
    (∀ o ∈ w.held, ∀ o' ∈ w.held, o.state.locations = o'.state.locations →
      o.state.ints = o'.state.ints → o = o') ∧
    (depth history = 0 →
      (w.graph.reclaim w.tokens).1 = (w.graph.objects.filter fun i => i.shared ∉ w.held).length ∧
      (w.graph.reclaim w.tokens).2.objects.Perm
        (w.graph.objects.filter fun i => i.shared ∈ w.held)) ∧
    (0 < depth history → w.graph.reclaim w.tokens = (0, w.graph)) ∧
    ∀ s, ((outgoing w.inUse s).outcome w.graph).1.map (·.map fun x => (x.1.state, x.2)) =
      (n.successors s).map (·.map fun p => (.configuration p.1, p.2)) := by
  intro w
  have hw : w.Sound n (depth history) := Served.after_sound n semantics history
  refine ⟨hw.interns, fun o ho o' ho' => hw.eq_of_held ho ho', fun hdepth => ?_, fun hdepth => ?_,
    hw.outgoing_eq⟩
  · have hp : w.graph.isPaused = false := by
      unfold isPaused
      rw [hw.paused, hdepth]
      rfl
    have h := reclaim_spec hw.interns hp w.tokens
    refine ⟨h.dropped.trans ?_, h.objects.trans (.of_eq ?_)⟩
    · exact congrArg List.length (List.filter_congr fun i hi =>
        decide_eq_decide.2 (not_congr (hw.mem_tokens_iff hi)))
    · exact List.filter_congr fun i hi => decide_eq_decide.2 (hw.mem_tokens_iff hi)
  · refine reclaim_paused ?_ w.tokens
    unfold isPaused
    rw [hw.paused]
    exact decide_eq_true hdepth

end Graph

end StateSpace
