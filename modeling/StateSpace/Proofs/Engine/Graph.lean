import StateSpace.Engine.Graph
import StateSpace.Proofs.Step

/-!
# Lawful engines

What a structure relies on in its engine: states have the shape of the network, asking for them never
faults, and the network stays the same. The graph of a valid network is such an engine, and the
successors that it tells depend on the configuration only, not on what it interned before.
-/

namespace StateSpace

open StateSpace.Action

/-- An engine whose calls do not fault on states that are proper to its network. -/
class LawfulEngine (ε : Type) [Engine ε] where
  /-- The engine is in order. -/
  Good : ε → Prop
  /-- The state is one of the engine's for a network. -/
  Proper : Network → EngineState → Prop
  shape : ∀ {n s}, Proper n s → n.processes.size ≤ s.locations.length ∧ n.ints.size ≤ s.ints.length
  initial : ∀ {e : ε}, Good e → Ensures Engine.initial e fun ss e' => Good e' ∧
    Engine.network e' = Engine.network e ∧ ∀ s ∈ ss, Proper (Engine.network e) s.state
  outgoing : ∀ {e : ε} {s} (inUse : InUse), Good e → Proper (Engine.network e) s →
    Ensures (Engine.outgoing inUse s) e fun items e' => Good e' ∧
      Engine.network e' = Engine.network e ∧ ∀ x ∈ items, Proper (Engine.network e) x.1.state
  formatState : ∀ {e : ε} {s}, Good e → Proper (Engine.network e) s →
    ∃ t, Engine.formatState e s = .ok t
  reclaim : ∀ {e : ε} (tokens : List Nat), Good e → Good (Engine.reclaim tokens e).2 ∧
    Engine.network (Engine.reclaim tokens e).2 = Engine.network e
  pause : ∀ {e : ε}, Good e → Good (Engine.pause e) ∧
    Engine.network (Engine.pause e) = Engine.network e
  resume : ∀ {e e' : ε}, Good e → Engine.resume e = .ok () e' → Good e' ∧
    Engine.network e' = Engine.network e

/-! ## Steps -/

namespace Network

variable {n : Network} {c : Configuration}

/-- The configuration that edges lead to, if they can be taken. -/
def target? (n : Network) (c : Configuration) (es : List Edge) : Option Configuration :=
  match n.fire c es with
  | .ok r => r
  | .error _ => none

/-- The configurations that one step leads to, with the edges taken. -/
def steps (n : Network) (c : Configuration) : List (Configuration × Transition) :=
  match n.candidates c with
  | .ok ess => ess.filterMap fun es => (n.target? c es).map (·, es.map (·.id))
  | .error _ => []

/-- The configurations that one step leads to. -/
def targets (n : Network) (c : Configuration) : List Configuration := (n.steps c).map Prod.fst

theorem admits_of_steps (hv : n.Valid) (hc : n.Admits c) {x : Configuration × Transition}
    (hx : x ∈ n.steps c) : n.Admits x.1 := by
  obtain ⟨ess, hess, hdecl⟩ := candidates_spec hv hc.locations
  unfold steps at hx
  rw [hess] at hx
  obtain ⟨es, hes, hmap⟩ := List.mem_filterMap.1 hx
  obtain ⟨c', hc', rfl⟩ := Option.map_eq_some_iff.1 hmap
  obtain ⟨r, hr⟩ := exists_fire hv hc.hasShape (hdecl es hes)
  unfold target? at hc'
  rw [hr] at hc'
  dsimp only at hc'
  rw [hc'] at hr
  exact admits_of_fire hv hc (hdecl es hes) hr

/-- The configurations that the network starts in: the invariants hold there. -/
def starts (n : Network) : List Configuration :=
  (n.startVectors.map fun ls => ⟨ls, n.startValues⟩).filter fun c =>
    match n.invariantsHold c.ints c.locations with
    | .ok b => b
    | .error _ => false

theorem admits_of_starts (hv : n.Valid) (hc : c ∈ n.starts) : n.Admits c := by
  obtain ⟨ls, hls, rfl⟩ := List.mem_map.1 (List.mem_filter.1 hc).1
  exact ⟨startVectors_isVector hv hls, startValues_isRow hv⟩

theorem exists_formatState (hc : n.Admits c) :
    ∃ t, n.formatState (.configuration c) = .ok t := by
  obtain ⟨ls, hls⟩ : ∃ ls, (List.range n.processes.size).mapM
      (n.locationName (.configuration c)) = .ok ls := by
    refine exists_mapM_ok fun p hp => ?_
    have hlt : p < c.locations.length := by
      rw [hc.locations.length]
      exact List.mem_range.1 hp
    obtain ⟨loc, hloc⟩ := hc.locations.exists_location (List.getElem_mem hlt)
    refine ⟨loc.name, except_bind_eq_ok.2 ⟨c.locations[p], ?_, ?_⟩⟩
    · show item c.locations p = _
      unfold item
      rw [List.getElem?_eq_getElem hlt]
    · simp only [hloc]
  obtain ⟨vs, hvs⟩ : ∃ vs, n.ints.names.toList.zipIdx.mapM (valueText (.configuration c)) = .ok vs := by
    refine exists_mapM_ok fun x hx => ?_
    have hlt : x.2 < c.ints.length := by
      have := List.snd_lt_of_mem_zipIdx hx
      rw [hc.ints.length]
      simpa [NameTable.size] using this
    refine ⟨_, except_bind_eq_ok.2 ⟨c.ints[x.2], ?_, rfl⟩⟩
    show item c.ints x.2 = _
    unfold item
    rw [List.getElem?_eq_getElem hlt]
  exact ⟨_, except_bind_eq_ok.2 ⟨ls, hls, except_bind_eq_ok.2 ⟨vs, hvs, rfl⟩⟩⟩

end Network

/-! ## The graph of a network -/

namespace Graph

variable {n : Network} {g : Graph} {c : Configuration}

/-- What calls of a graph leave as it is. -/
structure Kept (g g' : Graph) : Prop where
  network : g'.network = g.network
  paused : g'.paused = g.paused

theorem Kept.refl (g : Graph) : Kept g g := ⟨rfl, rfl⟩

theorem Kept.trans {g₁ g₂ g₃ : Graph} (h : Kept g₁ g₂) (h' : Kept g₂ g₃) : Kept g₁ g₃ :=
  ⟨h'.network.trans h.network, h'.paused.trans h.paused⟩

/-- The object of a configuration has this configuration as its state. -/
theorem intern_spec (c : Configuration) (g : Graph) : Ensures (intern c) g fun s g' =>
    s.state = .configuration c ∧ g.Kept g' := by
  obtain ⟨network, semantics, interned, count, threshold, paused, nextToken⟩ := g
  cases hf : (interned.getD c.hash []).find? (·.configuration = c) with
  | some i =>
    refine ⟨i.shared, ⟨network, semantics, interned, count, threshold, paused, nextToken⟩, ?_, ?_,
      .refl _⟩
    · simp only [intern, hf]
    · have := List.find?_some hf
      rw [decide_eq_true_iff] at this
      rw [← this]
      rfl
  | none =>
    have hrun : intern c ⟨network, semantics, interned, count, threshold, paused, nextToken⟩ =
        .ok (Interned.shared ⟨nextToken, c⟩)
          ⟨network, semantics, interned.insert c.hash (interned.getD c.hash [] ++ [⟨nextToken, c⟩]),
            count + 1, threshold, paused, nextToken + 1⟩ := by
      simp only [intern, hf]
    exact ⟨_, _, hrun, rfl, rfl, rfl⟩

theorem fireAll_spec (hv : n.Valid) (hc : n.HasShape c) {ess : List (List Network.Edge)}
    (hdecl : n.AllDeclared ess) (g : Graph) :
    Ensures (fireAll n c ess) g fun items g' => g.Kept g' ∧
      items.map (fun x => (x.1.state, x.2)) =
        ess.filterMap fun es => (n.target? c es).map fun c' => (.configuration c', es.map (·.id)) := by
  induction ess generalizing g with
  | nil => exact Ensures.pure ⟨.refl g, rfl⟩
  | cons es ess ih =>
    obtain ⟨r, hr⟩ := Network.exists_fire hv hc (hdecl es List.mem_cons_self)
    have ih := ih (fun es' hes' => hdecl es' (List.mem_cons_of_mem _ hes'))
    have htarget : n.target? c es = r := by
      unfold Network.target?
      rw [hr]
    rw [fireAll, List.filterMap_cons, htarget]
    refine .of_ok (ofExcept_ok hr g) ?_
    cases r with
    | none => exact ih g
    | some c' =>
      refine (intern_spec c' g).bind fun s g₁ ⟨hs, hk⟩ => (ih g₁).bind fun items g₂ ⟨hk', hitems⟩ =>
        Ensures.pure ⟨hk.trans hk', ?_⟩
      simp only [List.map_cons, hitems, hs, Option.map_some]

theorem startObjects_spec (hv : n.Valid) {vs : List (List Nat)} (hvs : ∀ ls ∈ vs, n.IsVector ls)
    (g : Graph) : Ensures (startObjects n vs) g fun ss g' => g.Kept g' ∧
      ss.map (·.state) = ((vs.map fun ls => (⟨ls, n.startValues⟩ : Configuration)).filter fun c =>
        match n.invariantsHold c.ints c.locations with
        | .ok b => b
        | .error _ => false).map .configuration := by
  induction vs generalizing g with
  | nil => exact Ensures.pure ⟨.refl g, rfl⟩
  | cons ls vs ih =>
    have hls := hvs ls List.mem_cons_self
    obtain ⟨b, hb⟩ := Network.exists_invariantsHold hv (Network.startValues_isRow hv).length
      fun l hl => hls.exists_location hl
    have ih := ih (fun ls' hls' => hvs ls' (List.mem_cons_of_mem _ hls'))
    rw [startObjects, List.map_cons, List.filter_cons]
    refine .of_ok (ofExcept_ok hb g) ?_
    simp only [hb]
    cases b with
    | false => exact ih g
    | true =>
      refine (intern_spec _ g).bind fun s g₁ ⟨hs, hk⟩ => (ih g₁).bind fun ss g₂ ⟨hk', hss⟩ =>
        Ensures.pure ⟨hk.trans hk', ?_⟩
      simp only [List.map_cons, hss, hs, if_true]

theorem kept_reclaim (tokens : List Nat) (g : Graph) : g.Kept (g.reclaim tokens).2 := by
  unfold reclaim
  split <;> exact ⟨rfl, rfl⟩

theorem kept_reclaimIfDue (inUse : InUse) (g : Graph) : g.Kept (g.reclaimIfDue inUse) := by
  unfold reclaimIfDue
  split
  · exact .refl g
  · exact (kept_reclaim _ g).trans ⟨rfl, rfl⟩

/-- What a graph tells as successors depends on the configuration only. -/
theorem outgoing_steps (hv : g.network.Valid) (hc : g.network.HasShape c) (inUse : InUse) :
    Ensures (outgoing inUse (.configuration c)) g fun items g' => g.Kept g' ∧
      items.map (fun x => (x.1.state, x.2)) =
        (g.network.steps c).map fun p => (.configuration p.1, p.2) := by
  obtain ⟨ess, hess, hdecl⟩ := Network.candidates_spec hv hc.locations
  have hkept := kept_reclaimIfDue inUse g
  have hconf : g.network.configurationOf (.configuration c) = .ok c := rfl
  obtain ⟨items, g', hrun, hk, hitems⟩ := fireAll_spec hv hc hdecl (g.reclaimIfDue inUse)
  refine ⟨items, g', ?_, hkept.trans hk, ?_⟩
  · unfold outgoing
    rw [bind_ok (modify_apply _ _), bind_ok (get_apply _), hkept.network,
      bind_ok (ofExcept_ok hconf _), bind_ok (ofExcept_ok hess _)]
    exact hrun
  · rw [hitems]
    unfold Network.steps
    rw [hess, List.map_filterMap]
    congr 1
    funext es
    rw [Option.map_map]
    rfl

theorem outgoing_spec (hv : g.network.Valid) (hc : g.network.Admits c) (inUse : InUse) :
    Ensures (outgoing inUse (.configuration c)) g fun items g' => g.Kept g' ∧
      items.map (fun x => (x.1.state, x.2)) =
        (g.network.steps c).map fun p => (.configuration p.1, p.2) :=
  outgoing_steps hv hc.hasShape inUse

theorem outgoing_targets (hv : g.network.Valid) (hc : g.network.Admits c) (inUse : InUse) :
    Ensures (outgoing inUse (.configuration c)) g fun items g' => g.Kept g' ∧
      items.map (fun x => x.1.state) = (g.network.targets c).map .configuration := by
  refine (outgoing_spec hv hc inUse).mono fun items g' ⟨hk, hitems⟩ => ⟨hk, ?_⟩
  have hstates := congrArg (List.map Prod.fst) hitems
  rw [List.map_map, List.map_map] at hstates
  unfold Network.targets
  rw [List.map_map]
  exact hstates

theorem initial_spec (hv : g.network.Valid) : Ensures initial g fun ss g' =>
    g.Kept g' ∧ ss.map (·.state) = g.network.starts.map .configuration := by
  obtain ⟨ss, g', hrun, hk, hss⟩ := startObjects_spec hv
    (fun ls => Network.startVectors_isVector hv) g
  refine ⟨ss, g', ?_, hk, hss⟩
  unfold initial
  rw [bind_ok (get_apply _)]
  exact hrun

instance : LawfulEngine Graph where
  Good g := g.network.Valid
  Proper n s := ∃ c, s = .configuration c ∧ n.Admits c
  shape := by
    rintro n s ⟨c, rfl, hc⟩
    exact ⟨Nat.le_of_eq hc.locations.length.symm, Nat.le_of_eq hc.ints.length.symm⟩
  initial := by
    intro g hv
    refine (initial_spec hv).mono fun ss g' ⟨hk, hss⟩ =>
      ⟨by rwa [hk.network], hk.network, fun s hs => ?_⟩
    have hmem : s.state ∈ g.network.starts.map .configuration := hss ▸ List.mem_map_of_mem hs
    obtain ⟨c, hc, hcs⟩ := List.mem_map.1 hmem
    exact ⟨c, hcs.symm, Network.admits_of_starts hv hc⟩
  outgoing := by
    rintro g s inUse hv ⟨c, rfl, hc⟩
    refine (outgoing_spec hv hc inUse).mono fun items g' ⟨hk, hitems⟩ =>
      ⟨by rwa [hk.network], hk.network, fun x hx => ?_⟩
    have hmem : (x.1.state, x.2) ∈ (g.network.steps c).map fun p => (.configuration p.1, p.2) :=
      hitems ▸ List.mem_map.2 ⟨x, hx, rfl⟩
    obtain ⟨p, hp, hpx⟩ := List.mem_map.1 hmem
    exact ⟨p.1, (congrArg Prod.fst hpx).symm, Network.admits_of_steps hv hc hp⟩
  formatState := by
    rintro g s hv ⟨c, rfl, hc⟩
    exact Network.exists_formatState hc
  reclaim := by
    intro g tokens hv
    have hn := (kept_reclaim tokens g).network
    exact ⟨by rw [show Engine.reclaim tokens g = g.reclaim tokens from rfl, hn]; exact hv, hn⟩
  pause := fun hv => ⟨hv, rfl⟩
  resume := by
    intro g g' hv h
    replace h : (if g.paused = 0 then EStateM.Result.error Fault.notPaused g
      else .ok () { g with paused := g.paused - 1 }) = .ok () g' := h
    split at h
    · cases h
    · cases h
      exact ⟨hv, rfl⟩

end Graph

end StateSpace
