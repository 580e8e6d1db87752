import StateSpace.Network.Declaration
import StateSpace.Proofs.Expr.Scope
import StateSpace.Proofs.Network.Coherent

/-!
# Valid networks

In a valid network all numbers are in range: its tables agree, expressions mention declared variables
and clocks, and synchronisations name declared processes and events. A declaration that is in scope
keeps a network valid, so what `parse` accepts is valid.
-/

namespace StateSpace.Network

variable {n n' : Network} {p l i : Nat}

/-- An expression over the variables and clocks of the network. -/
def InScope (n : Network) (e : Expr) : Prop := e.Within n.ints.size n.clocks.size

/-- The guard and the updates of the edge are in scope. -/
def EdgeInScope (n : Network) (e : Edge) : Prop :=
  n.InScope e.guard ∧ ∀ u ∈ e.updates, u.Within n.ints.size n.clocks.size

/-- All numbers that expressions and synchronisations mention are in range. -/
structure Scoped (n : Network) : Prop where
  invariant : ∀ (i : Nat) (l : Location), n.locations[i]? = some l → n.InScope l.invariant
  edgeInScope : ∀ (i : Nat) (e : Edge), n.edges[i]? = some e → n.EdgeInScope e
  sync : ∀ s ∈ n.syncs, ∀ c ∈ s, c.1 < n.processes.size ∧ c.2 < n.events.size

/-- All numbers in the network are in range. -/
structure Valid (n : Network) : Prop extends Coherent n, Scoped n

theorem empty_valid (name : String) : Valid { name } where
  toCoherent := empty_coherent name
  invariant i l h := by simp at h
  edgeInScope i e h := by simp at h
  sync s h := by cases h

theorem Valid.resolves (_ : n.Valid) : Resolves n.ints.size n.clocks.size n.resolve where
  int name id h := by
    unfold resolve at h
    cases hf : n.ints.find? name with
    | some j =>
      rw [hf] at h
      cases h
      exact NameTable.find?_lt hf
    | none =>
      rw [hf] at h
      cases hc : n.clocks.find? name with
      | some j =>
        rw [hc] at h
        cases h
      | none =>
        rw [hc] at h
        cases h
  clock name id h := by
    unfold resolve at h
    cases hf : n.ints.find? name with
    | some j =>
      rw [hf] at h
      cases h
    | none =>
      rw [hf] at h
      cases hc : n.clocks.find? name with
      | some j =>
        rw [hc] at h
        cases h
        exact NameTable.find?_lt hc
      | none =>
        rw [hc] at h
        cases h

/-! ## Declarations -/

/-- Nothing is lost on the way to `n'`: what was in range stays so. -/
structure Le (n n' : Network) : Prop where
  processes : n.processes.size ≤ n'.processes.size
  events : n.events.size ≤ n'.events.size
  ints : n.ints.size ≤ n'.ints.size
  clocks : n.clocks.size ≤ n'.clocks.size

theorem InScope.mono {e : Expr} (h : n.InScope e) (hle : Le n n') : n'.InScope e :=
  Expr.Within.mono h hle.ints hle.clocks

theorem EdgeInScope.mono {e : Edge} (h : n.EdgeInScope e) (hle : Le n n') : n'.EdgeInScope e :=
  ⟨h.1.mono hle, fun u hu => (h.2 u hu).mono hle.ints hle.clocks⟩

/-- Tables of names grow; the rest stays. -/
theorem Scoped.extend (hs : n.Scoped) (hle : Le n n') (hl : n'.locations = n.locations)
    (he : n'.edges = n.edges) (hsyncs : n'.syncs = n.syncs) : n'.Scoped where
  invariant i l h := (hs.invariant i l (hl ▸ h)).mono hle
  edgeInScope i e h := (hs.edgeInScope i e (he ▸ h)).mono hle
  sync s h c hc := by
    have := hs.sync s (hsyncs ▸ h) c hc
    exact ⟨Nat.lt_of_lt_of_le this.1 hle.processes, Nat.lt_of_lt_of_le this.2 hle.events⟩

theorem addEvent_valid {name : String} {id : Nat} (hv : n.Valid) (h : addEvent name n = .ok id n') :
    n'.Valid := by
  refine ⟨addEvent_coherent hv.toCoherent h, ?_⟩
  unfold addEvent at h
  split at h
  · rename_i hadd
    cases h
    refine hv.toScoped.extend ⟨Nat.le_refl _, ?_, Nat.le_refl _, Nat.le_refl _⟩ rfl rfl rfl
    exact Nat.le_of_lt (by simp only [NameTable.size_add? hadd]; omega)
  · cases h

theorem addProcess_valid {name : String} {id : Nat} (hv : n.Valid)
    (h : addProcess name n = .ok id n') : n'.Valid := by
  refine ⟨addProcess_coherent hv.toCoherent h, ?_⟩
  unfold addProcess at h
  split at h
  · rename_i hadd
    cases h
    refine hv.toScoped.extend ⟨?_, Nat.le_refl _, Nat.le_refl _, Nat.le_refl _⟩ rfl rfl rfl
    exact Nat.le_of_lt (by simp only [NameTable.size_add? hadd]; omega)
  · cases h

theorem addClock_valid {name : String} {id : Nat} (hv : n.Valid) (h : addClock name n = .ok id n') :
    n'.Valid := by
  refine ⟨addClock_coherent hv.toCoherent h, ?_⟩
  unfold addClock at h
  split at h
  · cases h
  · split at h
    · rename_i hadd
      cases h
      refine hv.toScoped.extend ⟨Nat.le_refl _, Nat.le_refl _, Nat.le_refl _, ?_⟩ rfl rfl rfl
      exact Nat.le_of_lt (by simp only [NameTable.size_add? hadd]; omega)
    · cases h

theorem addVariable_valid {name : String} {d : Domain} {id : Nat} (hv : n.Valid)
    (h : addVariable name d n = .ok id n') : n'.Valid := by
  refine ⟨addVariable_coherent hv.toCoherent h, ?_⟩
  unfold addVariable at h
  split at h
  · cases h
  · split at h
    · cases h
    · split at h
      · rename_i hadd
        cases h
        refine hv.toScoped.extend ⟨Nat.le_refl _, Nat.le_refl _, ?_, Nat.le_refl _⟩ rfl rfl rfl
        exact Nat.le_of_lt (by simp only [NameTable.size_add? hadd]; omega)
      · cases h

theorem addLocation_valid {l : Location} {id : Nat} (hv : n.Valid) (hin : n.InScope l.invariant)
    (h : addLocation l n = .ok id n') : n'.Valid := by
  refine ⟨addLocation_coherent hv.toCoherent h, ?_⟩
  unfold addLocation at h
  split at h
  · cases h
  split at h
  · cases h
  cases h
  refine ⟨fun i loc hi => ?_, hv.edgeInScope, hv.sync⟩
  rw [Array.getElem?_push] at hi
  split at hi
  · cases hi
    exact hin
  · exact hv.invariant i loc hi

theorem addEdge_valid {e : Edge} {id : Nat} (hv : n.Valid) (hin : n.EdgeInScope e)
    (h : addEdge e n = .ok id n') : n'.Valid := by
  refine ⟨addEdge_coherent hv.toCoherent h, ?_⟩
  unfold addEdge at h
  split at h
  · cases h
  split at h
  · cases h
  cases h
  refine ⟨hv.invariant, fun i e' hi => ?_, hv.sync⟩
  rw [Array.getElem?_push] at hi
  split at hi
  · cases hi
    exact hin
  · exact hv.edgeInScope i e' hi

theorem addSync_valid {cs : List (Nat × Nat)} (hv : n.Valid)
    (hcs : ∀ c ∈ cs, c.1 < n.processes.size ∧ c.2 < n.events.size)
    (h : addSync cs n = .ok () n') : n'.Valid := by
  refine ⟨addSync_coherent hv.toCoherent h, ?_⟩
  obtain ⟨_, n₁, hmark, h⟩ := estate_bind_eq_ok.1 h
  obtain ⟨pairs, rfl, -⟩ := markSynchronized_eq hmark
  cases h
  refine ⟨hv.invariant, hv.edgeInScope, fun s hs c hc => ?_⟩
  rcases List.mem_append.1 hs with hs | hs
  · exact hv.sync s hs c hc
  · rw [List.mem_singleton.1 hs] at hc
    exact hcs c hc

end StateSpace.Network
