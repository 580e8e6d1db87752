import StateSpace.Proofs.Kripke.Moves
import StateSpace.Proofs.Proposition.Rollback

/-!
# Calls of a structure to its dictionary

Building a structure, using it and closing it change the names of the dictionary by calls that can be
told beforehand. A structure registers names for its two parties only, and both are new when it is built.
-/

namespace StateSpace

open StateSpace.Action Registry

/-! ## Compiling -/

namespace PropositionList

theorem compileCalls_fresh (n : Network) (names : List String) (dead : Option String)
    (r : Registry) : ∀ c ∈ compileCalls n names dead r,
      ¬c.RegistersFor fun o => o.number ≤ r.lastOwner := by
  have hnew : ¬r.newOwner.1.number ≤ r.lastOwner := Nat.not_succ_le_self _
  intro c hc
  rcases List.mem_cons.1 hc with rfl | hc
  · exact id
  · rcases List.mem_append.1 hc with hc | hc
    · exact not_registersFor_registrations hnew c hc
    · split at hc
      · cases hc
      · rw [List.mem_singleton.1 hc]
        exact id

end PropositionList

/-! ## Structures -/

namespace Kripke

variable {ε : Type} {k k' : Kripke ε} {p : Owner}

/-- The parties of a structure. -/
def Party (k : Kripke ε) (o : Owner) : Prop := o = k.profile.owner ∨ o = k.profile.props.owner

instance (k : Kripke ε) : DecidablePred k.Party := fun _ => instDecidableOr

theorem party_congr (h : k'.profile = k.profile) : k'.Party p ↔ k.Party p := by
  unfold Party
  rw [h]

/-- The calls that end the life of a structure. -/
def closeCalls (k : Kripke ε) : List Call :=
  [.unregisterAll k.profile.owner, .unregisterAll k.profile.props.owner]

theorem not_registersFor_closeCalls {P : Owner → Prop} :
    ∀ c ∈ k.closeCalls, ¬c.RegistersFor P := by
  intro c hc
  rcases List.mem_cons.1 hc with rfl | hc
  · exact not_false
  · rw [List.mem_singleton.1 hc]
    exact not_false

/-- A structure that is closed holds no name any more. -/
theorem absent_closeCalls {r : Registry} (hp : k.Party p) : (r.replay k.closeCalls).Absent p := by
  obtain ⟨hself, hprops⟩ := r.absent_both k.profile.owner k.profile.props.owner
  rcases hp with rfl | rfl
  · exact hself
  · exact hprops

theorem close_run (k : Kripke ε) (d : Dictionary) :
    k.close d = .ok () { d with registry := d.registry.replay k.closeCalls } := rfl

/-- The calls for the markers of a policy. -/
def markerCalls (owner : Owner) : DeadPolicy → List Call
  | .labelled name => [.register name owner]
  | _ => []

theorem markers_registry (owner : Owner) (policy : DeadPolicy) (d : Dictionary) :
    ((markers owner policy).after d).registry = d.registry.replay (markerCalls owner policy) := by
  cases policy with
  | ignore => rfl
  | loop => rfl
  | labelled name =>
    have hreg : Dictionary.register name owner d = .ok (d.registry.register name owner).1
      { d with registry := (d.registry.register name owner).2 } := rfl
    unfold markers
    rw [after_bind_ok hreg]
    exact keeps_bind (Dictionary.keeps_registry _ _) (fun _ => keeps_pure _) _ rfl

theorem registerNames_registry (owner : Owner) (names : List String) (d : Dictionary) :
    registerNames owner names d =
      .ok () { d with registry := d.registry.replay (registrations owner names) } := by
  induction names generalizing d with
  | nil => rfl
  | cons name names ih => exact ih { d with registry := (d.registry.register name owner).2 }

/-- The calls of a structure whose propositions are compiled: its markers, then the names that it
observes. A structure without a pool gives its propositions up. -/
def finishCalls (id : Nat) (props : PropositionList) (names : List String) (o : Options)
    (d : Dictionary) : List Call :=
  .newOwner :: (markerCalls d.registry.newOwner.1 o.dead ++
    match markers d.registry.newOwner.1 o.dead ⟨d.diagram, d.registry.newOwner.2⟩,
      Pool.create id o.poolBits with
    | .error _ _, _ => []
    | .ok _ _, .error _ => [.unregisterAll props.owner]
    | .ok _ _, .ok _ => registrations d.registry.newOwner.1 (names ++ o.dead.name?.toList))

/-- The calls that building makes. -/
def createCalls [Engine ε] (id : Nat) (engine : ε) (names : List String) (o : Options)
    (d : Dictionary) : List Call :=
  PropositionList.compileCalls (Engine.network engine) names o.dead.name? d.registry ++
    match PropositionList.compile (Engine.network engine) names o.dead.name? d with
    | .ok (.ok props) d => finishCalls id props names o d
    | _ => []

theorem create_registry [Engine ε] (id : Nat) (engine : ε) (names : List String) (o : Options)
    (d : Dictionary) : ((create id engine names o).after d).registry =
      d.registry.replay (createCalls id engine names o d) := by
  obtain ⟨x, hcompile, -⟩ :=
    PropositionList.compile_run (Engine.network engine) names o.dead.name? d
  unfold createCalls create
  rw [replay_append, after_bind_ok hcompile, hcompile]
  generalize d.registry.replay _ = r
  cases x with
  | error ds => rfl
  | ok props =>
    have howner : Dictionary.newOwner ⟨d.diagram, r⟩ = .ok r.newOwner.1
      ⟨d.diagram, r.newOwner.2⟩ := rfl
    have hmarkers := markers_registry r.newOwner.1 o.dead ⟨d.diagram, r.newOwner.2⟩
    simp only [finishCalls]
    rw [after_bind_ok howner, ← List.cons_append, replay_append]
    cases hrun : markers r.newOwner.1 o.dead ⟨d.diagram, r.newOwner.2⟩ with
    | error e d₃ =>
      rw [after_error hrun] at hmarkers
      rw [after_error (bind_error hrun _), hmarkers]
      rfl
    | ok m d₃ =>
      rw [after_ok hrun] at hmarkers
      rw [after_bind_ok hrun]
      have hbefore : r.replay (.newOwner :: markerCalls r.newOwner.1 o.dead) = d₃.registry :=
        hmarkers.symm
      rw [hbefore]
      cases hpool : Pool.create id o.poolBits with
      | error e => rfl
      | ok pool =>
        simp only
        rw [after_bind_ok (registerNames_registry _ _ _)]
        rfl

theorem createCalls_fresh [Engine ε] (id : Nat) (engine : ε) (names : List String) (o : Options)
    (d : Dictionary) : ∀ c ∈ createCalls id engine names o d,
      ¬c.RegistersFor fun o => o.number ≤ d.registry.lastOwner := by
  obtain ⟨x, hcompile, -⟩ :=
    PropositionList.compile_run (Engine.network engine) names o.dead.name? d
  intro c hc
  unfold createCalls at hc
  rcases List.mem_append.1 hc with hc | hc
  · exact PropositionList.compileCalls_fresh _ _ _ _ c hc
  rw [hcompile] at hc
  cases x with
  | error ds => cases hc
  | ok props =>
    have hle : d.registry.lastOwner ≤ (d.registry.replay _).lastOwner :=
      lastOwner_le_replay _ (PropositionList.compileCalls (Engine.network engine) names
        o.dead.name? d.registry)
    simp only [finishCalls] at hc
    generalize d.registry.replay _ = r at hle hc
    have hnew : ¬r.newOwner.1.number ≤ d.registry.lastOwner :=
      Nat.not_le.2 (Nat.lt_succ_of_le hle)
    rcases List.mem_cons.1 hc with rfl | hc
    · exact not_false
    rcases List.mem_append.1 hc with hc | hc
    · unfold markerCalls at hc
      split at hc
      · rw [List.mem_singleton.1 hc]
        exact hnew
      · cases hc
    · split at hc
      · cases hc
      · rw [List.mem_singleton.1 hc]
        exact not_false
      · exact not_registersFor_registrations hnew c hc

/-- The parties of a new structure were not there before, and they are two. -/
theorem create_parties [Engine ε] {id : Nat} {engine : ε} {names : List String} {o : Options}
    {d d' : Dictionary} {k : Kripke ε} (hrun : create id engine names o d = .ok (.ok k) d') :
    ∀ p, k.Party p → d.registry.lastOwner < p.number ∧ p.number ≤ d'.registry.lastOwner := by
  obtain ⟨x, hcompile, hprops⟩ :=
    PropositionList.compile_run (Engine.network engine) names o.dead.name? d
  have hle : d.registry.newOwner.1.number ≤ (d.registry.replay (PropositionList.compileCalls
      (Engine.network engine) names o.dead.name? d.registry)).lastOwner :=
    lastOwner_le_replay d.registry.newOwner.2 _
  unfold create at hrun
  rw [bind_ok hcompile] at hrun
  generalize d.registry.replay _ = r at hle hrun
  cases x with
  | error ds => cases hrun
  | ok props =>
    have howner : Dictionary.newOwner ⟨d.diagram, r⟩ = .ok r.newOwner.1
      ⟨d.diagram, r.newOwner.2⟩ := rfl
    have hmarkers := markers_registry r.newOwner.1 o.dead ⟨d.diagram, r.newOwner.2⟩
    obtain ⟨_, d₂, hown, hrun⟩ := estate_bind_eq_ok.1 hrun
    cases hown.symm.trans howner
    obtain ⟨m, d₃, hmark, hrun⟩ := estate_bind_eq_ok.1 hrun
    rw [after_ok hmark] at hmarkers
    cases hpool : Pool.create id o.poolBits with
    | error e => rw [hpool] at hrun; cases hrun
    | ok pool =>
      rw [hpool] at hrun
      simp only at hrun
      rw [bind_ok (registerNames_registry _ _ _)] at hrun
      cases hrun
      have hlast : r.lastOwner + 1 ≤ (d₃.registry.replay
          (registrations r.newOwner.1 (names ++ o.dead.name?.toList))).lastOwner := by
        refine Nat.le_trans ?_ (lastOwner_le_replay _ _)
        rw [hmarkers]
        exact lastOwner_le_replay r.newOwner.2 _
      intro p hp
      rcases hp with rfl | rfl
      · exact ⟨Nat.lt_of_lt_of_le hle (Nat.le_succ _), hlast⟩
      · rw [show props.owner = d.registry.newOwner.1 from hprops.owner props rfl]
        exact ⟨Nat.lt_succ_self _, Nat.le_trans hle (Nat.le_trans (Nat.le_succ _) hlast)⟩

end Kripke

/-! ## Moves -/

/-- The names of the dictionary are these. -/
theorem steady_registry {ε : Type} (p : Profile) (r : Registry) :
    Steady p fun w : World ε => w.kripke.profile = p ∧ w.dict.registry = r :=
  steady_dict (J := fun d => d.registry = r)
    (PropositionList.keeps_condition (fun _ => Dictionary.keeps_registry _ r)
      (fun _ _ => Dictionary.keeps_registry _ r) p.props)
    fun _ _ => Dictionary.keeps_registry _ r

/-- The calls of a move to the names of the dictionary. -/
def Move.calls (o : Owner) : Move → List Registry.Call
  | observe name => [.register name o]
  | request q => q.calls
  | _ => []

/-- The names change by these calls only, whether the move faults or not. -/
theorem Move.registry_after {ε : Type} [Engine ε] (m : Move) (w : World ε) :
    (m.run.after w).kripke.profile = w.kripke.profile ∧
      (m.run.after w).dict.registry =
        w.dict.registry.replay (m.calls w.kripke.profile.owner) := by
  have hI := steady_registry (ε := ε) w.kripke.profile w.dict.registry
  have hw : w.kripke.profile = w.kripke.profile ∧ w.dict.registry = w.dict.registry := ⟨rfl, rfl⟩
  cases m with
  | observe name => exact ⟨rfl, rfl⟩
  | request q =>
    have hrun : ((request q).run.after w) = { w with dict := q.run.after w.dict } :=
      World.onDict_after q.run w
    rw [hrun]
    exact ⟨rfl, q.registry_after w.dict⟩
  | _ => exact Move.keeps hI _ (by rintro _ ⟨⟩) (by rintro _ ⟨⟩) w hw

end StateSpace
