import StateSpace.Kripke.Basic
import StateSpace.Proofs.Engine.Graph
import StateSpace.Proofs.Pool.Balance
import StateSpace.Proofs.Proposition.Compile

/-!
# New structures

What is fixed when a structure is built stays true whatever other parties ask of the dictionary: its
propositions are compiled, and its markers are those of its policy. The party of the structure holds
the name of dead states, and that of its propositions holds the other names.
-/

namespace StateSpace

open StateSpace.Action

variable {ε : Type} {n : Network} {d d' : Dictionary} {p : Profile} {owner : Owner}

/-! ## What is fixed -/

/-- The condition on the edges of dead states, or on those of the others. -/
def Profile.marker (p : Profile) (dead : Bool) : Edge := if dead then p.dead else p.alive

/-- The markers say what the policy asks for. -/
def Marked (d : Dictionary) (owner : Owner) (alive dead : Edge) : DeadPolicy → Prop
  | .ignore => alive = .one ∧ dead = .zero
  | .loop => alive = .one ∧ dead = .one
  | .labelled name => ∃ v, d.registry.Holds owner name v ∧ alive = -dead ∧ d.diagram.Stored dead ∧
      d.diagram.Ordered 0 dead ∧ ∀ a, d.diagram.value a dead = a v

/-- The propositions are compiled from some names, and the markers are those of the policy. -/
structure Profile.Sound (n : Network) (d : Dictionary) (p : Profile) : Prop where
  props : ∃ names, PropositionList.Compiled n d.registry
    (PropositionList.compiledNames names p.policy.name?) p.props
  markers : Marked d p.owner p.alive p.dead p.policy

theorem Marked.kept {alive dead : Edge} {policy : DeadPolicy} {spared : Owner → Prop}
    (h : Marked d owner alive dead policy) (hd : d.Sound)
    (hk : Dictionary.Request.Kept d spared d') (ho : spared owner) :
    Marked d' owner alive dead policy := by
  cases policy with
  | ignore => exact h
  | loop => exact h
  | labelled name =>
    obtain ⟨v, hv, hneg, hstored, horder, hval⟩ := h
    have h0 := hd.diagram.toShaped
    refine ⟨v, hk.holds owner ho name v hv, hneg, hstored.mono h0 hk.extend, horder.extends hk.extend,
      fun a => ?_⟩
    rw [Manager.value_extends hstored h0 hk.sound.diagram.toShaped hk.extend, hval]

/-- Requests that spare both parties of a structure keep what is fixed. -/
theorem Profile.Sound.kept {spared : Owner → Prop} (h : p.Sound n d) (hd : d.Sound)
    (hk : Dictionary.Request.Kept d spared d') (ho : spared p.owner) (hp : spared p.props.owner) :
    p.Sound n d' := by
  obtain ⟨⟨names, hc⟩, hm⟩ := h
  exact ⟨⟨names, hc.mono fun name v => hk.holds _ hp name v⟩, hm.kept hd hk ho⟩

theorem Profile.Sound.inOrder (h : p.Sound n d) (hd : d.Sound) {q : Proposition}
    (hq : q ∈ p.props.records) : Manager.Call.InOrder q.var := by
  obtain ⟨names, hc⟩ := h.props
  obtain ⟨name, -, -, hholds⟩ := hc.exists_name hq
  exact hholds.var_bounds hd.registry

/-- Every proposition has a truth value on the states of an engine for the network. -/
theorem Profile.Sound.exists_holds (h : p.Sound n d) {s : EngineState}
    (hs : n.processes.size ≤ s.locations.length ∧ n.ints.size ≤ s.ints.length) {q : Proposition}
    (hq : q ∈ p.props.records) : ∃ b, q.atom.holds s = .ok b := by
  obtain ⟨names, hc⟩ := h.props
  obtain ⟨name, -, hparse, -⟩ := hc.exists_name hq
  exact Atom.exists_holds (Atom.parse_within hparse) hs

/-- The variable of dead states is none of a proposition's. -/
theorem Profile.Sound.var_ne (h : p.Sound n d) {name : String}
    (hp : p.policy = .labelled name) {v : UInt32} (hv : d.registry.Holds owner name v)
    {q : Proposition} (hq : q ∈ p.props.records) : q.var ≠ v := by
  rintro rfl
  obtain ⟨names, hc⟩ := h.props
  obtain ⟨name', hname', -, hholds⟩ := hc.exists_name hq
  rw [hholds.name_unique hv, hp] at hname'
  have := (List.mem_filter.1 hname').2
  rw [decide_eq_true_iff] at this
  exact this rfl

theorem Profile.Sound.vars_nodup (h : p.Sound n d) :
    (p.props.records.map (·.var)).Nodup := by
  obtain ⟨names, hc⟩ := h.props
  exact hc.vars_nodup (PropositionList.compiledNames_nodup _ _)

/-! ## Building -/

namespace Kripke

theorem grows_registerNames (owner : Owner) (names : List String) :
    Grows (registerNames owner names) := by
  induction names with
  | nil => exact grows_pure _
  | cons name names ih => exact grows_bind (Dictionary.grows_onRegistry _) fun _ => ih

/-- Registering names that are in use already costs no variable. -/
theorem registerNames_spec (hd : d.Sound) (owner : Owner) {names : List String}
    (h : ∀ name ∈ names, ∃ o v, d.registry.Holds o name v) :
    Ensures (registerNames owner names) d fun _ d' => PropositionList.Registering d 0 d' := by
  induction names generalizing d with
  | nil => exact Ensures.pure (.refl hd)
  | cons name names ih =>
    obtain ⟨o, v, hv⟩ := h name List.mem_cons_self
    refine (Dictionary.register_again_spec hd ⟨o, v, hv⟩ owner).bind fun v' d₁ ⟨hdiag, hreg⟩ => ?_
    have hreg₁ : PropositionList.Registering d 0 d₁ := by
      refine ⟨⟨by rw [hdiag]; exact hd.diagram, hreg.valid⟩, hdiag, ?_,
        fun o' name' v' h => (hreg.holds o' name' v').2 (.inl h)⟩
      rw [hreg.next_eq ⟨o, v, hv⟩]
      exact Nat.le_refl _
    refine (ih hreg₁.sound fun name' hname' => ?_).mono fun _ d' hreg' =>
      hreg₁.trans hreg' (Nat.le_refl _)
    obtain ⟨o', v', hv'⟩ := h name' (List.mem_cons_of_mem _ hname')
    exact ⟨o', v', hreg₁.holds o' name' v' hv'⟩

/-- The markers of a policy; a name for dead states is registered. -/
theorem markers_spec (hd : d.Sound) (hroom : d.HasRoom) (owner : Owner) (policy : DeadPolicy) :
    EnsuresFit (markers owner policy) d fun m d' => Marked d' owner m.1 m.2 policy ∧
      Dictionary.Request.Kept d (fun _ => True) d' := by
  cases policy with
  | ignore => exact EnsuresFit.pure ⟨⟨rfl, rfl⟩, .refl hd _⟩
  | loop => exact EnsuresFit.pure ⟨⟨rfl, rfl⟩, .refl hd _⟩
  | labelled name =>
    obtain ⟨v, d₁, hrun, hreg, hholds⟩ := PropositionList.register_registering hd hroom name owner
    refine .of_ok hrun ?_
    have hv := hholds.var_bounds hreg.sound.registry
    refine (Dictionary.onDiagram_spec (Manager.var_spec hreg.sound.diagram hv.1 hv.2)).bind
      (fun _ => grows_pure _) fun x d₂ ⟨⟨hgrown, hval, horder⟩, hreg₂⟩ => EnsuresFit.pure ?_
    refine ⟨⟨v, by rwa [hreg₂], rfl, hgrown.stored, horder.anti (Nat.zero_le _), hval⟩,
      hreg.kept.trans ?_⟩
    exact .of_grown hreg.sound hgrown hreg₂ _

/-- The names that a structure observes are those of its propositions and that of dead states. -/
theorem allNames_held {names : List String} {props : PropositionList} {alive dead : Edge}
    {policy : DeadPolicy} (hc : PropositionList.Compiled n d.registry
      (PropositionList.compiledNames names policy.name?) props)
    (hm : Marked d owner alive dead policy) :
    ∀ name ∈ names ++ policy.name?.toList, ∃ o v, d.registry.Holds o name v := by
  have hdead : ∀ name, policy.name? = some name → ∃ o v, d.registry.Holds o name v := by
    intro name hname
    cases policy with
    | ignore => cases hname
    | loop => cases hname
    | labelled name' =>
      cases hname
      obtain ⟨v, hv, -⟩ := hm
      exact ⟨owner, v, hv⟩
  intro name hname
  by_cases hd : some name = policy.name?
  · exact hdead name hd.symm
  · rcases List.mem_append.1 hname with hname | hname
    · have hmem : name ∈ PropositionList.compiledNames names policy.name? :=
        List.mem_filter.2 ⟨PropositionList.mem_distinctNames.2 hname, by rwa [decide_eq_true_iff]⟩
      obtain ⟨v, hv⟩ := hc.exists_holds hmem
      exact ⟨_, v, hv⟩
    · exact absurd (Option.mem_toList.1 hname).symm hd

/-- A structure that was just built. -/
structure New [Engine ε] (engine : ε) (id : Nat) (o : Options) (d : Dictionary) (k : Kripke ε) :
    Prop where
  profile : k.profile.Sound (Engine.network engine) d
  policy : k.profile.policy = o.dead
  engine : k.engine = engine
  pool : k.pool.Sound
  id : k.pool.id = id
  vacant : ∀ s, k.pool.slot? s = none
  retired : k.retired = none
  sessions : k.sessions = 0

/-- Building ends; if it succeeds, the structure is as it should be, with an empty pool, and no party
has lost anything in the dictionary. -/
theorem create_built [Engine ε] (hd : d.Sound) (id : Nat) (engine : ε) {names : List String}
    {o : Options} (hroom : d.registry.nextVar.toNat + names.length + 1 < 2 ^ 32)
    (hbits : o.poolBits ≤ 31) :
    EnsuresFit (create id engine names o) d fun x d' => d'.Sound ∧
      ∀ k, x = .ok k → New engine id o d' k ∧ k.pool.Counted ∧
        Dictionary.Request.Kept d (fun _ => True) d' := by
  obtain ⟨x, d₁, hrun, hd₁, hdiag, hnext, hc⟩ := PropositionList.compile_spec (Engine.network engine)
    o.dead.name? hd (Nat.lt_of_succ_lt hroom)
  refine .of_ok hrun ?_
  cases x with
  | error ds => exact EnsuresFit.pure ⟨hd₁, fun k h => by cases h⟩
  | ok props =>
    obtain ⟨hprops, hholds⟩ := hc props rfl
    have howner : Dictionary.newOwner d₁ = .ok d₁.registry.newOwner.1
      ⟨d₁.diagram, d₁.registry.newOwner.2⟩ := rfl
    have hd₂ : Dictionary.Sound ⟨d₁.diagram, d₁.registry.newOwner.2⟩ :=
      ⟨hd₁.diagram, Registry.newOwner_valid hd₁.registry⟩
    have hkept₂ : Dictionary.Request.Kept d (fun _ => True) ⟨d₁.diagram, d₁.registry.newOwner.2⟩ :=
      ⟨hd₂, .of_nodes (by rw [hdiag]), fun o _ => hholds o⟩
    refine .of_ok howner ?_
    obtain ⟨pool, hpool⟩ := (Pool.exists_create hbits : ∃ p, Pool.create id o.poolBits = .ok p)
    obtain ⟨hsound, hid, hvacant⟩ := Pool.create_sound hpool
    have hroom₂ : Dictionary.HasRoom ⟨d₁.diagram, d₁.registry.newOwner.2⟩ := by
      show d₁.registry.nextVar.toNat + 1 < 2 ^ 32
      omega
    simp only [hpool]
    refine (markers_spec hd₂ hroom₂ _ o.dead).bind (fun m => grows_bind (grows_registerNames _ _)
      fun _ => grows_pure _) fun m d₃ ⟨hmarked, hkept₃⟩ => ?_
    have hprops₃ : PropositionList.Compiled (Engine.network engine) d₃.registry
        (PropositionList.compiledNames names o.dead.name?) props :=
      hprops.mono (hkept₃.holds _ trivial)
    obtain ⟨_, d₄, hnames, hreg⟩ := registerNames_spec hkept₃.sound d₁.registry.newOwner.1
      (allNames_held hprops₃ hmarked)
    refine .of_ok hnames (EnsuresFit.pure ⟨hreg.sound, fun k hk => ?_⟩)
    cases hk
    exact ⟨⟨⟨⟨names, hprops₃.mono (hreg.holds _)⟩, hmarked.kept hkept₃.sound hreg.kept trivial⟩, rfl,
      rfl, hsound, hid, hvacant, rfl, rfl⟩, Pool.create_counted hpool,
      (hkept₂.trans hkept₃).trans hreg.kept⟩

theorem create_spec [Engine ε] (hd : d.Sound) (id : Nat) (engine : ε) {names : List String}
    {o : Options} (hroom : d.registry.nextVar.toNat + names.length + 1 < 2 ^ 32)
    (hbits : o.poolBits ≤ 31) :
    EnsuresFit (create id engine names o) d fun x d' => d'.Sound ∧
      ∀ k, x = .ok k → New engine id o d' k :=
  (create_built hd id engine hroom hbits).mono fun _ _ ⟨hd', hnew⟩ => ⟨hd', fun k hk => (hnew k hk).1⟩

/-- Whatever the dictionary is, building that does not fault is refused as the propositions are, or it
ends with a new pool and no retired iterator. -/
theorem create_cases [Engine ε] {id : Nat} {engine : ε} {names : List String} {o : Options}
    {r : Except (List Diagnostic) (Kripke ε)} (h : create id engine names o d = .ok r d') :
    (∃ ds, r = .error ds ∧
      PropositionList.compile (Engine.network engine) names o.dead.name? d = .ok (.error ds) d') ∨
    ∃ k, r = .ok k ∧ Pool.create id o.poolBits = .ok k.pool ∧ k.retired = none := by
  obtain ⟨x, d₁, hcompile, h⟩ := estate_bind_eq_ok.1 h
  cases x with
  | error ds =>
    cases h
    exact .inl ⟨ds, rfl, hcompile⟩
  | ok props =>
    obtain ⟨owner, d₂, -, h⟩ := estate_bind_eq_ok.1 h
    obtain ⟨m, d₃, -, h⟩ := estate_bind_eq_ok.1 h
    cases hpool : Pool.create id o.poolBits with
    | error e =>
      simp only [hpool] at h
      obtain ⟨_, d₄, -, h⟩ := estate_bind_eq_ok.1 h
      cases h
    | ok pool =>
      simp only [hpool] at h
      obtain ⟨_, d₄, -, h⟩ := estate_bind_eq_ok.1 h
      cases h
      exact .inr ⟨_, rfl, rfl, rfl⟩

end Kripke

end StateSpace
