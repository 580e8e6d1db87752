import Mathlib.Logic.Function.Basic
import StateSpace.Proofs.Kripke.Retired
import StateSpace.Proofs.Kripke.Steady

/-!
# Answers to a request for successors

In a sound world the request ends without a fault. All edges carry one condition: it says what the
propositions are in the state, and whether the state is dead. Under the policies with loops that
condition can be satisfied for a dead state, so its loop is not dropped.
-/

namespace StateSpace

open StateSpace.Action

/-! ## Conditions -/

/-- The assignment tells the truth about every proposition in a state. -/
def PropositionList.Agrees (l : PropositionList) (s : EngineState) (a : UInt32 → Bool) : Prop :=
  ∀ p ∈ l.records, p.atom.holds s = .ok (a p.var)

/-- The assignment tells whether a state is dead, if the policy has a name for that. -/
def Profile.Tells (p : Profile) (r : Registry) (dead : Bool) (a : UInt32 → Bool) : Prop :=
  ∀ name, p.policy = .labelled name → ∃ v, r.varOf name = some v ∧ a v = dead

section Conditions

variable {n : Network} {d : Dictionary} {p : Profile} {s : EngineState}

/-- Markers are stored, and in order. -/
theorem Profile.Sound.stored_marker (h : p.Sound n d) (hd : d.Sound) (dead : Bool) :
    d.diagram.Stored (p.marker dead) ∧ d.diagram.Ordered 0 (p.marker dead) := by
  have hm := h.markers
  have hone := And.intro hd.diagram.stored_one (Manager.ordered_one d.diagram 0)
  unfold Profile.marker
  cases hp : p.policy with
  | ignore =>
    rw [hp] at hm
    rw [hm.1, hm.2]
    cases dead
    · exact hone
    · exact ⟨hd.diagram.stored_zero, Manager.ordered_zero d.diagram 0⟩
  | loop =>
    rw [hp] at hm
    rw [hm.1, hm.2]
    cases dead <;> exact hone
  | labelled name =>
    rw [hp] at hm
    obtain ⟨v, -, hneg, hstored, horder, -⟩ := hm
    cases dead
    · rw [hneg]
      exact ⟨hstored.neg, horder.neg⟩
    · exact ⟨hstored, horder⟩

/-- A marker is true where the assignment tells the same; dead states need a policy with loops. -/
theorem Profile.Sound.value_marker (h : p.Sound n d) (hd : d.Sound) {dead : Bool}
    (hloop : dead = true → p.policy ≠ .ignore) (a : UInt32 → Bool) :
    d.diagram.value a (p.marker dead) = true ↔ p.Tells d.registry dead a := by
  have hm := h.markers
  unfold Profile.marker Profile.Tells
  cases hp : p.policy with
  | ignore =>
    rw [hp] at hm
    cases dead
    · simp [hm.1]
    · exact absurd hp (hloop rfl)
  | loop =>
    rw [hp] at hm
    cases dead <;> simp [hm.1, hm.2]
  | labelled name =>
    rw [hp] at hm
    obtain ⟨v, hv, hneg, hstored, -, hval⟩ := hm
    have hmarker : d.diagram.value a (if dead then p.dead else p.alive) = (a v == dead) := by
      cases dead
      · simp [hneg, Manager.value_neg hd.diagram.toShaped hstored, hval]
      · simp [hval]
    rw [hmarker, beq_iff_eq]
    constructor
    · rintro ha name' hname
      cases hname
      exact ⟨v, hv.varOf hd.registry, ha⟩
    · intro ht
      obtain ⟨v', hv', ha⟩ := ht name rfl
      rw [hv.varOf hd.registry, Option.some.injEq] at hv'
      rwa [hv']

/-- Variables that differ can be given any values. -/
theorem exists_assignment {ps : List Proposition} (h : (ps.map (·.var)).Nodup)
    (truth : Proposition → Bool) : ∃ a : UInt32 → Bool, ∀ q ∈ ps, a q.var = truth q := by
  induction ps with
  | nil => exact ⟨fun _ => false, fun q hq => by cases hq⟩
  | cons q ps ih =>
    rw [List.map_cons, List.nodup_cons] at h
    obtain ⟨a, ha⟩ := ih h.2
    refine ⟨Function.update a q.var (truth q), fun q' hq' => ?_⟩
    rcases List.mem_cons.1 hq' with rfl | hq'
    · exact Function.update_self ..
    · have hne : q'.var ≠ q.var := fun heq => h.1 (heq ▸ List.mem_map_of_mem hq')
      rw [Function.update_of_ne hne, ha q' hq']

/-- Some assignment tells the truth about the propositions and anything about being dead. -/
theorem Profile.Sound.exists_agrees (h : p.Sound n d) (hd : d.Sound)
    (hs : n.processes.size ≤ s.locations.length ∧ n.ints.size ≤ s.ints.length) (dead : Bool) :
    ∃ a, p.props.Agrees s a ∧ p.Tells d.registry dead a := by
  choose! truth htruth using fun q (hq : q ∈ p.props.records) => h.exists_holds hs hq
  obtain ⟨a, ha⟩ := exists_assignment h.vars_nodup truth
  have hagrees : p.props.Agrees s a := fun q hq => by rw [ha q hq, htruth q hq]
  have hm := h.markers
  cases hp : p.policy with
  | ignore => exact ⟨a, hagrees, fun name hname => by rw [hp] at hname; cases hname⟩
  | loop => exact ⟨a, hagrees, fun name hname => by rw [hp] at hname; cases hname⟩
  | labelled name =>
    rw [hp] at hm
    obtain ⟨v, hv, -⟩ := hm
    refine ⟨Function.update a v dead, fun q hq => ?_, fun name' hname => ?_⟩
    · rw [Function.update_of_ne (h.var_ne hp hv hq)]
      exact hagrees q hq
    · rw [hp] at hname
      cases hname
      exact ⟨v, hv.varOf hd.registry, Function.update_self ..⟩

/-- The condition of a state is true where the assignment tells the truth about it. -/
theorem Profile.Sound.condition_spec (h : p.Sound n d) (hd : d.Sound)
    (hs : n.processes.size ≤ s.locations.length ∧ n.ints.size ≤ s.ints.length) :
    EnsuresFit (p.props.condition s) d fun e d' => Manager.Grown False d.diagram e d'.diagram ∧
      d'.registry = d.registry ∧ d'.diagram.Ordered 0 e ∧
      ∀ a, d'.diagram.value a e = true ↔ p.props.Agrees s a := by
  choose! truth htruth using fun q (hq : q ∈ p.props.records) => h.exists_holds hs hq
  refine (PropositionList.condition_spec hd htruth fun q hq => h.inOrder hd hq).mono
    fun e d' ⟨hgrown, hreg, horder, hval⟩ => ⟨hgrown, hreg, horder, fun a => ?_⟩
  rw [hval, List.all_eq_true]
  refine forall₂_congr fun q hq => ?_
  rw [beq_iff_eq, htruth q hq, Except.ok.injEq]
  exact eq_comm

end Conditions

/-! ## Successors -/

/-- A state is its own successor. -/
def Profile.loops (p : Profile) (items : List (Shared × Transition)) : Bool :=
  items.isEmpty && p.policy ≠ .ignore

namespace Kripke

open World

variable {ε : Type} {w w' : World ε} {s : Handle} {o : Shared} {k : Nat} {cond : Edge}
  {cursor : Cursor} {selfLoop : Option Handle} {items : List (Shared × Transition)}
  {it : Iterator} {e' : ε}

variable [Engine ε] [LawfulEngine ε]

/-- The answer to a request for the successors of `s`, which are `items` according to the engine: the
world is as before but for the engine, the diagram, the retired iterator and the reference that a
loop holds. -/
structure Served (w : World ε) (s : Handle) (o : Shared) (items : List (Shared × Transition))
    (e' : ε) (it : Iterator) (w' : World ε) : Prop where
  sound : w'.Sound
  iterator : it = .fresh w.kripke.pool.id (.ofList items) it.cond
    (if w.kripke.profile.loops items then some s else none)
  stored : w'.dict.diagram.Stored it.cond
  ordered : w'.dict.diagram.Ordered 0 it.cond
  cond : (items = [] → w.kripke.profile.policy ≠ .ignore) → ∀ a,
    w'.dict.diagram.value a it.cond = true ↔ w.kripke.profile.props.Agrees o.state a ∧
      w.kripke.profile.Tells w.dict.registry items.isEmpty a
  registry : w'.dict.registry = w.dict.registry
  extend : Manager.Extends w.dict.diagram w'.dict.diagram
  kripke : w'.kripke =
    { w.kripke with engine := e', retired := none, pool := w'.kripke.pool }
  pool : if w.kripke.profile.loops items then
    ∀ k, w.kripke.pool.slot? s = some (.ofShared o k) →
      Pool.Updated w.kripke.pool s (some (.ofShared o (k + 1))) w'.kripke.pool
    else w'.kripke.pool = w.kripke.pool

/-- The condition of a state tells the truth about it; nothing but the diagram changes. -/
theorem stateCondition_spec (h : w.Sound) (hs : w.kripke.pool.Has s o) :
    EnsuresFit (stateCondition s) w fun c w' => w'.Sound ∧
      Manager.Grown False w.dict.diagram c w'.dict.diagram ∧
      w'.dict.registry = w.dict.registry ∧ w'.kripke = w.kripke ∧ w'.dict.diagram.Ordered 0 c ∧
      ∀ a, w'.dict.diagram.value a c = true ↔ w.kripke.profile.props.Agrees o.state a := by
  refine .of_ok (state_ok hs) (.of_ok (get_apply _) ?_)
  refine (onDict_spec (h.profile.condition_spec h.dict (LawfulEngine.shape (h.proper s o hs)))).mono
    fun c ⟨d, k⟩ ⟨⟨hgrown, hreg, horder, hval⟩, hk⟩ => ?_
  obtain rfl : k = w.kripke := hk
  exact ⟨h.withDict (.of_grown h.dict hgrown hreg fun _ => True) trivial trivial, hgrown, hreg, rfl,
    horder, hval⟩

/-! ### The condition on the edges -/

/-- The condition of a state together with a marker. -/
def edgeCondition (p : Profile) (state : EngineState) (dead : Bool) : Action (World ε) Edge := do
  let cond ← onDict (p.props.condition state)
  onDict (Dictionary.onDiagram (Manager.and cond (p.marker dead)))

omit [Engine ε] [LawfulEngine ε] in
theorem keeps_edgeCondition {p : Profile} {I : World ε → Prop} (hI : Steady p I)
    (state : EngineState) (dead : Bool) : Keeps I (edgeCondition p state dead) :=
  keeps_bind (hI.condition state) fun cond => hI.marker cond dead

/-- The condition tells the truth about the state; it is false for sure if the state is dead and has
no loop. -/
theorem edgeCondition_spec (h : w.Sound) {state : EngineState}
    (hs : LawfulEngine.Proper ε (Engine.network w.kripke.engine) state) (dead : Bool) :
    EnsuresFit (edgeCondition w.kripke.profile state dead) w fun c w' =>
      Manager.Grown False w.dict.diagram c w'.dict.diagram ∧
      w'.dict.registry = w.dict.registry ∧ w'.kripke = w.kripke ∧ w'.dict.diagram.Ordered 0 c ∧
      ((dead = true → w.kripke.profile.policy ≠ .ignore) → ∀ a, w'.dict.diagram.value a c = true ↔
        w.kripke.profile.props.Agrees state a ∧
          w.kripke.profile.Tells w.dict.registry dead a) ∧
      (dead = true → w.kripke.profile.policy = .ignore → c = .zero) := by
  have hshape := LawfulEngine.shape hs
  refine (onDict_spec (h.profile.condition_spec h.dict hshape)).bind (fun _ => grows_onDict
    (Dictionary.grows_onDiagram (Manager.grows_and _ _)))
      fun cond w₁ ⟨⟨hgrown, hreg, horder, hval⟩, hk⟩ => ?_
  obtain ⟨d₁, k₁⟩ := w₁
  obtain rfl : k₁ = w.kripke := hk
  have hkept := Dictionary.Request.Kept.of_grown h.dict hgrown hreg fun _ => True
  have hprofile := h.profile.kept h.dict hkept trivial trivial
  obtain ⟨hmarker, hmarker'⟩ := hprofile.stored_marker hkept.sound dead
  intro hfit
  obtain ⟨c, w', hrun, ⟨⟨hgrown', hval', horder'⟩, hreg'⟩, hk'⟩ := onDict_spec
    (Dictionary.onDiagram_spec (Manager.and_spec hkept.sound.diagram hgrown.stored hmarker)) hfit
  refine ⟨c, w', hrun, hgrown'.after hgrown.extend, hreg'.trans hreg, hk',
    horder' 0 horder hmarker', fun hloop a => ?_, fun hdead hignore => ?_⟩
  · have hm := hprofile.value_marker hkept.sound hloop a
    rw [show d₁.registry = w.dict.registry from hreg] at hm
    rw [hval', Bool.and_eq_true, hval, hm]
  · have hm := hprofile.markers
    rw [hignore] at hm
    have hzero : w.kripke.profile.marker dead = .zero := by
      unfold Profile.marker
      rw [if_pos hdead, hm.2]
    rw [hzero] at hrun
    have := hrun.symm.trans (onDict_ok (Dictionary.onDiagram_ok (Manager.and_zero _ cond)))
    cases this
    rfl

/-! ### The iterator -/

/-- An iterator over successors, or over the state itself if there are none. -/
def offer (s : Handle) (items : List (Shared × Transition)) (cond : Edge) :
    Action (World ε) Iterator :=
  if items.isEmpty then
    if cond = .zero then freshIterator .empty cond none
    else do
      let s ← onPool (Pool.clone s)
      freshIterator .empty cond (some s)
  else freshIterator (.ofList items) cond none

omit [LawfulEngine ε] in
theorem successors_eq (others : InUse) (s : Handle) :
    (successors others s : Action (World ε) Iterator) = (do
    let state ← World.state s
    let items ← engineSuccessors others state
    let profile := (← get).kripke.profile
    let cond ← edgeCondition profile state items.isEmpty
    offer s items cond) := by
  unfold successors
  congr 1
  funext state
  congr 1
  funext items
  congr 1
  funext w
  unfold edgeCondition offer Profile.marker
  cases items.isEmpty <;> simp

omit [Engine ε] [LawfulEngine ε] in
theorem keeps_offer {p : Profile} {I : World ε → Prop} (hI : Steady p I) (s : Handle)
    (items : List (Shared × Transition)) (cond : Edge) : Keeps I (offer s items cond) := by
  unfold offer
  split
  · split
    · exact keeps_freshIterator hI _ _ _
    · exact keeps_bind (hI.pool (Pool.orderly_clone _)) fun _ => keeps_freshIterator hI _ _ _
  · exact keeps_freshIterator hI _ _ _

omit [LawfulEngine ε] in
theorem keeps_successors {p : Profile} {I : World ε → Prop} (hI : Steady p I) (others : InUse)
    (s : Handle) : Keeps I (successors others s) := by
  rw [successors_eq]
  refine keeps_bind (keeps_reading _) fun state => keeps_bind ?_ fun items => ?_
  · exact keeps_bind keeps_get fun _ => keeps_onEngine hI _
  · refine keeps_get_bind fun w hw => ?_
    rw [hI.profile hw]
    exact keeps_bind (keeps_edgeCondition hI state _) fun cond => keeps_offer hI s items cond

/-- A loop is offered, with a reference of its own, unless its condition is the constant false. -/
theorem offer_spec (h : w.Sound) (hs : w.kripke.pool.Has s o) {loops : Bool}
    (hloops : loops = (items.isEmpty && decide (cond ≠ .zero))) :
    Ensures (offer s items cond) w fun it w' => w'.Sound ∧
      it = .fresh w.kripke.pool.id (.ofList items) cond (if loops then some s else none) ∧
      w'.dict = w.dict ∧
      w'.kripke = { w.kripke with retired := none, pool := w'.kripke.pool } ∧
      if loops then
        ∀ k, w.kripke.pool.slot? s = some (.ofShared o k) →
          Pool.Updated w.kripke.pool s (some (.ofShared o (k + 1))) w'.kripke.pool
      else w'.kripke.pool = w.kripke.pool := by
  have hnone : Sound { w with kripke := { w.kripke with retired := none } } :=
    h.withRest _ _ fun it hit => by cases hit
  unfold offer
  cases items with
  | cons x items =>
    subst hloops
    exact ⟨_, _, freshIterator_eq h.retired, hnone, rfl, rfl, rfl, rfl⟩
  | nil =>
    by_cases hzero : cond = .zero
    · have hloop : loops = false := by simp [hloops, hzero]
      subst hloop
      rw [if_pos List.isEmpty_nil, if_pos hzero]
      exact ⟨_, _, freshIterator_eq h.retired, hnone, rfl, rfl, rfl, rfl⟩
    · have hloop : loops = true := by simp [hloops, hzero]
      subst hloop
      rw [if_pos List.isEmpty_nil, if_neg hzero]
      obtain ⟨k, hk⟩ := hs
      obtain ⟨s', p, hclone, rfl, hp⟩ := Pool.clone_spec h.pool hk
      have h₁ := h.withShared (h.proper _ o ⟨k, hk⟩) hp
      refine .of_ok (onPool_ok hclone) ⟨_, _, freshIterator_eq h₁.retired, ?_, ?_, rfl, rfl, ?_⟩
      · exact h₁.withRest _ _ fun it hit => by cases hit
      · rw [hp.id]
        rfl
      · intro k' hk'
        rw [hk, Option.some.injEq] at hk'
        rwa [← Slot.ofShared_succ_congr hk']

/-- A request for the successors of a state is served. -/
theorem successors_spec (h : w.Sound) (hs : w.kripke.pool.Has s o) (others : InUse) :
    EnsuresFit (successors others s) w fun it w' => ∃ items e',
      Engine.outgoing (inUse w.kripke.pool others) o.state w.kripke.engine = .ok items e' ∧
      Engine.network e' = Engine.network w.kripke.engine ∧
      (∀ x ∈ items, LawfulEngine.Proper ε (Engine.network w.kripke.engine) x.1.state) ∧
      Served w s o items e' it w' := by
  obtain ⟨items, e', hout, hgood, hnet, hitems⟩ :=
    LawfulEngine.outgoing (inUse w.kripke.pool others) h.good (h.proper s o hs)
  have hengine : engineSuccessors others o.state w =
      .ok items { w with kripke := { w.kripke with engine := e' } } := by
    unfold engineSuccessors
    rw [bind_ok (get_apply _)]
    exact onEngine_ok hout
  have h₁ := h.withEngine hgood hnet
  rw [successors_eq]
  refine .of_ok (state_ok hs) (.of_ok hengine (.of_ok (get_apply _) ?_))
  refine (edgeCondition_spec h₁ (h₁.proper s o hs) items.isEmpty).bind
    (fun c => grows_of_keeps fun hI => keeps_offer hI s items c)
    fun c ⟨d₂, k₂⟩ ⟨hgrown, hreg, hk, horder, hval, hzero⟩ => ?_
  obtain rfl : k₂ = { w.kripke with engine := e' } := hk
  have h₂ := h₁.withDict (.of_grown h.dict hgrown hreg fun _ => True) trivial trivial
  have hloops : w.kripke.profile.loops items = (items.isEmpty && decide (c ≠ .zero)) := by
    unfold Profile.loops
    cases hempty : items.isEmpty with
    | false => rfl
    | true =>
      rw [Bool.true_and, Bool.true_and, decide_eq_decide]
      constructor
      · rintro hpolicy rfl
        -- a state can be dead whatever its propositions are
        obtain ⟨a, hagrees, htells⟩ := h.profile.exists_agrees h.dict
          (LawfulEngine.shape (h.proper s o hs)) true
        have := (hval (fun _ => hpolicy) a).2 ⟨hagrees, hempty ▸ htells⟩
        rw [Manager.value_zero] at this
        cases this
      · exact fun hne hpolicy => hne (hzero hempty hpolicy)
  refine Ensures.fit ((offer_spec h₂ hs hloops).mono fun it w' ⟨hsound, hit, hd, hk, hp⟩ => ?_)
  have hcond : it.cond = c := by rw [hit]; rfl
  refine ⟨items, e', hout, hnet, hitems, hsound, hcond ▸ hit, ?_, ?_, fun hpolicy a => ?_, ?_, ?_, hk,
    hp⟩
  · rw [hd, hcond]
    exact hgrown.stored
  · rw [hd, hcond]
    exact horder
  · rw [hd, hcond]
    exact hval (fun hempty => hpolicy (List.isEmpty_iff.1 hempty)) a
  · rw [hd]
    exact hreg
  · rw [hd]
    exact hgrown.extend

end Kripke

end StateSpace
