import StateSpace.Proofs.Kripke.Successors
import StateSpace.Proofs.Successors

/-!
# Reached worlds

A world is reached from a new structure by what its consumer asks for, and by what other parties ask
of the dictionary. Of these nothing is required but that they give up no name for the structure. Every
reached world is sound (`Reached.sound`).
-/

namespace StateSpace

open StateSpace.Action World

/-- What may happen to a world. -/
inductive Move where
  | observe (name : String)
  | openSession
  | closeSession
  | initialState
  | stateCondition (s : Handle)
  | successors (others : InUse) (s : Handle)
  | destination (it : Iterator)
  | giveBack (it : Iterator)
  | clone (s : Handle)
  | release (s : Handle)
  | reclaim (tokens : List Nat)
  /-- Some party asks for something of the dictionary. -/
  | request (q : Dictionary.Request)

namespace Move

variable {ε : Type} [Engine ε] {w w' : World ε} {m : Move}

/-- The move on a world; its answer is left out. -/
def run : Move → Action (World ε) Unit
  | observe name => do let _ ← Kripke.observe name
  | openSession => Kripke.openSession
  | closeSession => Kripke.closeSession
  | initialState => do let _ ← Kripke.initialState
  | stateCondition s => do let _ ← Kripke.stateCondition s
  | successors others s => do let _ ← Kripke.successors others s
  | destination it => do let _ ← onPool it.destination
  | giveBack it => Kripke.giveBack it
  | clone s => do let _ ← onPool (Pool.clone s)
  | release s => do let _ ← onPool (Pool.release s)
  | reclaim tokens => do let _ ← onEngine (total (Engine.reclaim tokens))
  | request q => onDict q.run

/-- Apart from observing a name and what others ask of the dictionary, a move keeps all that is steady,
whether it faults or not. -/
theorem keeps {p : Profile} {I : World ε → Prop} (hI : Steady p I) (m : Move)
    (hobserve : ∀ name, m = observe name → Keeps I m.run)
    (hrequest : ∀ q, m = request q → Keeps I m.run) : Keeps I m.run := by
  cases m with
  | observe name => exact hobserve name rfl
  | openSession => exact Kripke.keeps_openSession hI
  | closeSession => exact Kripke.keeps_closeSession hI
  | initialState => exact keeps_bind (Kripke.keeps_initialState hI) fun _ => keeps_pure _
  | stateCondition s => exact keeps_bind (Kripke.keeps_stateCondition hI s) fun _ => keeps_pure _
  | successors others s =>
    exact keeps_bind (Kripke.keeps_successors hI others s) fun _ => keeps_pure _
  | destination it => exact keeps_bind (hI.pool it.orderly_destination) fun _ => keeps_pure _
  | giveBack it => exact Kripke.keeps_giveBack hI it
  | clone s => exact keeps_bind (hI.pool (Pool.orderly_clone s)) fun _ => keeps_pure _
  | release s => exact keeps_bind (hI.pool (Pool.orderly_release s)) fun _ => keeps_pure _
  | reclaim tokens => exact keeps_bind (keeps_onEngine hI _) fun _ => keeps_pure _
  | request q => exact hrequest q rfl

variable [LawfulEngine ε]

/-- There is a variable for a name, iterators are over states of the engine, and other parties give up
no name for this structure. -/
def Possible (w : World ε) : Move → Prop
  | observe _ => w.dict.HasRoom
  | destination it =>
    ∀ x ∈ it.cursor.rest, LawfulEngine.Proper ε (Engine.network w.kripke.engine) x.1.state
  | request q => q.Possible w.dict ∧ q.Spares w.kripke.profile.owner ∧
      q.Spares w.kripke.profile.props.owner
  | _ => True

/-! ## One move -/

theorem kept_observe (h : w.Sound) (hroom : w.dict.HasRoom) (name : String) :
    Ensures (run (observe name)) w fun _ w' => w.Kept w' := by
  obtain ⟨v, d, hrun, hreg, -⟩ :=
    PropositionList.register_registering h.dict hroom name w.kripke.profile.owner
  refine .of_ok (show Kripke.observe name w = .ok v _ from
    (bind_ok (get_apply _) _).trans ((bind_ok (onDict_ok hrun) _).trans rfl)) (Ensures.pure ?_)
  exact ⟨(h.withDict hreg.kept trivial trivial).withRest _ _ h.retired, rfl, rfl⟩

theorem kept_closeSession (h : w.Sound) (hrun : run closeSession w = .ok () w') : w.Kept w' := by
  obtain ⟨_, w₁, hrun₁, hrun₂⟩ := estate_bind_eq_ok.1 hrun
  cases hres : (Engine.resume : Action ε Unit) w.kripke.engine with
  | error f e => cases hrun₁.symm.trans (onEngine_error hres)
  | ok u e =>
    cases hrun₁.symm.trans (onEngine_ok hres)
    cases hrun₂
    have hgood := LawfulEngine.resume h.good hres
    exact ⟨(h.withEngine hgood.1 hgood.2).withRest _ _ h.retired, hgood.2, rfl⟩

/-- A state that was read has a handle. -/
theorem has_of_state (h : w.Sound) {s : Handle} {state : EngineState}
    (hrun : World.state s w = .ok state w') : w' = w ∧ ∃ o, w.kripke.pool.Has s o ∧ o.state = state := by
  unfold World.state reading at hrun
  cases hget : w.kripke.pool.get s with
  | error e => simp only [hget] at hrun; cases hrun
  | ok o =>
    simp only [hget] at hrun
    cases hrun
    exact ⟨rfl, o, h.pool.has_of_get hget, rfl⟩

theorem kept_stateCondition (h : w.Sound) {s : Handle} (hrun : run (stateCondition s) w = .ok () w')
    (hfit : Fits w') : w.Kept w' := by
  obtain ⟨c, w₁, hrun₁, hpure⟩ := estate_bind_eq_ok.1 hrun
  cases hpure
  obtain ⟨state, w₂, hstate, -⟩ := estate_bind_eq_ok.1 hrun₁
  obtain ⟨rfl, o, hs, rfl⟩ := has_of_state h hstate
  obtain ⟨_, _, hcond, hsound, -, -, hk, -⟩ :=
    Kripke.stateCondition_spec h hs (by rwa [after_ok hrun₁])
  cases hrun₁.symm.trans hcond
  exact ⟨hsound, by rw [hk], by rw [hk]⟩

theorem kept_successors (h : w.Sound) {others : InUse} {s : Handle}
    (hrun : run (successors others s) w = .ok () w') (hfit : Fits w') : w.Kept w' := by
  obtain ⟨it, w₁, hrun₁, hpure⟩ := estate_bind_eq_ok.1 hrun
  cases hpure
  obtain ⟨state, w₂, hstate, -⟩ := estate_bind_eq_ok.1 hrun₁
  obtain ⟨rfl, o, hs, rfl⟩ := has_of_state h hstate
  obtain ⟨_, _, hserve, _, _, -, hnet, -, hserved⟩ :=
    Kripke.successors_spec h hs others (by rwa [after_ok hrun₁])
  cases hrun₁.symm.trans hserve
  refine ⟨hserved.sound, ?_, ?_⟩ <;> rw [hserved.kripke]
  exact hnet

/-! ### Moves in the pool -/

omit [Engine ε] [LawfulEngine ε] in
theorem exists_onPool {α : Type} {x : Action Pool α}
    (hrun : (do let _ ← onPool x) w = .ok () w') :
    ∃ a p, x w.kripke.pool = .ok a p ∧ w' = { w with kripke := { w.kripke with pool := p } } := by
  obtain ⟨a, w₁, hrun₁, hpure⟩ := estate_bind_eq_ok.1 hrun
  cases hpure
  cases hx : x w.kripke.pool with
  | error f p => cases hrun₁.symm.trans (onPool_error hx)
  | ok a' p =>
    cases hrun₁.symm.trans (onPool_ok hx)
    exact ⟨a, p, rfl, rfl⟩

theorem sound_release (h : w.Sound) {s : Handle} {last : Bool} {p : Pool}
    (hrun : Pool.release s w.kripke.pool = .ok last p) :
    Sound { w with kripke := { w.kripke with pool := p } } ∧ p.id = w.kripke.pool.id := by
  obtain ⟨o, hs, hupd | ⟨k, hupd⟩⟩ := h.pool.of_release hrun
  · refine ⟨h.withPool hupd fun o' ho' => ?_, hupd.id⟩
    obtain ⟨k, hk⟩ := ho'
    rw [hupd.self] at hk
    cases hk
  · exact ⟨h.withShared (h.proper s o hs) hupd, hupd.id⟩

theorem sound_close (h : w.Sound) {it : Iterator} {p : Pool}
    (hrun : it.close w.kripke.pool = .ok () p) :
    Sound { w with kripke := { w.kripke with pool := p } } ∧ p.id = w.kripke.pool.id := by
  unfold Iterator.close at hrun
  cases hloop : it.selfLoop with
  | none =>
    simp only [hloop] at hrun
    cases hrun
    exact ⟨h, rfl⟩
  | some s =>
    simp only [hloop] at hrun
    obtain ⟨last, p', hrel, hpure⟩ := estate_bind_eq_ok.1 hrun
    cases hpure
    exact sound_release h hrel

theorem kept_giveBack (h : w.Sound) {it : Iterator} (hrun : run (giveBack it) w = .ok () w') :
    w.Kept w' := by
  obtain ⟨p, r, hclose, rfl, hr⟩ := Kripke.of_giveBack hrun
  obtain ⟨hsound, hid⟩ := sound_close h hclose
  refine ⟨hsound.withRest _ _ fun it' hit => ?_, rfl, rfl⟩
  rcases hr it' hit with hit | ⟨hloop, hhome⟩
  · exact hsound.retired it' hit
  · exact ⟨hloop, hhome.trans hid.symm⟩

/-! ### Any move -/

/-- A move that does not fault keeps a world sound, with the same network and profile. -/
theorem kept_run (h : w.Sound) (hm : m.Possible w) (hrun : m.run w = .ok () w')
    (hfit : Fits w') : w.Kept w' := by
  cases m with
  | observe name =>
    obtain ⟨_, _, hobserve, hkept⟩ := kept_observe h hm name
    cases hrun.symm.trans hobserve
    exact hkept
  | openSession =>
    cases hrun
    exact ⟨h.opened, (LawfulEngine.pause h.good).2, rfl⟩
  | closeSession => exact kept_closeSession h hrun
  | initialState =>
    obtain ⟨_, w₁, hinit, hkept, -⟩ := initialState_spec h
    cases hrun.symm.trans (bind_ok hinit fun _ => pure ())
    exact hkept
  | stateCondition s => exact kept_stateCondition h hrun hfit
  | successors others s => exact kept_successors h hrun hfit
  | destination it =>
    obtain ⟨s, p, hdest, rfl⟩ := exists_onPool hrun
    obtain ⟨t, o, ho, k, hupd⟩ := Iterator.of_destination h.pool hdest
    refine ⟨h.withShared ?_ hupd, rfl, rfl⟩
    rcases ho with ht | ⟨x, hx, rfl⟩
    · exact h.proper t o ht
    · exact hm x hx
  | giveBack it => exact kept_giveBack h hrun
  | clone s =>
    obtain ⟨t, p, hclone, rfl⟩ := exists_onPool hrun
    obtain ⟨o, hs, k, hupd⟩ := h.pool.of_clone hclone
    exact ⟨h.withShared (h.proper s o hs) hupd, rfl, rfl⟩
  | release s =>
    obtain ⟨last, p, hrel, rfl⟩ := exists_onPool hrun
    exact ⟨(sound_release h hrel).1, rfl, rfl⟩
  | reclaim tokens =>
    cases hrun
    have hgood := LawfulEngine.reclaim tokens h.good
    exact ⟨h.withEngine hgood.1 hgood.2, hgood.2, rfl⟩
  | request q =>
    obtain ⟨hpossible, ho, hp⟩ := hm
    replace hrun : onDict q.run w = .ok () w' := hrun
    obtain ⟨_, ⟨d, k⟩, hq, hkept, hk⟩ := onDict_spec (q.run_spec h.dict hpossible)
      (by rwa [after_ok hrun])
    cases hrun.symm.trans hq
    obtain rfl : k = w.kripke := hk
    exact ⟨h.withDict hkept ho hp, rfl, rfl⟩

end Move

/-! ## Reached worlds -/

namespace World

variable {ε : Type} [Engine ε] [LawfulEngine ε] {w w' : World ε} {s : Handle}

/-- Moves lead from a world to a later one. The cells fit all along. -/
inductive Later (w : World ε) : World ε → Prop where
  | refl : Later w w
  | move {w₁ w₂ : World ε} {m : Move} (h : Later w w₁) (hm : m.Possible w₁)
      (hrun : m.run w₁ = .ok () w₂) (hfit : Fits w₂) : Later w w₂

theorem Later.kept (h : w.Later w') (hw : w.Sound) : w.Kept w' := by
  induction h with
  | refl => exact .refl hw
  | move _ hm hrun hfit ih => exact ih.trans (Move.kept_run ih.sound hm hrun hfit)

/-- Moves lead from a new structure, over a dictionary that may hold the names of other parties, to
the world. The cells fit all along. -/
inductive Reached : World ε → Prop where
  | create {d d' : Dictionary} {id : Nat} {engine : ε} {names : List String} {o : Options}
      {k : Kripke ε} (hd : d.Reached) (he : LawfulEngine.Good engine)
      (hroom : d.registry.nextVar.toNat + names.length + 1 < 2 ^ 32) (hbits : o.poolBits ≤ 31)
      (hrun : Kripke.create id engine names o d = .ok (.ok k) d') (hfit : Fits d') :
      Reached ⟨d', k⟩
  | move {w w' : World ε} {m : Move} (h : Reached w) (hm : m.Possible w)
      (hrun : m.run w = .ok () w') (hfit : Fits w') : Reached w'

theorem sound_of_new {d : Dictionary} {engine : ε} {id : Nat} {o : Options} {k : Kripke ε}
    (hd : d.Sound) (he : LawfulEngine.Good engine) (h : Kripke.New engine id o d k) :
    Sound ⟨d, k⟩ where
  dict := hd
  profile := by
    show k.profile.Sound (Engine.network k.engine) d
    rw [h.engine]
    exact h.profile
  good := by
    show LawfulEngine.Good k.engine
    rwa [h.engine]
  pool := h.pool
  proper s o hs := by
    obtain ⟨r, hr⟩ := hs
    cases (h.vacant s).symm.trans hr
  retired it hit := by cases h.retired.symm.trans hit

theorem Reached.sound (h : w.Reached) : w.Sound := by
  induction h with
  | @create d d' id engine names o k hd he hroom hbits hrun hfit =>
    obtain ⟨x, _, hrun', hd', hnew⟩ :=
      Kripke.create_spec hd.sound id engine hroom hbits (by rwa [after_ok hrun])
    cases hrun.symm.trans hrun'
    exact sound_of_new hd' he (hnew k rfl)
  | move _ hm hrun hfit ih => exact (Move.kept_run ih hm hrun hfit).sound

/-- A structure may observe nothing. -/
theorem exists_plain_at (id : Nat) (n : Network) : ∃ d k d', Dictionary.create 4 = .ok d ∧
    d.registry.nextVar = 1 ∧
    Kripke.create id (Graph.create n .standard) [] {} d = .ok (.ok k) d' ∧
    k.engine.network = n ∧ k.profile.Plain ∧ k.profile.policy = .loop ∧ Fits d' ∧
    k.pool.id = id := by
  obtain ⟨d, hd, hfit, hnext⟩ : ∃ d, Dictionary.create 4 = .ok d ∧ Fits d ∧
      d.registry.nextVar = 1 := ⟨_, rfl, show 1 < 2 ^ 31 by decide, rfl⟩
  obtain ⟨k, d', hrun, hengine, hplain, hpolicy, hid, hdiag⟩ : ∃ k d', Kripke.create id
      (Graph.create n .standard) [] {} d = .ok (.ok k) d' ∧ k.engine.network = n ∧
        k.profile.Plain ∧ k.profile.policy = .loop ∧ k.pool.id = id ∧ d'.diagram = d.diagram :=
    ⟨_, _, rfl, rfl, ⟨rfl, fun dead => by cases dead <;> exact .inl rfl⟩, rfl, rfl, rfl⟩
  refine ⟨d, k, d', hd, hnext, hrun, hengine, hplain, hpolicy, ?_, hid⟩
  show HasCells.cells d'.diagram < _
  rwa [hdiag]

theorem exists_plain (n : Network) : ∃ d k d', Dictionary.create 4 = .ok d ∧
    d.registry.nextVar = 1 ∧
    Kripke.create 1 (Graph.create n .standard) [] {} d = .ok (.ok k) d' ∧
    k.engine.network = n ∧ k.profile.Plain ∧ k.profile.policy = .loop ∧ Fits d' := by
  obtain ⟨d, k, d', hd, hnext, hrun, hengine, hplain, hpolicy, hfit, -⟩ := exists_plain_at 1 n
  exact ⟨d, k, d', hd, hnext, hrun, hengine, hplain, hpolicy, hfit⟩

/-- Over a valid network there is a structure that observes nothing. -/
theorem exists_reached_plain {n : Network} (hv : n.Valid) : ∃ w : World Graph, w.Reached ∧
    w.kripke.engine.network = n ∧ w.kripke.profile.Plain ∧ Fits w.dict := by
  obtain ⟨d, k, d', hd, hnext, hcreate, hengine, hplain, -, hfit⟩ := exists_plain n
  exact ⟨⟨d', k⟩, .create (.create hd) hv (by rw [hnext]; decide) (by decide) hcreate hfit, hengine,
    hplain, hfit⟩

end World

end StateSpace
