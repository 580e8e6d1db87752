import StateSpace.Proofs.Kripke.Create

/-!
# Sound worlds

A world is sound if its dictionary, its pool and what is fixed in its structure are, its states are
the engine's, and a retired iterator refers to no state. Whoever asks for successors gets an iterator
over exactly those of the engine, or over the state itself if there are none and the policy has loops.
-/

namespace StateSpace

open StateSpace.Action

instance {ε : Type} : HasCells (World ε) := ⟨fun w => HasCells.cells w.dict⟩

namespace World

variable {ε α β : Type} {w w' : World ε} {s : Handle} {o : Shared} {k : Nat}

/-! ## Actions on the parts -/

theorem onDict_ok {x : Action Dictionary α} {a : α} {d : Dictionary} (h : x w.dict = .ok a d) :
    onDict x w = .ok a { w with dict := d } := by
  obtain ⟨dict, kripke⟩ := w
  simp only [onDict, h]

theorem onDict_error {x : Action Dictionary α} {e : Fault} {d : Dictionary}
    (h : x w.dict = .error e d) : onDict x w = .error e { w with dict := d } := by
  obtain ⟨dict, kripke⟩ := w
  simp only [onDict, h]

theorem onDict_after (x : Action Dictionary α) (w : World ε) :
    (onDict x).after w = { w with dict := x.after w.dict } := by
  cases h : x w.dict with
  | ok a d => rw [after_ok (onDict_ok h), after_ok h]
  | error e d => rw [after_error (onDict_error h), after_error h]

theorem onDict_spec {x : Action Dictionary α} {Q : α → Dictionary → Prop}
    (h : EnsuresFit x w.dict Q) :
    EnsuresFit (onDict x) w fun a w' => Q a w'.dict ∧ w'.kripke = w.kripke := by
  intro hfit
  rw [onDict_after] at hfit
  obtain ⟨a, d, hx, hQ⟩ := h hfit
  exact ⟨a, _, onDict_ok hx, hQ, rfl⟩

theorem grows_onDict {x : Action Dictionary α} (hx : Grows x) :
    Grows (onDict x : Action (World ε) α) := by
  intro w
  rw [onDict_after]
  exact hx w.dict

theorem onEngine_ok {x : Action ε α} {a : α} {e : ε} (h : x w.kripke.engine = .ok a e) :
    onEngine x w = .ok a { w with kripke := { w.kripke with engine := e } } := by
  obtain ⟨dict, engine, pool, aps, retired, sessions, profile⟩ := w
  simp only [onEngine, h]

theorem onEngine_error {x : Action ε α} {f : Fault} {e : ε} (h : x w.kripke.engine = .error f e) :
    onEngine x w = .error f { w with kripke := { w.kripke with engine := e } } := by
  obtain ⟨dict, engine, pool, aps, retired, sessions, profile⟩ := w
  simp only [onEngine, h]

theorem onEngine_after (x : Action ε α) (w : World ε) : (onEngine x).after w =
    { w with kripke := { w.kripke with engine := x.after w.kripke.engine } } := by
  cases h : x w.kripke.engine with
  | ok a e => rw [after_ok (onEngine_ok h), after_ok h]
  | error f e => rw [after_error (onEngine_error h), after_error h]

theorem onPool_ok {x : Action Pool α} {a : α} {p : Pool} (h : x w.kripke.pool = .ok a p) :
    onPool x w = .ok a { w with kripke := { w.kripke with pool := p } } := by
  obtain ⟨dict, engine, pool, aps, retired, sessions, profile⟩ := w
  simp only [onPool, h]

theorem onPool_error {x : Action Pool α} {f : Fault} {p : Pool} (h : x w.kripke.pool = .error f p) :
    onPool x w = .error f { w with kripke := { w.kripke with pool := p } } := by
  obtain ⟨dict, engine, pool, aps, retired, sessions, profile⟩ := w
  simp only [onPool, h]

theorem onPool_after (x : Action Pool α) (w : World ε) : (onPool x).after w =
    { w with kripke := { w.kripke with pool := x.after w.kripke.pool } } := by
  cases h : x w.kripke.pool with
  | ok a p => rw [after_ok (onPool_ok h), after_ok h]
  | error f p => rw [after_error (onPool_error h), after_error h]

theorem state_ok (h : w.kripke.pool.Has s o) : World.state s w = .ok o.state w := by
  refine reading_ok ?_
  rw [h.get_eq]
  rfl

/-! ## Sound worlds -/

variable [Engine ε] [LawfulEngine ε]

/-- Everything in the world is in order. -/
structure Sound (w : World ε) : Prop where
  dict : w.dict.Sound
  profile : w.kripke.profile.Sound (Engine.network w.kripke.engine) w.dict
  good : LawfulEngine.Good w.kripke.engine
  pool : w.kripke.pool.Sound
  proper : ∀ s o, w.kripke.pool.Has s o →
    LawfulEngine.Proper ε (Engine.network w.kripke.engine) o.state
  retired : ∀ it, w.kripke.retired = some it → it.selfLoop = none ∧ it.home = w.kripke.pool.id

/-- The world is sound after what happened to it, with the same network and the same profile. -/
structure Kept (w w' : World ε) : Prop where
  sound : w'.Sound
  network : Engine.network w'.kripke.engine = Engine.network w.kripke.engine
  profile : w'.kripke.profile = w.kripke.profile

theorem Kept.refl (h : w.Sound) : w.Kept w := ⟨h, rfl, rfl⟩

theorem Kept.trans {w'' : World ε} (h : w.Kept w') (h' : w'.Kept w'') : w.Kept w'' :=
  ⟨h'.sound, h'.network.trans h.network, h'.profile.trans h.profile⟩

/-- An engine that is still in order, for the same network, may take the place of the engine. -/
theorem Sound.withEngine (h : w.Sound) {e : ε} (hg : LawfulEngine.Good e)
    (hn : Engine.network e = Engine.network w.kripke.engine) :
    Sound { w with kripke := { w.kripke with engine := e } } where
  dict := h.dict
  profile := by
    show w.kripke.profile.Sound (Engine.network e) w.dict
    rw [hn]
    exact h.profile
  good := hg
  pool := h.pool
  proper s o hs := by
    show LawfulEngine.Proper ε (Engine.network e) o.state
    rw [hn]
    exact h.proper s o hs
  retired := h.retired

/-- One slot of the pool may get another state of the engine's. -/
theorem Sound.withPool (h : w.Sound) {p : Pool} {x : Option Slot}
    (hp : Pool.Updated w.kripke.pool s x p)
    (hx : ∀ o, p.Has s o → LawfulEngine.Proper ε (Engine.network w.kripke.engine) o.state) :
    Sound { w with kripke := { w.kripke with pool := p } } where
  dict := h.dict
  profile := h.profile
  good := h.good
  pool := hp.sound
  proper t o ht := by
    by_cases hts : t = s
    · subst hts
      exact hx o ht
    · obtain ⟨k, hk⟩ := ht
      exact h.proper t o ⟨k, (hp.frame t hts).symm.trans hk⟩
  retired it hit := by
    obtain ⟨hloop, hhome⟩ := h.retired it hit
    exact ⟨hloop, hhome.trans hp.id.symm⟩

/-- A slot may get references to a state of the engine's. -/
theorem Sound.withShared (h : w.Sound)
    (ho : LawfulEngine.Proper ε (Engine.network w.kripke.engine) o.state) {p : Pool}
    (hp : Pool.Updated w.kripke.pool s (some (.ofShared o k)) p) :
    Sound { w with kripke := { w.kripke with pool := p } } := by
  refine h.withPool hp fun o' ho' => ?_
  rw [hp.eq_of_has ho']
  exact ho

/-- The dictionary may change as requests that spare the structure change it. -/
theorem Sound.withDict (h : w.Sound) {d : Dictionary} {spared : Owner → Prop}
    (hk : Dictionary.Request.Kept w.dict spared d) (ho : spared w.kripke.profile.owner)
    (hp : spared w.kripke.profile.props.owner) : Sound { w with dict := d } where
  dict := hk.sound
  profile := h.profile.kept h.dict hk ho hp
  good := h.good
  pool := h.pool
  proper := h.proper
  retired := h.retired

/-- Names, sessions and retired iterators are of no concern. -/
theorem Sound.withRest (h : w.Sound) (aps : List String) (sessions : Nat) {retired : Option Iterator}
    (hr : ∀ it, retired = some it → it.selfLoop = none ∧ it.home = w.kripke.pool.id) :
    Sound { w with kripke := { w.kripke with aps, sessions, retired } } where
  dict := h.dict
  profile := h.profile
  good := h.good
  pool := h.pool
  proper := h.proper
  retired := hr

omit [LawfulEngine ε] in
/-- The world with one more session. -/
def opened (w : World ε) : World ε :=
  { w with kripke := { w.kripke with
    engine := Engine.pause w.kripke.engine, sessions := w.kripke.sessions + 1 } }

omit [LawfulEngine ε] in
theorem openSession_ok (w : World ε) : Kripke.openSession w = .ok () w.opened := rfl

theorem Sound.opened (h : w.Sound) : w.opened.Sound := by
  have hgood := LawfulEngine.pause h.good
  exact (h.withEngine hgood.1 hgood.2).withRest _ _ h.retired

/-! ## Initial states -/

/-- What a request for the initial state answers and leaves: there is a handle if the engine has one
state, and the slots of other handles are as before. -/
def Started (w : World ε) (e : ε) (w' : World ε) :
    List Shared → Except Kripke.StartError Handle → Prop
  | [], r => r = .error .missing ∧ w' = { w with kripke := { w.kripke with engine := e } }
  | [o], r => ∃ s, r = .ok s ∧ w.kripke.pool.slot? s = none ∧
      Pool.Updated w.kripke.pool s (some (.ofShared o 1)) w'.kripke.pool ∧
      w' = { w with kripke := { w.kripke with engine := e, pool := w'.kripke.pool } }
  | _, r => r = .error .multiple ∧ w' = { w with kripke := { w.kripke with engine := e } }

omit [Engine ε] [LawfulEngine ε] in
/-- Without an initial state, or with several, only the engine has changed. -/
theorem Started.error {e : ε} {ss : List Shared} {r : Except Kripke.StartError Handle}
    (h : w.Started e w' ss r) (hss : ss.length ≠ 1) :
    ∃ f, r = .error f ∧ w' = { w with kripke := { w.kripke with engine := e } } := by
  match ss, h with
  | [], h => exact ⟨_, h⟩
  | [_], _ => exact absurd rfl hss
  | _ :: _ :: _, h => exact ⟨_, h⟩

theorem initialState_spec (h : w.Sound) : Ensures Kripke.initialState w fun r w' =>
    w.Kept w' ∧ ∃ ss e, Engine.initial w.kripke.engine = .ok ss e ∧ Started w e w' ss r := by
  obtain ⟨ss, e, hinit, hgood, hnet, hproper⟩ := LawfulEngine.initial h.good
  have h₁ := h.withEngine hgood hnet
  unfold Kripke.initialState
  refine .of_ok (onEngine_ok hinit) ?_
  match ss, hproper, hinit with
  | [], _, hinit => exact Ensures.pure ⟨⟨h₁, hnet, rfl⟩, [], e, hinit, rfl, rfl⟩
  | [o], hproper, hinit =>
    obtain ⟨s, p, hwrap, hvacant, hupd⟩ := Pool.wrap_spec h₁.pool o
    refine .of_ok (onPool_ok hwrap)
      (Ensures.pure ⟨⟨h₁.withShared ?_ hupd, hnet, rfl⟩, [o], e, hinit, s, rfl, hvacant, hupd, rfl⟩)
    show LawfulEngine.Proper ε (Engine.network e) o.state
    rw [hnet]
    exact hproper o List.mem_cons_self
  | _ :: _ :: _, _, hinit => exact Ensures.pure ⟨⟨h₁, hnet, rfl⟩, _, e, hinit, rfl, rfl⟩

end World

end StateSpace
