import StateSpace.Proofs.Engine.Pausing
import StateSpace.Proofs.Kripke.Moves
import StateSpace.Proofs.Pool.Lent

/-!
# Footprints

Whoever uses a structure that others use as well leaves a footprint on it: the references that it has
borrowed and not given back. Everything else that the others can see of the structure is as it was, the
sessions and the pauses of the engine included. Each call adds to the footprint what it hands out and
takes off what it is given. This holds of any engine, proposition or dictionary, for calls that do not
fault, with handles and iterators whose references were borrowed before.

1. `World.Tidy` is what a structure needs for that. It holds of a new one, and each move keeps it,
   whether the move faults or not.
2. `World.Footprint` is the account, with one lemma for each call.
-/

namespace StateSpace

open StateSpace.Action

namespace World

variable {ε α : Type} {w w₀ w' : World ε} {objs objs' : Handle → Shared} {rs rs' : List Handle}
  {s : Handle} {it : Iterator}

/-! ## Actions on the parts -/

theorem ensuresOk_onDict {x : Action Dictionary α} {Q : α → World ε → Prop}
    (h : ∀ a d, Q a { w with dict := d }) : EnsuresOk (onDict x) w Q := by
  intro a w' hrun
  cases hx : x w.dict with
  | ok b d =>
    cases hrun.symm.trans (onDict_ok hx)
    exact h a d
  | error e d => cases hrun.symm.trans (onDict_error hx)

theorem ensuresOk_onEngine {x : Action ε α} {P : α → ε → Prop} {Q : α → World ε → Prop}
    (hx : EnsuresOk x w.kripke.engine P)
    (h : ∀ a e, P a e → Q a { w with kripke := { w.kripke with engine := e } }) :
    EnsuresOk (onEngine x) w Q := by
  intro a w' hrun
  cases hx' : x w.kripke.engine with
  | ok b e =>
    cases hrun.symm.trans (onEngine_ok hx')
    exact h a e (hx a e hx')
  | error f e => cases hrun.symm.trans (onEngine_error hx')

theorem ensuresOk_onPool {x : Action Pool α} {P : α → Pool → Prop} {Q : α → World ε → Prop}
    (hx : EnsuresOk x w.kripke.pool P)
    (h : ∀ a p, P a p → Q a { w with kripke := { w.kripke with pool := p } }) :
    EnsuresOk (onPool x) w Q := by
  intro a w' hrun
  cases hx' : x w.kripke.pool with
  | ok b p =>
    cases hrun.symm.trans (onPool_ok hx')
    exact h a p (hx a p hx')
  | error f p => cases hrun.symm.trans (onPool_error hx')

/-! ## Tidy worlds -/

/-- The slots of the pool count references, and an iterator that is kept for later has none. -/
structure Tidy (w : World ε) : Prop where
  pool : w.kripke.pool.Sound
  counted : w.kripke.pool.Counted
  retired : ∀ it, w.kripke.retired = some it → it.selfLoop = none ∧ it.home = w.kripke.pool.id

/-- Nothing that is done to the dictionary makes a world untidy. -/
theorem keeps_tidy_onDict {p : Profile} (x : Action Dictionary α) :
    Keeps (fun w : World ε => w.kripke.profile = p ∧ w.Tidy) (onDict x) := by
  intro w h
  rw [onDict_after]
  exact ⟨h.1, h.2.pool, h.2.counted, h.2.retired⟩

/-- What a structure does keeps it tidy. -/
theorem steady_tidy (p : Profile) : Steady p fun w : World ε => w.kripke.profile = p ∧ w.Tidy where
  profile h := h.1
  pool {_ x} hx w h := by
    obtain ⟨hsound, hcounted, hid⟩ := hx _ w.kripke.pool ⟨h.2.pool, h.2.counted, rfl⟩
    rw [onPool_after]
    exact ⟨h.1, hsound, hcounted, fun it hit =>
      ⟨(h.2.retired it hit).1, (h.2.retired it hit).2.trans hid.symm⟩⟩
  engine _ h := ⟨h.1, h.2.pool, h.2.counted, h.2.retired⟩
  rest h hr := ⟨h.1, h.2.pool, h.2.counted, fun it hit => (hr it hit).elim (h.2.retired it) id⟩
  condition _ := keeps_tidy_onDict _
  marker _ _ := keeps_tidy_onDict _

variable [Engine ε] [PausingEngine ε]

/-- `w'` is `w` with the references `rs` besides, which are to these objects, as far as the users of the
structure are concerned. -/
structure Footprint (w : World ε) (objs : Handle → Shared) (rs : List Handle) (w' : World ε) :
    Prop where
  pool : w.kripke.pool.Lent objs rs w'.kripke.pool
  retired : ∀ it, w'.kripke.retired = some it → it.selfLoop = none ∧ it.home = w.kripke.pool.id
  sessions : w'.kripke.sessions = w.kripke.sessions
  paused : PausingEngine.paused w'.kripke.engine = PausingEngine.paused w.kripke.engine

theorem Tidy.footprint (h : w.Tidy) (objs : Handle → Shared) : w.Footprint objs [] w :=
  ⟨.refl h.pool h.counted objs, h.retired, rfl, rfl⟩

namespace Footprint

theorem tidy (h : w₀.Footprint objs rs w) : w.Tidy :=
  ⟨h.pool.sound, h.pool.counted, fun it hit =>
    ⟨(h.retired it hit).1, (h.retired it hit).2.trans h.pool.id.symm⟩⟩

theorem perm (h : w₀.Footprint objs rs w) (hp : rs'.Perm rs) : w₀.Footprint objs rs' w :=
  ⟨h.pool.perm hp, h.retired, h.sessions, h.paused⟩

/-- Only the pool counts references. -/
theorem withPool (h : w₀.Footprint objs rs w) {p : Pool} (hp : w₀.kripke.pool.Lent objs' rs' p) :
    w₀.Footprint objs' rs' { w with kripke := { w.kripke with pool := p } } :=
  ⟨hp, h.retired, h.sessions, h.paused⟩

/-- What the dictionary does is of no concern. -/
theorem onDict (h : w₀.Footprint objs rs w) (x : Action Dictionary α) :
    EnsuresOk (onDict x) w fun _ w' => w₀.Footprint objs rs w' :=
  ensuresOk_onDict fun _ _ => ⟨h.pool, h.retired, h.sessions, h.paused⟩

/-- The engine keeps its pauses. -/
theorem onEngine (h : w₀.Footprint objs rs w) {x : Action ε α}
    (hx : ∀ n, Keeps (fun e : ε => PausingEngine.paused e = n) x) :
    EnsuresOk (onEngine x) w fun _ w' => w₀.Footprint objs rs w' :=
  ensuresOk_onEngine ((hx _).ensuresOk rfl) fun _ _ he =>
    ⟨h.pool, h.retired, h.sessions, he.trans h.paused⟩

/-! ## Calls -/

theorem wrap (h : w₀.Footprint objs rs w) (o : Shared) :
    EnsuresOk (World.onPool (Pool.wrap o)) w fun s w' =>
      ∃ objs', (∀ t ∈ rs, objs' t = objs t) ∧ w₀.Footprint objs' (s :: rs) w' :=
  ensuresOk_onPool (h.pool.wrap o) fun _ _ ⟨objs', hobjs, hp⟩ => ⟨objs', hobjs, h.withPool hp⟩

/-- The initial state is wrapped, which leaves the objects of the others alone. -/
theorem initialState (h : w₀.Footprint objs rs w) : EnsuresOk Kripke.initialState w fun r w' =>
    ∃ objs', (∀ t ∈ rs, objs' t = objs t) ∧ w₀.Footprint objs' (r.toOption.toList ++ rs) w' := by
  unfold Kripke.initialState
  refine (h.onEngine PausingEngine.initial).bind fun ss w₁ h₁ => ?_
  match ss with
  | [] => exact EnsuresOk.pure ⟨objs, fun _ _ => rfl, h₁⟩
  | [o] => exact (h₁.wrap o).bind fun s w₂ h₂ => EnsuresOk.pure h₂
  | _ :: _ :: _ => exact EnsuresOk.pure ⟨objs, fun _ _ => rfl, h₁⟩

theorem stateCondition (h : w₀.Footprint objs rs w) (s : Handle) :
    EnsuresOk (Kripke.stateCondition s) w fun _ w' => w₀.Footprint objs rs w' :=
  (EnsuresOk.reading fun _ _ => h).bind fun _ _ h₁ => .get (h₁.onDict _)

theorem clone (h : w₀.Footprint objs rs w) (hs : s ∈ rs) :
    EnsuresOk (World.onPool (Pool.clone s)) w fun t w' =>
      t = s ∧ w₀.Footprint objs (s :: rs) w' :=
  ensuresOk_onPool (h.pool.clone hs) fun _ _ ⟨ht, hp⟩ => ⟨ht, h.withPool hp⟩

theorem release (h : w₀.Footprint objs (s :: rs) w) (hroom : rs.count s + 1 < 2 ^ 32) :
    EnsuresOk (World.onPool (Pool.release s)) w fun _ w' => w₀.Footprint objs rs w' :=
  ensuresOk_onPool (h.pool.release hroom) fun _ _ hp => h.withPool hp

/-! ### Iterators -/

/-- An iterator may be made from one that was kept. -/
theorem freshIterator (h : w₀.Footprint objs rs w) (cursor : Cursor) (cond : Edge)
    (selfLoop : Option Handle) : EnsuresOk (Kripke.freshIterator cursor cond selfLoop) w
      fun it w' => it.selfLoop = selfLoop ∧ w₀.Footprint objs rs w' :=
  Ensures.ok ⟨_, _, Kripke.freshIterator_eq h.tidy.retired, rfl, h.pool,
    (fun _ hit => by cases hit), h.sessions, h.paused⟩

/-- An iterator comes with the reference of its loop, if it has one. -/
theorem successors (h : w₀.Footprint objs rs w) (others : InUse) (hs : s ∈ rs) :
    EnsuresOk (Kripke.successors others s) w fun it w' => (∀ t, it.selfLoop = some t → t = s) ∧
      w₀.Footprint objs (it.selfLoop.toList ++ rs) w' := by
  have hfresh : ∀ {w₁ : World ε} (cursor : Cursor) (cond : Edge) (selfLoop : Option Handle),
      (∀ t, selfLoop = some t → t = s) → w₀.Footprint objs (selfLoop.toList ++ rs) w₁ →
        EnsuresOk (Kripke.freshIterator cursor cond selfLoop) w₁ fun it w' =>
          (∀ t, it.selfLoop = some t → t = s) ∧ w₀.Footprint objs (it.selfLoop.toList ++ rs) w' :=
    fun cursor cond selfLoop hloop h₁ =>
      (h₁.freshIterator cursor cond selfLoop).mono fun it w' ⟨hit, h'⟩ => by
        rw [hit]
        exact ⟨hloop, h'⟩
  unfold Kripke.successors Kripke.engineSuccessors
  refine (EnsuresOk.reading fun _ _ => h).bind fun state w₁ h₁ => ?_
  refine EnsuresOk.bind (.get (h₁.onEngine (PausingEngine.outgoing _ state))) fun items w₂ h₂ => ?_
  refine .get ((h₂.onDict _).bind fun cond w₃ h₃ => ?_)
  split
  · refine (h₃.onDict _).bind fun cond w₄ h₄ => ?_
    split
    · exact hfresh _ _ none nofun h₄
    · refine (h₄.clone hs).bind fun t w₅ ⟨ht, h₅⟩ => hfresh _ _ (some t) ?_ (ht ▸ h₅)
      rintro _ ⟨⟩
      exact ht
  · exact (h₃.onDict _).bind fun cond w₄ h₄ => hfresh _ _ none nofun h₄

theorem destination (h : w₀.Footprint objs rs w) (hit : ∀ s, it.selfLoop = some s → s ∈ rs) :
    EnsuresOk (World.onPool it.destination) w fun s w' =>
      ∃ objs', (∀ t ∈ rs, objs' t = objs t) ∧ w₀.Footprint objs' (s :: rs) w' :=
  ensuresOk_onPool (Iterator.destination_lent h.pool hit) fun _ _ ⟨objs', hobjs, hp⟩ =>
    ⟨objs', hobjs, h.withPool hp⟩

/-- An iterator that is given back gives its reference back, whether it is kept or not. -/
theorem giveBack (h : w₀.Footprint objs (it.selfLoop.toList ++ rs) w)
    (hroom : ∀ s, rs.count s + 1 < 2 ^ 32) :
    EnsuresOk (Kripke.giveBack it) w fun _ w' => w₀.Footprint objs rs w' := by
  intro _ w' hrun
  obtain ⟨p, r, hclose, rfl, hr⟩ := Kripke.of_giveBack hrun
  refine ⟨Iterator.close_lent h.pool hroom () p hclose, fun it' hit => ?_, h.sessions, h.paused⟩
  rcases hr it' hit with hit | ⟨hloop, hhome⟩
  · exact h.retired it' hit
  · exact ⟨hloop, hhome.trans h.pool.id⟩

end Footprint

/-! ## Tidy worlds at any time -/

omit [PausingEngine ε] in
/-- A new structure has an empty pool and no session, and has kept no iterator. -/
theorem of_create {d d' : Dictionary} {id : Nat} {engine : ε} {names : List String} {o : Options}
    {k : Kripke ε} (h : Kripke.create id engine names o d = .ok (.ok k) d') :
    Pool.create id o.poolBits = .ok k.pool ∧ k.engine = engine ∧ k.retired = none ∧
      k.sessions = 0 := by
  unfold Kripke.create at h
  obtain ⟨x, d₁, -, h⟩ := estate_bind_eq_ok.1 h
  cases x with
  | error ds => cases h
  | ok props =>
    obtain ⟨owner, d₂, -, h⟩ := estate_bind_eq_ok.1 h
    obtain ⟨⟨alive, dead⟩, d₃, -, h⟩ := estate_bind_eq_ok.1 h
    cases hpool : Pool.create id o.poolBits with
    | error e =>
      rw [hpool] at h
      obtain ⟨_, d₄, -, h⟩ := estate_bind_eq_ok.1 h
      cases h
    | ok pool =>
      rw [hpool] at h
      obtain ⟨_, d₄, -, h⟩ := estate_bind_eq_ok.1 h
      cases h
      exact ⟨rfl, rfl, rfl, rfl⟩

omit [PausingEngine ε] in
theorem tidy_of_create {d d' : Dictionary} {id : Nat} {engine : ε} {names : List String} {o : Options}
    {k : Kripke ε} (h : Kripke.create id engine names o d = .ok (.ok k) d') : Tidy ⟨d', k⟩ := by
  obtain ⟨hpool, -, hretired, -⟩ := of_create h
  exact ⟨(Pool.create_sound hpool).1, Pool.create_counted hpool, fun _ hit => by
    cases hretired.symm.trans hit⟩

omit [PausingEngine ε] in
/-- A move keeps a world tidy, whether it faults or not. -/
theorem Tidy.move (h : w.Tidy) (m : Move) : (m.run.after w).Tidy := by
  have hI := steady_tidy (ε := ε) w.kripke.profile
  have hw : w.kripke.profile = w.kripke.profile ∧ w.Tidy := ⟨rfl, h⟩
  cases m with
  | observe name => exact ⟨h.pool, h.counted, h.retired⟩
  | request q => exact (keeps_tidy_onDict q.run w hw).2
  | _ => exact (Move.keeps hI _ (by rintro _ ⟨⟩) (by rintro _ ⟨⟩) w hw).2

end World

end StateSpace
