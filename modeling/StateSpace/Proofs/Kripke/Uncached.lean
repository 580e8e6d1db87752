import StateSpace.Proofs.Kripke.Retired

/-!
# Structures that keep no iterator

Forgetting the retired iterator of a structure, and that it may keep one, changes no answer. A retired
iterator is at its start, has no reference and is at home in the pool of the structure, so the iterator
that is made from it is the one that would be made afresh. Giving an iterator back releases its
reference at once, as closing it does.

1. `Mirrors` is a simulation along a function of the states: same answer, image of the state.
2. Actions on the dictionary, the engine and the pool do not see a retired iterator (`Oblivious`).
3. `freshIterator` and `giveBack` do, and answer alike with and without one.
-/

namespace StateSpace

namespace Action

variable {σ τ α β γ : Type}

/-- On states with an invariant, which is kept, the second action answers what the first one does, and
leaves the image of the state that the first one leaves. -/
def Mirrors (I : σ → Prop) (f : σ → τ) (x : Action σ α) (y : Action τ α) : Prop :=
  ∀ s, I s →
    (∃ a s', x s = .ok a s' ∧ y (f s) = .ok a (f s') ∧ I s') ∨
    (∃ e s', x s = .error e s' ∧ y (f s) = .error e (f s') ∧ I s')

variable {I : σ → Prop} {f : σ → τ} {x : Action σ α} {y : Action τ α}

theorem Mirrors.outcome_eq (h : Mirrors I f x y) {s : σ} (hs : I s) :
    (y.outcome (f s)).1 = (x.outcome s).1 ∧ y.after (f s) = f (x.after s) ∧ I (x.after s) := by
  unfold after outcome
  rcases h s hs with ⟨a, s', hx, hy, hs'⟩ | ⟨e, s', hx, hy, hs'⟩
  · rw [hx, hy]
    exact ⟨rfl, rfl, hs'⟩
  · rw [hx, hy]
    exact ⟨rfl, rfl, hs'⟩

theorem mirrors_pure (a : α) : Mirrors I f (pure a) (pure a) := fun s hs => .inl ⟨a, s, rfl, rfl, hs⟩

theorem mirrors_throw (e : Fault) : Mirrors I f (throw e : Action σ α) (throw e) :=
  fun s hs => .inr ⟨e, s, rfl, rfl, hs⟩

theorem Mirrors.bind {g : α → Action σ β} {h : α → Action τ β} (hx : Mirrors I f x y)
    (hg : ∀ a, Mirrors I f (g a) (h a)) : Mirrors I f (x >>= g) (y >>= h) := by
  intro s hs
  rcases hx s hs with ⟨a, s', hxs, hys, hs'⟩ | ⟨e, s', hxs, hys, hs'⟩
  · rw [bind_ok hxs, bind_ok hys]
    exact hg a s' hs'
  · exact .inr ⟨e, s', bind_error hxs g, bind_error hys h, hs'⟩

/-- What follows depends on the state, and the second action sees its image. -/
theorem mirrors_get_bind {g : σ → Action σ β} {h : τ → Action τ β}
    (hg : ∀ s, I s → Mirrors I f (g s) (h (f s))) : Mirrors I f (get >>= g) (get >>= h) :=
  fun s hs => hg s hs s hs

theorem mirrors_reading {g : σ → Except Fault α} {h : τ → Except Fault α}
    (hg : ∀ s, h (f s) = g s) : Mirrors I f (reading g) (reading h) := by
  intro s hs
  unfold reading
  rw [hg]
  cases g s with
  | ok a => exact .inl ⟨a, s, rfl, rfl, hs⟩
  | error e => exact .inr ⟨e, s, rfl, rfl, hs⟩

theorem mirrors_modify {g : σ → σ} {h : τ → τ} (hg : ∀ s, I s → h (f s) = f (g s) ∧ I (g s)) :
    Mirrors I f (modify g : Action σ Unit) (modify h) := by
  intro s hs
  obtain ⟨heq, hI⟩ := hg s hs
  exact .inl ⟨(), g s, rfl, by rw [modify_apply, heq], hI⟩

end Action

open StateSpace.Action

/-! ## Structures without a retired iterator -/

variable {ε α β : Type} {k : Nat}

/-- The structure that keeps no iterator, and has none. -/
def Kripke.uncached (s : Kripke ε) : Kripke ε :=
  { s with retired := none, profile := { s.profile with keepIterator := false } }

theorem Kripke.uncached_of_retired {s : Kripke ε} (h : s.retired = none) :
    s.uncached = { s with profile := { s.profile with keepIterator := false } } := by
  unfold Kripke.uncached
  rw [← h]

/-- The structure that keeps no iterator, with the same dictionary. -/
def World.uncached (w : World ε) : World ε := ⟨w.dict, w.kripke.uncached⟩

/-- The structure has the pool with a number, and a retired iterator is at home there and refers to no
state. -/
structure Kripke.Clean (k : Nat) (s : Kripke ε) : Prop where
  id : s.pool.id = k
  retired : ∀ it, s.retired = some it → it.selfLoop = none ∧ it.home = k

namespace World

variable {w : World ε}

/-- The structure of the world is clean. -/
def Clean (k : Nat) (w : World ε) : Prop := w.kripke.Clean k

/-- The action does not see whether there is a retired iterator. -/
def Oblivious (k : Nat) (x : Action (World ε) α) : Prop := Mirrors (Clean k) uncached x x

theorem oblivious_onDict (x : Action Dictionary α) : Oblivious k (onDict x : Action (World ε) α) := by
  intro w hw
  cases hx : x w.dict with
  | ok a d => exact .inl ⟨a, _, onDict_ok hx, onDict_ok (w := w.uncached) hx, hw⟩
  | error e d => exact .inr ⟨e, _, onDict_error hx, onDict_error (w := w.uncached) hx, hw⟩

theorem oblivious_onEngine (x : Action ε α) : Oblivious k (onEngine x) := by
  intro w hw
  cases hx : x w.kripke.engine with
  | ok a e =>
    exact .inl ⟨a, _, onEngine_ok hx, onEngine_ok (w := w.uncached) hx, hw.id, hw.retired⟩
  | error f e =>
    exact .inr ⟨f, _, onEngine_error hx, onEngine_error (w := w.uncached) hx, hw.id, hw.retired⟩

theorem oblivious_onPool {x : Action Pool α} (hid : Keeps (·.id = k) x) :
    Oblivious k (onPool x : Action (World ε) α) := by
  intro w hw
  have hid' := hid w.kripke.pool hw.id
  cases hx : x w.kripke.pool with
  | ok a p =>
    rw [after_ok hx] at hid'
    exact .inl ⟨a, _, onPool_ok hx, onPool_ok (w := w.uncached) hx, hid', hw.retired⟩
  | error e p =>
    rw [after_error hx] at hid'
    exact .inr ⟨e, _, onPool_error hx, onPool_error (w := w.uncached) hx, hid', hw.retired⟩

theorem oblivious_state (s : Handle) : Oblivious k (state s : Action (World ε) EngineState) :=
  mirrors_reading fun _ => rfl

end World

namespace Kripke

open World

/-! ## Successors -/

theorem oblivious_initialState [Engine ε] : Oblivious k (initialState (ε := ε)) := by
  refine (oblivious_onEngine _).bind fun ss => ?_
  match ss with
  | [] => exact mirrors_pure _
  | [s] => exact (oblivious_onPool (Pool.keeps_id_wrap s)).bind fun _ => mirrors_pure _
  | _ :: _ :: _ => exact mirrors_pure _

theorem oblivious_engineSuccessors [Engine ε] (others : InUse) (state : EngineState) :
    Oblivious k (engineSuccessors others state : Action (World ε) _) :=
  mirrors_get_bind fun _ _ => oblivious_onEngine _

theorem oblivious_freshIterator (cursor : Cursor) (cond : Edge) (selfLoop : Option Handle) :
    Oblivious k (freshIterator cursor cond selfLoop : Action (World ε) Iterator) := by
  intro w hw
  have hid : w.kripke.pool.id = k := hw.id
  exact .inl ⟨_, _, freshIterator_eq (hid ▸ hw.retired), freshIterator_eq (fun _ hit => by cases hit),
    hw.id, fun _ hit => by cases hit⟩

theorem oblivious_successors [Engine ε] (others : InUse) (s : Handle) :
    Oblivious k (successors others s : Action (World ε) Iterator) := by
  refine (oblivious_state s).bind fun state => (oblivious_engineSuccessors others state).bind
    fun items => ?_
  -- the two structures have the same propositions and the same markers
  refine mirrors_get_bind fun w _ => ?_
  refine (oblivious_onDict _).bind fun cond => ?_
  split
  · refine (oblivious_onDict _).bind fun cond => ?_
    split
    · exact oblivious_freshIterator _ _ _
    · exact (oblivious_onPool (Pool.keeps_id_clone s)).bind fun _ => oblivious_freshIterator _ _ _
  · exact (oblivious_onDict _).bind fun cond => oblivious_freshIterator _ _ _

/-! ## Giving back -/

variable {w : World ε} {it : Iterator}

theorem retire_uncached (w : World ε) (it : Iterator) :
    retire it w.uncached = .ok false w.uncached := retire_refused rfl

/-- An iterator of another structure is never kept. -/
theorem oblivious_retire (hhome : it.home ≠ k) :
    Oblivious k (retire it : Action (World ε) Bool) := by
  intro w hw
  have hrefused : w.kripke.refuses it = true := by
    unfold refuses
    rw [hw.id]
    simp [hhome]
  exact .inl ⟨false, w, retire_refused hrefused, retire_uncached w it, hw⟩

/-- An iterator that is kept gives its reference up as one that is closed does. -/
theorem oblivious_giveBack (hhome : it.home = k) :
    Oblivious k (giveBack it : Action (World ε) Unit) := by
  intro w hw
  have hclose : giveBack it w.uncached = onPool it.close w.uncached :=
    bind_ok (retire_uncached w it) _
  rw [hclose]
  by_cases hrefused : w.kripke.refuses it = true
  · have hclose' : giveBack it w = onPool it.close w := bind_ok (retire_refused hrefused) _
    rw [hclose']
    exact oblivious_onPool it.keeps_id_close w hw
  · have hid := it.keeps_id_close (n := k) w.kripke.pool hw.id
    cases hp : it.close w.kripke.pool with
    | ok u p =>
      rw [after_ok hp] at hid
      refine .inl ⟨(), _, bind_ok (retire_kept hrefused hp) _, onPool_ok (w := w.uncached) hp, hid, ?_⟩
      rintro _ ⟨⟩
      exact ⟨rfl, hhome⟩
    | error e p =>
      rw [after_error hp] at hid
      exact .inr ⟨e, _, bind_error (retire_fault hrefused hp) _, onPool_error (w := w.uncached) hp,
        hid, hw.retired⟩

/-! ## Building -/

/-- Whether a structure keeps an iterator matters to nothing else in how it is built. -/
theorem create_keepIterator [Engine ε] (id : Nat) (engine : ε) (names : List String) (o : Options)
    (b : Bool) : create id engine names { o with keepIterator := b } =
      (·.map fun s => { s with profile := { s.profile with keepIterator := b } }) <$>
        create id engine names o := by
  unfold create
  rw [map_bind]
  refine bind_congr fun r => ?_
  cases r with
  | error ds => rfl
  | ok props =>
    rw [map_bind]
    refine bind_congr fun owner => ?_
    rw [map_bind]
    refine bind_congr fun m => ?_
    dsimp only
    cases Pool.create id o.poolBits with
    | error e =>
      rw [map_bind]
      rfl
    | ok pool =>
      rw [map_bind]
      rfl

end Kripke

end StateSpace
