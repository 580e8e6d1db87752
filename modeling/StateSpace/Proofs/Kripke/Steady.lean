import StateSpace.Proofs.Kripke.Retired

/-!
# Steady properties

A structure works on its dictionary in two ways only: it builds the condition of a state, and it joins
a condition with a marker. It keeps its pool in order, and an iterator that it keeps for later refers to
no state. A property that survives all this survives whatever the structure does. The properties of the
dictionary among them do not look at the structure: the cells get no fewer, and a structure without
propositions and names leaves its dictionary alone.
-/

namespace StateSpace

open StateSpace.Action World

namespace Manager

/-- Nothing is true together with the constant false. -/
theorem and_zero (d : Manager) (f : Edge) : and f .zero d = .ok .zero d := by
  have hterm : iteTerminal f .zero .zero = some .zero := by
    unfold iteTerminal
    by_cases hone : f = .one
    · rw [if_pos hone]
    · by_cases hzero : f = .zero
      · rw [if_neg hone, if_pos hzero]
      · rw [if_neg hone, if_neg hzero, if_pos rfl]
  unfold and ite iteWithin
  rw [hterm]
  rfl

/-- The constant true adds nothing. -/
theorem and_one (d : Manager) (f : Edge) : and f .one d = .ok f d := by
  have hterm : iteTerminal f .one .zero = some f := by
    unfold iteTerminal
    by_cases hone : f = .one
    · rw [if_pos hone, hone]
    · by_cases hzero : f = .zero
      · rw [if_neg hone, if_pos hzero, hzero]
      · rw [if_neg hone, if_neg hzero, if_neg Edge.one_ne_zero, if_pos ⟨rfl, rfl⟩]
  unfold and ite iteWithin
  rw [hterm]
  rfl

end Manager

variable {ε α : Type} {p : Profile} {I : World ε → Prop}

/-- The property survives what a structure with this profile does: to its dictionary, to its engine, to
its pool as long as it stays in order, and to the iterator that it keeps for later. -/
structure Steady (p : Profile) (I : World ε → Prop) : Prop where
  profile : ∀ {w}, I w → w.kripke.profile = p
  pool : ∀ {α : Type} {x : Action Pool α}, Pool.Orderly x → Keeps I (onPool x)
  engine : ∀ {w} e, I w → I { w with kripke := { w.kripke with engine := e } }
  rest : ∀ {w aps sessions} {retired : Option Iterator}, I w →
    (∀ it, retired = some it → w.kripke.retired = some it ∨
      (it.selfLoop = none ∧ it.home = w.kripke.pool.id)) →
    I { w with kripke := { w.kripke with aps, retired, sessions } }
  condition : ∀ state, Keeps I (onDict (p.props.condition state))
  marker : ∀ cond dead, Keeps I
    (onDict (Dictionary.onDiagram (Manager.and cond (p.marker dead))))

/-- A property of the dictionary does not look at the structure. -/
theorem steady_dict {J : Dictionary → Prop} (hcond : ∀ state, Keeps J (p.props.condition state))
    (hmarker : ∀ cond dead, Keeps J (Dictionary.onDiagram (Manager.and cond (p.marker dead)))) :
    Steady p fun w : World ε => w.kripke.profile = p ∧ J w.dict where
  profile h := h.1
  pool _ w h := by rwa [onPool_after]
  engine _ h := h
  rest h _ := h
  condition state w h := by
    rw [onDict_after]
    exact ⟨h.1, hcond state w.dict h.2⟩
  marker cond dead w h := by
    rw [onDict_after]
    exact ⟨h.1, hmarker cond dead w.dict h.2⟩

/-- There are at least so many cells. -/
theorem steady_cells (p : Profile) (n : Nat) :
    Steady p fun w : World ε => w.kripke.profile = p ∧ n ≤ HasCells.cells w :=
  steady_dict (J := fun d => n ≤ HasCells.cells d)
    (fun state d h => Nat.le_trans h (PropositionList.grows_condition p.props state d))
    fun cond dead d h =>
      Nat.le_trans h (Dictionary.grows_onDiagram (Manager.grows_and cond (p.marker dead)) d)

/-- What keeps every steady property drops no cell. -/
theorem grows_of_keeps {x : Action (World ε) α}
    (h : ∀ {p : Profile} {I : World ε → Prop}, Steady p I → Keeps I x) : Grows x :=
  fun w => (h (steady_cells w.kripke.profile (HasCells.cells w)) w ⟨rfl, Nat.le_refl _⟩).2

/-- Without propositions, and without a name for dead states, there is nothing to build. -/
def Profile.Plain (p : Profile) : Prop :=
  p.props.records = [] ∧ ∀ dead, p.marker dead = .one ∨ p.marker dead = .zero

/-- The dictionary of a plain structure does not change. -/
theorem steady_plain (hp : p.Plain) (d : Dictionary) :
    Steady p fun w : World ε => w.kripke.profile = p ∧ w.dict = d := by
  refine steady_dict (J := (· = d)) (fun state d' h => ?_) fun cond dead d' h => ?_
  · have hcond : p.props.condition state = pure .one := by
      unfold PropositionList.condition
      rw [hp.1]
      rfl
    rw [hcond]
    exact h
  · rcases hp.2 dead with hm | hm
    · rw [hm, after_ok (Dictionary.onDiagram_ok (Manager.and_one _ _))]
      exact h
    · rw [hm, after_ok (Dictionary.onDiagram_ok (Manager.and_zero _ _))]
      exact h

/-! ## Actions of a structure -/

theorem keeps_onEngine (hI : Steady p I) (x : Action ε α) : Keeps I (onEngine x) := by
  intro w hw
  rw [onEngine_after]
  exact hI.engine _ hw

namespace Kripke

theorem keeps_freshIterator (hI : Steady p I) (cursor : Cursor) (cond : Edge)
    (selfLoop : Option Handle) : Keeps I (freshIterator cursor cond selfLoop) := by
  refine keeps_bind (fun w hw => hI.rest hw fun _ hit => by cases hit) fun r => ?_
  cases r with
  | some it => exact hI.pool (it.orderly_recycle _ _ _)
  | none => exact keeps_bind keeps_get fun _ => keeps_pure _

/-- The iterator that is kept, if any, is the one that was kept before, or refers to no state. -/
theorem keeps_giveBack (hI : Steady p I) (it : Iterator) : Keeps I (giveBack it) := by
  intro w hw
  have hclosed := hI.pool it.orderly_close w hw
  have hid := it.keeps_id_close (n := w.kripke.pool.id) w.kripke.pool rfl
  cases hclose : it.close w.kripke.pool with
  | ok u q =>
    obtain ⟨r, hrun, hr⟩ := giveBack_ok hclose
    rw [after_ok (onPool_ok hclose)] at hclosed
    rw [after_ok hclose] at hid
    rw [after_ok hrun]
    exact hI.rest hclosed fun it' hit => by rw [hid]; exact hr it' hit
  | error e q =>
    rw [after_error (onPool_error hclose)] at hclosed
    rwa [after_error (giveBack_error hclose)]

theorem keeps_stateCondition (hI : Steady p I) (s : Handle) : Keeps I (stateCondition s) := by
  refine keeps_bind (keeps_reading _) fun state => keeps_get_bind fun w hw => ?_
  rw [hI.profile hw]
  exact hI.condition state

theorem keeps_initialState [Engine ε] (hI : Steady p I) : Keeps I initialState := by
  refine keeps_bind (keeps_onEngine hI _) fun ss => ?_
  match ss with
  | [] => exact keeps_pure _
  | [s] => exact keeps_bind (hI.pool (Pool.orderly_wrap s)) fun _ => keeps_pure _
  | _ :: _ :: _ => exact keeps_pure _

theorem keeps_openSession [Engine ε] (hI : Steady p I) : Keeps I openSession :=
  fun w hw => hI.rest (hI.engine (Engine.pause w.kripke.engine) hw) fun _ hit => .inl hit

theorem keeps_closeSession [Engine ε] (hI : Steady p I) : Keeps I closeSession :=
  keeps_bind (keeps_onEngine hI _) fun _ _ hw => hI.rest hw fun _ hit => .inl hit

end Kripke

end StateSpace
