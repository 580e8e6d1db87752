import StateSpace.Exploration.Search
import StateSpace.Proofs.Kripke.Successors

/-!
# Steady properties of searches

A search works on its structure through what the structure offers, so steady properties survive every
search, whatever it finds and whether it faults or not.
-/

namespace StateSpace

open StateSpace.Action World

instance {ε : Type} : HasCells (Search ε) := ⟨fun x => HasCells.cells x.world⟩

namespace Search

variable {ε α : Type} {w : World ε} {x : Search ε} {p : Profile} {I : World ε → Prop}

/-! ## Actions on the structure -/

theorem onWorld_ok {y : Action (World ε) α} {a : α} (h : y x.world = .ok a w) :
    onWorld y x = .ok a { x with world := w } := by
  obtain ⟨world, known, held, queue, found⟩ := x
  simp only [onWorld, h]

theorem onWorld_error {y : Action (World ε) α} {e : Fault} (h : y x.world = .error e w) :
    onWorld y x = .error e { x with world := w } := by
  obtain ⟨world, known, held, queue, found⟩ := x
  simp only [onWorld, h]

theorem onWorld_after (y : Action (World ε) α) (x : Search ε) :
    (onWorld y).after x = { x with world := y.after x.world } := by
  cases h : y x.world with
  | ok a w => rw [after_ok (onWorld_ok h), after_ok h]
  | error e w => rw [after_error (onWorld_error h), after_error h]

theorem onWorld_spec {y : Action (World ε) α} {Q : α → World ε → Prop}
    (h : EnsuresFit y x.world Q) :
    EnsuresFit (onWorld y) x fun a x' => Q a x'.world ∧ x' = { x with world := x'.world } := by
  intro hfit
  rw [onWorld_after] at hfit
  obtain ⟨a, w, hy, hQ⟩ := h hfit
  exact ⟨a, _, onWorld_ok hy, hQ, rfl⟩

theorem keeps_onWorld {y : Action (World ε) α} (hy : Keeps I y) :
    Keeps (fun x : Search ε => I x.world) (onWorld y) := by
  intro x hx
  rw [onWorld_after]
  exact hy x.world hx

theorem keeps_updateFound (f : Exploration → Exploration) :
    Keeps (fun x : Search ε => I x.world) (updateFound f) := fun _ hx => hx

/-- What keeps every steady property drops no cell. -/
theorem grows_of_keeps {y : Action (Search ε) α} (h : ∀ {p : Profile} {I : World ε → Prop},
    Steady p I → Keeps (fun x : Search ε => I x.world) y) : Grows y :=
  fun x => (h (steady_cells x.world.kripke.profile (HasCells.cells x.world)) x
    ⟨rfl, Nat.le_refl _⟩).2

/-! ## Actions of a search -/

variable [Engine ε]

theorem keeps_discover (hI : Steady p I) (s : Handle) :
    Keeps (fun x : Search ε => I x.world) (discover s) := by
  refine keeps_bind keeps_get fun x => ?_
  refine keeps_bind ?_ fun _ => ?_
  · refine keeps_bind (keeps_onWorld (hI.pool (Pool.orderly_clone _))) fun _ => ?_
    exact keeps_bind (keeps_reading _) fun _ => keeps_modify fun _ hx => hx
  · refine keeps_bind (keeps_reading _) fun _ => ?_
    refine keeps_bind (keeps_onWorld (Kripke.keeps_stateCondition hI s)) fun _ => ?_
    refine keeps_bind (keeps_reading _) fun _ => keeps_bind (keeps_updateFound _) fun _ => ?_
    exact keeps_bind (keeps_modify fun _ hx => hx) fun _ => keeps_pure _

theorem keeps_place (hI : Steady p I) (limit : Option Nat) (d : Handle) :
    Keeps (fun x : Search ε => I x.world) (place limit d) := by
  refine keeps_bind (keeps_reading _) fun r => ?_
  cases r with
  | some i => exact keeps_bind (keeps_onWorld (hI.pool (Pool.orderly_release _))) fun _ => keeps_pure _
  | none =>
    refine keeps_bind keeps_get fun x => ?_
    split
    · refine keeps_bind (keeps_updateFound _) fun _ => ?_
      exact keeps_bind (keeps_onWorld (hI.pool (Pool.orderly_release _))) fun _ => keeps_pure _
    · exact keeps_bind (keeps_discover hI d) fun _ => keeps_pure _

theorem keeps_followEdge (hI : Steady p I) (limit : Option Nat) (source : Nat) (it : Iterator) :
    Keeps (fun x : Search ε => I x.world) (followEdge limit source it) := by
  refine keeps_bind (keeps_onWorld (hI.pool it.orderly_destination)) fun d => ?_
  refine keeps_bind (keeps_reading _) fun _ => keeps_bind (keeps_place hI limit d) fun r => ?_
  cases r with
  | some i => exact keeps_updateFound _
  | none => exact keeps_pure _

theorem keeps_followEdges (hI : Steady p I) (limit : Option Nat) (source fuel : Nat)
    (it : Iterator) : Keeps (fun x : Search ε => I x.world) (followEdges limit source fuel it) := by
  induction fuel generalizing it with
  | zero => exact keeps_pure _
  | succ fuel ih =>
    refine keeps_bind (keeps_followEdge hI limit source it) fun _ => ?_
    dsimp only
    split
    · exact ih _
    · exact keeps_pure _

/-- Follows the edges of an iterator, if it has any, and closes it if that faults. -/
def followAll (limit : Option Nat) (i : Nat) (any : Bool) (it : Iterator) :
    Action (Search ε) Unit :=
  if any then
    tryCatch (followEdges limit i (it.cursor.size + 1) it) fun e => do
      onWorld (onPool it.close)
      throw e
  else pure ()

theorem visit_eq (limit : Option Nat) (i : Nat) (s : Handle) :
    (visit limit i s : Action (Search ε) Unit) = (do
      let it ← onWorld (Kripke.successors noOthers s)
      updateFound fun f => { f with states := f.states.modify i fun st =>
        { st with dead := it.first.2.isSelfLoop || !it.first.1 } }
      followAll limit i it.first.1 it.first.2
      onWorld (Kripke.giveBack it.first.2)
      let _ ← onWorld (onPool (Pool.release s))) := by
  unfold visit
  congr 1
  funext it
  dsimp only
  congr 1
  funext _
  unfold followAll
  cases it.first.1 <;> rfl

theorem keeps_followAll (hI : Steady p I) (limit : Option Nat) (i : Nat) (any : Bool)
    (it : Iterator) : Keeps (fun x : Search ε => I x.world) (followAll limit i any it) := by
  unfold followAll
  split
  · refine keeps_tryCatch (keeps_followEdges hI limit i _ it) fun e => ?_
    exact keeps_bind (keeps_onWorld (hI.pool it.orderly_close)) fun _ => keeps_throw e
  · exact keeps_pure _

theorem keeps_visit (hI : Steady p I) (limit : Option Nat) (i : Nat) (s : Handle) :
    Keeps (fun x : Search ε => I x.world) (visit limit i s) := by
  rw [visit_eq]
  refine keeps_bind (keeps_onWorld (Kripke.keeps_successors hI _ s)) fun it => ?_
  refine keeps_bind (keeps_updateFound _) fun _ => ?_
  refine keeps_bind (keeps_followAll hI limit i _ _) fun _ => ?_
  refine keeps_bind (keeps_onWorld (Kripke.keeps_giveBack hI _)) fun _ => ?_
  exact keeps_bind (keeps_onWorld (hI.pool (Pool.orderly_release _))) fun _ => keeps_pure _

theorem keeps_visitFrom (hI : Steady p I) (limit : Option Nat) (fuel i : Nat) :
    Keeps (fun x : Search ε => I x.world) (visitFrom limit fuel i) := by
  induction fuel generalizing i with
  | zero =>
    refine keeps_bind keeps_get fun x => ?_
    cases x.queue[i]? with
    | none => exact keeps_pure _
    | some s => exact keeps_throw _
  | succ fuel ih =>
    refine keeps_bind keeps_get fun x => ?_
    cases x.queue[i]? with
    | none => exact keeps_pure _
    | some s => exact keeps_bind (keeps_visit hI limit i s) fun _ => ih _

theorem keeps_run (hI : Steady p I) (limit : Option Nat) :
    Keeps (fun x : Search ε => I x.world) (run limit) := by
  refine keeps_bind (keeps_onWorld (Kripke.keeps_initialState hI)) fun r => ?_
  cases r with
  | error e => exact keeps_pure _
  | ok s =>
    refine keeps_bind (keeps_discover hI s) fun _ => keeps_bind keeps_get fun x => ?_
    exact keeps_bind (keeps_visitFrom hI limit _ 0) fun _ => keeps_pure _

theorem keeps_finish (hI : Steady p I) (held : List Handle) : Keeps I (finish held) := by
  refine keeps_bind ?_ fun _ => Kripke.keeps_closeSession hI
  induction held with
  | nil => exact keeps_pure _
  | cons s held ih => exact keeps_bind (hI.pool (Pool.orderly_release _)) fun _ => ih

/-- A search is ended in the world that its visits leave, whether they fault or not. -/
theorem within_after (limit : Option Nat) (w : World ε) : (within limit).after w =
    (finish ((run limit).after (start w)).held).after ((run limit).after (start w)).world := by
  unfold within
  cases h : run limit (start w) with
  | ok r x =>
    rw [after_ok h]
    cases hf : finish x.held x.world with
    | ok u w' => simp only [after, outcome, h, hf]
    | error e w' => simp only [after, outcome, h, hf]
  | error e x =>
    rw [after_error h]
    cases hf : finish x.held x.world with
    | ok u w' => simp only [after, outcome, h, hf]
    | error e' w' => simp only [after, outcome, h, hf]

theorem within_ok {limit : Option Nat} {w w' : World ε} {r : Except Kripke.StartError Unit}
    {x : Search ε} (hrun : run limit (start w) = .ok r x)
    (hfin : finish x.held x.world = .ok () w') :
    within limit w = .ok (r.map fun _ => x.found) w' := by
  unfold within
  simp only [hrun, hfin]

theorem within_eq_ok {limit : Option Nat} {w w' : World ε}
    {r' : Except Kripke.StartError Exploration} (h : within limit w = .ok r' w') : ∃ r x,
    run limit (start w) = .ok r x ∧ finish x.held x.world = .ok () w' ∧
      r' = r.map fun _ => x.found := by
  unfold within at h
  cases hrun : run limit (start w) with
  | ok r x =>
    cases hfin : finish x.held x.world with
    | ok u w₁ =>
      simp only [hrun, hfin] at h
      cases h
      exact ⟨r, x, rfl, hfin, rfl⟩
    | error e w₁ => simp only [hrun, hfin] at h; cases h
  | error e x =>
    cases hfin : finish x.held x.world <;> simp only [hrun, hfin] at h <;> cases h

theorem keeps_within (hI : Steady p I) (limit : Option Nat) : Keeps I (within limit) := by
  intro w hw
  rw [within_after]
  exact keeps_finish hI _ _ (keeps_run hI limit (start w) hw)

theorem keeps_explore (hI : Steady p I) (limit : Option Nat) : Keeps I (Kripke.explore limit) :=
  keeps_bind (Kripke.keeps_openSession hI) fun _ => keeps_within hI limit

end Search

namespace Kripke

variable {ε : Type} [Engine ε] {w : World ε}

/-- An exploration of a structure that observes nothing leaves the dictionary as it is. -/
theorem explore_plain_after (hplain : w.kripke.profile.Plain) (limit : Option Nat) :
    ((explore limit).after w).kripke.profile = w.kripke.profile ∧
      ((explore limit).after w).dict = w.dict :=
  Search.keeps_explore (steady_plain hplain w.dict) limit w ⟨rfl, rfl⟩

theorem fits_explore_plain (hplain : w.kripke.profile.Plain) (hfit : Fits w.dict)
    (limit : Option Nat) : Fits ((explore limit).after w) := by
  show Fits (World.dict _)
  rwa [(explore_plain_after hplain limit).2]

end Kripke

end StateSpace
