import StateSpace.Proofs.Kripke.World

/-!
# Iterators that are kept for later

A structure may keep one iterator that it was given back, and makes the next one from it. It keeps none
of another structure, and what it keeps refers to no state, so the next iterator is as good as one that
is made afresh. An iterator that is given back loses its reference, whether it is kept or not.
-/

namespace StateSpace

open StateSpace.Action World

namespace Kripke

variable {ε : Type} {w w' : World ε} {cond : Edge} {cursor : Cursor} {selfLoop : Option Handle}
  {it : Iterator} {p : Pool}

/-- A retired iterator is as good as none. -/
theorem freshIterator_eq (hr : ∀ it, w.kripke.retired = some it →
    it.selfLoop = none ∧ it.home = w.kripke.pool.id) :
    freshIterator cursor cond selfLoop w =
      .ok (.fresh w.kripke.pool.id cursor cond selfLoop)
        { w with kripke := { w.kripke with retired := none } } := by
  have htake : takeRetired w =
      .ok w.kripke.retired { w with kripke := { w.kripke with retired := none } } := rfl
  unfold freshIterator
  rw [bind_ok htake]
  cases hret : w.kripke.retired with
  | none => rfl
  | some it =>
    obtain ⟨hloop, hhome⟩ := hr it hret
    refine onPool_ok (p := w.kripke.pool) ?_
    show Iterator.recycle it cursor cond selfLoop w.kripke.pool = _
    unfold Iterator.recycle Iterator.close
    rw [hloop, ← hhome]
    rfl

/-! ## Giving back -/

/-- Whether the structure does not keep an iterator that it is given. -/
def refuses (s : Kripke ε) (it : Iterator) : Bool :=
  !s.profile.keepIterator || it.home ≠ s.pool.id || s.retired.isSome

theorem retire_refused (h : w.kripke.refuses it = true) : retire it w = .ok false w := by
  unfold retire
  rw [bind_ok (get_apply w)]
  exact congrFun (if_pos h) w

/-- An iterator that is kept is closed, and starts over. -/
theorem retire_kept (h : ¬w.kripke.refuses it = true) {u : Unit} {p : Pool}
    (hp : it.close w.kripke.pool = .ok u p) : retire it w = .ok true
      ⟨w.dict, { w.kripke with pool := p, retired := some (.fresh it.home .empty .zero none) }⟩ := by
  have hrecycle : onPool (it.recycle .empty .zero none) w =
      .ok (.fresh it.home .empty .zero none) { w with kripke := { w.kripke with pool := p } } :=
    onPool_ok ((bind_ok hp _).trans rfl)
  unfold retire
  rw [bind_ok (get_apply w)]
  exact (congrFun (if_neg h) w).trans ((bind_ok hrecycle _).trans rfl)

theorem retire_fault (h : ¬w.kripke.refuses it = true) {e : Fault} {p : Pool}
    (hp : it.close w.kripke.pool = .error e p) :
    retire it w = .error e { w with kripke := { w.kripke with pool := p } } := by
  have hrecycle : onPool (it.recycle .empty .zero none) w =
      .error e { w with kripke := { w.kripke with pool := p } } := onPool_error (bind_error hp _)
  unfold retire
  rw [bind_ok (get_apply w)]
  exact (congrFun (if_neg h) w).trans (bind_error hrecycle _)

/-- Giving an iterator back closes it. If it is kept, it starts over without a loop. -/
theorem giveBack_ok (hclose : it.close w.kripke.pool = .ok () p) : ∃ r,
    giveBack it w = .ok () { w with kripke := { w.kripke with pool := p, retired := r } } ∧
      ∀ it', r = some it' → w.kripke.retired = some it' ∨
        (it'.selfLoop = none ∧ it'.home = w.kripke.pool.id) := by
  unfold giveBack
  by_cases hrefused : w.kripke.refuses it = true
  · exact ⟨w.kripke.retired, (bind_ok (retire_refused hrefused) _).trans (onPool_ok hclose),
      fun _ hit => .inl hit⟩
  · refine ⟨_, (bind_ok (retire_kept hrefused hclose) _).trans rfl, fun it' hit => .inr ?_⟩
    cases hit
    refine ⟨rfl, show it.home = w.kripke.pool.id from ?_⟩
    by_contra hne
    exact hrefused (by simp [refuses, hne])

theorem giveBack_error {e : Fault} (hclose : it.close w.kripke.pool = .error e p) :
    giveBack it w = .error e { w with kripke := { w.kripke with pool := p } } := by
  by_cases hrefused : w.kripke.refuses it = true
  · exact (bind_ok (retire_refused hrefused) _).trans (onPool_error hclose)
  · exact bind_error (retire_fault hrefused hclose) _

theorem of_giveBack (h : giveBack it w = .ok () w') : ∃ p r,
    it.close w.kripke.pool = .ok () p ∧
      w' = { w with kripke := { w.kripke with pool := p, retired := r } } ∧
      ∀ it', r = some it' → w.kripke.retired = some it' ∨
        (it'.selfLoop = none ∧ it'.home = w.kripke.pool.id) := by
  cases hclose : it.close w.kripke.pool with
  | ok u p =>
    obtain ⟨r, hrun, hr⟩ := giveBack_ok hclose
    cases h.symm.trans hrun
    exact ⟨p, r, rfl, rfl, hr⟩
  | error e p => cases h.symm.trans (giveBack_error hclose)

end Kripke

end StateSpace
