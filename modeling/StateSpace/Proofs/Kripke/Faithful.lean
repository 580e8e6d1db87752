import Mathlib
import StateSpace.Proofs.Kripke.Moves
import StateSpace.Proofs.Network.Parse

/-!
# Successors in reached worlds

A reached world is sound, so the successors of any live state are exactly those of the engine, and a state
without successors is its own if the policy has loops (`successors_correct`). The condition of their
edges says what the propositions are in the state, and whether the state is dead.
-/

namespace StateSpace.World

open StateSpace.Action

variable {ε : Type} [Engine ε] [LawfulEngine ε] {w w' : World ε} {s : Handle}

/-- An iterator over the successors of a live state yields what the engine has, in its order. Where the
engine has nothing and the policy has loops, it yields the state itself, once, which has two references
more then if there is room for them: that of the iterator and that of the consumer. The condition of the
edges is not false; it is true under the assignments that tell the truth about all propositions and,
if there is a name for that, about the state being dead. That name has a variable of its own. -/
theorem successors_correct (h : w.Reached) (hs : w.kripke.pool.isLive s = true) (others : InUse)
    (hfit : Fits ((Kripke.successors others s).after w)) :
    ∃ o items e' it w' ds p', w.kripke.pool.get s = .ok o ∧
      Engine.outgoing (Kripke.inUse w.kripke.pool others) o.state w.kripke.engine = .ok items e' ∧
      Kripke.successors others s w = .ok it w' ∧ it.collect w'.kripke.pool = .ok ds p' ∧
      (if w.kripke.profile.loops items then ds = [(s, none)] ∧
          ∀ n, w.kripke.pool.refCount s = .ok n → n + 2 < 2 ^ 32 → p'.refCount s = .ok (n + 2)
        else List.Forall₂ (fun d x => p'.get d.1 = .ok x.1 ∧ d.2 = some x.2) ds items) ∧
      (∀ q ∈ w.kripke.profile.props.records, ∃ b, q.atom.holds o.state = .ok b) ∧
      ((items = [] → w.kripke.profile.policy ≠ .ignore) → it.cond ≠ .zero ∧
        ∀ a, ∃ b, w'.dict.diagram.eval a it.cond = .ok b ∧
          (b = true ↔ w.kripke.profile.props.Agrees o.state a ∧
            w.kripke.profile.Tells w'.dict.registry items.isEmpty a)) ∧
      ∀ name v, w.kripke.profile.policy = .labelled name → w'.dict.registry.varOf name = some v →
        ∀ q ∈ w.kripke.profile.props.records, q.var ≠ v := by
  have hw := h.sound
  obtain ⟨o, k, hlt, hk⟩ := hw.pool.slot_of_live hs
  have ho : w.kripke.pool.Has s o := ⟨k, hk⟩
  have hshape := LawfulEngine.shape (hw.proper s o ho)
  obtain ⟨it, w', hrun, items, e', hout, -, -, hserved⟩ := Kripke.successors_spec hw ho others hfit
  have hd' := hserved.sound.dict.diagram.toShaped
  have hcollect : ∃ ds p', it.collect w'.kripke.pool = .ok ds p' ∧
      if w.kripke.profile.loops items then ds = [(s, none)] ∧
          ∀ n, w.kripke.pool.refCount s = .ok n → n + 2 < 2 ^ 32 → p'.refCount s = .ok (n + 2)
        else List.Forall₂ (fun d x => p'.get d.1 = .ok x.1 ∧ d.2 = some x.2) ds items := by
    have hp := hserved.pool
    rw [hserved.iterator]
    cases hl : w.kripke.profile.loops items with
    | true =>
      rw [hl, if_pos rfl] at hp
      obtain ⟨ds, p', hds, rfl, hupd⟩ := Iterator.collect_loop hserved.sound.pool (hp _ hk).self
        w.kripke.pool.id (.ofList items) it.cond
      refine ⟨_, p', hds, rfl, fun n hn hroom => ?_⟩
      cases (Pool.refCount_eq hk hlt).symm.trans hn
      exact Pool.refCount_eq hupd.self hroom
    | false =>
      obtain ⟨ds, p', hds, hcollected⟩ := Iterator.collect_ofItems hserved.sound.pool
        w.kripke.pool.id items it.cond
      exact ⟨ds, p', hds, hcollected.handles.imp fun d x hdx => ⟨hdx.1.get_eq, hdx.2⟩⟩
  obtain ⟨ds, p', hds, hyields⟩ := hcollect
  refine ⟨o, items, e', it, w', ds, p', Pool.get_eq hk, hout, hrun, hds, hyields,
    fun q hq => hw.profile.exists_holds hshape hq, fun hpolicy => ⟨?_, fun a => ?_⟩, ?_⟩
  · rintro hzero
    obtain ⟨a, ha⟩ := hw.profile.exists_agrees hw.dict hshape items.isEmpty
    have := (hserved.cond hpolicy a).2 ha
    rw [hzero, Manager.value_zero] at this
    cases this
  · refine ⟨_, Manager.eval_eq hd' a hserved.stored, ?_⟩
    rw [hserved.registry]
    exact hserved.cond hpolicy a
  · intro name v hpolicy hv q hq
    rw [hserved.registry] at hv
    have hm := hw.profile.markers
    rw [hpolicy] at hm
    obtain ⟨v', hv', -⟩ := hm
    rw [hv'.varOf hw.dict.registry, Option.some.injEq] at hv
    exact hv ▸ hw.profile.var_ne hpolicy hv' hq

/-- A network without processes has one configuration, which is dead. A structure over it may observe
its variable and have a name for dead states. -/
theorem exists_marked : ∃ (w : World Graph) (s : Handle) (o : Shared) (e : Graph), w.Reached ∧
    w.kripke.pool.isLive s = true ∧ Fits ((Kripke.successors (fun _ => []) s).after w) ∧
    w.kripke.pool.get s = .ok o ∧ o.state = .configuration ⟨[], [1]⟩ ∧
    w.kripke.pool.refCount s = .ok 1 ∧
    Engine.outgoing (Kripke.inUse w.kripke.pool fun _ => []) o.state w.kripke.engine = .ok [] e ∧
    w.kripke.profile.policy = .labelled "dead" ∧
    w.kripke.profile.props.records = [⟨.compare 0 .eq 1, 1⟩, ⟨.compare 0 .gt 1, 2⟩] ∧
    ((Kripke.successors (fun _ => []) s).after w).dict.registry.varOf "dead" = some 3 := by
  -- the run is computed in one go, as each step starts where the one before ended
  obtain ⟨⟨n, _⟩, hparse, h⟩ := exists_ok_of_any (x := Network.parse "system:counter\nint:1:0:3:1:x")
    (p := fun y => (Dictionary.create 4).toOption.any fun d =>
      let create := Kripke.create 1 (Graph.create y.1 .standard) ["x > 1", "x == 1"]
        { dead := .labelled "dead" }
      (create.outcome d).1.toOption.any fun r => r.toOption.any fun k =>
        (Kripke.initialState.outcome ⟨create.after d, k⟩).1.toOption.any fun r => r.toOption.any fun s =>
          let w := Kripke.initialState.after ⟨create.after d, k⟩
          (w.kripke.pool.get s).toOption.any fun o => (w.kripke.pool.refCount s).toOption.any fun r =>
            ((Engine.outgoing (Kripke.inUse w.kripke.pool fun _ => []) o.state).outcome
              w.kripke.engine).1.toOption.any fun items =>
                let w' := (Kripke.successors (fun _ => []) s).after w
                decide (items.isEmpty ∧ d.registry.nextVar = 1 ∧ Fits (create.after d) ∧ Fits w ∧
                  w.kripke.pool.isLive s = true ∧ Fits w' ∧ o.state = .configuration ⟨[], [1]⟩ ∧
                  r = 1 ∧ w.kripke.profile.policy = .labelled "dead" ∧
                  w.kripke.profile.props.records =
                    [⟨.compare 0 .eq 1, 1⟩, ⟨.compare 0 .gt 1, 2⟩] ∧
                  w'.dict.registry.varOf "dead" = some 3)) (by cbv)
  obtain ⟨d, hd, h₁⟩ := exists_ok_of_any h
  obtain ⟨x, d', hcreate, h₂⟩ := exists_ok_of_outcome h₁
  obtain ⟨k, rfl, h₃⟩ := exists_ok_of_any h₂
  rw [after_ok hcreate] at h₃
  obtain ⟨x, w, hinit, h₄⟩ := exists_ok_of_outcome h₃
  obtain ⟨s, rfl, h₅⟩ := exists_ok_of_any h₄
  rw [after_ok hinit] at h₅
  obtain ⟨o, hget, h₆⟩ := exists_ok_of_any h₅
  obtain ⟨r, hcount, h₇⟩ := exists_ok_of_any h₆
  obtain ⟨items, e, hout, h₈⟩ := exists_ok_of_outcome h₇
  obtain ⟨hnone, hnext, hfit, hfit', hlive, hfit'', hstate, rfl, hpolicy, hrecords, hdead⟩ :=
    of_decide_eq_true h₈
  obtain rfl := List.isEmpty_iff.1 hnone
  have hreached : Reached ⟨d', k⟩ := .create (.create hd) (Network.parse_valid hparse)
    (by rw [hnext]; decide) (by decide) hcreate hfit
  have hreached' : w.Reached := .move (m := .initialState) hreached trivial
    (bind_ok hinit fun _ => pure ()) hfit'
  exact ⟨w, s, o, e, hreached', hlive, hfit'', hget, hstate, hcount, hout, hpolicy, hrecords, hdead⟩

/-- A dead state is its own successor. The condition of its loop is true where variables 1 and 2 agree
with its two propositions, of which one holds, and variable 3 says that it is dead. -/
theorem successors_correct_stuck : ∃ (w : World Graph) (s : Handle), w.Reached ∧
    w.kripke.pool.isLive s = true ∧ Fits ((Kripke.successors (fun _ => []) s).after w) ∧
    w.kripke.profile.policy = .labelled "dead" ∧
    w.kripke.profile.props.records = [⟨.compare 0 .eq 1, 1⟩, ⟨.compare 0 .gt 1, 2⟩] ∧
    ∃ it w' p', Kripke.successors (fun _ => []) s w = .ok it w' ∧
      it.collect w'.kripke.pool = .ok [(s, none)] p' ∧ p'.refCount s = .ok 3 ∧ it.cond ≠ .zero ∧
      ∀ a, w'.dict.diagram.eval a it.cond = .ok (a 1 && !a 2 && a 3) := by
  obtain ⟨w, s, o, e, hreached, hlive, hfit, hget, hstate, hcount, hout, hpolicy, hrecords, hdead⟩ :=
    exists_marked
  obtain ⟨o', items, e', it, w', ds, p', hget', hout', hserve, hcollect, hyields, -, hcond, -⟩ :=
    successors_correct hreached hlive _ hfit
  cases hget.symm.trans hget'
  cases hout.symm.trans hout'
  rw [show w.kripke.profile.loops [] = true by unfold Profile.loops; rw [hpolicy]; rfl,
    if_pos rfl] at hyields
  obtain ⟨rfl, hcounts⟩ := hyields
  obtain ⟨hzero, heval⟩ := hcond fun _ h => by rw [hpolicy] at h; cases h
  rw [after_ok hserve] at hdead
  refine ⟨w, s, hreached, hlive, hfit, hpolicy, hrecords, it, w', p', hserve, hcollect,
    hcounts 1 hcount (by decide), hzero, fun a => ?_⟩
  obtain ⟨b, hb, hiff⟩ := heval a
  have hagrees : w.kripke.profile.props.Agrees o.state a ↔ a 1 = true ∧ a 2 = false := by
    unfold PropositionList.Agrees
    rw [hrecords, hstate, List.forall_mem_cons, List.forall_mem_singleton]
    show Except.ok true = .ok (a 1) ∧ Except.ok false = .ok (a 2) ↔ _
    rw [Except.ok.injEq, Except.ok.injEq, eq_comm, @eq_comm _ false]
  have htells : w.kripke.profile.Tells w'.dict.registry true a ↔ a 3 = true := by
    unfold Profile.Tells
    rw [hpolicy]
    constructor
    · intro h
      obtain ⟨v, hv, ha⟩ := h "dead" rfl
      cases hdead.symm.trans hv
      exact ha
    · rintro ha name ⟨⟩
      exact ⟨3, hdead, ha⟩
  rw [hb, Except.ok.injEq, Bool.eq_iff_iff, hiff, hagrees, List.isEmpty_nil, htells]
  simp

end StateSpace.World
