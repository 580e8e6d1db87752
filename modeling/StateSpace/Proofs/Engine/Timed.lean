import Mathlib.Logic.Function.Basic
import StateSpace.Proofs.Engine.Reachable
import StateSpace.Proofs.Engine.Transitions
import StateSpace.Proofs.Expr.Timed

/-!
# Timed steps and the graph

`TimedTakes` is the transition relation with clock values: guards and invariants are read with the
values of the clocks, and assignments to clocks change them. Whatever holds for some values of the
clocks is not definitely false without them, so a timed step is a step of the graph as long as no
variable is assigned a value that is read from a clock. Such an assignment has no value without clock
values: the graph loses the step, and is then no over-approximation of the timed behaviour.
-/

namespace StateSpace

open StateSpace.Action

/-- A variable is assigned a value that depends on a clock. -/
def Update.readsClock : Update → Bool
  | .int _ e => e.mentionsClock
  | .clock _ _ => false

namespace Network

variable {n : Network} {c c' : Configuration} {row row' : List Int32} {clocks clocks' : Nat → Int64}
  {us : List Update} {es : List Edge}

/-- The assignments lead from values of variables and clocks to others, each reading what the ones
before it left. -/
inductive TimedAssigns (n : Network) :
    List Int32 → (Nat → Int64) → List Update → List Int32 → (Nat → Int64) → Prop
  | nil (row : List Int32) (clocks : Nat → Int64) : TimedAssigns n row clocks [] row clocks
  | clock {row row' : List Int32} {clocks clocks' : Nat → Int64} {us : List Update} {id : Nat}
      {e : Expr} {v : Int64} (he : e.evalIn (.timed row clocks) = .ok v)
      (h : TimedAssigns n row (Function.update clocks id v) us row' clocks') :
      TimedAssigns n row clocks (.clock id e :: us) row' clocks'
  | int {row row' : List Int32} {clocks clocks' : Nat → Int64} {us : List Update} {id : Nat}
      {e : Expr} {v : Int64} {d : Domain} (he : e.evalIn (.timed row clocks) = .ok v)
      (hd : n.domains[id]? = some d) (hin : d.contains v = true)
      (h : TimedAssigns n (row.set id v.toInt32) clocks us row' clocks') :
      TimedAssigns n row clocks (.int id e :: us) row' clocks'

/-- With these values of the clocks, the configuration may take the edges together, and they lead to
another one with other values of the clocks. -/
structure TimedTakes (n : Network) (c : Configuration) (clocks : Nat → Int64) (es : List Edge)
    (c' : Configuration) (clocks' : Nat → Int64) : Prop where
  offered : n.Offers c.locations es
  permitted : n.Permits c.locations es
  guards : ∀ e ∈ es, ∃ v, e.guard.evalIn (.timed c.ints clocks) = .ok v ∧ v ≠ 0
  assigns : n.TimedAssigns c.ints clocks (es.flatMap (·.updates)) c'.ints clocks'
  moves : Moves es c.locations c'.locations
  endures : ∀ l ∈ c'.locations, ∃ loc, n.locations[l]? = some loc ∧
    ∃ v, loc.invariant.evalIn (.timed c'.ints clocks') = .ok v ∧ v ≠ 0

/-- Without clocks on their right sides, timed assignments assign the same values. -/
theorem TimedAssigns.assigns (h : n.TimedAssigns row clocks us row' clocks') (hv : n.Valid)
    (hlen : row.length = n.ints.size) (hfree : ∀ u ∈ us, u.readsClock = false) :
    n.Assigns row us row' := by
  induction h with
  | nil row _ => exact .nil row
  | clock _ _ ih => exact .clock _ _ (ih hlen (List.forall_mem_cons.1 hfree).2)
  | @int row row' clocks clocks' us id e v d he hd hin h ih =>
    obtain ⟨hu, hus⟩ := List.forall_mem_cons.1 hfree
    rw [Expr.evalIn_timed hu] at he
    have hid : id < row.length := by
      rw [hlen, ← hv.domains_size]
      exact (Array.getElem?_eq_some_iff.1 hd).1
    apply Assigns.int he hd hin hid
    apply ih _ hus
    rw [List.length_set, hlen]

/-- What is assigned without clock values mentions no clock. -/
theorem Assigns.readsClock (h : n.Assigns row us row') : ∀ u ∈ us, u.readsClock = false := by
  induction h with
  | nil _ => simp
  | clock _ _ _ ih => exact List.forall_mem_cons.2 ⟨rfl, ih⟩
  | int he _ _ _ _ ih =>
    refine List.forall_mem_cons.2 ⟨?_, ih⟩
    rw [← Bool.not_eq_true]
    intro hmentions
    exact Expr.eval_ne_ok hmentions he

/-- A timed step is one of the network without clocks exactly if it assigns no variable a value that
is read from a clock. -/
theorem TimedTakes.takes_iff (h : n.TimedTakes c clocks es c' clocks') (hv : n.Valid)
    (hc : n.HasShape c) :
    n.Takes c es c' ↔ ∀ u ∈ es.flatMap (·.updates), u.readsClock = false := by
  constructor
  · intro htakes
    exact htakes.assigns.readsClock
  · intro hfree
    refine ⟨h.offered, h.permitted, fun e he => ?_, h.assigns.assigns hv hc.ints hfree, h.moves,
      fun l hl => ?_⟩
    · obtain ⟨v, hval, hne⟩ := h.guards e he
      exact Expr.holds_of_timed hval hne
    · obtain ⟨loc, hloc, v, hval, hne⟩ := h.endures l hl
      exact ⟨loc, hloc, Expr.holds_of_timed hval hne⟩

end Network

namespace Graph

variable {n : Network} {c c' : Configuration} {es : List Network.Edge} {clocks clocks' : Nat → Int64}

/-- For every reached configuration and all values of the clocks, the graph tells a timed step exactly
if it assigns no variable a value that is read from a clock. -/
theorem outgoing_timed {text : String} {ws : List Network.Warning} {g : Graph}
    (hparse : Network.parse text = .ok (n, ws)) (hg : g.network = n)
    (hr : Reached n (.configuration c)) (h : n.TimedTakes c clocks es c' clocks') (inUse : InUse) :
    Ensures (outgoing inUse (.configuration c)) g fun items _ =>
      (∃ x ∈ items, x.1.state = .configuration c' ∧ x.2 = es.map (·.id)) ↔
        ∀ u ∈ es.flatMap (·.updates), u.readsClock = false := by
  have hv := Network.parse_valid hparse
  obtain ⟨_, heq, hc⟩ := hr.exists_admits hv
  cases heq
  refine (outgoing_takes hparse hg hc.hasShape inUse).mono fun items _ ⟨hmem, _⟩ => ?_
  rw [hmem, ← h.takes_iff hv hc.hasShape]
  constructor
  · rintro ⟨es', c₁, hc₁, hids, htakes⟩
    cases hc₁
    rwa [Network.eq_of_ids hv h.offered.hasEdge htakes.offered.hasEdge hids]
  · intro htakes
    exact ⟨es, c', rfl, rfl, htakes⟩

/-- A guard over a clock, a reset and an assignment without clocks: the timed step is told. -/
theorem outgoing_timed_reset : ∃ (n : Network) (ws : List Network.Warning) (es : List Network.Edge),
    Network.parse ("system:s\nevent:e\nclock:1:x\nint:1:0:3:0:v\nprocess:P\n" ++
      "location:P:a\x7binitial:\x7d\nlocation:P:b\x7binvariant: x<=3\x7d\n" ++
      "edge:P:a:b:e\x7bprovided: x>=5 : do: x=v; v=v+1\x7d") = .ok (n, ws) ∧
    Reached n (.configuration ⟨[0], [0]⟩) ∧
    n.TimedTakes ⟨[0], [0]⟩ (fun _ => 6) es ⟨[1], [1]⟩ (Function.update (fun _ => 6) 0 0) ∧
    ∀ (g : Graph) (inUse : InUse), g.network = n →
      Ensures (outgoing inUse (.configuration ⟨[0], [0]⟩)) g fun items _ =>
        ∃ x ∈ items, x.1.state = .configuration ⟨[1], [1]⟩ ∧ x.2 = es.map (·.id) := by
  obtain ⟨⟨n, ws⟩, hparse, hread⟩ := exists_ok_of_any (x := Network.parse
    ("system:s\nevent:e\nclock:1:x\nint:1:0:3:0:v\nprocess:P\n" ++
      "location:P:a\x7binitial:\x7d\nlocation:P:b\x7binvariant: x<=3\x7d\n" ++
      "edge:P:a:b:e\x7bprovided: x>=5 : do: x=v; v=v+1\x7d")) (p := fun y =>
    ⟨[0], [0]⟩ ∈ y.1.starts ∧ y.1.domains[0]? = some ⟨0, 3, 0⟩ ∧ y.1.syncs = [] ∧
    y.1.isCommitted 0 = false ∧
    y.1.locations[1]? = some ⟨1, 0, "b", false, false, .binary .le (.clock 0) (.const 3)⟩ ∧
    y.1.edges[0]? = some ⟨0, 0, 0, 1, 0, .binary .ge (.clock 0) (.const 5),
      [.clock 0 (.int 0), .int 0 (.binary .add (.int 0) (.const 1))]⟩) (by decide +kernel)
  obtain ⟨hstart, hdomain, hsyncs, hfree, htarget, hedge⟩ := of_decide_eq_true hread
  have hr := reached_of_starts (Network.parse_valid hparse) hstart
  have htakes : n.TimedTakes ⟨[0], [0]⟩ (fun _ => 6) [_] ⟨[1], [1]⟩
      (Function.update (fun _ => 6) 0 0) := {
    offered := .solo (p := 0) ⟨⟨0, hedge⟩, rfl⟩ fun s hs => by
      rw [hsyncs] at hs
      cases hs
    permitted := by simp [Network.Permits, hfree]
    guards := by simpa using ⟨1, rfl, by decide⟩
    assigns := .clock (v := 0) rfl (.int (v := 1) rfl hdomain (by decide) (.nil _ _))
    moves := ⟨rfl, by simp, fun p hp => by
      cases p with
      | zero => exact absurd rfl (hp _ List.mem_cons_self)
      | succ p => rfl⟩
    endures := by simpa [htarget] using ⟨1, rfl, by decide⟩ }
  refine ⟨n, ws, _, hparse, hr, htakes, fun g inUse hg => ?_⟩
  refine (outgoing_timed hparse hg hr htakes inUse).mono fun items _ h => h.2 ?_
  decide

/-- A variable that is assigned the value of a clock: with the clock at zero the step can be taken,
but the graph tells no step at all. -/
theorem outgoing_loses_timed : ∃ (n : Network) (ws : List Network.Warning) (es : List Network.Edge),
    Network.parse ("system:s\nevent:e\nclock:1:x\nint:1:0:0:0:v\nprocess:P\n" ++
      "location:P:a\x7binitial:\x7d\nlocation:P:b\x7b\x7d\nedge:P:a:b:e\x7bdo: v=x\x7d") =
        .ok (n, ws) ∧
    Reached n (.configuration ⟨[0], [0]⟩) ∧
    n.TimedTakes ⟨[0], [0]⟩ (fun _ => 0) es ⟨[1], [0]⟩ (fun _ => 0) ∧
    ∀ (g : Graph) (inUse : InUse), g.network = n →
      Ensures (outgoing inUse (.configuration ⟨[0], [0]⟩)) g fun items _ => items = [] := by
  obtain ⟨⟨n, ws⟩, hparse, hread⟩ := exists_ok_of_any (x := Network.parse
    ("system:s\nevent:e\nclock:1:x\nint:1:0:0:0:v\nprocess:P\n" ++
      "location:P:a\x7binitial:\x7d\nlocation:P:b\x7b\x7d\nedge:P:a:b:e\x7bdo: v=x\x7d"))
    (p := fun y => ⟨[0], [0]⟩ ∈ y.1.starts ∧ y.1.domains[0]? = some ⟨0, 0, 0⟩ ∧ y.1.syncs = [] ∧
    y.1.isCommitted 0 = false ∧
    y.1.locations[1]? = some ⟨1, 0, "b", false, false, .const 1⟩ ∧
    y.1.edges[0]? = some ⟨0, 0, 0, 1, 0, .const 1, [.int 0 (.clock 0)]⟩ ∧
    y.1.steps ⟨[0], [0]⟩ = []) (by decide +kernel)
  obtain ⟨hstart, hdomain, hsyncs, hfree, htarget, hedge, hsteps⟩ := of_decide_eq_true hread
  have hv := Network.parse_valid hparse
  have htakes : n.TimedTakes ⟨[0], [0]⟩ (fun _ => 0) [_] ⟨[1], [0]⟩ (fun _ => 0) := {
    offered := .solo (p := 0) ⟨⟨0, hedge⟩, rfl⟩ fun s hs => by
      rw [hsyncs] at hs
      cases hs
    permitted := by simp [Network.Permits, hfree]
    guards := by simpa using ⟨1, rfl, by decide⟩
    assigns := .int (v := 0) rfl hdomain (by decide) (.nil _ _)
    moves := ⟨rfl, by simp, fun p hp => by
      cases p with
      | zero => exact absurd rfl (hp _ List.mem_cons_self)
      | succ p => rfl⟩
    endures := by simpa [htarget] using ⟨1, rfl, by decide⟩ }
  refine ⟨n, ws, _, hparse, reached_of_starts hv hstart, htakes, fun g inUse hg => ?_⟩
  subst hg
  have hc := (Network.admits_of_starts hv hstart).hasShape
  refine (outgoing_steps hv hc inUse).mono fun items _ ⟨_, hitems⟩ => ?_
  rw [hsteps] at hitems
  exact List.map_eq_nil_iff.1 hitems

end Graph

end StateSpace
