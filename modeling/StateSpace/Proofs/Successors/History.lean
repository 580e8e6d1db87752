import StateSpace.Proofs.Pool.Balance
import StateSpace.Proofs.Pool.History

/-!
# The past of an iterator

An iterator is moved, read and recycled in any order, also beyond its last successor, while others ask
its pool for whatever they like. Two positions are kept, that of the cursor and that of the self-loop,
and a call moves the one that counts at that time. The past of an iterator tells what it goes over
(`source`): what it was recycled with last, or made with.

1. An iterator goes over what its past says, and its pool stays in order (`Past.follows`).
2. No call takes the reference to a self-loop away, unless it recycles the iterator or gives the last
   reference to this state back (`Call.keeps_live`).
3. An exhausted iterator stays exhausted until it is set back or recycled (`Past.done_of_done`).
-/

namespace StateSpace

open StateSpace.Action

namespace Iterator

/-- What an iterator goes over. -/
structure Source where
  cursor : Cursor
  /-- The condition of every edge. -/
  cond : Edge
  /-- The state itself, if it is its only successor. -/
  selfLoop : Option Handle

/-- An iterator with the pool that its handles belong to. -/
structure Session where
  pool : Pool
  iterator : Iterator

variable {p p' : Pool} {x y : Session} {g g₀ : Source} {it : Iterator} {s : Handle} {α : Type} {e : Fault}

namespace Session

/-- A new iterator. -/
def new (p : Pool) (g : Source) : Session := ⟨p, .fresh p.id g.cursor g.cond g.selfLoop⟩

/-- Goes to the first successor and tells whether there is one. -/
def first (x : Session) : Bool × Session :=
  (x.iterator.first.1, { x with iterator := x.iterator.first.2 })

/-- Goes to the next successor and tells whether there is one. -/
def next (x : Session) : Bool × Session :=
  (x.iterator.next.1, { x with iterator := x.iterator.next.2 })

/-- An action on the pool. -/
def onPool (f : Action Pool α) : Action Session α := fun ⟨p, it⟩ =>
  match f p with
  | .ok a p => .ok a ⟨p, it⟩
  | .error e p => .error e ⟨p, it⟩

theorem onPool_ok {f : Action Pool α} {a : α} (h : f p = .ok a p') :
    onPool f ⟨p, it⟩ = .ok a ⟨p', it⟩ := by
  simp only [onPool, h]

theorem onPool_error {f : Action Pool α} (h : f p = .error e p') :
    onPool f ⟨p, it⟩ = .error e ⟨p', it⟩ := by
  simp only [onPool, h]

theorem after_onPool (f : Action Pool α) (x : Session) :
    (onPool f).after x = { x with pool := f.after x.pool } := by
  obtain ⟨p, it⟩ := x
  cases h : f p with
  | ok a p' => rw [after_ok (onPool_ok h), after_ok h]
  | error e p' => rw [after_error (onPool_error h), after_error h]

end Session

/-! ## Calls -/

/-- What is asked of an iterator, or by others of its pool. -/
inductive Call where
  | first
  | next
  | done
  | isSelfLoop
  | cond
  | transition
  | destination
  | recycle (g : Source)
  | pool (c : Pool.Call)

/-- What they answer. -/
inductive Answer where
  | unit
  | flag (b : Bool)
  | edge (e : Edge)
  | transition (t : Option Transition)
  | handle (s : Handle)
  | pool (a : Pool.Answer)

/-- A call with its outcome. -/
abbrev Entry := Call × Except Fault Answer

namespace Call

/-- The call on an iterator. One that cannot give its reference back has no self-loop afterwards, but
is not changed otherwise. -/
def run : Call → Action Session Answer
  | first => total fun x => (.flag x.first.1, x.first.2)
  | next => total fun x => (.flag x.next.1, x.next.2)
  | done => reading fun x => .ok (.flag x.iterator.done)
  | isSelfLoop => reading fun x => .ok (.flag x.iterator.isSelfLoop)
  | cond => reading fun x => .ok (.edge x.iterator.cond)
  | transition => reading fun x => .ok (.transition x.iterator.transition?)
  | destination => do
    let x ← get
    return .handle (← Session.onPool x.iterator.destination)
  | recycle g => do
    let x ← get
    set { x with iterator := x.iterator.withoutLoop }
    let it ← Session.onPool (x.iterator.recycle g.cursor g.cond g.selfLoop)
    modify fun x => { x with iterator := it }
    return .unit
  | pool c => return .pool (← Session.onPool c.run)

/-- The call sets the iterator back, or has it go over something else. -/
def Restarts : Call → Prop
  | first => True
  | recycle _ => True
  | _ => False

end Call

/-- What the iterator goes over after a call. -/
def Source.next : Call → Except Fault Answer → Source → Source
  | .recycle g, .ok _, _ => g
  | .recycle _, .error _, g => { g with selfLoop := none }
  | _, _, g => g

/-- What an iterator that was made from `g` goes over, where the latest entry comes first. -/
def source (g : Source) : List Entry → Source
  | [] => g
  | (c, r) :: es => (source g es).next c r

/-! ## What a call does -/

theorem recycle_ok (h : it.close p = .ok () p') (g : Source) :
    (Call.recycle g).run ⟨p, it⟩ = .ok .unit ⟨p', .fresh it.home g.cursor g.cond g.selfLoop⟩ := by
  have hrecycle : it.recycle g.cursor g.cond g.selfLoop p =
      .ok (.fresh it.home g.cursor g.cond g.selfLoop) p' := bind_ok h _
  exact bind_ok (Session.onPool_ok hrecycle) _

theorem recycle_error (h : it.close p = .error e p') (g : Source) :
    (Call.recycle g).run ⟨p, it⟩ = .error e ⟨p', it.withoutLoop⟩ := by
  have hrecycle : it.recycle g.cursor g.cond g.selfLoop p = .error e p' := bind_error h _
  exact bind_error (Session.onPool_error hrecycle) _

theorem after_destination (x : Session) : (Call.destination.run).after x =
    { x with pool := x.iterator.destination.after x.pool } :=
  (after_return (Session.onPool x.iterator.destination) Answer.handle x).trans
    (Session.after_onPool _ x)

theorem after_pool (c : Pool.Call) (x : Session) : (Call.pool c).run.after x =
    { x with pool := c.run.after x.pool } :=
  (after_return (Session.onPool c.run) Answer.pool x).trans (Session.after_onPool _ x)

/-! ## What an iterator goes over -/

/-- The iterator goes over what the source says, and its pool is in order. -/
structure Follows (x : Session) (g : Source) : Prop where
  sound : x.pool.Sound
  counted : x.pool.Counted
  home : x.iterator.home = x.pool.id
  items : x.iterator.cursor.items = g.cursor.items
  cond : x.iterator.cond = g.cond
  selfLoop : x.iterator.selfLoop = g.selfLoop

namespace Follows

theorem new (hp : p.Sound) (hc : p.Counted) (g : Source) : Follows (.new p g) g :=
  ⟨hp, hc, rfl, rfl, rfl, rfl⟩

theorem first (h : Follows x g) : Follows x.first.2 g := by
  obtain ⟨p, home, cursor, cond, selfLoop, looped⟩ := x
  cases selfLoop <;> exact ⟨h.sound, h.counted, h.home, h.items, h.cond, h.selfLoop⟩

theorem next (h : Follows x g) : Follows x.next.2 g := by
  obtain ⟨p, home, cursor, cond, selfLoop, looped⟩ := x
  cases selfLoop <;> exact ⟨h.sound, h.counted, h.home, h.items, h.cond, h.selfLoop⟩

/-- An action on the pool is no concern of the iterator. -/
theorem onPool (h : Follows x g) {f : Action Pool α} (hf : Pool.Orderly f) :
    Follows { x with pool := f.after x.pool } g := by
  obtain ⟨hsound, hcounted, hid⟩ := hf x.pool.id x.pool ⟨h.sound, h.counted, rfl⟩
  exact ⟨hsound, hcounted, h.home.trans hid.symm, h.items, h.cond, h.selfLoop⟩

theorem recycle (h : Follows x g) (g' : Source) : Follows ((Call.recycle g').run.after x)
    (g.next (.recycle g') ((Call.recycle g').run.outcome x).1) := by
  obtain ⟨p, it⟩ := x
  have hclosed := h.onPool it.orderly_close
  unfold after outcome
  cases hclose : it.close p with
  | ok _ p' =>
    rw [after_ok hclose] at hclosed
    rw [recycle_ok hclose]
    exact ⟨hclosed.sound, hclosed.counted, hclosed.home, rfl, rfl, rfl⟩
  | error e p' =>
    rw [after_error hclose] at hclosed
    rw [recycle_error hclose]
    exact ⟨hclosed.sound, hclosed.counted, hclosed.home, hclosed.items, hclosed.cond, rfl⟩

theorem call (h : Follows x g) (c : Call) :
    Follows (c.run.after x) (g.next c (c.run.outcome x).1) := by
  cases c with
  | first => exact h.first
  | next => exact h.next
  | done => exact h
  | isSelfLoop => exact h
  | cond => exact h
  | transition => exact h
  | destination =>
    rw [after_destination]
    exact h.onPool (orderly_destination _)
  | recycle g' => exact h.recycle g'
  | pool c =>
    rw [after_pool]
    exact h.onPool c.orderly

theorem of_past {es : List Entry} (h : Past Call.run (.new p g₀) es x) (hp : p.Sound)
    (hc : p.Counted) : Follows x (source g₀ es) := by
  induction h with
  | nil => exact new hp hc g₀
  | call _ c ih => exact ih.call c

end Follows

/-! ## The reference to a self-loop -/

theorem keeps_live_destination (hp : p.Sound) (hs : p.isLive s = true) (it : Iterator) :
    (it.destination.after p).isLive s = true := by
  have hcall : ∀ c : Pool.Call, c ≠ .release s → (c.run.after p).isLive s = true :=
    fun c hc => (c.effect hp).keeps_live hs fun heq => absurd heq hc
  unfold destination
  split
  · exact hs
  · split
    · next t _ =>
      rw [← after_return (Pool.clone t) Pool.Answer.handle]
      exact hcall (.clone t) nofun
    · split
      · next o _ =>
        rw [← after_return (Pool.wrap o.1) Pool.Answer.handle]
        exact hcall (.wrap o.1) nofun
      · exact hs

/-- A handle stays live while an iterator is used, unless others give the last reference to it back. -/
theorem Call.keeps_live {c : Call} (hp : x.pool.Sound) (hs : x.pool.isLive s = true)
    (hrecycle : ∀ g, c ≠ recycle g) (hrelease : c = pool (.release s) → 1 < x.pool.refs s) :
    (c.run.after x).pool.isLive s = true := by
  cases c with
  | first => exact hs
  | next => exact hs
  | done => exact hs
  | isSelfLoop => exact hs
  | cond => exact hs
  | transition => exact hs
  | destination =>
    rw [after_destination]
    exact keeps_live_destination hp hs _
  | recycle g => exact absurd rfl (hrecycle g)
  | pool c =>
    rw [after_pool]
    exact (c.effect hp).keeps_live hs fun hc => hrelease (congrArg pool hc)

/-! ## Exhausted iterators -/

/-- The iterator has passed its last successor. -/
structure Exhausted (x : Session) : Prop where
  done : x.iterator.done = true
  next : x.next.1 = false
  destination : x.iterator.destination x.pool = .error .exhausted x.pool
  transition : x.iterator.transition? = none

theorem exhausted_of_done (h : x.iterator.done = true) : Exhausted x := by
  obtain ⟨p, home, ⟨items, rest⟩, cond, selfLoop, looped⟩ := x
  refine ⟨h, ?_, destination_exhausted h, ?_⟩ <;> cases selfLoop <;> cases rest <;>
    first | rfl | cases h

/-- An exhausted iterator stays so until it is set back or recycled. -/
theorem done_of_done {c : Call} (h : x.iterator.done = true) (hc : ¬c.Restarts) :
    (c.run.after x).iterator.done = true := by
  cases c with
  | first => exact absurd trivial hc
  | next =>
    obtain ⟨p, home, ⟨items, rest⟩, cond, selfLoop, looped⟩ := x
    cases selfLoop with
    | some s => rfl
    | none =>
      cases rest with
      | nil => rfl
      | cons a rest => cases h
  | done => exact h
  | isSelfLoop => exact h
  | cond => exact h
  | transition => exact h
  | destination =>
    rw [after_destination]
    exact h
  | recycle g => exact absurd trivial hc
  | pool c =>
    rw [after_pool]
    exact h

theorem exhausted_of_past {es : List Entry} (h : Past Call.run x es y) (hx : x.iterator.done = true)
    (hes : ∀ e ∈ es, ¬e.1.Restarts) : Exhausted y := by
  refine exhausted_of_done ?_
  induction h with
  | nil => exact hx
  | call _ c ih =>
    obtain ⟨hc, hes⟩ := List.forall_mem_cons.1 hes
    exact done_of_done (ih hes) hc

end Iterator

end StateSpace
