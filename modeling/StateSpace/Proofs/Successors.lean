import StateSpace.Proofs.Pool
import StateSpace.Successors

/-!
# What iterators yield

A consumer goes through an iterator from its first successor on and keeps all the handles. An iterator
over a list yields fresh handles of exactly this list, in order; one with a self-loop yields the state
itself, once.
-/

namespace StateSpace

open StateSpace.Action

namespace Iterator

variable {p p' : Pool} {it : Iterator} {s : Handle} {o : Shared} {home k : Nat} {cond : Edge}
  {items rest : List (Shared × Transition)} {selfLoop : Option Handle}

/-- The handles from the current successor on, at most `fuel` of them, with the edges that lead
there. -/
def collectFrom : Nat → Iterator → Action Pool (List (Handle × Option Transition))
  | 0, _ => pure []
  | fuel + 1, it => do
    let d ← it.destination
    let (more, it') := it.next
    let ds ← if more then collectFrom fuel it' else pure []
    pure ((d, it.transition?) :: ds)

/-- The handles of all successors. There is fuel for one more than the cursor has. -/
def collect (it : Iterator) : Action Pool (List (Handle × Option Transition)) :=
  let (any, it) := it.first
  if any then collectFrom (it.cursor.size + 1) it else pure []

/-- The pool has the successors behind the handles, and what it had before. -/
structure Collected (p : Pool) (items : List (Shared × Transition))
    (ds : List (Handle × Option Transition)) (p' : Pool) : Prop where
  sound : p'.Sound
  kept : ∀ s x, p.slot? s = some x → p'.slot? s = some x
  handles : List.Forall₂ (fun d x => p'.Has d.1 x.1 ∧ d.2 = some x.2) ds items

theorem Collected.nil (hp : p.Sound) : Collected p [] [] p := ⟨hp, fun _ _ h => h, .nil⟩

/-- One successor is wrapped, then the rest is collected. -/
theorem Collected.cons {p₁ : Pool} {d : Handle} {x : Shared × Transition}
    {ds : List (Handle × Option Transition)} (hv : p.slot? d = none)
    (hd : Pool.Updated p d (some (.ofShared x.1 1)) p₁) (h : Collected p₁ rest ds p') :
    Collected p (x :: rest) ((d, some x.2) :: ds) p' := by
  refine ⟨h.sound, fun s y hs => h.kept s y ?_, .cons ⟨⟨1, h.kept d _ hd.self⟩, rfl⟩ h.handles⟩
  rw [hd.frame s ?_]
  · exact hs
  · rintro rfl
    rw [hv] at hs
    cases hs

/-- An iterator over a list that has not passed `rest` yet. -/
def ofItems (home : Nat) (items rest : List (Shared × Transition)) (cond : Edge) : Iterator :=
  .fresh home ⟨items, rest⟩ cond none

theorem next_ofItems (x : Shared × Transition) :
    (ofItems home items (x :: rest) cond).next = (!rest.isEmpty, ofItems home items rest cond) := rfl

theorem destination_ofItems (hp : p.Sound) (x : Shared × Transition) :
    Ensures (ofItems home items (x :: rest) cond).destination p fun d p' =>
      p.slot? d = none ∧ Pool.Updated p d (some (.ofShared x.1 1)) p' := by
  show Ensures (Pool.wrap x.1) p _
  exact Pool.wrap_spec hp x.1

theorem collectFrom_ofItems (hp : p.Sound) {fuel : Nat} (x : Shared × Transition)
    (hf : rest.length < fuel) : Ensures (collectFrom fuel (ofItems home items (x :: rest) cond)) p
      fun ds p' => Collected p (x :: rest) ds p' := by
  induction fuel generalizing p x rest with
  | zero => exact absurd hf (Nat.not_lt_zero _)
  | succ fuel ih =>
    unfold collectFrom
    refine (destination_ofItems hp x).bind fun d p₁ ⟨hv, hd⟩ => ?_
    rw [next_ofItems]
    cases rest with
    | nil => exact .of_ok (pure_apply _ _) (Ensures.pure (.cons hv hd (.nil hd.sound)))
    | cons y rest =>
      exact (ih hd.sound y (Nat.lt_of_succ_lt_succ hf)).bind fun ds p' hds =>
        Ensures.pure (.cons hv hd hds)

theorem collect_ofItems (hp : p.Sound) (home : Nat) (items : List (Shared × Transition))
    (cond : Edge) : Ensures (collect (.fresh home (.ofList items) cond none)) p
      fun ds p' => Collected p items ds p' := by
  cases items with
  | nil => exact Ensures.pure (.nil hp)
  | cons x items =>
    show Ensures (collectFrom (items.length + 1 + 1) (ofItems home (x :: items) (x :: items) cond)) p _
    exact collectFrom_ofItems hp x (by omega)

/-- A self-loop is yielded once, whatever the cursor has. -/
theorem collect_loop (hp : p.Sound) (hs : p.slot? s = some (.ofShared o k)) (home : Nat)
    (cursor : Cursor) (cond : Edge) :
    Ensures (collect (.fresh home cursor cond (some s))) p fun ds p' =>
      ds = [(s, none)] ∧ Pool.Updated p s (some (.ofShared o (k + 1))) p' := by
  show Ensures (Pool.clone s >>= _) p _
  refine (Pool.clone_spec hp hs).bind fun s' p' ⟨hs', hupd⟩ => ?_
  subst hs'
  exact .of_ok (pure_apply _ _) (Ensures.pure ⟨rfl, hupd⟩)

/-! ## Destinations that did not fault -/

/-- A destination is one of the successors, or the state itself. -/
theorem of_destination (hp : p.Sound) (h : it.destination p = .ok s p') :
    ∃ t o, (p.Has t o ∨ ∃ x ∈ it.cursor.rest, x.1 = o) ∧
      ∃ k, Pool.Updated p t (some (.ofShared o k)) p' := by
  obtain ⟨home, ⟨items, rest⟩, cond, selfLoop, looped⟩ := it
  unfold destination at h
  split at h
  · cases h
  · cases selfLoop with
    | some t =>
      obtain ⟨o, ht, hupd⟩ := hp.of_clone h
      exact ⟨t, o, .inl ht, hupd⟩
    | none =>
      cases rest with
      | nil => cases h
      | cons x rest =>
        obtain ⟨_, _, hrun, -, hupd⟩ := Pool.wrap_spec hp x.1
        cases h.symm.trans hrun
        exact ⟨s, x.1, .inr ⟨x, List.mem_cons_self, rfl⟩, 1, hupd⟩

/-! ## The pool of an iterator -/

theorem keeps_id_close {n : Nat} (it : Iterator) : Keeps (·.id = n) it.close := by
  unfold close
  split
  · exact keeps_pure _
  · exact keeps_bind (Pool.keeps_id_release _) fun _ => keeps_pure _

theorem keeps_id_destination {n : Nat} (it : Iterator) : Keeps (·.id = n) it.destination := by
  unfold destination
  split
  · exact keeps_throw _
  · split
    · exact Pool.keeps_id_clone _
    · split
      · exact Pool.keeps_id_wrap _
      · exact keeps_throw _

theorem orderly_close (it : Iterator) : Pool.Orderly it.close := by
  intro n
  unfold close
  split
  · exact keeps_pure _
  · exact keeps_bind (Pool.orderly_release _ n) fun _ => keeps_pure _

theorem orderly_recycle (it : Iterator) (cursor : Cursor) (cond : Edge) (selfLoop : Option Handle) :
    Pool.Orderly (it.recycle cursor cond selfLoop) :=
  fun n => keeps_bind (it.orderly_close n) fun _ => keeps_pure _

theorem orderly_destination (it : Iterator) : Pool.Orderly it.destination := by
  intro n
  unfold destination
  split
  · exact keeps_throw _
  · split
    · exact Pool.orderly_clone _ n
    · split
      · exact Pool.orderly_wrap _ n
      · exact keeps_throw _

end Iterator

end StateSpace
