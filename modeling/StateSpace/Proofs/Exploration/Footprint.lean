import StateSpace.Proofs.Exploration.Explore
import StateSpace.Proofs.Kripke.Footprint
import StateSpace.Proofs.Kripke.Names

/-!
# The footprint of a search

While a search runs, it has borrowed one reference for each state that it recognises, one for each
state of the queue that was not visited yet, and those of the visit at hand. A visit gives back all that
it took, whether a destination is new, known or kept out by the limit, and the queue's reference as well;
the end of the search gives back the rest. So an exploration that returns, with a result or without an
initial state, leaves the structure as it was.

A handle that is recognised is found again, whatever the comparisons of an engine say about others, so no
handle is recognised or queued twice, and there are never many references to one state.
-/

namespace StateSpace

open StateSpace.Action World

namespace Search

variable {ε α : Type} [Engine ε] [PausingEngine ε] {w₀ w w' : World ε} {x x' : Search ε} {v i : Nat}
  {objs objs' : Handle → Shared} {rs rs' : List Handle} {s d : Handle} {it : Iterator}
  {limit : Option Nat}

omit [Engine ε] [PausingEngine ε] in
theorem ensuresOk_onWorld {y : Action (World ε) α} {P : α → World ε → Prop}
    {Q : α → Search ε → Prop} (hy : EnsuresOk y x.world P)
    (h : ∀ a w, P a w → Q a { x with world := w }) : EnsuresOk (onWorld y) x Q := by
  intro a x' hrun
  cases hy' : y x.world with
  | ok b w =>
    cases hrun.symm.trans (onWorld_ok hy')
    exact h a w (hy a w hy')
  | error e w => cases hrun.symm.trans (onWorld_error hy')

/-- A handle equals itself, so the search of its bucket does not end without a result. -/
theorem findIn_ne_none {p : Pool} {b : List (Handle × Nat)} (hs : (s, i) ∈ b) :
    findIn p s b ≠ .ok none := by
  induction b with
  | nil => cases hs
  | cons y b ih =>
    obtain ⟨t, j⟩ := y
    unfold findIn
    by_cases hst : s = t
    · rw [Pool.compare, if_pos hst]
      intro h
      cases h
    · have hs' : (s, i) ∈ b :=
        (List.mem_cons.1 hs).resolve_left fun heq => hst (congrArg Prod.fst heq)
      cases p.compare s t with
      | error e =>
        intro h
        cases h
      | ok r =>
        show (if r = .eq then _ else _) ≠ _
        split
        · intro h
          cases h
        · exact ih hs'

/-- What was in a bucket stays there when another entry comes. -/
theorem mem_alter {known : Std.HashMap UInt64 (List (Handle × Nat))} {h k : UInt64}
    {y z : Handle × Nat} :
    z ∈ (known.alter h fun b => some (b.getD [] ++ [y])).getD k [] ↔
      z ∈ known.getD k [] ∨ (h = k ∧ z = y) := by
  rw [Std.HashMap.getD_alter]
  by_cases hk : h = k
  · subst hk
    rw [if_pos (beq_self_eq_true h), Option.getD_some, List.mem_append, List.mem_singleton,
      ← Std.HashMap.getD_eq_getD_getElem?]
    simp
  · rw [if_neg (by simpa using hk)]
    simp [hk]

/-- The search has borrowed `rs`, the references of the queue from number `v` on, and those that it
holds to recognise states. It holds a state once, in the bucket of its hash. -/
structure Borrows (w₀ : World ε) (objs : Handle → Shared) (v : Nat) (rs : List Handle)
    (x : Search ε) : Prop where
  footprint : w₀.Footprint objs (rs ++ (x.queue.toList.drop v ++ x.held)) x.world
  visited : v ≤ x.queue.size
  queue : x.queue.toList.Nodup
  queued : ∀ s ∈ x.queue.toList, s ∈ x.held
  held : x.held.Nodup
  known : ∀ s ∈ x.held, ∃ i, (s, i) ∈ x.known.getD (objs s).state.hash []

/-- A state is recognised, but not in the queue yet. -/
structure Pending (w₀ : World ε) (objs : Handle → Shared) (v : Nat) (s : Handle) (rs : List Handle)
    (x : Search ε) : Prop extends Borrows w₀ objs v (s :: rs) x where
  recognised : s ∈ x.held
  unqueued : s ∉ x.queue.toList

/-- The queue gets the reference to a state that was recognised. -/
theorem Pending.push (h : Pending w₀ objs v s rs x) :
    Borrows w₀ objs v rs { x with queue := x.queue.push s } := by
  have hpush : (x.queue.push s).toList = x.queue.toList ++ [s] := Array.toList_push
  refine ⟨h.footprint.perm ?_, ?_, ?_, ?_, h.held, h.known⟩
  · show (rs ++ ((x.queue.push s).toList.drop v ++ x.held)).Perm _
    rw [hpush, List.drop_append_of_le_length h.visited, List.append_assoc]
    exact (List.perm_middle.append_left rs).trans List.perm_middle
  · show v ≤ (x.queue.push s).size
    rw [Array.size_push]
    exact Nat.le_succ_of_le h.visited
  · show (x.queue.push s).toList.Nodup
    rw [hpush, ← List.concat_eq_append]
    exact h.queue.concat h.unqueued
  · show ∀ t ∈ (x.queue.push s).toList, t ∈ x.held
    intro t ht
    rw [hpush, List.mem_append, List.mem_singleton] at ht
    rcases ht with ht | rfl
    · exact h.queued t ht
    · exact h.recognised

namespace Borrows

/-- The world may change, and what was found, if the objects of the states that are held do not. -/
theorem withWorld (h : Borrows w₀ objs v rs x)
    (hw : w₀.Footprint objs' (rs' ++ (x.queue.toList.drop v ++ x.held)) w)
    (hobjs : ∀ s ∈ x.held, objs' s = objs s) (f : Exploration) :
    Borrows w₀ objs' v rs' { x with world := w, found := f } where
  footprint := hw
  visited := h.visited
  queue := h.queue
  queued := h.queued
  held := h.held
  known s hs := by
    rw [hobjs s hs]
    exact h.known s hs

/-- What was found is no reference. -/
theorem updateFound (h : Borrows w₀ objs v rs x) (f : Exploration → Exploration) :
    EnsuresOk (updateFound f) x fun _ x' => Borrows w₀ objs v rs x' :=
  Ensures.ok ⟨(), _, rfl, h.withWorld h.footprint (fun _ _ => rfl) _⟩

/-- There are never many references to one state. -/
theorem room (h : Borrows w₀ objs v rs' x) (hrs : rs.length ≤ 4) (s : Handle) :
    (rs ++ (x.queue.toList.drop v ++ x.held)).count s + 1 < 2 ^ 32 := by
  have hqueue := List.nodup_iff_count_le_one.1 (h.queue.sublist (List.drop_sublist v _)) s
  have hheld := List.nodup_iff_count_le_one.1 h.held s
  have hcount : rs.count s ≤ rs.length := List.count_le_length
  rw [List.count_append, List.count_append]
  omega

omit [Engine ε] [PausingEngine ε] in
theorem mem_footprint (hs : s ∈ x.held) : s ∈ rs ++ (x.queue.toList.drop v ++ x.held) :=
  List.mem_append_right _ (List.mem_append_right _ hs)

/-- What is not found is not held. -/
theorem not_mem_held (h : Borrows w₀ objs v rs x)
    (hfind : (do
      let k ← x.world.kripke.pool.hash s
      findIn x.world.kripke.pool s (x.known.getD k [])) = .ok none) : s ∉ x.held := by
  intro hs
  rw [h.footprint.pool.hash_eq (mem_footprint hs)] at hfind
  obtain ⟨i, hi⟩ := h.known s hs
  exact findIn_ne_none hi hfind

theorem release (h : Borrows w₀ objs v (s :: rs) x) (hrs : rs.length ≤ 4) :
    EnsuresOk (Search.onWorld (onPool (Pool.release s))) x fun _ x' => Borrows w₀ objs v rs x' :=
  ensuresOk_onWorld (Footprint.release h.footprint (h.room hrs s)) fun _ _ hw =>
    h.withWorld hw (fun _ _ => rfl) _

theorem giveBack (h : Borrows w₀ objs v (it.selfLoop.toList ++ rs) x) (hrs : rs.length ≤ 4) :
    EnsuresOk (Search.onWorld (Kripke.giveBack it)) x fun _ x' => Borrows w₀ objs v rs x' := by
  have hfoot := h.footprint
  rw [List.append_assoc] at hfoot
  exact ensuresOk_onWorld (Footprint.giveBack hfoot (h.room hrs)) fun _ _ hw =>
    h.withWorld hw (fun _ _ => rfl) _

/-! ## Destinations -/

/-- A state is recognised by a reference of its own. -/
theorem recognise (h : Borrows w₀ objs v (s :: rs) x) (hs : s ∉ x.held) (i : Nat) :
    EnsuresOk (recognise s i) x fun _ x' => Pending w₀ objs v s rs x' := by
  refine EnsuresOk.bind (P := fun t x' => t = s ∧ s ∉ x'.held ∧ Borrows w₀ objs v (s :: s :: rs) x') ?_
    fun t x₁ ⟨ht, hs₁, h₁⟩ => ?_
  · exact ensuresOk_onWorld (h.footprint.clone List.mem_cons_self) fun t w ⟨ht, hw⟩ =>
      ⟨ht, hs, h.withWorld hw (fun _ _ => rfl) _⟩
  · subst ht
    refine EnsuresOk.bind (P := fun k x' => k = (objs t).state.hash ∧ x' = x₁)
      (EnsuresOk.reading fun k hk => ⟨?_, rfl⟩) fun k x₂ ⟨hk, hx₂⟩ => ?_
    · rw [h₁.footprint.pool.hash_eq List.mem_cons_self, Except.ok.injEq] at hk
      exact hk.symm
    · subst hk hx₂
      refine Ensures.ok ⟨(), _, rfl, ⟨h₁.footprint.perm ?_, h₁.visited, h₁.queue,
        fun u hu => List.mem_cons_of_mem t (h₁.queued u hu), List.nodup_cons.2 ⟨hs₁, h₁.held⟩,
        fun u hu => ?_⟩, List.mem_cons_self, fun hmem => hs₁ (h₁.queued t hmem)⟩
      · exact (List.perm_middle.append_left (t :: rs)).trans (List.perm_middle.cons t)
      · rcases List.mem_cons.1 hu with rfl | hu
        · exact ⟨i, mem_alter.2 (.inr ⟨rfl, rfl⟩)⟩
        · obtain ⟨j, hj⟩ := h₁.known u hu
          exact ⟨j, mem_alter.2 (.inl hj)⟩

/-- The reference to a state that is discovered becomes the queue's. -/
theorem discover (h : Borrows w₀ objs v (s :: rs) x) (hs : s ∉ x.held) :
    EnsuresOk (discover s) x fun _ x' => Borrows w₀ objs v rs x' := by
  unfold Search.discover
  refine .get ((h.recognise hs _).bind fun _ x₁ h₁ => ?_)
  refine (EnsuresOk.reading fun _ _ => h₁).bind fun label x₂ h₂ => ?_
  refine EnsuresOk.bind (P := fun _ x' => Pending w₀ objs v s rs x') ?_ fun c x₃ h₃ => ?_
  · exact ensuresOk_onWorld (h₂.footprint.stateCondition s) fun c w hw =>
      ⟨h₂.withWorld hw (fun _ _ => rfl) _, h₂.recognised, h₂.unqueued⟩
  refine (EnsuresOk.reading fun _ _ => h₃).bind fun condition x₄ h₄ => ?_
  refine EnsuresOk.of_ok rfl (EnsuresOk.of_ok rfl (EnsuresOk.pure ?_))
  exact Pending.push ⟨h₄.withWorld h₄.footprint (fun _ _ => rfl) _, h₄.recognised, h₄.unqueued⟩

/-- A destination that is known, or that the limit keeps out, is given back. -/
theorem place (h : Borrows w₀ objs v (d :: rs) x) (hrs : rs.length ≤ 4) (limit : Option Nat) :
    EnsuresOk (place limit d) x fun _ x' => Borrows w₀ objs v rs x' := by
  unfold Search.place
  refine EnsuresOk.bind (P := fun r x' => (r = none → d ∉ x'.held) ∧ Borrows w₀ objs v (d :: rs) x')
    (EnsuresOk.reading fun r hr => ⟨?_, h⟩) fun r x₁ ⟨hd, h₁⟩ => ?_
  · rintro rfl
    exact h.not_mem_held hr
  cases r with
  | some i => exact (h₁.release hrs).bind fun _ _ h' => EnsuresOk.pure h'
  | none =>
    refine .get ?_
    split
    · refine (h₁.updateFound _).bind fun _ x₂ h₂ => ?_
      exact (h₂.release hrs).bind fun _ _ h' => EnsuresOk.pure h'
    · exact (h₁.discover (hd rfl)).bind fun _ _ h' => EnsuresOk.pure h'

/-! ## Edges -/

theorem followEdge (h : Borrows w₀ objs v rs x) (hit : ∀ t, it.selfLoop = some t → t ∈ rs)
    (hrs : rs.length ≤ 4) (limit : Option Nat) (source : Nat) :
    EnsuresOk (followEdge limit source it) x fun _ x' => ∃ objs', Borrows w₀ objs' v rs x' := by
  unfold Search.followEdge
  refine EnsuresOk.bind (P := fun d x' => ∃ objs', Borrows w₀ objs' v (d :: rs) x') ?_
    fun d x₁ ⟨objs', h₁⟩ => ?_
  · refine ensuresOk_onWorld (h.footprint.destination fun t ht => List.mem_append_left _ (hit t ht))
      fun d w ⟨objs', hobjs, hw⟩ => ⟨objs', ?_⟩
    exact h.withWorld hw (fun t ht => hobjs t (mem_footprint ht)) _
  refine (EnsuresOk.reading fun _ _ => h₁).bind fun condition x₂ h₂ => ?_
  refine (h₂.place hrs limit).bind fun r x₃ h₃ => ?_
  cases r with
  | some target => exact (h₃.updateFound _).mono fun _ _ h' => ⟨objs', h'⟩
  | none => exact EnsuresOk.pure ⟨objs', h₃⟩

theorem followEdges (h : Borrows w₀ objs v rs x) (hit : ∀ t, it.selfLoop = some t → t ∈ rs)
    (hrs : rs.length ≤ 4) (limit : Option Nat) (source fuel : Nat) :
    EnsuresOk (followEdges limit source fuel it) x fun _ x' => ∃ objs', Borrows w₀ objs' v rs x' := by
  induction fuel generalizing x it objs with
  | zero => exact EnsuresOk.pure ⟨objs, h⟩
  | succ fuel ih =>
    refine (h.followEdge hit hrs limit source).bind fun _ x₁ ⟨objs₁, h₁⟩ => ?_
    dsimp only
    split
    · exact ih h₁ (by rwa [it.selfLoop_next])
    · exact EnsuresOk.pure ⟨objs₁, h₁⟩

/-- A visit that faults does not go on. -/
theorem followAll (h : Borrows w₀ objs v rs x) (hit : ∀ t, it.selfLoop = some t → t ∈ rs)
    (hrs : rs.length ≤ 4) (limit : Option Nat) (i : Nat) (any : Bool) :
    EnsuresOk (followAll limit i any it) x fun _ x' => ∃ objs', Borrows w₀ objs' v rs x' := by
  unfold Search.followAll
  split
  · refine EnsuresOk.tryCatch (h.followEdges hit hrs limit i _) fun e x' => ?_
    exact EnsuresOk.bind (P := fun _ _ => True) (fun _ _ _ => trivial) fun _ _ _ => EnsuresOk.throw
  · exact EnsuresOk.pure ⟨objs, h⟩

/-! ## Visits -/

/-- A visit gives the queue's reference back, and all that it borrowed. -/
theorem visit (h : Borrows w₀ objs v [s] x) (limit : Option Nat) (i : Nat) :
    EnsuresOk (visit limit i s) x fun _ x' => ∃ objs', Borrows w₀ objs' v [] x' := by
  rw [visit_eq]
  refine EnsuresOk.bind (P := fun it x' => (∀ t, it.selfLoop = some t → t = s) ∧
      Borrows w₀ objs v (it.selfLoop.toList ++ [s]) x') ?_ fun it x₁ ⟨hloop, h₁⟩ => ?_
  · refine ensuresOk_onWorld (h.footprint.successors _ List.mem_cons_self) fun it w ⟨hloop, hw⟩ =>
      ⟨hloop, h.withWorld ?_ (fun _ _ => rfl) _⟩
    rwa [List.append_assoc]
  rw [← it.selfLoop_first] at h₁ hloop
  have hlength : (it.first.2.selfLoop.toList ++ [s]).length ≤ 4 := by
    cases it.first.2.selfLoop with
    | none => exact Nat.le_add_left 1 3
    | some t => exact Nat.le_add_left 2 2
  refine (h₁.updateFound _).bind fun _ x₂ h₂ => ?_
  refine (h₂.followAll (fun t ht => ?_) hlength limit i _).bind fun _ x₃ ⟨objs', h₃⟩ => ?_
  · rw [hloop t ht]
    exact List.mem_append_right _ (List.mem_singleton_self s)
  refine (h₃.giveBack (Nat.le_add_left 1 3)).bind fun _ x₄ h₄ => ?_
  exact (h₄.release (Nat.zero_le 4)).bind fun _ _ h' => EnsuresOk.pure ⟨objs', h'⟩

/-- Where the queue ends, the search holds what it recognises states by. -/
theorem ended (h : Borrows w₀ objs v [] x) (hv : x.queue[v]? = none) :
    w₀.Footprint objs x.held x.world := by
  have hdrop : x.queue.toList.drop v = [] := List.drop_eq_nil_of_le (Array.getElem?_eq_none_iff.1 hv)
  have hfoot := h.footprint
  rwa [hdrop] at hfoot

/-- The state that is visited next takes its reference out of the queue. -/
theorem dequeue (h : Borrows w₀ objs v [] x) (hv : x.queue[v]? = some s) :
    Borrows w₀ objs (v + 1) [s] x := by
  obtain ⟨hlt, rfl⟩ := Array.getElem?_eq_some_iff.1 hv
  refine ⟨?_, hlt, h.queue, h.queued, h.held, h.known⟩
  have hfoot := h.footprint
  rwa [List.drop_eq_getElem_cons (show v < x.queue.toList.length from hlt)] at hfoot

/-- Visits that end leave nothing in the queue. -/
theorem visitFrom (h : Borrows w₀ objs v [] x) (limit : Option Nat) (fuel : Nat) :
    EnsuresOk (visitFrom limit fuel v) x fun _ x' =>
      x'.held.Nodup ∧ ∃ objs', w₀.Footprint objs' x'.held x'.world := by
  induction fuel generalizing x v objs with
  | zero =>
    refine .get ?_
    cases hv : x.queue[v]? with
    | none => exact EnsuresOk.pure ⟨h.held, objs, h.ended hv⟩
    | some s => exact EnsuresOk.throw
  | succ fuel ih =>
    refine .get ?_
    cases hv : x.queue[v]? with
    | none => exact EnsuresOk.pure ⟨h.held, objs, h.ended hv⟩
    | some s => exact ((h.dequeue hv).visit limit v).bind fun _ x₁ ⟨objs', h₁⟩ => ih h₁

end Borrows

/-! ## Whole searches -/

/-- A search that ends has borrowed the references that it holds. -/
theorem footprint_run (hw : w.Tidy) (limit : Option Nat) :
    EnsuresOk (run limit) (start w) fun _ x =>
      x.held.Nodup ∧ ∃ objs, w.Footprint objs x.held x.world := by
  have hinit : EnsuresOk (onWorld Kripke.initialState) (start w) fun r x =>
      (∃ objs, Borrows w objs 0 r.toOption.toList x) ∧ x.held = [] ∧ x.queue[0]? = none := by
    -- nothing is borrowed yet, so any objects will do
    refine ensuresOk_onWorld (x := start w)
      (hw.footprint fun _ => ⟨0, .foreign ⟨[], [], 0, 0, 0⟩⟩).initialState
      fun r w₁ ⟨objs, _, h₁⟩ => ⟨⟨objs, ?_⟩, rfl, rfl⟩
    exact ⟨h₁, Nat.zero_le _, List.nodup_nil, nofun, List.nodup_nil, nofun⟩
  refine hinit.bind fun r x₁ ⟨⟨objs, h₁⟩, hheld, hqueue⟩ => ?_
  cases r with
  | error e => exact EnsuresOk.pure ⟨h₁.held, objs, h₁.ended hqueue⟩
  | ok s =>
    refine (h₁.discover (by rw [hheld]; exact List.not_mem_nil)).bind fun _ x₂ h₂ => .get ?_
    exact (h₂.visitFrom limit _).bind fun _ x₃ h₃ => EnsuresOk.pure h₃

/-- A search holds each state once, so that one reference to it is given back in the end. -/
theorem footprint_releaseAll {held : List Handle} (h : w₀.Footprint objs held w) (hheld : held.Nodup) :
    EnsuresOk (releaseAll held) w fun _ w' => w₀.Footprint objs [] w' := by
  induction held generalizing w with
  | nil => exact EnsuresOk.pure h
  | cons s held ih =>
    obtain ⟨hs, hnodup⟩ := List.nodup_cons.1 hheld
    have hroom : held.count s + 1 < 2 ^ 32 := by
      rw [List.count_eq_zero_of_not_mem hs]
      decide
    exact (h.release hroom).bind fun _ w₁ h₁ => ih h₁ hnodup

end Search

namespace World

variable {ε : Type} [Engine ε] {w w₁ w' : World ε}

variable [PausingEngine ε]

/-- Closing a session undoes the pause and the session that opening it has made. -/
theorem Footprint.closeSession {objs : Handle → Shared} {rs : List Handle}
    (h : w.opened.Footprint objs rs w₁) :
    EnsuresOk Kripke.closeSession w₁ fun _ w' => w.Footprint objs rs w' := by
  refine EnsuresOk.bind (P := fun _ w' => w'.kripke.pool = w₁.kripke.pool ∧
    w'.kripke.retired = w₁.kripke.retired ∧ w'.kripke.sessions = w₁.kripke.sessions ∧
    PausingEngine.paused w₁.kripke.engine = PausingEngine.paused w'.kripke.engine + 1)
    (ensuresOk_onEngine (fun _ _ hres => PausingEngine.resume hres) fun _ _ he => ⟨rfl, rfl, rfl, he⟩) ?_
  intro _ w₂ ⟨hpool, hretired, hsessions, hpaused⟩
  refine Ensures.ok ⟨(), _, rfl, ?_, ?_, ?_, ?_⟩
  · show w.kripke.pool.Lent objs rs w₂.kripke.pool
    exact hpool ▸ h.pool
  · show ∀ it, w₂.kripke.retired = some it → _
    exact hretired ▸ h.retired
  · show w₂.kripke.sessions - 1 = w.kripke.sessions
    rw [hsessions, h.sessions]
    exact Nat.add_sub_cancel ..
  · have hopened := h.paused.symm.trans hpaused
    rw [show w.opened.kripke.engine = Engine.pause w.kripke.engine from rfl, PausingEngine.pause]
      at hopened
    exact (Nat.succ.inj hopened).symm

/-! ## Explorations -/

/-- An exploration gives back all that it borrows. -/
theorem Tidy.footprint_explore (hw : w.Tidy) (limit : Option Nat) :
    EnsuresOk (Kripke.explore limit) w fun _ w' => ∃ objs, w.Footprint objs [] w' := by
  refine EnsuresOk.of_ok (openSession_ok w) fun r w' hrun => ?_
  obtain ⟨r', x, hsearch, hfinish, -⟩ := Search.within_eq_ok hrun
  obtain ⟨_, w₁, hrelease, hclose⟩ := estate_bind_eq_ok.1 hfinish
  have hopened : w.opened.Tidy := ⟨hw.pool, hw.counted, hw.retired⟩
  obtain ⟨hheld, objs, hborrowed⟩ := Search.footprint_run hopened limit r' x hsearch
  exact ⟨objs, (Search.footprint_releaseAll hborrowed hheld () w₁ hrelease).closeSession () w' hclose⟩

omit [PausingEngine ε] in
/-- An exploration keeps a world tidy, whether it faults or not. -/
theorem Tidy.explore (h : w.Tidy) (limit : Option Nat) : ((Kripke.explore limit).after w).Tidy :=
  (Search.keeps_explore (steady_tidy w.kripke.profile) limit w ⟨rfl, h⟩).2

/-- The structure was built and used in whatever way, calls that faulted included. -/
inductive Used : World ε → Prop where
  | create {d d' : Dictionary} {id : Nat} {engine : ε} {names : List String} {o : Options}
      {k : Kripke ε} (hrun : Kripke.create id engine names o d = .ok (.ok k) d') : Used ⟨d', k⟩
  | move {w : World ε} (h : Used w) (m : Move) : Used (m.run.after w)
  | explore {w : World ε} (h : Used w) (limit : Option Nat) : Used ((Kripke.explore limit).after w)
  /-- Others share the dictionary or the engine, and do with them what they like. -/
  | shared {w : World ε} (h : Used w) (dict : Dictionary) (engine : ε) :
      Used { w with dict, kripke := { w.kripke with engine } }

omit [PausingEngine ε] in
theorem Used.move_ok {m : Move} (h : w.Used) (hrun : m.run w = .ok () w') : w'.Used :=
  after_ok hrun ▸ h.move m

omit [PausingEngine ε] in
theorem Used.tidy (h : w.Used) : w.Tidy := by
  induction h with
  | create hrun => exact tidy_of_create hrun
  | move _ m ih => exact ih.move m
  | explore _ limit ih => exact ih.explore limit
  | shared _ dict engine ih => exact ⟨ih.pool, ih.counted, ih.retired⟩

end World

namespace Kripke

variable {ε : Type} [Engine ε] [PausingEngine ε] {w w' : World ε}

/-- An exploration that returns leaves no trace on a structure that was used in whatever way, whether it
found an initial state or not. Every handle is as live as it was and has the references, the hash and
the state that it had, the pool counts as many states that came and did not go, and the sessions, the
pauses of the engine and the names of the dictionary are the same. -/
theorem explore_leaves_no_trace (hw : w.Used) {limit : Option Nat}
    {r : Except StartError Exploration} (hrun : explore limit w = .ok r w') :
    (∀ s, w'.kripke.pool.isLive s = w.kripke.pool.isLive s ∧
      w'.kripke.pool.refCount s = w.kripke.pool.refCount s ∧
      w'.kripke.pool.hash s = w.kripke.pool.hash s ∧
      w'.kripke.pool.get s = w.kripke.pool.get s) ∧
    (w'.kripke.pool.wrapped : Int) - w'.kripke.pool.freed =
      w.kripke.pool.wrapped - w.kripke.pool.freed ∧
    w'.kripke.sessions = w.kripke.sessions ∧
    PausingEngine.paused w'.kripke.engine = PausingEngine.paused w.kripke.engine ∧
    w'.dict.registry = w.dict.registry := by
  have htidy := hw.tidy
  obtain ⟨objs, hfoot⟩ := htidy.footprint_explore limit r w' hrun
  have hslot := hfoot.pool.slot?_eq
  have hnames := Search.keeps_explore (steady_registry w.kripke.profile w.dict.registry) limit w
    ⟨rfl, rfl⟩
  rw [after_ok hrun] at hnames
  exact ⟨fun s => Pool.read_congr (congrFun hslot s),
    Pool.wrapped_sub_freed_congr htidy.pool htidy.counted hfoot.pool.sound hfoot.pool.counted hslot,
    hfoot.sessions, hfoot.paused, hnames.2⟩

/-- Over a network that was read, there is a structure that observes nothing. -/
theorem exists_used {text : String} {n : Network} {ws : List Network.Warning}
    (hparse : Network.parse text = .ok (n, ws)) : ∃ w : World Graph, w.Used ∧ w.Sound ∧
      w.kripke.engine.network = n ∧ w.kripke.profile.Plain ∧ Fits w.dict ∧ w.kripke.sessions = 0 ∧
      w.kripke.engine.paused = 0 := by
  obtain ⟨d, k, d', hd, hnext, hcreate, hnet, hplain, -, hfit⟩ := exists_plain n
  have hreached : World.Reached ⟨d', k⟩ := .create (.create hd) (Network.parse_valid hparse)
    (by rw [hnext]; decide) (by decide) hcreate hfit
  obtain ⟨-, hengine, -, hsessions⟩ := of_create hcreate
  exact ⟨⟨d', k⟩, .create hcreate, hreached.sound, hnet, hplain, hfit, hsessions,
    congrArg Graph.paused hengine⟩

/-- An exploration of a structure that observes nothing returns. -/
theorem explore_plain {w : World Graph} (h : w.Sound) (hplain : w.kripke.profile.Plain)
    (hfit : Fits w.dict) (limit : Option Nat) : ∃ r w', explore limit w = .ok r w' ∧
      ((∃ x, r = .ok x) ↔ w.kripke.engine.network.starts.length = 1) := by
  exact explore_returns h limit (fits_explore_plain hplain hfit limit)

/-- The only initial state of a graph comes with a handle. -/
theorem initialState_held {w : World Graph} (h : w.Sound)
    (hstarts : w.kripke.engine.network.starts.length = 1) : ∃ s w', initialState w = .ok (.ok s) w' ∧
      w'.Sound ∧ w'.kripke.engine.network = w.kripke.engine.network ∧
      w'.kripke.profile = w.kripke.profile ∧ w'.dict = w.dict ∧
      w'.kripke.sessions = w.kripke.sessions ∧
      w'.kripke.engine.paused = w.kripke.engine.paused ∧ w'.kripke.pool.refCount s = .ok 1 := by
  obtain ⟨r, w', hinit, hkept, ss, g, hg, hstarted⟩ := initialState_spec h
  obtain ⟨ss', g', hg', hpaused, hss⟩ := Graph.initial_spec h.good
  cases hg.symm.trans hg'
  obtain ⟨c₀, hc₀⟩ := List.length_eq_one_iff.1 hstarts
  rw [hc₀] at hss
  obtain ⟨o, rfl, -⟩ := List.map_eq_singleton_iff.1 hss
  obtain ⟨s, rfl, -, hupd, hw'⟩ := hstarted
  refine ⟨s, w', hinit, hkept.sound, hkept.network, hkept.profile, ?_, ?_, ?_, ?_⟩
  · rw [hw']
  · rw [hw']
  · rw [hw']
    exact hpaused.paused
  · unfold Pool.refCount
    rw [Table.get_of_value? hupd.self]
    rfl

/-- A process with one step is explored up to one state while a handle of its initial state is held and
a session is open. A process without an initial location cannot be explored, and neither can an engine,
chosen at run time and paused before, that lists two initial states. -/
theorem explore_leaves_no_trace_held :
    (∃ (w w' : World Graph) (s : Handle) (x : Exploration), w.Used ∧
      explore (some 1) w = .ok (.ok x) w' ∧
      w.kripke.sessions = 1 ∧ w.kripke.engine.paused = 1 ∧ w.kripke.pool.refCount s = .ok 1 ∧
      w'.kripke.sessions = 1 ∧ w'.kripke.engine.paused = 1 ∧ w'.kripke.pool.refCount s = .ok 1) ∧
    (∃ (w w' : World Graph) (e : StartError), w.Used ∧ explore none w = .ok (.error e) w' ∧
      w'.kripke.sessions = 0 ∧ w'.kripke.engine.paused = 0) ∧
    ∃ (w w' : World EngineChoice) (e : StartError), w.Used ∧ explore none w = .ok (.error e) w' ∧
      w'.kripke.sessions = 0 ∧ w'.kripke.engine.paused = 1 := by
  refine ⟨?_, ?_, ?_⟩
  · obtain ⟨⟨n, ws⟩, hparse, hread⟩ := exists_ok_of_any (x := Network.parse
      ("system:s\nprocess:P\nlocation:P:a\x7binitial:\x7d\nlocation:P:b\nevent:e\n" ++
        "edge:P:a:b:e")) (p := fun y => y.1.starts.length = 1) (by decide +kernel)
    have hstarts : n.starts.length = 1 := of_decide_eq_true hread
    obtain ⟨w, hused, hsound, hnet, hplain, hfit, hsessions, hpaused⟩ := exists_used hparse
    rw [← hnet] at hstarts
    obtain ⟨s, w₁, hinit, hsound₁, hnet₁, hprofile₁, hdict₁, hsessions₁, hpaused₁, hcount₁⟩ :=
      initialState_held hsound hstarts
    have hused₂ : w₁.opened.Used :=
      (hused.move_ok (m := .initialState) (bind_ok hinit _)).move .openSession
    obtain ⟨r, w', hrun, hreturns⟩ := explore_plain hsound₁.opened
      (show w₁.kripke.profile.Plain from hprofile₁ ▸ hplain) (show Fits w₁.dict from hdict₁ ▸ hfit)
      (some 1)
    obtain ⟨x, rfl⟩ := hreturns.2 (show w₁.kripke.engine.network.starts.length = 1 from hnet₁ ▸ hstarts)
    obtain ⟨hpool, -, hsessions', hpaused', -⟩ := explore_leaves_no_trace hused₂ hrun
    have hsessions₂ : w₁.opened.kripke.sessions = 1 := congrArg (· + 1) (hsessions₁.trans hsessions)
    have hpaused₂ : w₁.opened.kripke.engine.paused = 1 := congrArg (· + 1) (hpaused₁.trans hpaused)
    exact ⟨w₁.opened, w', s, x, hused₂, hrun, hsessions₂, hpaused₂, hcount₁,
      hsessions'.trans hsessions₂, hpaused'.trans hpaused₂, (hpool s).2.1.trans hcount₁⟩
  · obtain ⟨⟨n, ws⟩, hparse, hread⟩ := exists_ok_of_any (x := Network.parse
      "system:s\nprocess:P\nlocation:P:a\n") (p := fun y => y.1.starts.length = 0) (by decide +kernel)
    have hstarts : n.starts.length = 0 := of_decide_eq_true hread
    obtain ⟨w, hused, hsound, hnet, hplain, hfit, hsessions, hpaused⟩ := exists_used hparse
    obtain ⟨r, w', hrun, hreturns⟩ := explore_plain hsound hplain hfit none
    obtain ⟨-, -, hsessions', hpaused', -⟩ := explore_leaves_no_trace hused hrun
    cases r with
    | ok x =>
      have hone := hreturns.1 ⟨x, rfl⟩
      rw [hnet, hstarts] at hone
      cases hone
    | error e => exact ⟨w, w', e, hused, hrun, hsessions'.trans hsessions, hpaused'.trans hpaused⟩
  · obtain ⟨d, k, d', e, w', -, hcreate, hrun, hsessions, hpaused⟩ :
        ∃ (d : Dictionary) (k : Kripke EngineChoice) (d' : Dictionary) (e : StartError)
          (w' : World EngineChoice), Dictionary.create 4 = .ok d ∧ Kripke.create 1 (.tabulated {
              network := { name := "two" }, semantics := .standard,
              states := #[⟨[0], [], 5, 0, 0⟩, ⟨[1], [], 5, 1, 1⟩],
              initial := [0, 1], steps := [⟨0, 1, []⟩], paused := 1 }) [] {} d = .ok (.ok k) d' ∧
            explore none ⟨d', k⟩ = .ok (.error e) w' ∧ k.sessions = 0 ∧ k.engine.paused = 1 :=
      ⟨_, _, _, _, _, rfl, rfl, rfl, rfl, rfl⟩
    obtain ⟨-, -, hsessions', hpaused', -⟩ := explore_leaves_no_trace (.create hcreate) hrun
    exact ⟨⟨d', k⟩, w', e, .create hcreate, hrun, hsessions'.trans hsessions, hpaused'.trans hpaused⟩

end Kripke

end StateSpace
