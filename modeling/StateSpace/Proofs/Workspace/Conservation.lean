import StateSpace.Proofs.Pool.Accounted
import StateSpace.Proofs.Workspace.Custody

/-!
# Conservation of references

A workspace grows by structures and changes by what others ask of the dictionary; its consumer calls
structures and iterators. At any time a pooled state has as many references as the consumer owns handles
of it and as there are iterators that loop on it. So no call finds a state released too many times, no
call faults but the one for the destination of an exhausted iterator, and when everything has been given
back, nothing is left in the pools. All this holds as long as a slot can count its references: with
`2 ^ 32` of them it counts none (`references_uncounted`).
-/

namespace StateSpace

open StateSpace.Action World

namespace Workspace

variable {ε : Type} [Engine ε] [LawfulEngine ε] {w w' : Workspace ε} {k : Nat} {s : Kripke ε}
  {t : Handle} {owned owned' rs : List Reference} {name : String} {it : Iterator}
  {its : List (String × Iterator)}

/-! ## References -/

/-- The number of iterators in use that loop on a state. -/
def loops (w : Workspace ε) (k : Nat) (t : Handle) : Nat :=
  w.iterators.countP fun x => x.2.home = k ∧ x.2.selfLoop = some t

omit [Engine ε] [LawfulEngine ε] in
theorem count_references (it : Iterator) (k : Nat) (t : Handle) :
    it.references.count (k, t) = if it.home = k ∧ it.selfLoop = some t then 1 else 0 := by
  cases hloop : it.selfLoop with
  | none =>
    rw [Iterator.references_of_none hloop]
    simp
  | some u =>
    rw [Iterator.references_of_some hloop, List.count_singleton]
    simp

omit [Engine ε] [LawfulEngine ε] in
theorem count_held (its : List (String × Iterator)) (k : Nat) (t : Handle) :
    (held its).count (k, t) = its.countP fun x => x.2.home = k ∧ x.2.selfLoop = some t := by
  induction its with
  | nil => rfl
  | cons x its ih =>
    have hcons : held (x :: its) = x.2.references ++ held its := List.flatMap_cons
    rw [hcons, List.count_append, ih, count_references, List.countP_cons, Nat.add_comm]
    simp

omit [Engine ε] [LawfulEngine ε] in
theorem count_owned (w : Workspace ε) (owned : List Reference) (k : Nat) (t : Handle) :
    (owned ++ held w.iterators).count (k, t) = owned.count (k, t) + w.loops k t := by
  rw [List.count_append, count_held]
  rfl

/-- A call that may take one more reference to a state finds fewer than `2 ^ 32 - 1` of them. -/
def Call.HasRoom (w : Workspace ε) (owned : List Reference) : Call → Prop
  | clone k t | iterate k t _ => owned.count (k, t) + w.loops k t < 2 ^ 32 - 1
  | destination name => ∀ it t, w.iterator? name = some it → it.selfLoop = some t →
    owned.count (it.home, t) + w.loops it.home t < 2 ^ 32 - 1
  | _ => True

/-! ## Custody -/

/-- Every reference is owned by the consumer or held by an iterator in use. -/
structure Custody (w : Workspace ε) (owned : List Reference) : Prop where
  inOrder : w.InOrder (owned ++ held w.iterators)
  names : (w.iterators.map Prod.fst).Nodup
  serves : ∀ x ∈ w.iterators, w.Serves x.2

/-- A call that changes no iterator hands references to the consumer, or takes them from it. -/
theorem Custody.follows (h : w.Custody owned) (hf : w.Follows rs w')
    (hp : (owned' ++ held w.iterators).Perm rs) : w'.Custody owned' := by
  refine ⟨?_, ?_, fun x hx => ?_⟩
  · rw [hf.iterators]
    exact hf.inOrder.perm hp
  · rw [hf.iterators]
    exact h.names
  · rw [hf.iterators] at hx
    exact hf.serves (h.serves x hx)

/-- An iterator that is taken from its name takes its reference along. -/
theorem InOrder.take (h : w.InOrder (rs ++ held its)) (hnd : (its.map Prod.fst).Nodup)
    (hit : its.lookup name = some it) :
    w.InOrder (it.references ++ (rs ++ held (without name its))) := by
  refine h.perm (.trans (List.perm_append_comm_assoc _ _ _) (.append_left _ ?_))
  exact (held_perm hnd hit).symm

theorem Custody.serves_of_lookup (h : w.Custody owned) (hit : w.iterator? name = some it) :
    w.Serves it := h.serves (name, it) (mem_of_lookup h.names hit)

/-- There may be a new iterator under a name, in the place of an older one. -/
theorem custody_put (h : w.InOrder (it.references ++ (owned ++ held (without name its))))
    (hw : w.iterators = (name, it) :: without name its) (hnd : (its.map Prod.fst).Nodup)
    (hserves : ∀ x ∈ its, w.Serves x.2) (hit : w.Serves it) : w.Custody owned := by
  refine ⟨?_, ?_, fun x hx => ?_⟩
  · rw [hw]
    exact h.perm (List.perm_append_comm_assoc _ _ _)
  · rw [hw]
    exact List.nodup_cons.2 ⟨not_mem_without name its, nodup_without hnd name⟩
  · rw [hw] at hx
    rcases List.mem_cons.1 hx with rfl | hx
    · exact hit
    · exact hserves x (List.mem_of_mem_filter hx)

/-- There may be no iterator under a name any more. -/
theorem custody_removed (h : w.InOrder (owned ++ held (without name its)))
    (hw : w.iterators = without name its) (hnd : (its.map Prod.fst).Nodup)
    (hserves : ∀ x ∈ its, w.Serves x.2) : w.Custody owned := by
  refine ⟨?_, ?_, fun x hx => ?_⟩
  · rw [hw]
    exact h
  · rw [hw]
    exact nodup_without hnd name
  · rw [hw] at hx
    exact hserves x (List.mem_of_mem_filter hx)

/-! ## One call -/

/-- An iterator that moves keeps its reference, and its successors. -/
theorem custody_moveIterator (h : w.Custody owned) (hit : w.iterator? name = some it)
    {f : Iterator → Bool × Iterator} (hrefs : (f it).2.references = it.references)
    (hserves : w.Serves (f it).2) :
    Ensures (moveIterator name f) w fun _ w' => w'.Custody owned := by
  refine ⟨_, _, moveIterator_ok hit f, custody_put ?_ rfl h.names h.serves hserves⟩
  rw [hrefs]
  exact (h.inOrder.take h.names hit).withIterators _

theorem serves_first (h : w.Serves it) : w.Serves it.first.2 := by
  obtain ⟨s, hs, hproper⟩ := h
  exact ⟨s, by rw [it.home_first]; exact hs, hproper.first⟩

theorem serves_next (h : w.Serves it) : w.Serves it.next.2 := by
  obtain ⟨s, hs, hproper⟩ := h
  exact ⟨s, by rw [it.home_next]; exact hs, hproper.next⟩

/-- A new iterator comes with the reference of its loop; an older one of the same name gives its own
reference back. -/
theorem custody_iterate (h : w.Custody owned) (ht : (k, t) ∈ owned)
    (hroom : (owned ++ held w.iterators).count (k, t) + 1 < 2 ^ 32) (name : String) :
    EnsuresFit (Workspace.iterate k t name) w fun _ w' => w'.Custody owned := by
  unfold Workspace.iterate
  refine .of_ok (get_apply w) ?_
  refine (successors_follows h.inOrder (List.mem_append_left _ ht) hroom _).bind (fun it => ?_)
    fun it w₁ ⟨hf, hit⟩ => ?_
  · refine grows_bind (fun _ => Nat.le_refl _) fun old => grows_bind (fun _ => Nat.le_refl _) fun _ => ?_
    cases old with
    | some old => exact grows_closeIterator old
    | none => exact grows_pure ()
  have hnd : (w₁.iterators.map Prod.fst).Nodup := by
    rw [hf.iterators]
    exact h.names
  have hserves : ∀ x ∈ w₁.iterators, w₁.Serves x.2 := by
    rw [hf.iterators]
    exact fun x hx => hf.serves (h.serves x hx)
  have h₁ : w₁.InOrder ((it.references ++ owned) ++ held w₁.iterators) := by
    rw [hf.iterators, List.append_assoc]
    exact hf.inOrder
  refine .of_ok (takeIterator_ok w₁ name) (.of_ok (putIterator_ok _ name it) ?_)
  show EnsuresFit _ { w₁ with iterators := (name, it) :: without name (without name w₁.iterators) } _
  rw [without_without]
  cases hold : w₁.iterator? name with
  | none =>
    refine EnsuresFit.pure (custody_put ?_ rfl hnd hserves hit)
    rw [without_of_lookup_none hold, ← List.append_assoc]
    exact h₁.withIterators _
  | some old =>
    have hold' := hserves _ (mem_of_lookup hnd hold)
    have h₂ := (h₁.take hnd hold).withIterators ((name, it) :: without name w₁.iterators)
    refine (closeIterator_follows h₂ hold').mono fun _ w' hf' =>
      custody_put ?_ hf'.iterators hnd (fun x hx => hf'.serves (hserves x hx)) (hf'.serves hit)
    rw [← List.append_assoc]
    exact hf'.inOrder

/-- An iterator that a structure keeps has given its reference back, and one that it does not keep is
dropped. -/
theorem custody_giveIterator (h : w.Custody owned) (hk : w.At k s)
    (hit : w.iterator? name = some it) :
    EnsuresFit (giveIterator k name) w fun _ w' => w'.Custody owned := by
  have h₁ := (h.inOrder.take h.names hit).withIterators (without name w.iterators)
  unfold giveIterator
  refine .of_ok (takeIterator_ok w name) ?_
  rw [hit]
  refine (retire_follows h₁ hk).bind (fun kept => ?_) fun kept w₂ hf => ?_
  · cases kept with
    | true => exact grows_pure ()
    | false => exact grows_closeIterator it
  cases kept with
  | true =>
    exact EnsuresFit.pure (custody_removed hf.inOrder hf.iterators h.names fun x hx =>
      hf.serves (h.serves x hx))
  | false =>
    refine (closeIterator_follows hf.inOrder (hf.serves (h.serves_of_lookup hit))).mono
      fun _ w₃ hf' => custody_removed hf'.inOrder (hf'.iterators.trans hf.iterators) h.names
        fun x hx => hf'.serves (hf.serves (h.serves x hx))

theorem custody_dropIterator (h : w.Custody owned) (hit : w.iterator? name = some it) :
    EnsuresFit (dropIterator name) w fun _ w' => w'.Custody owned := by
  have h₁ := (h.inOrder.take h.names hit).withIterators (without name w.iterators)
  unfold dropIterator
  refine .of_ok (takeIterator_ok w name) ?_
  rw [hit]
  refine (closeIterator_follows h₁ (h.serves_of_lookup hit)).bind (fun _ => grows_pure true)
    fun _ w' hf => EnsuresFit.pure ?_
  exact custody_removed hf.inOrder hf.iterators h.names fun x hx => hf.serves (h.serves x hx)

omit [LawfulEngine ε] in
theorem run_destination (hit : w.iterator? name = some it) : (Call.destination name).run w =
    (Workspace.destination it >>= fun t => pure (some (it.home, t))) w := by
  simp only [Call.run, bind_ok (get_apply w), hit]

/-- The destination of an exhausted iterator is a fault, which changes nothing. -/
theorem Custody.exhausted (h : w.Custody owned) (hit : w.iterator? name = some it)
    (hdone : it.done = true) : (Call.destination name).run w = .error .exhausted w := by
  rw [run_destination hit]
  exact bind_error (destination_exhausted (h.serves_of_lookup hit) hdone) _

/-- A permitted call with room ends without a fault, unless it asks an exhausted iterator for a
destination. -/
theorem Custody.run {c : Call} (h : w.Custody owned) (hc : c.Permitted w owned)
    (hroom : c.HasRoom w owned)
    (hdone : ∀ name it, c = .destination name → w.iterator? name = some it → it.done = false) :
    EnsuresFit c.run w fun gained w' => w'.Custody (c.owned gained owned) := by
  cases c with
  | initialState k =>
    obtain ⟨s, hs⟩ := hc
    refine (initialState_follows h.inOrder (at_of_structure? hs)).bind (fun r => ?_) fun r w' hf => ?_
    · cases r <;> exact grows_pure _
    · cases r with
      | error e => exact EnsuresFit.pure (h.follows hf (.refl _))
      | ok t => exact EnsuresFit.pure (h.follows hf (.refl _))
  | clone k t =>
    have hcount : (owned ++ held w.iterators).count (k, t) + 1 < 2 ^ 32 := by
      rw [count_owned]
      exact Nat.add_lt_of_lt_sub hroom
    refine (clone_follows h.inOrder (List.mem_append_left _ hc) hcount).bind (fun _ => grows_pure _) ?_
    rintro t' w' ⟨hf, rfl⟩
    exact EnsuresFit.pure (h.follows hf (.refl _))
  | release k t =>
    have hperm := (List.perm_cons_erase hc).append_right (held w.iterators)
    exact (release_follows (h.inOrder.perm hperm.symm)).bind (fun _ => grows_pure _)
      fun _ w' hf => EnsuresFit.pure (h.follows hf (.refl _))
  | iterate k t name =>
    have hcount : (owned ++ held w.iterators).count (k, t) + 1 < 2 ^ 32 := by
      rw [count_owned]
      exact Nat.add_lt_of_lt_sub hroom
    exact (custody_iterate h hc hcount name).bind (fun _ => grows_pure _)
      fun _ _ h' => EnsuresFit.pure h'
  | first name =>
    obtain ⟨it, hit⟩ := hc
    exact ((custody_moveIterator h hit it.references_first
      (serves_first (h.serves_of_lookup hit))).bind fun _ _ h' => Ensures.pure h').fit
  | next name =>
    obtain ⟨it, hit⟩ := hc
    exact ((custody_moveIterator h hit it.references_next
      (serves_next (h.serves_of_lookup hit))).bind fun _ _ h' => Ensures.pure h').fit
  | done name => exact EnsuresFit.of_ok (inspect_ok w name _) (EnsuresFit.pure h)
  | cond name => exact EnsuresFit.of_ok (inspect_ok w name _) (EnsuresFit.pure h)
  | destination name =>
    obtain ⟨it, hit⟩ := hc
    unfold Call.run
    refine .of_ok (get_apply w) ?_
    rw [hit]
    have hserves := h.serves_of_lookup hit
    refine (destination_follows h.inOrder (fun r hr => ?_) hserves (hdone name it rfl hit)).bind
      (fun _ => grows_pure _) fun t w' hf => EnsuresFit.pure (h.follows hf (.refl _))
    refine ⟨List.mem_append_right _ ?_, ?_⟩
    · exact List.mem_flatMap.2 ⟨(name, it), mem_of_lookup h.names hit, hr⟩
    · obtain ⟨t, ht, rfl⟩ := List.mem_map.1 hr
      rw [count_owned]
      exact Nat.add_lt_of_lt_sub (hroom it t hit (Option.mem_toList.1 ht))
  | give k name =>
    obtain ⟨⟨s, hs⟩, it, hit⟩ := hc
    exact (custody_giveIterator h (at_of_structure? hs) hit).bind (fun _ => grows_pure _)
      fun _ _ h' => EnsuresFit.pure h'
  | drop name =>
    obtain ⟨it, hit⟩ := hc
    exact (custody_dropIterator h hit).bind (fun _ => grows_pure _) fun _ _ h' => EnsuresFit.pure h'

/-! ## Reached workspaces -/

/-- Structures are built over a dictionary that may hold the names of other parties, other parties ask
things of it that spare these structures, and the consumer calls what it is permitted to, which leads
to the workspace and to the references that the consumer owns. The cells fit all along, and so do the
references to each state. -/
inductive Reached : Workspace ε → List Reference → Prop where
  | start {d : Dictionary} (hd : d.Reached) : Reached { dict := d } []
  | build {w w' : Workspace ε} {owned : List Reference} {engine : ε} {names : List String}
      {o : Options} {k : Nat} (h : Reached w owned) (he : LawfulEngine.Good engine)
      (hroom : w.dict.registry.nextVar.toNat + names.length + 1 < 2 ^ 32) (hbits : o.poolBits ≤ 31)
      (hrun : Workspace.build engine names o w = .ok (.ok k) w') (hfit : Fits w') : Reached w' owned
  | request {w w' : Workspace ε} {owned : List Reference} {q : Dictionary.Request}
      (h : Reached w owned) (hq : q.Possible w.dict)
      (hspares : ∀ k s, w.At k s → q.Spares s.profile.owner ∧ q.Spares s.profile.props.owner)
      (hrun : onDict q.run w = .ok () w') (hfit : Fits w') : Reached w' owned
  | call {w w' : Workspace ε} {owned : List Reference} {c : Call} {gained : Option Reference}
      (h : Reached w owned) (hc : c.Permitted w owned) (hroom : c.HasRoom w owned)
      (hrun : c.run w = .ok gained w') (hfit : Fits w') : Reached w' (c.owned gained owned)

theorem Custody.request {q : Dictionary.Request} (h : w.Custody owned) (hq : q.Possible w.dict)
    (hspares : ∀ k s, w.At k s → q.Spares s.profile.owner ∧ q.Spares s.profile.props.owner)
    (hrun : onDict q.run w = .ok () w') (hfit : Fits w') : w'.Custody owned := by
  obtain ⟨d, hd, rfl⟩ := exists_onDict hrun
  obtain ⟨_, _, hd', hkept⟩ := q.run_spec h.inOrder.dict hq (by rw [after_ok hd]; exact hfit)
  cases hd.symm.trans hd'
  exact h.follows (h.inOrder.withDict hkept hspares) (.refl _)

omit [LawfulEngine ε] in
theorem build_ok {engine : ε} {names : List String} {o : Options} {d : Dictionary}
    (h : Kripke.create w.structures.size engine names o w.dict = .ok (.ok s) d) :
    Workspace.build engine names o w = .ok (.ok w.structures.size)
      { w with dict := d, structures := w.structures.push (some s) } := by
  unfold Workspace.build
  rw [bind_ok (get_apply w), bind_ok (onDict_ok h)]
  rfl

theorem Custody.build {engine : ε} {names : List String} {o : Options} (h : w.Custody owned)
    (he : LawfulEngine.Good engine)
    (hroom : w.dict.registry.nextVar.toNat + names.length + 1 < 2 ^ 32) (hbits : o.poolBits ≤ 31)
    (hrun : Workspace.build engine names o w = .ok (.ok k) w') (hfit : Fits w') :
    w'.Custody owned := by
  unfold Workspace.build at hrun
  rw [bind_ok (get_apply w)] at hrun
  obtain ⟨x, w₁, hcreate, hrest⟩ := estate_bind_eq_ok.1 hrun
  obtain ⟨d, hd, rfl⟩ := exists_onDict hcreate
  cases x with
  | error ds => cases hrest
  | ok s =>
    cases hrest
    obtain ⟨_, _, hd', hsound, hnew⟩ := Kripke.create_built h.inOrder.dict w.structures.size engine
      hroom hbits (by rw [after_ok hd]; exact hfit)
    cases hd.symm.trans hd'
    obtain ⟨hnew, hcounted, hkept⟩ := hnew s rfl
    have h₁ := h.follows (h.inOrder.withDict hkept fun _ _ _ => ⟨trivial, trivial⟩) (.refl _)
    exact h₁.follows (h₁.inOrder.push (sound_of_new hsound he hnew) hcounted hnew.vacant hnew.id)
      (.refl _)

theorem Reached.custody (h : w.Reached owned) : w.Custody owned := by
  induction h with
  | @start d hd =>
    have hnone : ∀ k s, ¬ At ({ dict := d } : Workspace ε) k s := fun k s hk => by cases hk
    refine ⟨⟨hd.sound, rfl, fun k s hk => absurd hk (hnone k s), fun k s hk => absurd hk (hnone k s),
      fun r hr => by cases hr⟩, List.nodup_nil, fun x hx => by cases hx⟩
  | build _ he hroom hbits hrun hfit ih => exact ih.build he hroom hbits hrun hfit
  | request _ hq hspares hrun hfit ih => exact ih.request hq hspares hrun hfit
  | @call w w' owned c gained _ hc hroom hrun hfit ih =>
    have hdone : ∀ name it, c = .destination name → w.iterator? name = some it → it.done = false := by
      rintro name it rfl hit
      rw [← Bool.not_eq_true]
      intro hdone
      cases hrun.symm.trans (ih.exhausted hit hdone)
    obtain ⟨_, _, hrun', hcustody⟩ := ih.run hc hroom hdone (by rwa [after_ok hrun])
    cases hrun.symm.trans hrun'
    exact hcustody

/-! ## Conservation -/

/-- What a slot counts are the handles that the consumer owns and the iterators in use that loop on the
state, and the slot is occupied exactly if there is one of them. A retired iterator has no reference,
and a pool without references is empty. No permitted call with room faults, unless it asks for the
destination of an exhausted iterator, and that changes nothing. -/
theorem references_conserved (h : w.Reached owned) :
    (∀ k s, w.structure? k = some s →
      (∀ t, (s.pool.isLive t = true ↔ 0 < owned.count (k, t) + w.loops k t) ∧
        (s.pool.isLive t = true → s.pool.refCount t = .ok (owned.count (k, t) + w.loops k t))) ∧
      (∀ it, s.retired = some it → it.selfLoop = none) ∧
      ((∀ t, owned.count (k, t) + w.loops k t = 0) →
        s.pool.live = 0 ∧ s.pool.wrapped = s.pool.freed)) ∧
    ∀ c : Call, c.Permitted w owned → c.HasRoom w owned → Fits (c.run.after w) →
      (∃ gained w', c.run w = .ok gained w') ∨
        ∃ name it, c = .destination name ∧ w.iterator? name = some it ∧ it.done = true ∧
          c.run w = .error .exhausted w := by
  have hw := h.custody
  refine ⟨fun k s hs => ?_, fun c hc hroom hfit => ?_⟩
  · have hk := at_of_structure? hs
    obtain ⟨hsound, hbalanced⟩ := hw.inOrder.world k s hk
    have hrefs : ∀ t, s.pool.refs t = owned.count (k, t) + w.loops k t := by
      intro t
      rw [hbalanced.refs t, show s.pool.id = k from hw.inOrder.id k s hk, count_owned]
    refine ⟨fun t => ⟨?_, fun hlive => ?_⟩, fun it hit => (hsound.retired it hit).1, fun hnone => ?_⟩
    · rw [← hrefs]
      exact ⟨hsound.pool.refs_pos hbalanced.referenced, hsound.pool.isLive_of_refs⟩
    · rw [← hrefs]
      exact hsound.pool.refCount_eq (hsound.pool.refs_pos hbalanced.referenced hlive)
    · refine hbalanced.empty hsound.pool fun t hmem => ?_
      have hpos := hbalanced.refs_pos hmem
      rw [hrefs, hnone] at hpos
      exact Nat.lt_irrefl 0 hpos
  · by_cases hex : ∃ name it, c = .destination name ∧ w.iterator? name = some it ∧ it.done = true
    · obtain ⟨name, it, rfl, hit, hdone⟩ := hex
      exact .inr ⟨name, it, rfl, hit, hdone, hw.exhausted hit hdone⟩
    · obtain ⟨gained, w', hrun, -⟩ := hw.run hc hroom (fun name it hname hit => by
        rw [← Bool.not_eq_true]
        exact fun hdone => hex ⟨name, it, hname, hit, hdone⟩) hfit
      exact .inl ⟨gained, w', hrun⟩

/-- In the network without processes the state loops. The structure observes nothing, so its
dictionary does not change. -/
theorem exists_loop (id : Nat) : ∃ d s d' t v, Dictionary.create 4 = .ok d ∧
    d.registry.nextVar = 1 ∧
    Kripke.create id (Graph.create { name := "stuck" } .standard) [] {} d = .ok (.ok s) d' ∧
    Fits d' ∧ Kripke.initialState ⟨d', s⟩ = .ok (.ok t) v ∧ v.dict = d' ∧
    ∀ others, ∃ it v', Kripke.successors others t v = .ok it v' ∧ it.home = id ∧
      it.selfLoop = some t ∧ v'.dict = d' := by
  obtain ⟨d, s, d', hd, hnext, hrun, hengine, hplain, hpolicy, hfit', hs⟩ :=
    exists_plain_at id { name := "stuck" }
  have hvalid := Network.empty_valid "stuck"
  have hsound : World.Sound ⟨d', s⟩ := (World.Reached.create (.create hd) hvalid
    (by rw [hnext]; decide) (by decide) hrun hfit').sound
  obtain ⟨r, v, hinit, hkept, ss, g, hg, hstarted⟩ := initialState_spec hsound
  obtain ⟨ss', g', hg', hgkept, hss⟩ := Graph.initial_spec (g := s.engine) (by rwa [hengine])
  cases hg.symm.trans hg'
  rw [hengine] at hss
  obtain ⟨o, rfl, ho⟩ := List.map_eq_singleton_iff.1 hss
  obtain ⟨t, rfl, -, hupd, hv⟩ := hstarted
  have hdict : v.dict = d' := by rw [hv]
  have hprofile : v.kripke.profile = s.profile := hkept.profile
  have hid : v.kripke.pool.id = id := hupd.id.trans hs
  have hnet : v.kripke.engine.network = { name := "stuck" } := hkept.network.trans hengine
  refine ⟨d, s, d', t, v, hd, hnext, hrun, hfit', hinit, hdict, fun others => ?_⟩
  have hkeep := Kripke.keeps_successors (steady_plain hplain d') others t v ⟨hprofile, hdict⟩
  have hfit : Fits ((Kripke.successors others t).after v) := by
    show Fits (World.dict _)
    rwa [hkeep.2]
  obtain ⟨it, v', hserve, items, e, hout, -, -, hserved⟩ :=
    Kripke.successors_spec hkept.sound ⟨1, hupd.self⟩ others hfit
  rw [after_ok hserve] at hkeep
  have hc : v.kripke.engine.network.Admits ⟨[], []⟩ := by
    rw [hnet]
    exact Network.admits_of_starts hvalid List.mem_cons_self
  obtain ⟨items', g₂, hout', -, hitems⟩ := Graph.outgoing_spec (by rwa [hnet]) hc
    (Kripke.inUse v.kripke.pool others)
  rw [ho] at hout
  cases hout.symm.trans hout'
  rw [hnet] at hitems
  obtain rfl : items = [] := List.map_eq_nil_iff.1 hitems
  have hloops : v.kripke.profile.loops [] = true := by
    rw [hprofile]
    unfold Profile.loops
    rw [hpolicy]
    rfl
  refine ⟨it, v', hserve, ?_, ?_, hkeep.2⟩
  · rw [hserved.iterator]
    exact hid
  · rw [hserved.iterator, hloops]
    rfl

/-- The consumer may own a handle of a state that loops, and nothing else. -/
theorem exists_owned : ∃ (w : Workspace Graph) (s : Kripke Graph) (t : Handle),
    w.Reached [(0, t)] ∧ w.At 0 s ∧ w.iterators = [] ∧ Fits w.dict ∧
      ∀ others, ∃ it v, Kripke.successors others t ⟨w.dict, s⟩ = .ok it v ∧ it.home = 0 ∧
        it.selfLoop = some t ∧ v.dict = w.dict := by
  obtain ⟨d, s, d', t, v, hd, hnext, hcreate, hfit, hinit, hv, hloop⟩ := exists_loop 0
  have hvalid := Network.empty_valid "stuck"
  -- the structure is built at the first position
  obtain ⟨w₁, hbuild, hdict₁, hk₁, hits₁⟩ : ∃ w₁ : Workspace Graph,
      Workspace.build (Graph.create { name := "stuck" } .standard) [] {} { dict := d } =
        .ok (.ok 0) w₁ ∧ w₁.dict = d' ∧ w₁.At 0 s ∧ w₁.iterators = [] :=
    ⟨_, build_ok (w := { dict := d }) hcreate, rfl, rfl, rfl⟩
  have h₁ : w₁.Reached [] := by
    refine .build (.start (.create hd)) hvalid ?_ (by decide) hbuild ?_
    · show d.registry.nextVar.toNat + 0 + 1 < 2 ^ 32
      rw [hnext]
      decide
    · show Fits w₁.dict
      rwa [hdict₁]
  -- the consumer asks for its initial state
  have hrun : onStructure 0 Kripke.initialState w₁ = .ok (.ok t) (w₁.withWorld 0 v) := by
    rw [onStructure_eq h₁.custody.inOrder.opened]
    exact onPlaced_ok hk₁ (by rw [hdict₁]; exact hinit)
  have hcall : (Call.initialState 0).run w₁ = .ok (some (0, t)) (w₁.withWorld 0 v) :=
    (bind_ok hrun _).trans rfl
  have hfit' : Fits (w₁.withWorld 0 v).dict := by
    show Fits v.dict
    rwa [hv]
  refine ⟨w₁.withWorld 0 v, v.kripke, t, ?_, at_withWorld_self hk₁, hits₁, hfit', fun others => ?_⟩
  · exact .call (c := .initialState 0) h₁ ⟨s, structure?_of_at h₁.custody.inOrder.opened hk₁⟩ trivial
      hcall hfit'
  · obtain ⟨it, v', hserve, hhome, hself, hv'⟩ := hloop others
    exact ⟨it, v', hserve, hhome, hself, hv'.trans hv.symm⟩

/-- The consumer owns a handle of a state, and an iterator loops on it: there are two references. -/
theorem references_conserved_loop : ∃ (w : Workspace Graph) (s : Kripke Graph) (t : Handle),
    w.Reached [(0, t)] ∧ w.structure? 0 = some s ∧ w.loops 0 t = 1 ∧
      s.pool.refCount t = .ok 2 := by
  obtain ⟨w, s, t, h, hk, hits, hfit, hloop⟩ := exists_owned
  obtain ⟨it, v, hserve, hhome, hself, hv⟩ := hloop (othersOf w.iterators 0)
  obtain ⟨w', hw'⟩ : ∃ w', w' = w.withWorld 0 v := ⟨_, rfl⟩
  have hits' : w'.iterators = [] := by rw [hw']; exact hits
  have hrun : onStructure 0 (Kripke.successors (othersOf w.iterators 0) t) w = .ok it w' := by
    rw [onStructure_eq h.custody.inOrder.opened, hw']
    exact onPlaced_ok hk hserve
  have hcall : (Call.iterate 0 t "loop").run w =
      .ok none { w' with iterators := [("loop", it)] } := by
    have hiterate : Workspace.iterate 0 t "loop" w =
        .ok () { w' with iterators := [("loop", it)] } := by
      unfold Workspace.iterate
      rw [bind_ok (get_apply _), bind_ok hrun, bind_ok (takeIterator_ok w' "loop"),
        bind_ok (putIterator_ok _ "loop" it), iterator?, hits']
      rfl
    exact (bind_ok hiterate _).trans rfl
  have hroom : (Call.iterate 0 t "loop").HasRoom w [(0, t)] := by
    show List.count (0, t) [(0, t)] + w.loops 0 t < 2 ^ 32 - 1
    unfold loops
    rw [List.count_singleton_self, hits, List.countP_nil]
    decide
  have h' : Reached { w' with iterators := [("loop", it)] } [(0, t)] := by
    refine .call (c := .iterate 0 t "loop") h (List.mem_singleton_self _) hroom hcall ?_
    show Fits w'.dict
    rw [hw']
    show Fits v.dict
    rwa [hv]
  have hs' : structure? { w' with iterators := [("loop", it)] } 0 = some v.kripke := by
    apply structure?_of_at h'.custody.inOrder.opened
    show w'.At 0 v.kripke
    rw [hw']
    exact at_withWorld_self hk
  have hloops : loops { w' with iterators := [("loop", it)] } 0 t = 1 := by
    unfold loops
    simp [hhome, hself]
  obtain ⟨hlive, hcount⟩ := ((references_conserved h').1 0 v.kripke hs').1 t
  rw [hloops, List.count_singleton_self] at hlive hcount
  exact ⟨_, _, t, h', hs', hloops, hcount (hlive.2 (by decide))⟩

/-! ## Too many references -/

/-- The consumer calls what it is permitted to, be there room or not, which leads from one workspace to
another and changes what the consumer owns. -/
inductive Calls : Workspace ε → List Reference → List Call → Workspace ε → List Reference → Prop where
  | nil (w : Workspace ε) (owned : List Reference) : Calls w owned [] w owned
  | cons {w w₁ w' : Workspace ε} {owned owned' : List Reference} {c : Call} {cs : List Call}
      {gained : Option Reference} (hc : c.Permitted w owned) (hrun : c.run w = .ok gained w₁)
      (h : Calls w₁ (c.owned gained owned) cs w' owned') : Calls w owned (c :: cs) w' owned'

omit [LawfulEngine ε] in
/-- A handle can be cloned as often as one likes, and its slot counts the clones as far as it can. -/
theorem exists_clones {o : Shared} {j : Nat} (n : Nat) (hw : w.closed = []) (hk : w.At k s)
    (hp : s.pool.Sound) (hs : s.pool.slot? t = some (.ofShared o j)) (hmem : (k, t) ∈ owned) :
    ∃ w' s', Calls w owned (.replicate n (.clone k t)) w' (.replicate n (k, t) ++ owned) ∧
      w'.closed = [] ∧ w'.iterators = w.iterators ∧ w'.At k s' ∧ s'.pool.Sound ∧
      s'.pool.slot? t = some (.ofShared o (j + n)) := by
  induction n generalizing w s owned j with
  | zero => exact ⟨w, s, .nil w owned, hw, rfl, hk, hp, hs⟩
  | succ n ih =>
    obtain ⟨t', p, hclone, rfl, hu⟩ := Pool.clone_spec hp hs
    have hrun : (Call.clone k t').run w =
        .ok (some (k, t')) (w.withWorld k ⟨w.dict, { s with pool := p }⟩) := by
      refine (bind_ok ?_ _).trans rfl
      rw [onStructure_eq hw]
      exact onPlaced_ok hk (onPool_ok (w := ⟨w.dict, s⟩) hclone)
    have hk₁ : (w.withWorld k ⟨w.dict, { s with pool := p }⟩).At k { s with pool := p } :=
      at_withWorld_self hk
    have hmem₁ : (k, t') ∈ (k, t') :: owned := List.mem_cons_self
    obtain ⟨w', s', hcalls, hw', hits', hk', hp', hs'⟩ := ih (by exact hw) hk₁ hu.sound hu.self hmem₁
    refine ⟨w', s', ?_, hw', hits', hk', hp', ?_⟩
    · rw [List.replicate_succ' (a := (k, t')), List.append_assoc]
      exact .cons hmem hrun hcalls
    · rwa [Nat.add_assoc, Nat.add_comm 1] at hs'

/-- With `2 ^ 32` references to a state, its slot counts none, and none of them can be given back. And
the slot of a state without references has no number of them. -/
theorem references_uncounted : ∃ (w : Workspace Graph) (t : Handle), w.Reached [(0, t)] ∧
    (∃ w' s', Calls w [(0, t)] (.replicate (2 ^ 32 - 1) (.clone 0 t)) w' (.replicate (2 ^ 32) (0, t)) ∧
      w'.structure? 0 = some s' ∧ s'.pool.isLive t = true ∧ s'.pool.refCount t = .ok 0 ∧
      (Call.release 0 t).run w' = .error (.overReleased t.slot) w') ∧
    ∃ w' s', (Call.release 0 t).run w = .ok none w' ∧ w'.structure? 0 = some s' ∧
      w'.iterators = [] ∧ s'.pool.refCount t = .error (.vacant t.slot) := by
  obtain ⟨w, s, t, h, hk, hits, -, -⟩ := exists_owned
  have hopened := h.custody.inOrder.opened
  obtain ⟨hsound, hbalanced⟩ := h.custody.inOrder.world 0 s hk
  have hrefs : s.pool.refs t = 1 := by
    rw [hbalanced.refs, show s.pool.id = 0 from h.custody.inOrder.id 0 s hk, hits]
    exact List.count_singleton_self
  obtain ⟨o, k, -, hslot, hk₁⟩ := hsound.pool.slot_of_refs (by rw [hrefs]; exact Nat.one_pos)
  obtain rfl : k = 0 := Nat.succ.inj (hk₁.symm.trans hrefs)
  refine ⟨w, t, h, ?_, ?_⟩
  · obtain ⟨w', s', hcalls, hopened', hits', hk', hp', hs'⟩ :=
      exists_clones (2 ^ 32 - 1) hopened hk hsound.pool hslot (List.mem_singleton_self (0, t))
    have hover : s'.pool.slot? t = some (.ofShared o 0) := hs'
    refine ⟨w', s', ?_, structure?_of_at hopened' hk', Pool.Has.isLive ⟨0, hover⟩,
      Pool.refCount_eq hover (by decide), ?_⟩
    · rw [← List.replicate_succ'] at hcalls
      exact hcalls
    · refine bind_error ?_ _
      rw [onStructure_eq hopened']
      refine (onPlaced_error hk' (onPool_error (w := ⟨w'.dict, s'⟩) (Pool.release_over hover))).trans ?_
      rw [withWorld_self hk']
  · obtain ⟨last, p, hrelease, -, hu⟩ := Pool.release_spec (k := 0) hsound.pool hslot (by decide)
    refine ⟨w.withWorld 0 ⟨w.dict, { s with pool := p }⟩, { s with pool := p }, ?_,
      structure?_of_at hopened (at_withWorld_self hk), hits, ?_⟩
    · refine (bind_ok (a := last) ?_ _).trans rfl
      rw [onStructure_eq hopened]
      exact onPlaced_ok hk (onPool_ok (w := ⟨w.dict, s⟩) hrelease)
    · have hvacant : p.slot? t = none := hu.self
      have hpos : t.slot ≠ 0 := Nat.ne_of_gt (Table.pos_of_value? hslot)
      rw [Pool.refCount_vacant hvacant, Pool.unoccupied, if_neg hpos]

end Workspace

end StateSpace
