import StateSpace.Proofs.Exploration.Tracks

/-!
# Visits

A visit follows the edges to all successors of a state, or its loop, and gives back what it took: the
handles that it was given, the iterator, and the queue's reference to the state. It finds what a visit
of the survey finds.
-/

namespace StateSpace.Search

open StateSpace.Action World Manager

variable {ε κ : Type} [Engine ε] [LawfulEngine ε] [PausingEngine ε] [ChartedEngine ε κ]
  {w₀ : World ε} {x x' : Search ε} {base : Handle → Option Slot}
  {es : List (Handle × κ)} {refs : Nat → Nat} {sv : Survey κ}
  {v i k : Nat} {b c : κ} {d s : Handle} {home : Nat} {cond : Edge}
  {items rest : List (Shared × Transition)} {limit : Option Nat}

/-! ## What a visit does to a search -/

/-- The search went on, with more entries than before, to track another survey. -/
structure Advanced (w₀ : World ε) (base : Handle → Option Slot) (x : Search ε)
    (es : List (Handle × κ)) (x' : Search ε) (refs : Nat → Nat) (sv : Survey κ) (v : Nat) :
    Prop where
  extend : Manager.Extends x.world.dict.diagram x'.world.dict.diagram
  tracks : ∃ es', es <+: es' ∧ Tracks w₀ base x' es' refs sv v

/-- The edge is in order, and true where edges of the state are allowed. -/
def Guards (w₀ w : World ε) (c : κ) (cond : Edge) : Prop :=
  w.dict.diagram.Decides cond (w₀.kripke.profile.Allows w₀.dict.registry w₀.chart c)

/-- A guard has a text, the same one at any time. -/
theorem Within.exists_text {w : World ε} (h : Within w₀ w) (hcond : Guards w₀ w c cond) :
    ∃ t, w.dict.formatCondition cond = .ok t ∧ w₀.dict.registry.Writes
      (w₀.kripke.profile.Allows w₀.dict.registry w₀.chart c) t := by
  obtain ⟨t, ht, hwrites⟩ := h.sound.dict.exists_writes hcond
  exact ⟨t, ht, h.registry ▸ hwrites⟩

/-- An edge is recorded. -/
theorem Tracks.edge (h : Tracks w₀ base x es refs sv v) (hi : es[i]? = some (s, c)) {text : String}
    (hwrites : w₀.dict.registry.Writes
      (w₀.kripke.profile.Allows w₀.dict.registry w₀.chart c) text) (target : Nat) :
    Tracks w₀ base { x with found := { x.found with
        edges := x.found.edges.push { source := i, target, condition := text } } } es refs
      { sv with edges := sv.edges ++ [(i, target)] } v := by
  have hc : sv.states[i]? = some c := by
    rw [h.states, List.getElem?_map, hi]
    rfl
  exact h.withFound rfl h.visited (h.found.edge hc hwrites target)

/-! ## Successors of entries -/

/-- The successors of a state in an exploration: itself, if it has none and there are loops. -/
def next (w₀ : World ε) : κ → List κ :=
  withLoops (decide (w₀.kripke.profile.policy ≠ .ignore)) w₀.chart.targets

/-- What the engine answers about an entry. -/
theorem outgoing_of_within {w : World ε} {o : Shared} {inUse : InUse} {g : ε}
    (h : Within w₀ w) (hs : w.kripke.pool.Has s o) (ho : o.state = w₀.chart.state c)
    (hout : Engine.outgoing inUse o.state w.kripke.engine = .ok items g) :
    items.map (·.1.state) = (w₀.chart.targets c).map w₀.chart.state ∧
      ChartedEngine.chart g = w.chart := by
  have hproper := h.sound.proper s o hs
  rw [ho, ← h.chart] at hproper hout
  obtain ⟨items', g', hout', hchart, hitems⟩ :=
    ChartedEngine.outgoing inUse h.sound.good hproper
  cases hout.symm.trans hout'
  rw [← h.chart]
  exact ⟨hitems, hchart⟩

/-- A request for successors changes nothing that a search relies on. -/
theorem Within.served {w w₁ : World ε} {o : Shared} {inUse : InUse} {g : ε} {it : Iterator}
    (h : Within w₀ w) (hout : Engine.outgoing inUse o.state w.kripke.engine = .ok items g)
    (hnet : Engine.network g = Engine.network w.kripke.engine)
    (hchart : ChartedEngine.chart g = w.chart) (hs : Kripke.Served w s o items g it w₁) :
    Within w₀ w₁ := by
  have hk := hs.kripke
  have hpaused := PausingEngine.outgoing inUse o.state _ w.kripke.engine rfl
  rw [after_ok hout] at hpaused
  refine ⟨⟨hs.sound, ?_, ?_⟩, ?_, ?_, hs.registry.trans h.registry, ?_⟩
  · rw [hk]
    exact hnet.trans h.network
  · rw [hk]
    exact h.profile
  · show ChartedEngine.chart w₁.kripke.engine = _
    rw [hk]
    exact hchart.trans h.chart
  · rw [hk]
    exact hpaused.trans h.paused
  · rw [hk]
    exact h.sessions

/-- The condition that is served guards the edges, unless there are none. -/
theorem Within.guards {w w₁ : World ε} {o : Shared} {g : ε} {it : Iterator}
    (h : Within w₀ w) (hs : Kripke.Served w s o items g it w₁) (ho : o.state = w₀.chart.state c)
    (hempty : items.isEmpty = (w₀.chart.targets c).isEmpty)
    (hpolicy : items = [] → w₀.kripke.profile.policy ≠ .ignore) : Guards w₀ w₁ c it.cond := by
  refine ⟨⟨hs.stored, hs.ordered⟩, fun a => ?_⟩
  rw [hs.cond (h.profile ▸ hpolicy) a, ho, h.profile, h.registry, hempty]
  rfl

/-- The state that is visited next is marked as dead or not. -/
theorem Tracks.mark (h : Tracks w₀ base x es refs sv v) (hi : es[v]? = some (s, c)) {dead : Bool}
    (hdead : dead = (w₀.chart.targets c).isEmpty) :
    Tracks w₀ base { x with found := { x.found with
      states := x.found.states.modify v fun st => { st with dead } } } es refs sv (v + 1) := by
  have hc : sv.states[v]? = some c := by
    rw [h.states, List.getElem?_map, hi]
    rfl
  subst hdead
  exact h.withFound rfl (List.getElem?_eq_some_iff.1 hi).1 (h.found.mark hc)

/-! ## References to entries -/

/-- The references to entries: one to recognise the state by and, until its visit, one of the
queue's. -/
def queueRefs (v i : Nat) : Nat := if i < v then 1 else 2

theorem queueRefs_of_le {v i : Nat} (h : v ≤ i) : queueRefs v i = 2 := if_neg (Nat.not_lt.2 h)

/-- The iterator is given back, with the reference of its loop if it has one. -/
theorem giveBack_tracks {it : Iterator} {p : Pool} {refs' : Nat → Nat}
    (h : Tracks w₀ base x es refs sv v) (hclose : it.close x.world.kripke.pool = .ok () p)
    (hl : Ledger w₀.chart p base es refs') : ∃ x', onWorld (Kripke.giveBack it) x = .ok () x' ∧
      x'.world.dict = x.world.dict ∧ Tracks w₀ base x' es refs' sv v := by
  obtain ⟨r, hrun, -⟩ := Kripke.giveBack_ok hclose
  have hkept := Move.kept_giveBack h.within.sound hrun
  exact ⟨_, onWorld_ok hrun, rfl, h.withWorld ⟨⟨hkept.sound, h.within.network, h.within.profile⟩,
    h.within.chart, h.within.paused, h.within.registry, h.within.sessions⟩ hl⟩

/-- The queue's reference is given back. -/
theorem release_queued (h : Tracks w₀ base x es (queueRefs v) sv (v + 1))
    (hi : es[v]? = some (s, c)) : ∃ x',
      (do let _ ← onWorld (onPool (Pool.release s))) x = .ok () x' ∧
      x'.world.dict = x.world.dict ∧ Tracks w₀ base x' es (queueRefs (v + 1)) sv (v + 1) := by
  obtain ⟨x', hrel, hdict, h'⟩ := release_entry h hi (queueRefs_of_le (Nat.le_refl v)) (by decide)
  refine ⟨x', (bind_ok hrel _).trans rfl, hdict, h'.congr fun i _ => ?_⟩
  unfold queueRefs
  by_cases hiv : i = v
  · rw [hiv, Function.update_self, if_pos (Nat.lt_succ_self v)]
  · rw [Function.update_of_ne hiv]
    simp only [show i < v + 1 ↔ i < v by omega]

/-- The queue holds the handles of the entries. -/
theorem Tracks.queue_getElem? (h : Tracks w₀ base x es refs sv k) (v : Nat) :
    x.queue[v]? = (es[v]?).map Prod.fst := by
  rw [← Array.getElem?_toList, h.catalogue.queue, List.getElem?_map]

/-- The survey found the states of the entries. -/
theorem Tracks.states_getElem? (h : Tracks w₀ base x es refs sv k) (v : Nat) :
    sv.states[v]? = (es[v]?).map Prod.snd := by
  rw [h.states, List.getElem?_map]

/-- Visits end where there are no more entries. -/
theorem Tracks.finished (h : Tracks w₀ base x es (queueRefs v) sv v) (hi : es[v]? = none) :
    EnsuresFit (pure () : Action (Search ε) Unit) x fun _ x' =>
      Manager.Extends x.world.dict.diagram x'.world.dict.diagram ∧ ∃ es', es <+: es' ∧
        Tracks w₀ base x' es' (queueRefs es'.length) sv es'.length := by
  have hv : v = es.length := Nat.le_antisymm h.visited (List.getElem?_eq_none_iff.1 hi)
  exact EnsuresFit.pure ⟨.refl _, es, List.prefix_rfl, hv ▸ h⟩

/-! ## Following edges -/

variable [DecidableEq κ]

/-- The edge to a fresh destination is followed as the survey follows it. -/
theorem followEdge_ofItems (h : Tracks w₀ base x es refs sv v) {y : Shared × Transition}
    (hy : y.1.state = w₀.chart.state c)
    (hproper : LawfulEngine.Proper ε (Engine.network w₀.kripke.engine) (w₀.chart.state c))
    (hi : es[i]? = some (s, b)) (hcond : Guards w₀ x.world b cond) (hr : refs es.length = 2)
    (limit : Option Nat) (home : Nat) (items rest : List (Shared × Transition)) :
    EnsuresFit (followEdge limit i (Iterator.ofItems home items (y :: rest) cond)) x
      fun _ x' => Advanced w₀ base x es x' refs (sv.follow limit i c) v := by
  obtain ⟨d, p, hdest, hvacant, hupd⟩ := Iterator.destination_ofItems h.ledger.sound y
  have hd := h.ledger.not_mem hvacant
  rw [← hy, ← h.within.network] at hproper
  have hbase : base d = none := (h.ledger.frame d hd).symm.trans hvacant
  have hself : Function.update base d (some (.ofShared y.1 1)) d = some (.ofShared y.1 1) :=
    Function.update_self ..
  have hframe : ∀ t, t ≠ d → Function.update base d (some (.ofShared y.1 1)) t = base t :=
    fun t ht => Function.update_of_ne ht ..
  have h₁ := h.withPool (h.within.sound.withShared hproper hupd)
    (h.ledger.other hd (fun t ht => (hframe t ht).symm) (hself.symm ▸ hupd))
  obtain ⟨text, htext, hwrites⟩ := h.within.exists_text hcond
  unfold followEdge
  refine .of_ok (onWorld_ok (onPool_ok hdest)) (.of_ok (reading_ok htext) ?_)
  refine (place_spec limit h₁ hupd.self hd hframe hbase hy hr).bind (fun r => ?_)
    fun r x' ⟨hplace, hx, es', hpre, h'⟩ => ?_
  · cases r with
    | some j => exact fun _ => Nat.le_refl _
    | none => exact grows_pure _
  · unfold Survey.follow
    generalize sv.enter limit c = e at hplace h' ⊢
    obtain ⟨r', sv'⟩ := e
    obtain rfl : r = r' := hplace
    cases r with
    | some j =>
      exact Ensures.fit ⟨(), _, rfl, hx, es', hpre, h'.edge (getElem?_extend hpre hi) hwrites j⟩
    | none => exact EnsuresFit.pure ⟨hx, es', hpre, h'⟩

/-- All edges from the current one on are followed. -/
theorem followEdges_ofItems {fuel : Nat} {y : Shared × Transition} {cs : List κ}
    (h : Tracks w₀ base x es refs sv v)
    (hcs : (y :: rest).map (·.1.state) = cs.map w₀.chart.state)
    (hproper : ∀ c ∈ cs, LawfulEngine.Proper ε (Engine.network w₀.kripke.engine) (w₀.chart.state c))
    (hi : es[i]? = some (s, b)) (hcond : Guards w₀ x.world b cond) (hr : ∀ j, es.length ≤ j → refs j = 2)
    (hf : rest.length < fuel) (limit : Option Nat) :
    EnsuresFit (followEdges limit i fuel (Iterator.ofItems home items (y :: rest) cond)) x
      fun _ x' => Advanced w₀ base x es x' refs (cs.foldl (Survey.follow limit i) sv) v := by
  induction fuel generalizing x es sv y rest cs with
  | zero => exact absurd hf (Nat.not_lt_zero _)
  | succ fuel ih =>
    obtain ⟨c, cs, rfl⟩ : ∃ c cs', cs = c :: cs' := by
      cases cs with
      | nil => cases hcs
      | cons c cs => exact ⟨c, cs, rfl⟩
    rw [List.map_cons, List.map_cons, List.cons.injEq] at hcs
    have hedge := followEdge_ofItems h hcs.1 (hproper c List.mem_cons_self) hi hcond
      (hr _ (Nat.le_refl _)) limit home items rest
    unfold followEdges
    refine hedge.bind (fun _ => ?_) fun _ x₁ ⟨hx₁, es₁, hpre₁, h₁⟩ => ?_
    · rw [Iterator.next_ofItems]
      dsimp only
      split
      · exact grows_of_keeps fun hI => keeps_followEdges hI _ _ _ _
      · exact grows_pure _
    · rw [Iterator.next_ofItems]
      cases rest with
      | nil =>
        obtain rfl : cs = [] := List.map_eq_nil_iff.1 hcs.2.symm
        exact EnsuresFit.pure ⟨hx₁, es₁, hpre₁, h₁⟩
      | cons z rest =>
        have hcond₁ := Decides.extends hcond h.within.sound.dict.diagram.toShaped
          h₁.within.sound.dict.diagram.toShaped hx₁
        refine (ih h₁ hcs.2 (fun c' hc' => hproper c' (List.mem_cons_of_mem _ hc'))
          (getElem?_extend hpre₁ hi) hcond₁
          (fun j hj => hr j (Nat.le_trans hpre₁.length_le hj)) (Nat.lt_of_succ_lt_succ hf)).mono
            fun _ x' ⟨hx', es', hpre', h'⟩ => ⟨hx₁.trans hx', es', hpre₁.trans hpre', h'⟩

/-- A loop is followed from the state to itself. -/
theorem followEdges_loop (h : Tracks w₀ base x es refs sv v) (hi : es[i]? = some (s, c))
    (hcond : Guards w₀ x.world c cond) (hr : refs i = k + 1) (hroom : k + 2 < 2 ^ 32)
    (limit : Option Nat) (home : Nat) (cursor : Cursor) (fuel : Nat) : ∃ x',
      followEdges limit i (fuel + 1) (.fresh home cursor cond (some s)) x = .ok () x' ∧
      x'.world.dict = x.world.dict ∧ Tracks w₀ base x' es refs (sv.follow limit i c) v := by
  obtain ⟨o, ho, hslot⟩ := h.ledger.slot i _ hi
  rw [hr] at hslot
  have hhas : x.world.kripke.pool.Has s o := ⟨k + 1, hslot⟩
  obtain ⟨d, p, hclone, rfl, hupd⟩ := Pool.clone_spec h.ledger.sound hslot
  have h₁ := h.withPool (h.within.sound.withShared (h.within.sound.proper d o hhas) hupd)
    (h.ledger.count hi (hr ▸ hslot) hupd)
  obtain ⟨text, htext, hwrites⟩ := h.within.exists_text hcond
  obtain ⟨x₂, hplace, hdict, h₂⟩ := place_entry limit h₁ hi (Function.update_self ..) hroom
  have hfollow : sv.follow limit i c = { sv with edges := sv.edges ++ [(i, i)] } := by
    obtain ⟨hmem, hidx⟩ := h.idxOf_eq hi
    unfold Survey.follow Survey.enter
    rw [if_pos hmem, hidx]
  have hdest : (Iterator.fresh home cursor cond (some d)).destination x.world.kripke.pool =
      .ok d p := hclone
  have hedge : followEdge limit i (.fresh home cursor cond (some d)) x = .ok ()
      { x₂ with found := { x₂.found with
          edges := x₂.found.edges.push { source := i, target := i, condition := text } } } := by
    refine (bind_ok (onWorld_ok (onPool_ok hdest)) _).trans ?_
    refine (bind_ok (a := text) (reading_ok ?_) _).trans ?_
    · exact htext
    · exact (bind_ok hplace _).trans rfl
  refine ⟨_, (bind_ok hedge _).trans rfl, hdict, ?_⟩
  rw [hfollow]
  refine (h₂.edge hi hwrites i).congr fun j _ => ?_
  by_cases hj : j = i
  · subst hj
    rw [Function.update_self, hr]
  · rw [Function.update_of_ne hj, Function.update_of_ne hj]

/-! ## Whole visits -/

/-- The edges of an iterator over successors are followed and what the visit took is given back. -/
theorem leave_ofItems (home : Nat) {cs : List κ}
    (h : Tracks w₀ base x es (queueRefs v) sv (v + 1)) (hi : es[v]? = some (s, c))
    (hcs : items.map (·.1.state) = cs.map w₀.chart.state)
    (hproper : ∀ c ∈ cs,
      LawfulEngine.Proper ε (Engine.network w₀.kripke.engine) (w₀.chart.state c))
    (hcond : items ≠ [] → Guards w₀ x.world c cond) (limit : Option Nat) :
    EnsuresFit (do
      followAll limit v (!items.isEmpty) (Iterator.ofItems home items items cond)
      onWorld (Kripke.giveBack (Iterator.ofItems home items items cond))
      let _ ← onWorld (onPool (Pool.release s))) x fun _ x' =>
        Advanced w₀ base x es x' (queueRefs (v + 1)) (cs.foldl (Survey.follow limit v) sv)
          (v + 1) := by
  have hall : EnsuresFit (followAll limit v (!items.isEmpty) (Iterator.ofItems home items items cond))
      x fun _ x' => Advanced w₀ base x es x' (queueRefs v)
        (cs.foldl (Survey.follow limit v) sv) (v + 1) := by
    unfold followAll
    cases items with
    | nil =>
      obtain rfl : cs = [] := List.map_eq_nil_iff.1 hcs.symm
      exact EnsuresFit.pure ⟨.refl _, es, List.prefix_rfl, h⟩
    | cons y rest =>
      refine EnsuresFit.tryCatch ?_ fun e => grows_of_keeps fun hI =>
        keeps_bind (keeps_onWorld (hI.pool (Iterator.orderly_close _))) fun _ => keeps_throw e
      refine followEdges_ofItems h hcs hproper hi (hcond (List.cons_ne_nil y rest))
        (fun j hj => queueRefs_of_le ?_) ?_ limit
      · have := h.visited
        omega
      · show rest.length < (y :: rest).length + 1
        rw [List.length_cons]
        omega
  refine hall.bind (fun _ => grows_of_keeps fun hI => ?_) fun _ x₁ ⟨hx₁, es', hpre, h₁⟩ => ?_
  · refine keeps_bind (keeps_onWorld (Kripke.keeps_giveBack hI _)) fun _ => ?_
    exact keeps_bind (keeps_onWorld (hI.pool (Pool.orderly_release _))) fun _ => keeps_pure _
  · obtain ⟨x₂, hgive, hdict₂, h₂⟩ := giveBack_tracks h₁
      (show (Iterator.ofItems home items items cond).close _ = _ from rfl) h₁.ledger
    obtain ⟨x₃, hrel, hdict₃, h₃⟩ := release_queued h₂ (getElem?_extend hpre hi)
    refine Ensures.fit ⟨(), x₃, (bind_ok hgive _).trans hrel, ?_, es', hpre, h₃⟩
    rw [hdict₃, hdict₂]
    exact hx₁

/-- The loop is followed and what the visit took is given back. -/
theorem leave_loop (home : Nat)
    (h : Tracks w₀ base x es (Function.update (queueRefs v) v 3) sv (v + 1))
    (hi : es[v]? = some (s, c)) (hcond : Guards w₀ x.world c cond) (limit : Option Nat) :
    Ensures (do
      followAll limit v true (.fresh home (.ofList []) cond (some s))
      onWorld (Kripke.giveBack (.fresh home (.ofList []) cond (some s)))
      let _ ← onWorld (onPool (Pool.release s))) x fun _ x' =>
        Advanced w₀ base x es x' (queueRefs (v + 1)) (sv.follow limit v c) (v + 1) := by
  obtain ⟨x₁, hfollow, hdict₁, h₁⟩ := followEdges_loop h hi hcond (Function.update_self ..)
    (by decide) limit home (.ofList []) 0
  have hall : followAll limit v true (.fresh home (.ofList []) cond (some s)) x = .ok () x₁ :=
    tryCatch_ok hfollow _
  obtain ⟨o, ho, hslot⟩ := h₁.ledger.slot v _ hi
  rw [Function.update_self] at hslot
  obtain ⟨last, p, hrel, -, hupd⟩ := Pool.release_spec (k := 2) h₁.ledger.sound hslot (by decide)
  have hclose : (Iterator.fresh home (.ofList []) cond (some s)).close x₁.world.kripke.pool =
      .ok () p := (bind_ok hrel _).trans rfl
  have hcount := h₁.ledger.count hi (by rw [Function.update_self]; exact hslot) hupd
  have hledger : Ledger w₀.chart p base es (queueRefs v) := by
    refine hcount.congr fun i _ => ?_
    by_cases hiv : i = v
    · rw [hiv, Function.update_self, queueRefs_of_le (Nat.le_refl v)]
    · rw [Function.update_of_ne hiv, Function.update_of_ne hiv]
  obtain ⟨x₂, hgive, hdict₂, h₂⟩ := giveBack_tracks h₁ hclose hledger
  obtain ⟨x₃, hrel₃, hdict₃, h₃⟩ := release_queued h₂ hi
  refine ⟨(), x₃, (bind_ok hall _).trans ((bind_ok hgive _).trans hrel₃), ?_, es, List.prefix_rfl,
    h₃⟩
  rw [hdict₃, hdict₂, hdict₁]
  exact .refl _

/-- A visit finds what the survey finds from the state. -/
theorem visit_spec (limit : Option Nat) (h : Tracks w₀ base x es (queueRefs v) sv v)
    (hi : es[v]? = some (s, c)) : EnsuresFit (visit limit v s) x fun _ x' =>
      Advanced w₀ base x es x' (queueRefs (v + 1))
        ((next w₀ c).foldl (Survey.follow limit v) sv) (v + 1) := by
  have hrefs := queueRefs_of_le (Nat.le_refl v)
  obtain ⟨o, ho, hslot⟩ := h.ledger.slot v _ hi
  have hhas : x.world.kripke.pool.Has s o := ⟨2, hslot.trans (by rw [hrefs])⟩
  rw [visit_eq]
  refine (onWorld_spec (Kripke.successors_spec h.within.sound hhas noOthers)).bind
    (fun it => grows_of_keeps fun hI => ?_)
    fun it x₁ ⟨⟨items, g, hout, hnet, hproper, hserved⟩, hx₁⟩ => ?_
  · refine keeps_bind (keeps_updateFound _) fun _ => keeps_bind (keeps_followAll hI _ _ _ _) fun _ => ?_
    refine keeps_bind (keeps_onWorld (Kripke.keeps_giveBack hI _)) fun _ => ?_
    exact keeps_bind (keeps_onWorld (hI.pool (Pool.orderly_release _))) fun _ => keeps_pure _
  obtain ⟨hitems, hchart⟩ := outgoing_of_within h.within hhas ho hout
  have hempty : items.isEmpty = (w₀.chart.targets c).isEmpty := by
    rw [← List.isEmpty_map, hitems, List.isEmpty_map]
  have hwithin := h.within.served hout hnet hchart hserved
  obtain ⟨w₁, known, held, queue, found⟩ := x₁
  cases hx₁
  have hit := hserved.iterator
  have hcond := h.within.guards hserved ho hempty
  have hpool := hserved.pool
  have hextend := hserved.extend
  rw [h.within.profile] at hit hpool
  clear hserved
  generalize it.cond = cond at hit hcond
  subst hit
  have hnext : (decide (w₀.kripke.profile.policy ≠ .ignore) && items.isEmpty) =
      w₀.kripke.profile.loops items := Bool.and_comm ..
  unfold next withLoops
  rw [← hempty, hnext]
  cases hl : w₀.kripke.profile.loops items with
  | true =>
    obtain rfl : items = [] := List.isEmpty_iff.1 (Bool.and_eq_true_iff.1 hl).1
    rw [hl, if_pos rfl] at hpool
    rw [if_pos rfl, if_pos rfl]
    have h₁ := h.withWorld hwithin (h.ledger.count hi hslot (hpool _ hslot))
    rw [hrefs] at h₁
    refine Ensures.fit (.of_ok (updateFound_ok _ _) ?_)
    have hpolicy : w₀.kripke.profile.policy ≠ .ignore :=
      of_decide_eq_true (Bool.and_eq_true_iff.1 hl).2
    exact (leave_loop _ (h₁.mark hi hempty) hi (hcond fun _ => hpolicy) limit).mono
      fun _ x' ⟨hx, es', hpre, h'⟩ => ⟨hextend.trans hx, es', hpre, h'⟩
  | false =>
    rw [hl, if_neg Bool.false_ne_true] at hpool
    rw [if_neg Bool.false_ne_true, if_neg Bool.false_ne_true]
    have h₁ := h.withWorld hwithin (hpool ▸ h.ledger)
    have htargets : ∀ c' ∈ w₀.chart.targets c,
        LawfulEngine.Proper ε (Engine.network w₀.kripke.engine) (w₀.chart.state c') := by
      intro c' hc'
      obtain ⟨y, hy, hyc⟩ := List.mem_map.1 (hitems ▸ List.mem_map_of_mem hc')
      rw [← hyc, ← h.within.network]
      exact hproper y hy
    have hdead : (false || !!items.isEmpty) = (w₀.chart.targets c).isEmpty := by
      rw [Bool.false_or, Bool.not_not, hempty]
    have hleave := leave_ofItems x.world.kripke.pool.id (h₁.mark hi hdead) hi hitems htargets
      (fun hne => hcond fun hnil => absurd hnil hne) limit
    refine .of_ok (updateFound_ok _ _) ?_
    exact hleave.mono fun _ x' ⟨hx, es', hpre, h'⟩ => ⟨hextend.trans hx, es', hpre, h'⟩

/-- Visits find what the visits of the survey find, to the end of the queue, if the fuel is enough for
the states of the survey. -/
theorem visitFrom_spec (limit : Option Nat) (fuel : Nat) (h : Tracks w₀ base x es (queueRefs v) sv v)
    (hfuel : (Survey.visitFrom limit (next w₀) fuel v sv).states.length ≤ v + fuel) :
    EnsuresFit (visitFrom limit fuel v) x fun _ x' =>
      Manager.Extends x.world.dict.diagram x'.world.dict.diagram ∧ ∃ es', es <+: es' ∧
        Tracks w₀ base x' es' (queueRefs es'.length) (Survey.visitFrom limit (next w₀) fuel v sv)
          es'.length := by
  induction fuel generalizing x es sv v with
  | zero =>
    have hi : es[v]? = none := List.getElem?_eq_none_iff.2 (h.length ▸ hfuel)
    unfold visitFrom Survey.visitFrom
    refine .of_ok (get_apply _) ?_
    rw [h.queue_getElem?, hi]
    exact h.finished hi
  | succ fuel ih =>
    unfold visitFrom Survey.visitFrom
    unfold Survey.visitFrom at hfuel
    refine .of_ok (get_apply _) ?_
    rw [h.queue_getElem?]
    rw [h.states_getElem?] at hfuel ⊢
    cases hi : es[v]? with
    | none => exact h.finished hi
    | some y =>
      obtain ⟨s, c⟩ := y
      rw [hi] at hfuel
      refine (visit_spec limit h hi).bind (fun _ => grows_of_keeps fun hI =>
        keeps_visitFrom hI _ _ _) fun _ x₁ hvisit => ?_
      obtain ⟨hx₁, es₁, hpre₁, h₁⟩ := hvisit
      refine (ih h₁ (Nat.le_trans hfuel (by omega))).mono fun _ x' hrest => ?_
      obtain ⟨hx', es', hpre, h'⟩ := hrest
      exact ⟨hx₁.trans hx', es', hpre₁.trans hpre, h'⟩

end StateSpace.Search
